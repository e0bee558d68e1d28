import Mathlib.Data.List.Basic
import Mathlib.Logic.Function.Basic
import Spp.Vf.Types

/-!
# The operations of a port on its packets

The part of `spp_port.c` that a worker runs: a VLAN tag is added to or deleted
from every packet of a burst, the abilities of a port are applied one after the
other, and what is left of the burst is given to the device. A packet is one
buffer with the place of its data; the memory maps each reference to its buffer.
-/

namespace Spp.Vf

section Packet

/-- `rte_cpu_to_be_16` on a little-endian machine. -/
def rteCpuToBe16 (value : ℕ) : ℕ := value % 256 * 256 + value / 256 % 256

/-- `g_vlan_tpid`. -/
def gVlanTpid : ℕ := rteCpuToBe16 0x8100

/-- The first segment of a packet: `buf_addr`, `data_off` and `data_len` of
`struct rte_mbuf`. -/
structure Mbuf where
  buf : ℕ → UInt8
  dataOff : ℕ
  dataLen : ℕ

/-- A byte of the data, counted from its start. -/
def Mbuf.byte (m : Mbuf) (offset : ℕ) : UInt8 := m.buf (m.dataOff + offset)

/-- A load of a `uint16_t`. -/
def Mbuf.load16 (m : Mbuf) (offset : ℕ) : ℕ :=
  (m.byte offset).toNat + 256 * (m.byte (offset + 1)).toNat

/-- Bytes are stored from an offset of the data on. -/
def Mbuf.store (m : Mbuf) (offset : ℕ) (bytes : List UInt8) : Mbuf :=
  { m with buf := fun k =>
      if m.dataOff + offset ≤ k then bytes.getD (k - (m.dataOff + offset)) (m.buf k)
      else m.buf k }

/-- A store of a `uint16_t`. -/
def Mbuf.store16 (m : Mbuf) (offset value : ℕ) : Mbuf :=
  m.store offset [UInt8.ofNat value, UInt8.ofNat (value / 256)]

/-- The data from an offset on. -/
def Mbuf.load (m : Mbuf) (offset len : ℕ) : List UInt8 :=
  (List.range len).map fun k => m.byte (offset + k)

/-- `rte_pktmbuf_prepend` of DPDK; it fails if the headroom is too short. -/
def rtePktmbufPrepend (m : Mbuf) (len : ℕ) : Option Mbuf :=
  if len ≤ m.dataOff then some { m with dataOff := m.dataOff - len, dataLen := m.dataLen + len }
  else none

/-- `rte_pktmbuf_adj` of DPDK; it fails if the data is too short. -/
def rtePktmbufAdj (m : Mbuf) (len : ℕ) : Option Mbuf :=
  if len ≤ m.dataLen then some { m with dataOff := m.dataOff + len, dataLen := m.dataLen - len }
  else none

variable (crc : List UInt8 → ℕ)

/-- `set_fcs_packet`, with the checksum of `rte_net_crc_calc` as a parameter. -/
def setFcsPacket (pkt : Mbuf) : Mbuf :=
  let fcs := crc (pkt.load 0 pkt.dataLen)
  (pkt.store16 pkt.dataLen fcs).store16 (pkt.dataLen + 2) (fcs / 2 ^ 16)

/-- `add_vlantag_packet`. The ethertype of a header is at offset 12, a tag
follows the header. -/
def addVlantagPacket (data : VlantagInfo) (pkt : Mbuf) : Option Mbuf :=
  let tci := (data.tci % 2 ^ 16).toNat
  if pkt.load16 12 = gVlanTpid then some (setFcsPacket crc (pkt.store16 14 tci))
  else
    match rtePktmbufPrepend pkt 4 with
    | none => none
    | some m =>
      let new := m.store 0 (pkt.load 0 14)
      let new := (new.store16 16 (new.load16 12)).store16 12 gVlanTpid
      some (setFcsPacket crc (new.store16 14 tci))

/-- `del_vlantag_packet`. The addresses move by four bytes, and the four bytes
before them are cleared. -/
def delVlantagPacket (pkt : Mbuf) : Option Mbuf :=
  if pkt.load16 12 = gVlanTpid then
    match rtePktmbufAdj pkt 4 with
    | none => none
    | some new =>
      let moved := (pkt.store 4 (pkt.load 0 12)).store 0 [0, 0, 0, 0]
      some (setFcsPacket crc { new with buf := moved.buf })
  else some pkt

end Packet

section Burst

variable {ρ : Type} [DecidableEq ρ]

/-- The loop of the functions on all packets: the packets before the first one
that fails are counted. -/
def allPackets (operate : Mbuf → Option Mbuf) : List ρ → (ρ → Mbuf) → ℕ × (ρ → Mbuf)
  | [], mem => (0, mem)
  | pkt :: pkts, mem =>
    match operate (mem pkt) with
    | none => (0, mem)
    | some m =>
      let rest := allPackets operate pkts (Function.update mem pkt m)
      (rest.1 + 1, rest.2)

variable (crc : List UInt8 → ℕ)

/-- `add_vlantag_all_packets`. -/
def addVlantagAllPackets (data : VlantagInfo) (pkts : List ρ) (mem : ρ → Mbuf) : ℕ × (ρ → Mbuf) :=
  allPackets (addVlantagPacket crc data) pkts mem

/-- `del_vlantag_all_packets`. -/
def delVlantagAllPackets (pkts : List ρ) (mem : ρ → Mbuf) : ℕ × (ρ → Mbuf) :=
  allPackets (delVlantagPacket crc) pkts mem

/-- The loop of `port_ability_each_operation`: each ability is applied to the
packets that the ones before it have counted. All get the data of the first. -/
def eachOperation (data : VlantagInfo) : List PortAbility → List ρ → (ρ → Mbuf) → ℕ × (ρ → Mbuf)
  | [], pkts, mem => (pkts.length, mem)
  | info :: infos, pkts, mem =>
    match info.ope with
    | .none => (pkts.length, mem)
    | .addVlantag =>
      let ok := addVlantagAllPackets crc data pkts mem
      eachOperation data infos (pkts.take ok.1) ok.2
    | .delVlantag =>
      let ok := delVlantagAllPackets crc pkts mem
      eachOperation data infos (pkts.take ok.1) ok.2

/-- `port_ability_each_operation` for a port with these abilities: the number of
packets that are left, the ones it passes to `rte_pktmbuf_free`, the memory. -/
def portAbilityEachOperation (info : List PortAbility) (pkts : List ρ) (mem : ρ → Mbuf) :
    ℕ × List ρ × (ρ → Mbuf) :=
  match info with
  | [] => (pkts.length, [], mem)
  | first :: _ =>
    if first.ope = .none then (pkts.length, [], mem)
    else
      let ok := eachOperation crc first.vlantag info pkts mem
      (ok.1, pkts.drop ok.1, ok.2)

/-- What became of a burst: the number of packets that is returned, the packets
the device has accepted, and those that were passed to `rte_pktmbuf_free`. -/
structure TxOutcome (ρ : Type) where
  nTx : ℕ
  accepted : List ρ
  freed : List ρ
  deriving DecidableEq

/-- `rte_eth_tx_burst` of DPDK on a device with room for `room` packets. -/
def rteEthTxBurst (room : ℕ) (pkts : List ρ) : TxOutcome ρ :=
  ⟨min room pkts.length, pkts.take room, []⟩

/-- `spp_eth_tx_burst` on a port with these abilities, whose device has room for
`room` packets. -/
def sppEthTxBurst (info : List PortAbility) (room : ℕ) (pkts : List ρ) (mem : ρ → Mbuf) :
    TxOutcome ρ × (ρ → Mbuf) :=
  let each := portAbilityEachOperation crc info pkts mem
  if each.1 = 0 then (⟨0, [], each.2.1⟩, each.2.2)
  else ({ rteEthTxBurst room (pkts.take each.1) with freed := each.2.1 }, each.2.2)

end Burst

section Succeed

variable {ρ : Type} [DecidableEq ρ] (crc : List UInt8 → ℕ)

/-- One operation on every packet of a burst, if it fails on none. -/
def operateAll (operate : Mbuf → Option Mbuf) (pkts : List ρ) (mem : ρ → Mbuf) :
    Option (ρ → Mbuf) :=
  pkts.foldlM (fun mem pkt => (operate (mem pkt)).map (Function.update mem pkt)) mem

/-- The operations of a list of abilities. -/
def abilityOps (data : VlantagInfo) : List PortAbility → List (Mbuf → Option Mbuf)
  | [] => []
  | info :: infos =>
    match info.ope with
    | .none => []
    | .addVlantag => addVlantagPacket crc data :: abilityOps data infos
    | .delVlantag => delVlantagPacket crc :: abilityOps data infos

/-- The memory after every ability of a port has been applied to every packet
of a burst, if none fails. -/
def applyAbilities (info : List PortAbility) (pkts : List ρ) (mem : ρ → Mbuf) :
    Option (ρ → Mbuf) :=
  match info with
  | [] => some mem
  | first :: _ =>
    (abilityOps crc first.vlantag info).foldlM (fun mem operate => operateAll operate pkts mem) mem

variable {crc} {pkts : List ρ} {mem : ρ → Mbuf}

theorem allPackets_le (operate : Mbuf → Option Mbuf) (pkts : List ρ) (mem : ρ → Mbuf) :
    (allPackets operate pkts mem).1 ≤ pkts.length := by
  induction pkts generalizing mem with
  | nil => exact Nat.le_refl _
  | cons pkt pkts ih =>
    unfold allPackets
    split
    · exact Nat.zero_le _
    · exact Nat.succ_le_succ (ih _)

/-- All packets are counted iff the operation fails on none. -/
theorem allPackets_spec (operate : Mbuf → Option Mbuf) (pkts : List ρ) (mem : ρ → Mbuf) :
    match operateAll operate pkts mem with
    | some mem' => allPackets operate pkts mem = (pkts.length, mem')
    | none => (allPackets operate pkts mem).1 < pkts.length := by
  induction pkts generalizing mem with
  | nil => rfl
  | cons pkt pkts ih =>
    unfold operateAll allPackets
    rw [List.foldlM_cons]
    cases hop : operate (mem pkt) with
    | none => exact Nat.succ_pos _
    | some m =>
      have hrest := ih (Function.update mem pkt m)
      unfold operateAll at hrest
      dsimp only [Option.map_some, Option.bind_eq_bind, Option.bind_some]
      split <;> rename_i hfold <;> rw [hfold] at hrest
      · rw [hrest]
        rfl
      · exact Nat.succ_lt_succ hrest

/-- Later abilities count no packet that an earlier one has not counted. -/
theorem eachOperation_le (data : VlantagInfo) (infos : List PortAbility) (pkts : List ρ)
    (mem : ρ → Mbuf) : (eachOperation crc data infos pkts mem).1 ≤ pkts.length := by
  induction infos generalizing pkts mem with
  | nil => exact Nat.le_refl _
  | cons info infos ih =>
    unfold eachOperation
    cases info.ope with
    | none => exact Nat.le_refl _
    | addVlantag => exact Nat.le_trans (ih _ _) (List.length_take_le' ..)
    | delVlantag => exact Nat.le_trans (ih _ _) (List.length_take_le' ..)

/-- All packets are left over iff every ability succeeds on every packet. -/
theorem eachOperation_spec (data : VlantagInfo) (infos : List PortAbility) (pkts : List ρ)
    (mem : ρ → Mbuf) :
    match (abilityOps crc data infos).foldlM (fun mem operate => operateAll operate pkts mem) mem with
    | some mem' => eachOperation crc data infos pkts mem = (pkts.length, mem')
    | none => (eachOperation crc data infos pkts mem).1 < pkts.length := by
  induction infos generalizing mem with
  | nil => rfl
  | cons info infos ih =>
    -- one ability, then the rest on what it has counted
    have hstep : ∀ operate : Mbuf → Option Mbuf,
        match (operate :: abilityOps crc data infos).foldlM
          (fun mem operate => operateAll operate pkts mem) mem with
        | some mem' => eachOperation crc data infos (pkts.take (allPackets operate pkts mem).1)
            (allPackets operate pkts mem).2 = (pkts.length, mem')
        | none => (eachOperation crc data infos (pkts.take (allPackets operate pkts mem).1)
            (allPackets operate pkts mem).2).1 < pkts.length := by
      intro operate
      have hall := allPackets_spec operate pkts mem
      rw [List.foldlM_cons]
      cases hop : operateAll operate pkts mem with
      | none =>
        rw [hop] at hall
        refine Nat.lt_of_le_of_lt (eachOperation_le ..) ?_
        rw [List.length_take]
        exact Nat.lt_of_le_of_lt (Nat.min_le_left ..) hall
      | some mem₁ =>
        rw [hop] at hall
        rw [hall, List.take_length]
        exact ih mem₁
    unfold eachOperation abilityOps
    cases info.ope with
    | none => rfl
    | addVlantag => exact hstep (addVlantagPacket crc data)
    | delVlantag => exact hstep (delVlantagPacket crc)

/-- The packets that are freed are the ones that are not left over, and there
are none iff every ability succeeds on every packet. -/
theorem portAbilityEachOperation_spec (info : List PortAbility) (pkts : List ρ)
    (mem : ρ → Mbuf) :
    match applyAbilities crc info pkts mem with
    | some mem' => portAbilityEachOperation crc info pkts mem = (pkts.length, [], mem')
    | none => (portAbilityEachOperation crc info pkts mem).1 < pkts.length ∧
        (portAbilityEachOperation crc info pkts mem).2.1 =
          pkts.drop (portAbilityEachOperation crc info pkts mem).1 := by
  unfold applyAbilities portAbilityEachOperation
  cases info with
  | nil => rfl
  | cons first infos =>
    have heach := @eachOperation_spec _ _ crc first.vlantag (first :: infos) pkts mem
    dsimp only
    split <;> rename_i hfold <;> rw [hfold] at heach
    · rename_i mem'
      split
      · rename_i hnone
        simp only [abilityOps, hnone, List.foldlM_nil] at hfold
        obtain rfl := Option.some.inj hfold
        rfl
      · rw [heach, List.drop_length]
    · have hope : first.ope ≠ .none := by
        intro hnone
        simp [abilityOps, hnone] at hfold
      rw [if_neg hope]
      exact ⟨heach, rfl⟩

/-- If no ability fails, `spp_eth_tx_burst` is `rte_eth_tx_burst`. -/
theorem sppEthTxBurst_of_succeed {info : List PortAbility} {mem' : ρ → Mbuf} (room : ℕ)
    (h : applyAbilities crc info pkts mem = some mem') :
    sppEthTxBurst crc info room pkts mem = (rteEthTxBurst room pkts, mem') := by
  have heach := @portAbilityEachOperation_spec _ _ crc info pkts mem
  rw [h] at heach
  unfold sppEthTxBurst
  dsimp only at heach ⊢
  rw [heach]
  split
  · rename_i hempty
    simp [rteEthTxBurst, List.length_eq_zero_iff.mp hempty]
  · rw [List.take_length]
    rfl

/-- If an ability fails, the packets that are not left over have been freed, and
the device was given none of them. -/
theorem sppEthTxBurst_of_fail {info : List PortAbility} (room : ℕ)
    (h : applyAbilities crc info pkts mem = none) :
    ∃ ok < pkts.length, (sppEthTxBurst crc info room pkts mem).1 =
      { rteEthTxBurst room (pkts.take ok) with freed := pkts.drop ok } := by
  have heach := @portAbilityEachOperation_spec _ _ crc info pkts mem
  rw [h] at heach
  obtain ⟨hlt, hfreed⟩ := heach
  refine ⟨_, hlt, ?_⟩
  unfold sppEthTxBurst
  dsimp only
  rw [hfreed]
  split
  · rename_i hzero
    simp [rteEthTxBurst, hzero]
  · rfl

end Succeed

end Spp.Vf
