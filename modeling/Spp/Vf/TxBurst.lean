import Mathlib.Data.List.Perm.Basic
import Spp.Vf.DataPath
import Spp.Vf.Port

/-!
# Who frees what is left of a burst

The functions that call `spp_eth_tx_burst` free the packets behind the count it
returns. So does `port_ability_each_operation` with the packets on which an
ability fails, but the count does not tell its callers apart which packets are
gone and which are merely not accepted.
-/

namespace Spp.Vf

variable {ρ : Type}

/-- `transmit_packet` on the buffer of a classifier, whose port transmits bursts
by the given function. -/
def transmitPacket (ethTxBurst : List ρ → TxOutcome ρ) (pkts : List ρ) : TxOutcome ρ :=
  let out := ethTxBurst pkts
  { out with freed := out.freed ++ pkts.drop out.nTx }

/-- Each reference is accepted or freed, and no reference twice. -/
def ReleasedOnce (pkts accepted freed : List ρ) : Prop := (accepted ++ freed).Perm pkts

/-- What a pass of `spp_forward` has done: its variable `nb_tx`, the memory, and
the packets it has received, transmitted and freed. -/
structure Forwarding (ρ : Type) where
  nbTx : ℕ := 0
  mem : ρ → Mbuf
  received : List ρ := []
  accepted : List ρ := []
  freed : List ρ := []

/-- A burst has been received, and the device and `rte_pktmbuf_free` have taken
it as the outcome says; the caller frees what is behind the count. -/
def Forwarding.add (st : Forwarding ρ) (bufs : List ρ) (mem : ρ → Mbuf) (out : TxOutcome ρ) :
    Forwarding ρ :=
  { nbTx := out.nTx
    mem := mem
    received := st.received ++ bufs
    accepted := st.accepted ++ out.accepted
    freed := st.freed ++ out.freed ++ bufs.drop out.nTx }

/-- Everything received so far has been released once. -/
def Forwarding.Settled (st : Forwarding ρ) : Prop := ReleasedOnce st.received st.accepted st.freed

/-- The number of references released so far. -/
def Forwarding.released (st : Forwarding ρ) : ℕ := st.accepted.length + st.freed.length

theorem Forwarding.Settled.released_eq {st : Forwarding ρ} (h : st.Settled) :
    st.released = st.received.length := by
  simpa [Forwarding.released] using h.length_eq

/-- What the device does not accept is behind its count. -/
theorem take_append_drop_min (room : ℕ) (pkts : List ρ) :
    pkts.take room ++ pkts.drop (min room pkts.length) = pkts := by
  rcases Nat.le_total room pkts.length with hle | hle
  · rw [Nat.min_eq_left hle, List.take_append_drop]
  · rw [Nat.min_eq_right hle, List.take_of_length_le hle, List.drop_length, List.append_nil]

/-- A burst that is given to the device as it is stays settled. -/
theorem Forwarding.Settled.add {st : Forwarding ρ} (h : st.Settled) (bufs : List ρ)
    (mem : ρ → Mbuf) (room : ℕ) : (st.add bufs mem (rteEthTxBurst room bufs)).Settled := by
  have hsplit : (st.accepted ++ bufs.take room ++
      (st.freed ++ [] ++ bufs.drop (min room bufs.length))).Perm
        (st.accepted ++ st.freed ++ (bufs.take room ++ bufs.drop (min room bufs.length))) := by
    simp only [List.append_assoc, List.nil_append]
    exact List.Perm.append_left _ (List.perm_append_comm_assoc ..)
  rw [take_append_drop_min] at hsplit
  exact hsplit.trans (h.append_right bufs)

variable [DecidableEq ρ] (crc : List UInt8 → ℕ) (ability : ℤ → List PortAbility)

/-- One iteration of `spp_forward`. The burst that is received and the memory
after its reception depend on the memory before it. -/
def forwardEntry (tx : PortInfo) (rx : (ρ → Mbuf) → List ρ × (ρ → Mbuf)) (room : ℕ)
    (st : Forwarding ρ) : Forwarding ρ :=
  let bufs := (rx st.mem).1
  let mem := (rx st.mem).2
  if bufs = [] then { st with mem := mem }
  else if 0 ≤ tx.dpdkPort then
    let out := sppEthTxBurst crc (ability tx.dpdkPort) room bufs mem
    st.add bufs out.2 out.1
  else st.add bufs mem ⟨st.nbTx, [], []⟩

/-- The loop of `spp_forward` over the entries of its path. -/
def forwardEntries (tx : ℕ → PortInfo) (rx : ℕ → (ρ → Mbuf) → List ρ × (ρ → Mbuf)) (room : ℕ → ℕ)
    (cnts : List ℕ) (st : Forwarding ρ) : Forwarding ρ :=
  cnts.foldl (fun st cnt => forwardEntry crc ability (tx cnt) (rx cnt) (room cnt) st) st

/-- A pass of `spp_forward` along a path. -/
def sppForward (path : DataPath) (rx : ℕ → (ρ → Mbuf) → List ρ × (ρ → Mbuf)) (room : ℕ → ℕ)
    (mem : ρ → Mbuf) : Forwarding ρ :=
  if path.runnable then
    forwardEntries crc ability (fun cnt => (path.ports cnt).tx) rx room (List.range path.numRx)
      { mem := mem }
  else { mem := mem }

/-- The memory after every burst of a pass has gone through the abilities of the
transmit port, if none fails. -/
def forwardAbilities (tx : PortInfo) (rx : ℕ → (ρ → Mbuf) → List ρ × (ρ → Mbuf))
    (cnts : List ℕ) (mem : ρ → Mbuf) : Option (ρ → Mbuf) :=
  cnts.foldlM
    (fun mem cnt => applyAbilities crc (ability tx.dpdkPort) (rx cnt mem).1 (rx cnt mem).2) mem

variable {crc ability} {pkts : List ρ} {mem : ρ → Mbuf}

section Transmit

/-- `transmit_packet` to a port with these abilities, whose device has room for
`n` packets. -/
def transmitTo (crc : List UInt8 → ℕ) (info : List PortAbility) (n : ℕ) (pkts : List ρ)
    (mem : ρ → Mbuf) : TxOutcome ρ :=
  transmitPacket (fun pkts => (sppEthTxBurst crc info n pkts mem).1) pkts

/-- The buffer of a classifier is released once iff no ability fails. -/
theorem transmitTo_iff (info : List PortAbility) (n : ℕ) (pkts : List ρ) (mem : ρ → Mbuf) :
    ReleasedOnce pkts (transmitTo crc info n pkts mem).accepted
        (transmitTo crc info n pkts mem).freed ↔
      (applyAbilities crc info pkts mem).isSome := by
  unfold transmitTo transmitPacket ReleasedOnce
  dsimp only
  cases hap : applyAbilities crc info pkts mem with
  | some mem' =>
    rw [sppEthTxBurst_of_succeed n hap]
    refine iff_of_true ?_ rfl
    simp only [rteEthTxBurst, List.nil_append, take_append_drop_min]
    exact .refl _
  | none =>
    obtain ⟨ok, hlt, hout⟩ := sppEthTxBurst_of_fail n hap
    rw [hout]
    refine iff_of_false (fun hperm => ?_) (by simp)
    have hlen := hperm.length_eq
    simp only [rteEthTxBurst, List.length_append, List.length_take, List.length_drop] at hlen
    omega

end Transmit

section Entry

variable {tx : PortInfo} {rx : (ρ → Mbuf) → List ρ × (ρ → Mbuf)} {st : Forwarding ρ}

theorem applyAbilities_nil (info : List PortAbility) (mem : ρ → Mbuf) :
    applyAbilities crc info [] mem = some mem := by
  cases info with
  | nil => rfl
  | cons first infos =>
    have hops : ∀ ops : List (Mbuf → Option Mbuf),
        ops.foldlM (fun mem operate => operateAll operate ([] : List ρ) mem) mem = some mem := by
      intro ops
      induction ops with
      | nil => rfl
      | cons op ops ih =>
        rw [List.foldlM_cons]
        exact ih
    exact hops _

/-- An entry whose port has no device frees what it receives. -/
theorem forwardEntry_of_neg (htx : tx.dpdkPort < 0) (n : ℕ) (hst : st.Settled ∧ st.nbTx = 0) :
    (forwardEntry crc ability tx rx n st).Settled ∧
      (forwardEntry crc ability tx rx n st).nbTx = 0 := by
  obtain ⟨hsettled, hzero⟩ := hst
  unfold forwardEntry
  dsimp only
  split
  · exact ⟨hsettled, hzero⟩
  · rw [if_neg (by omega), hzero]
    exact ⟨hsettled.add _ _ 0, rfl⟩

/-- An entry on which no ability fails releases what it receives once. -/
theorem forwardEntry_of_succeed (htx : 0 ≤ tx.dpdkPort) (n : ℕ) {mem' : ρ → Mbuf}
    (hst : st.Settled)
    (h : applyAbilities crc (ability tx.dpdkPort) (rx st.mem).1 (rx st.mem).2 = some mem') :
    (forwardEntry crc ability tx rx n st).Settled ∧
      (forwardEntry crc ability tx rx n st).mem = mem' := by
  unfold forwardEntry
  dsimp only
  split
  · rename_i hempty
    rw [hempty, applyAbilities_nil] at h
    exact ⟨hst, Option.some.inj h⟩
  · rw [sppEthTxBurst_of_succeed n h]
    exact ⟨hst.add .., rfl⟩

/-- The surplus of released over received packets. -/
def Forwarding.surplus (st : Forwarding ρ) : ℤ := st.released - st.received.length

omit [DecidableEq ρ] in
theorem Forwarding.surplus_add (bufs : List ρ) (mem : ρ → Mbuf) (out : TxOutcome ρ) :
    (st.add bufs mem out).surplus = st.surplus +
      (out.accepted.length + out.freed.length + (bufs.drop out.nTx).length - bufs.length) := by
  simp only [surplus, released, add, List.length_append, Int.natCast_add]
  omega

/-- An entry never makes the surplus smaller, and larger if an ability fails. -/
theorem forwardEntry_surplus (htx : 0 ≤ tx.dpdkPort) (rx : (ρ → Mbuf) → List ρ × (ρ → Mbuf))
    (n : ℕ) (st : Forwarding ρ) :
    st.surplus ≤ (forwardEntry crc ability tx rx n st).surplus ∧
      (applyAbilities crc (ability tx.dpdkPort) (rx st.mem).1 (rx st.mem).2 = none →
        st.surplus < (forwardEntry crc ability tx rx n st).surplus) := by
  unfold forwardEntry
  dsimp only
  split
  · rename_i hempty
    rw [hempty, applyAbilities_nil]
    exact ⟨Int.le_refl _, fun hnone => by cases hnone⟩
  · rw [Forwarding.surplus_add]
    cases hap : applyAbilities crc (ability tx.dpdkPort) (rx st.mem).1 (rx st.mem).2 with
    | some mem' =>
      rw [sppEthTxBurst_of_succeed n hap]
      simp only [rteEthTxBurst, List.length_take, List.length_drop, List.length_nil]
      exact ⟨by omega, fun hnone => by cases hnone⟩
    | none =>
      obtain ⟨ok, hlt, hout⟩ := sppEthTxBurst_of_fail n hap
      rw [hout]
      simp only [rteEthTxBurst, List.length_take, List.length_drop]
      exact ⟨by omega, fun _ => by omega⟩

end Entry

section Pass

variable {tx : PortInfo} {rx : ℕ → (ρ → Mbuf) → List ρ × (ρ → Mbuf)} {room : ℕ → ℕ}

/-- The loop never makes the surplus smaller. -/
theorem forwardEntries_surplus (htx : 0 ≤ tx.dpdkPort) (cnts : List ℕ) (st : Forwarding ρ) :
    st.surplus ≤ (forwardEntries crc ability (fun _ => tx) rx room cnts st).surplus := by
  induction cnts generalizing st with
  | nil => exact Int.le_refl _
  | cons cnt cnts ih =>
    exact Int.le_trans (forwardEntry_surplus htx (rx cnt) (room cnt) st).1 (ih _)

/-- A loop that begins settled ends settled iff no ability fails on the way. -/
theorem forwardEntries_iff (htx : 0 ≤ tx.dpdkPort) (cnts : List ℕ) {st : Forwarding ρ}
    (hst : st.Settled) :
    (forwardEntries crc ability (fun _ => tx) rx room cnts st).Settled ↔
      (forwardAbilities crc ability tx rx cnts st.mem).isSome := by
  induction cnts generalizing st with
  | nil => exact iff_of_true hst rfl
  | cons cnt cnts ih =>
    unfold forwardAbilities
    rw [List.foldlM_cons]
    cases hap : applyAbilities crc (ability tx.dpdkPort) (rx cnt st.mem).1 (rx cnt st.mem).2 with
    | some mem' =>
      obtain ⟨hsettled, hmem⟩ := forwardEntry_of_succeed htx (room cnt) hst hap
      have hrest := ih hsettled
      rw [hmem] at hrest
      exact hrest
    | none =>
      refine iff_of_false (fun hsettled => ?_) (by simp)
      have hmore := (forwardEntry_surplus htx (rx cnt) (room cnt) st).2 hap
      have hrest : _ ≤ (forwardEntries crc ability (fun _ => tx) rx room (cnt :: cnts) st).surplus :=
        forwardEntries_surplus htx cnts (forwardEntry crc ability tx (rx cnt) (room cnt) st)
      have hstart := hst.released_eq
      have hend := hsettled.released_eq
      unfold Forwarding.surplus at hmore hrest
      omega

/-- Without a device a loop releases what it receives once. -/
theorem forwardEntries_of_neg (htx : tx.dpdkPort < 0) (cnts : List ℕ) {st : Forwarding ρ}
    (hst : st.Settled ∧ st.nbTx = 0) :
    (forwardEntries crc ability (fun _ => tx) rx room cnts st).Settled := by
  induction cnts generalizing st with
  | nil => exact hst.1
  | cons cnt cnts ih => exact ih (forwardEntry_of_neg htx (room cnt) hst)

/-- A path that is run has one transmit port. -/
theorem DataPath.numTx_of_runnable {path : DataPath} (h : path.runnable = true) :
    path.numTx = 1 := by
  unfold runnable at h
  split at h
  · exact (of_decide_eq_true h).1
  · exact (of_decide_eq_true h).1

/-- `spp_forward_update` puts the transmit port beside every receive port. -/
theorem tx_of_sppForwardUpdate {iface : PortRef → PortInfo} {component : ComponentInfo}
    {path : DataPath} (h : sppForwardUpdate iface component = some path)
    (hrun : path.runnable = true) {cnt : ℕ} (hcnt : cnt < path.numRx) :
    (path.ports cnt).tx = portCopy iface component.txPorts 0 := by
  have htx := path.numTx_of_runnable hrun
  unfold sppForwardUpdate at h
  dsimp only at h
  split at h
  · cases h
  · split at h
    · cases h
    · obtain rfl := Option.some.inj h
      dsimp only at htx hcnt ⊢
      rw [htx, Nat.mul_one]
      refine if_pos ?_
      split
      · exact hcnt
      · omega

/-- A pass along a path that `spp_forward_update` has built releases every packet
it receives once iff the path is not run, or its transmit port has no device,
or no ability fails. -/
theorem sppForward_iff {iface : PortRef → PortInfo} {component : ComponentInfo} {path : DataPath}
    (h : sppForwardUpdate iface component = some path) (mem : ρ → Mbuf) :
    (sppForward crc ability path rx room mem).Settled ↔
      (path.runnable = true → 0 ≤ (portCopy iface component.txPorts 0).dpdkPort →
        (forwardAbilities crc ability (portCopy iface component.txPorts 0) rx
          (List.range path.numRx) mem).isSome) := by
  have hstart : ({ mem := mem } : Forwarding ρ).Settled := .refl _
  unfold sppForward
  split
  · rename_i hrun
    have hsame : forwardEntries crc ability (fun cnt => (path.ports cnt).tx) rx room
        (List.range path.numRx) { mem := mem } = forwardEntries crc ability
          (fun _ => portCopy iface component.txPorts 0) rx room (List.range path.numRx)
          { mem := mem } :=
      List.foldl_ext _ _ _ fun st cnt hcnt => by
        dsimp only
        rw [tx_of_sppForwardUpdate h hrun (List.mem_range.mp hcnt)]
    rw [hsame]
    by_cases htx : 0 ≤ (portCopy iface component.txPorts 0).dpdkPort
    · rw [forwardEntries_iff htx _ hstart]
      exact ⟨fun hsome _ _ => hsome, fun hall => hall hrun htx⟩
    · exact iff_of_true (forwardEntries_of_neg (by omega) _ ⟨hstart, rfl⟩)
        fun _ hpos => absurd hpos htx
  · rename_i hrun
    exact iff_of_true hstart fun hrun' => absurd hrun' hrun

/-- What the callers of `spp_eth_tx_burst` release. The buffer of a classifier is
released once iff every ability of the port succeeds on every packet of it. A
pass of a forwarder or merger releases every packet it receives once iff the
same holds of every burst it transmits. -/
theorem releasedOnce_iff (info : List PortAbility) (n : ℕ) (pkts : List ρ) (mem : ρ → Mbuf) :
    (ReleasedOnce pkts (transmitTo crc info n pkts mem).accepted
        (transmitTo crc info n pkts mem).freed ↔
      (applyAbilities crc info pkts mem).isSome) ∧
    ∀ iface component path, sppForwardUpdate iface component = some path →
      ∀ (ability : ℤ → List PortAbility) (rx : ℕ → (ρ → Mbuf) → List ρ × (ρ → Mbuf))
        (room : ℕ → ℕ), (sppForward crc ability path rx room mem).Settled ↔
          (path.runnable = true → 0 ≤ (portCopy iface component.txPorts 0).dpdkPort →
            (forwardAbilities crc ability (portCopy iface component.txPorts 0) rx
              (List.range path.numRx) mem).isSome) :=
  ⟨transmitTo_iff info n pkts mem, fun _ _ _ h _ _ _ => sppForward_iff h mem⟩

end Pass

section Examples

/-- A forwarder from one physical port to another. -/
def oneForward : ComponentInfo :=
  { name := "f1".toList, type := .forward, rxPorts := [⟨.nic, 0⟩], txPorts := [⟨.nic, 1⟩] }

/-- Physical ports with their DPDK ports. -/
def physicalPort (port : PortRef) : PortInfo :=
  { ifaceType := .phy, ifaceNo := port.no, dpdkPort := port.no }

/-- One VLAN tag to add. -/
def addOneTag : List PortAbility := [{ ope := .addVlantag, rxtx := .tx }]

/-- An empty frame with some headroom. -/
def frameWith (headroom : ℕ) : Mbuf := { buf := fun _ => 0, dataOff := headroom, dataLen := 64 }

/-- With headroom for the tag, a forwarder releases both packets of a burst once. -/
theorem releasedOnce_headroom :
    ∃ path, sppForwardUpdate physicalPort oneForward = some path ∧
      (sppForward (fun _ => 0) (fun _ => addOneTag) path (fun _ mem => ([0, 1], mem)) (fun _ => 1)
        (fun _ : ℕ => frameWith 128)).Settled := by
  obtain ⟨path, h, hrun⟩ : ∃ path, sppForwardUpdate physicalPort oneForward = some path ∧
      path.numRx = 1 := ⟨_, rfl, rfl⟩
  refine ⟨path, h, ((releasedOnce_iff addOneTag 1 [] _).2 _ _ _ h _ _ _).mpr fun _ _ => ?_⟩
  rw [hrun]
  decide +kernel

/-- If the second packet has no headroom, the port frees it, and then the caller
of `spp_eth_tx_burst` frees it again. -/
theorem not_releasedOnce_no_headroom :
    let mem : ℕ → Mbuf := fun pkt => if pkt = 0 then frameWith 128 else frameWith 0
    (transmitTo (fun _ => 0) addOneTag 2 [0, 1] mem = ⟨1, [0], [1, 1]⟩ ∧
      ¬ReleasedOnce [0, 1] (transmitTo (fun _ => 0) addOneTag 2 [0, 1] mem).accepted
        (transmitTo (fun _ => 0) addOneTag 2 [0, 1] mem).freed) ∧
    ∃ path, sppForwardUpdate physicalPort oneForward = some path ∧
      ¬(sppForward (fun _ => 0) (fun _ => addOneTag) path (fun _ mem => ([0, 1], mem)) (fun _ => 2)
        mem).Settled := by
  refine ⟨⟨by decide +kernel, ?_⟩, _, rfl, ?_⟩
  · unfold ReleasedOnce
    decide +kernel
  · unfold Forwarding.Settled ReleasedOnce
    decide +kernel

end Examples

end Spp.Vf
