import Spp.Vf.ClassifierTables
import Spp.Vf.VlanFrame

/-!
# A multicast frame and the operations of its destinations

`handle_l2multicast_packet` puts one packet into the buffers of several ports,
and each port performs its VLAN operation on that packet when its buffer is
transmitted. So a port sends what the ports before it have left of the frame.
-/

namespace Spp.Vf

open Vlan

variable {ρ : Type} [DecidableEq ρ] (crc : List UInt8 → ℕ)

section Operation

/-- The operation of a port on the bytes of a frame. -/
def abilityOp : Option PortAbility → Op
  | none => .keep
  | some ability =>
    match ability.ope with
    | .none => .keep
    | .addVlantag => .add ability.vlantag.tciBytes
    | .delVlantag => .del

/-- What a port does to one packet. -/
def operation : Option PortAbility → Mbuf → Option Mbuf
  | none, m => some m
  | some ability, m =>
    match ability.ope with
    | .none => some m
    | .addVlantag => addVlantagPacket crc ability.vlantag m
    | .delVlantag => delVlantagPacket crc m

theorem operation_refines {m : Mbuf} (h : m.IsFrame) (ability : Option PortAbility) :
    Refines (operation crc ability m) ((abilityOp ability).apply m.packet) := by
  cases ability with
  | none => exact refines_some rfl h.addrs h.complete
  | some ability =>
    unfold operation abilityOp
    dsimp only
    cases ability.ope with
    | none => exact refines_some rfl h.addrs h.complete
    | addVlantag => exact addVlantagPacket_refines crc h ability.vlantag
    | delVlantag => exact delVlantagPacket_refines crc h

/-- The frame obtained by applying the ability of a port to a packet. -/
def ownFrame (ability : Option PortAbility) (m : Mbuf) : Option (List UInt8) :=
  (operation crc ability m).map fun m => m.load 0 m.dataLen

theorem ownFrame_eq_emit {m : Mbuf} (h : m.IsFrame) (ability : Option PortAbility) :
    ownFrame crc ability m = (abilityOp ability).emit m.packet := by
  obtain ⟨hpacket, hframe⟩ := operation_refines crc h ability
  unfold ownFrame Op.emit
  rw [← hpacket, Option.map_map]
  cases hop : operation crc ability m with
  | none => rfl
  | some m' => exact congrArg some (Mbuf.frame_packet (hframe m' hop).addrs).symm

end Operation

section Burst

variable {pkts : List ρ} {pkt : ρ} {mem : ρ → Mbuf}

/-- A packet that is not in a burst is not touched. -/
theorem allPackets_of_not_mem (operate : Mbuf → Option Mbuf) (h : pkt ∉ pkts) :
    (allPackets operate pkts mem).2 pkt = mem pkt := by
  induction pkts generalizing mem with
  | nil => rfl
  | cons q pkts ih =>
    obtain ⟨hq, hrest⟩ := not_or.mp (mt List.mem_cons.mpr h)
    unfold allPackets
    split
    · rfl
    · dsimp only
      rw [ih hrest, Function.update_of_ne hq]

/-- A packet whose turn comes in a burst is operated on once, and is counted iff
that does not fail. -/
theorem allPackets_of_reached {operate : Mbuf → Option Mbuf} (hcount : pkts.count pkt = 1)
    (hreach : pkts.idxOf pkt ≤ (allPackets operate pkts mem).1) :
    (allPackets operate pkts mem).2 pkt = (operate (mem pkt)).getD (mem pkt) ∧
      (pkt ∈ pkts.take (allPackets operate pkts mem).1 ↔ (operate (mem pkt)).isSome) := by
  induction pkts generalizing mem with
  | nil => cases hcount
  | cons q pkts ih =>
    unfold allPackets at hreach ⊢
    by_cases hq : q = pkt
    · subst hq
      have hnot : q ∉ pkts := by
        rw [List.count_cons_self] at hcount
        exact List.count_eq_zero.mp (by omega)
      cases hop : operate (mem q) with
      | none => simp
      | some m =>
        dsimp only
        rw [allPackets_of_not_mem operate hnot, Function.update_self]
        simp
    · rw [List.count_cons_of_ne hq] at hcount
      rw [List.idxOf_cons_ne pkts hq] at hreach
      cases hop : operate (mem q) with
      | none =>
        rw [hop] at hreach
        cases hreach
      | some m =>
        rw [hop] at hreach
        dsimp only at hreach ⊢
        obtain ⟨hmem, hcounted⟩ := @ih (Function.update mem q m) hcount (by omega)
        rw [Function.update_of_ne (Ne.symm hq)] at hmem hcounted
        refine ⟨hmem, ?_⟩
        rw [List.take_succ_cons, List.mem_cons, ← hcounted]
        exact or_iff_right (Ne.symm hq)

/-- The frame that a port sends of a packet when a burst is transmitted, on a
device that takes the whole burst. -/
def emitted (ability : Option PortAbility) (pkts : List ρ) (pkt : ρ) (mem : ρ → Mbuf) :
    Option (List UInt8) :=
  let out := sppEthTxBurst crc ability.toList pkts.length pkts mem
  if pkt ∈ out.1.accepted then some ((out.2 pkt).load 0 (out.2 pkt).dataLen) else none

/-- A port sends of a packet whose turn comes what its ability makes of it. -/
theorem emitted_of_reached {ability : Option PortAbility} (hcount : pkts.count pkt = 1)
    (hreach : pkts.idxOf pkt ≤
      (sppEthTxBurst crc ability.toList pkts.length pkts mem).1.nTx) :
    (sppEthTxBurst crc ability.toList pkts.length pkts mem).2 pkt =
        (operation crc ability (mem pkt)).getD (mem pkt) ∧
      emitted crc ability pkts pkt mem = ownFrame crc ability (mem pkt) := by
  have hmem : pkt ∈ pkts := List.count_pos_iff.mp (by omega)
  have hlen : pkts.length ≠ 0 := by
    rw [Ne, List.length_eq_zero_iff]
    rintro rfl
    cases hmem
  -- Without an operation the burst goes out as it is.
  have hkeep : portAbilityEachOperation crc ability.toList pkts mem = (pkts.length, [], mem) →
      operation crc ability (mem pkt) = some (mem pkt) →
      (sppEthTxBurst crc ability.toList pkts.length pkts mem).2 pkt =
          (operation crc ability (mem pkt)).getD (mem pkt) ∧
        emitted crc ability pkts pkt mem = ownFrame crc ability (mem pkt) := by
    intro heach hop
    unfold emitted ownFrame sppEthTxBurst
    dsimp only
    rw [heach, hop]
    simp [hlen, rteEthTxBurst, hmem]
  -- With one operation all depends on whether it fails on the packet.
  have hoperate : ∀ operate : Mbuf → Option Mbuf,
      portAbilityEachOperation crc ability.toList pkts mem =
        ((allPackets operate pkts mem).1, pkts.drop (allPackets operate pkts mem).1,
          (allPackets operate pkts mem).2) →
      operation crc ability (mem pkt) = operate (mem pkt) →
      (sppEthTxBurst crc ability.toList pkts.length pkts mem).2 pkt =
          (operation crc ability (mem pkt)).getD (mem pkt) ∧
        emitted crc ability pkts pkt mem = ownFrame crc ability (mem pkt) := by
    intro operate heach hop
    have hle := allPackets_le operate pkts mem
    have hburst : (sppEthTxBurst crc ability.toList pkts.length pkts mem).1.nTx =
          (allPackets operate pkts mem).1 ∧
        (sppEthTxBurst crc ability.toList pkts.length pkts mem).1.accepted =
          pkts.take (allPackets operate pkts mem).1 ∧
        (sppEthTxBurst crc ability.toList pkts.length pkts mem).2 =
          (allPackets operate pkts mem).2 := by
      unfold sppEthTxBurst
      dsimp only
      rw [heach]
      by_cases hzero : (allPackets operate pkts mem).1 = 0
      · simp [hzero]
      · simp only [if_neg hzero, rteEthTxBurst, List.length_take, List.take_take]
        exact ⟨by omega, by rw [Nat.min_eq_right hle], trivial⟩
    rw [hburst.1] at hreach
    obtain ⟨hafter, hcounted⟩ := allPackets_of_reached hcount hreach
    rw [hburst.2.2, hop]
    refine ⟨hafter, ?_⟩
    unfold emitted ownFrame
    dsimp only
    rw [hburst.2.1, hburst.2.2, hop, hafter]
    cases hres : operate (mem pkt) with
    | none =>
      rw [hres] at hcounted
      rw [if_neg (by simpa using hcounted)]
      rfl
    | some m =>
      rw [hres] at hcounted
      rw [if_pos (by simpa using hcounted)]
      rfl
  have hone : ∀ operate : Mbuf → Option Mbuf,
      ((pkts.take (allPackets operate pkts mem).1).length, pkts.drop
        (pkts.take (allPackets operate pkts mem).1).length, (allPackets operate pkts mem).2) =
        ((allPackets operate pkts mem).1, pkts.drop (allPackets operate pkts mem).1,
          (allPackets operate pkts mem).2) := by
    intro operate
    rw [List.length_take, Nat.min_eq_left (allPackets_le operate pkts mem)]
  cases ability with
  | none => exact hkeep rfl rfl
  | some ability =>
    cases hope : ability.ope with
    | none =>
      refine hkeep ?_ ?_
      · simp [portAbilityEachOperation, hope]
      · simp [operation, hope]
    | addVlantag =>
      refine hoperate (addVlantagPacket crc ability.vlantag) ?_ ?_
      · rw [← hone]
        simp [portAbilityEachOperation, eachOperation, addVlantagAllPackets, hope]
      · simp [operation, hope]
    | delVlantag =>
      refine hoperate (delVlantagPacket crc) ?_ ?_
      · rw [← hone]
        simp [portAbilityEachOperation, eachOperation, delVlantagAllPackets, hope]
      · simp [operation, hope]

end Burst

section Order

variable (ability : ℕ → Option PortAbility) (bufs : ℕ → List ρ) (pkt : ρ) (mem : ρ → Mbuf)

/-- The memory after the buffers of some ports are transmitted, in order. -/
def transmitBuffers : List ℕ → (ρ → Mbuf) → (ρ → Mbuf)
  | [], mem => mem
  | i :: order, mem => transmitBuffers order
      (sppEthTxBurst crc (ability i).toList (bufs i).length (bufs i) mem).2

/-- In whatever order the buffers of the destinations are transmitted, each port
sends the frame obtained by applying its own ability to the packet. -/
def SendsOwnFrame (dests : List ℕ) : Prop :=
  ∀ order, order.Perm dests → ∀ before i after, order = before ++ i :: after →
    emitted crc (ability i) (bufs i) pkt (transmitBuffers crc ability bufs before mem) =
      ownFrame crc (ability i) (mem pkt)

/-- In no order an ability fails on a packet in front of this one. -/
def TurnComes (dests : List ℕ) : Prop :=
  ∀ order, order.Perm dests → ∀ before i after, order = before ++ i :: after →
    (bufs i).idxOf pkt ≤ (sppEthTxBurst crc (ability i).toList (bufs i).length (bufs i)
      (transmitBuffers crc ability bufs before mem)).1.nTx

variable {crc ability bufs pkt mem}

/-- Buffers transmitted one after the other perform the operations of their
ports in place. -/
theorem transmitBuffers_refines {order : List ℕ} (hcount : ∀ i ∈ order, (bufs i).count pkt = 1)
    (hreach : ∀ before i after, order = before ++ i :: after →
      (bufs i).idxOf pkt ≤ (sppEthTxBurst crc (ability i).toList (bufs i).length (bufs i)
        (transmitBuffers crc ability bufs before mem)).1.nTx)
    (hframe : (mem pkt).IsFrame) :
    (transmitBuffers crc ability bufs order mem pkt).packet =
        runInPlace (order.map fun i => abilityOp (ability i)) (mem pkt).packet ∧
      (transmitBuffers crc ability bufs order mem pkt).IsFrame := by
  induction order generalizing mem with
  | nil => exact ⟨rfl, hframe⟩
  | cons i order ih =>
    have hafter : (sppEthTxBurst crc (ability i).toList (bufs i).length (bufs i) mem).2 pkt =
        (operation crc (ability i) (mem pkt)).getD (mem pkt) :=
      (emitted_of_reached crc (hcount i List.mem_cons_self) (hreach [] i order rfl)).1
    obtain ⟨hpacket, hframe'⟩ := operation_refines crc hframe (ability i)
    have hnext : ((operation crc (ability i) (mem pkt)).getD (mem pkt)).packet =
          ((abilityOp (ability i)).apply (mem pkt).packet).getD (mem pkt).packet ∧
        ((operation crc (ability i) (mem pkt)).getD (mem pkt)).IsFrame := by
      rw [← hpacket]
      cases hop : operation crc (ability i) (mem pkt) with
      | none => exact ⟨rfl, hframe⟩
      | some m => exact ⟨rfl, hframe' m hop⟩
    rw [← hafter] at hnext
    obtain ⟨hrun, hlast⟩ := ih (fun j hj => hcount j (List.mem_cons_of_mem i hj))
      (fun before j after heq => hreach (i :: before) j after (by rw [heq]; rfl)) hnext.2
    rw [hnext.1] at hrun
    exact ⟨hrun, hlast⟩

end Order

section Sample

/-- A component with two transmit ports. -/
def twoPorts : ComponentInfo :=
  { name := ['c'], type := .classifierMac, lcoreId := 1, txPorts := [⟨.nic, 0⟩, ⟨.nic, 1⟩] }

/-- Both ports are registered for untagged frames. -/
def twoPortsIface (port : PortRef) : PortInfo :=
  { ifaceType := .phy, ifaceNo := port.no, dpdkPort := port.no
    classId := { macAddr := port.no + 2, vid := ethVlanIdMax } }

/-- An untagged frame to a group address. -/
def groupFrame : Frame Unit := { mbuf := (), dAddr := 1, etherType := 0x0800, vlanTci := 0 }

/-- The buffer of the frame, with DPDK's usual headroom. -/
def groupMbuf : Mbuf :=
  { buf := fun k => ([1, 0, 0, 0, 0, 0, 2, 0, 0, 0, 0, 1, 0x08, 0x00, 7, 8] : List UInt8).getD
      (k - 128) 0
    dataOff := 128
    dataLen := 16 }

/-- Abilities of which only that of the first port is present. -/
def firstOperates (ope : PortAbilityOpe) (i : ℕ) : Option PortAbility :=
  if i = 0 then some { ope := ope, rxtx := .tx, vlantag := { vid := 10, pcp := 3, tci := 0x0a60 } }
  else none

theorem isFrame_groupMbuf : groupMbuf.IsFrame := by
  refine ⟨by decide, fun k hk => ?_⟩
  cases k with
  | zero => decide
  | succ k =>
    have htag := hk 0 (Nat.succ_pos k)
    exact absurd htag (by decide)

/-- The frame is delivered to both ports. -/
theorem pushes_groupFrame : [0, 1] = (handleL2multicastPacket groupFrame
    (initComponentInfo assocHash (fun _ => true) twoPortsIface twoPorts {}).2).pushes := by
  decide +kernel

end Sample

end Spp.Vf
