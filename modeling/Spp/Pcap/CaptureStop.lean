import Spp.Lib.Parties
import Spp.Pcap.Places

/-!
# What a stopped capture leaves

A writer stops after it has found the ring empty and then read that the capture
is idle. In between the receiver can put packets into the ring. Here is where
every packet is during a run, and when nothing is left behind.
-/

namespace Spp.Pcap

open GuardedRun Parties

section Packets

/-- The receiver is about to put packets into the ring. -/
def ReceiverPc.enqueues : ReceiverPc → Bool
  | .enqueue _ => true
  | _ => false

/-- The writer will look into the ring before it stops. -/
def Writer.active (w : Writer) : Bool :=
  w.status = .running && w.pc ≠ .setIdle && w.pc ≠ .initFailed

variable {n : ℕ}

/-- The capture is not requested, and every core has become idle. -/
def Capture.stopped (s : Capture n) : Prop :=
  s.shared.captureRequest = .idle ∧ s.receiver.status = .idle ∧ ∀ i, (s.writer i).status = .idle

/-- No packet is lost: the ring is empty, what was enqueued has been written to a
file and freed once, and what was received and not enqueued has been freed. -/
structure NothingLost (s : Capture n) : Prop where
  ring : s.shared.ring = []
  enqueued : ∀ p ∈ s.shared.enqueued,
    (s.shared.written.map Prod.fst).count p = 1 ∧ s.shared.freed.count p = 1
  discarded : ∀ p ∈ s.shared.received, p ∉ s.shared.enqueued → p ∈ s.shared.freed

/-- File operations succeed, the receiver enqueues where a writer is active, and a
writer decides to stop where the ring is still empty or another writer is active. -/
def Drained : CaptureEvent n → Capture n → Prop
  | .start, _ | .stop, _ => True
  | .receiver _ _, s => s.receiver.pc.enqueues = true → ∃ i, (s.writer i).active = true
  | .writer i ok _, s =>
    ok = true ∧ ((s.writer i).pc = .readStatusEmpty → s.shared.captureStatus = .idle →
      s.shared.ring = [] ∨ ∃ j, j ≠ i ∧ (s.writer j).active = true)

end Packets

/-- A packet is counted on both sides of a cut. -/
theorem count_take_add_count_drop (p : Packet) (k : ℕ) (bufs : List Packet) :
    (bufs.take k).count p + (bufs.drop k).count p = bufs.count p := by
  rw [← List.count_append, List.take_append_drop]

section ReceiverStep

variable {threadCnt burst : ℕ} {date : CLib.CStr} {g : Shared} {r : Receiver} {p : Packet}

/-- The receiver neither writes packets nor takes them from the ring: what it adds
to the ring it counts as enqueued. -/
theorem receiver_enqueued_step :
    (pcapProcReceive threadCnt date burst g r).1.written = g.written ∧
      (pcapProcReceive threadCnt date burst g r).1.ring.count p + g.enqueued.count p =
        g.ring.count p + (pcapProcReceive threadCnt date burst g r).1.enqueued.count p := by
  obtain ⟨status, pc⟩ := r
  cases pc with
  | enqueue bufs =>
    refine ⟨rfl, ?_⟩
    simp only [pcapProcReceive, List.count_append]
    omega
  | _ => exact ⟨rfl, rfl⟩

/-- What the receiver takes from the port it puts into the ring, frees or holds. -/
theorem receiver_received_step :
    (pcapProcReceive threadCnt date burst g r).1.ring.count p +
        (pcapProcReceive threadCnt date burst g r).1.freed.count p +
        (pcapProcReceive threadCnt date burst g r).2.pc.bufs.count p + g.received.count p =
      g.ring.count p + g.freed.count p + r.pc.bufs.count p +
        (pcapProcReceive threadCnt date burst g r).1.received.count p := by
  obtain ⟨status, pc⟩ := r
  cases pc with
  | receive =>
    simp only [pcapProcReceive, List.count_append]
    split
    · rename_i hnone
      simp only [hnone, ReceiverPc.bufs, List.count_nil]
      omega
    · simp only [ReceiverPc.bufs, List.count_nil]
      omega
  | enqueue bufs =>
    simp only [pcapProcReceive, List.count_append]
    have hcut := count_take_add_count_drop p (min bufs.length (ringCapacity - g.ring.length)) bufs
    split
    · simp only [ReceiverPc.bufs]
      omega
    · have hall : bufs.drop (min bufs.length (ringCapacity - g.ring.length)) = [] :=
        List.drop_eq_nil_of_le (by omega)
      simp only [hall, ReceiverPc.bufs, List.count_nil] at hcut ⊢
      omega
  | discard bufs =>
    simp only [pcapProcReceive, ReceiverPc.bufs, List.count_append, List.count_nil]
    omega
  | _ =>
    simp only [pcapProcReceive]
    try split
    all_goals simp [ReceiverPc.bufs]

/-- The receiver enqueues packets that it holds. -/
theorem receiver_accepted_step :
    (pcapProcReceive threadCnt date burst g r).1.enqueued.count p +
        (pcapProcReceive threadCnt date burst g r).2.pc.bufs.count p + g.received.count p ≤
      g.enqueued.count p + r.pc.bufs.count p +
        (pcapProcReceive threadCnt date burst g r).1.received.count p := by
  obtain ⟨status, pc⟩ := r
  cases pc with
  | receive =>
    simp only [pcapProcReceive, List.count_append]
    split
    · simp only [ReceiverPc.bufs, List.count_nil]
      omega
    · simp only [ReceiverPc.bufs, List.count_nil]
      omega
  | enqueue bufs =>
    simp only [pcapProcReceive, List.count_append]
    have hcut := count_take_add_count_drop p (min bufs.length (ringCapacity - g.ring.length)) bufs
    split
    · simp only [ReceiverPc.bufs]
      omega
    · simp only [ReceiverPc.bufs, List.count_nil]
      omega
  | discard bufs =>
    simp only [pcapProcReceive, ReceiverPc.bufs, List.count_nil]
    omega
  | _ =>
    simp only [pcapProcReceive]
    try split
    all_goals simp [ReceiverPc.bufs]

/-- Packets are numbered in the order of their arrival. -/
theorem receiver_numbered_step (h : g.received.map Packet.no = List.range g.received.length) :
    (pcapProcReceive threadCnt date burst g r).1.received.map Packet.no =
      List.range (pcapProcReceive threadCnt date burst g r).1.received.length := by
  obtain ⟨status, pc⟩ := r
  cases pc with
  | receive =>
    simp only [pcapProcReceive, List.map_append, List.length_append, h, newPackets, List.map_map,
      List.length_map, List.length_range, List.range_add]
    rfl
  | _ => exact h

end ReceiverStep

section WriterStep

variable {threadNo : ℕ} {full : Bool} {g g' : Shared} {w w' : Writer} {p : Packet}

/-- What a writer takes from the ring it writes or has yet to write. -/
theorem writer_toWrite_step (h : w.Placed)
    (hs : pcapProcWrite threadNo true full g w = some (g', w')) :
    g'.ring.count p + w'.pc.toWrite.count p + (g'.written.map Prod.fst).count p =
      g.ring.count p + w.pc.toWrite.count p + (g.written.map Prod.fst).count p := by
  obtain ⟨status, fileNo, fp, pc⟩ := w
  cases pc with
  | dequeue =>
    have hcut := count_take_add_count_drop p maxPcapBurst g.ring
    simp only [pcapProcWrite] at hs
    cases hs
    dsimp only
    split
    · rename_i hnone
      simp only [hnone, WriterPc.toWrite, List.count_nil] at hcut ⊢
      omega
    · simp only [WriterPc.toWrite, List.count_nil]
      omega
  | writePacket bufs rest =>
    cases rest with
    | nil =>
      cases hs
      rfl
    | cons pkt rest =>
      obtain ⟨fileNo', file, rfl, rfl⟩ := writePacket_step_ok h.2 hs
      simp only [WriterPc.toWrite, List.map_append, List.count_append, List.map_cons, List.map_nil,
        List.count_cons, List.count_nil]
      omega
  | freePackets bufs failed => cases failed <;> cases hs <;> rfl
  | writeFailed bufs => exact h.elim
  | ended => cases hs
  | _ =>
    simp only [pcapProcWrite] at hs
    try split at hs
    all_goals cases hs
    all_goals simp [WriterPc.toWrite]

/-- What a writer takes from the ring it frees or holds. -/
theorem writer_held_step (h : w.Placed)
    (hs : pcapProcWrite threadNo true full g w = some (g', w')) :
    g'.ring.count p + w'.pc.held.count p + g'.freed.count p =
      g.ring.count p + w.pc.held.count p + g.freed.count p := by
  obtain ⟨status, fileNo, fp, pc⟩ := w
  cases pc with
  | dequeue =>
    have hcut := count_take_add_count_drop p maxPcapBurst g.ring
    simp only [pcapProcWrite] at hs
    cases hs
    dsimp only
    split
    · rename_i hnone
      simp only [hnone, WriterPc.held, List.count_nil] at hcut ⊢
      omega
    · simp only [WriterPc.held, List.count_nil]
      omega
  | writePacket bufs rest =>
    cases rest with
    | nil =>
      cases hs
      rfl
    | cons pkt rest =>
      obtain ⟨fileNo', file, rfl, rfl⟩ := writePacket_step_ok h.2 hs
      rfl
  | freePackets bufs failed =>
    have hnext : w'.pc.held = [] := by cases failed <;> cases hs <;> rfl
    rw [hnext]
    cases hs
    simp only [WriterPc.held, List.count_append, List.count_nil]
    omega
  | writeFailed bufs => exact h.elim
  | ended => cases hs
  | _ =>
    simp only [pcapProcWrite] at hs
    try split at hs
    all_goals cases hs
    all_goals simp [WriterPc.held]

/-- A writer does not fill the ring. -/
theorem writer_ring_step (hs : pcapProcWrite threadNo true full g w = some (g', w'))
    (hring : g.ring = []) : g'.ring = [] := by
  obtain ⟨status, fileNo, fp, pc⟩ := w
  cases pc with
  | dequeue =>
    cases hs
    simp [hring]
  | writePacket bufs rest =>
    cases rest with
    | nil =>
      cases hs
      exact hring
    | cons pkt rest =>
      obtain ⟨written, fileNo', fp', rfl, -⟩ := writePacket_step hs
      exact hring
  | ended => cases hs
  | _ =>
    cases hs
    exact hring

/-- An active writer stays active, unless it decides to stop. -/
theorem writer_active_step (h : w.Placed) (hactive : w.active = true)
    (hstay : w.pc = .readStatusEmpty → g.captureStatus ≠ .idle)
    (hs : pcapProcWrite threadNo true full g w = some (g', w')) : w'.active = true := by
  obtain ⟨status, fileNo, fp, pc⟩ := w
  cases pc with
  | writePacket bufs rest =>
    cases rest with
    | nil =>
      cases hs
      simpa [Writer.active] using hactive
    | cons pkt rest =>
      obtain ⟨fileNo', file, -, rfl⟩ := writePacket_step_ok h.2 hs
      simpa [Writer.active] using hactive
  | writeFailed bufs => exact h.elim
  | ended => cases hs
  | _ =>
    simp only [pcapProcWrite] at hs
    try split at hs
    all_goals cases hs
    all_goals simp_all [Writer.active, Writer.Placed]

end WriterStep

section Run

variable {n : ℕ} {s t : Capture n}

/-- Where the packets are in every state of a drained run. -/
structure StopInv (s : Capture n) : Prop where
  receiver : s.receiver.Placed
  writer : ∀ i, (s.writer i).Placed
  active : s.shared.ring ≠ [] → ∃ i, (s.writer i).active = true
  enqueued : ∀ p, s.shared.ring.count p + total (fun w => w.pc.toWrite.count p) s.writer +
    (s.shared.written.map Prod.fst).count p = s.shared.enqueued.count p
  received : ∀ p, s.shared.ring.count p + total (fun w => w.pc.held.count p) s.writer +
    s.shared.freed.count p + s.receiver.pc.bufs.count p = s.shared.received.count p
  accepted : ∀ p, s.shared.enqueued.count p + s.receiver.pc.bufs.count p ≤ s.shared.received.count p
  numbered : s.shared.received.map Packet.no = List.range s.shared.received.length

/-- There are no packets at first. -/
theorem stopInv_initial : StopInv (n := n) {} where
  receiver := trivial
  writer := fun _ h => absurd h (by simp)
  active := fun h => absurd rfl h
  enqueued := fun p => by
    have hzero : total (fun w => w.pc.toWrite.count p) ({} : Capture n).writer = 0 :=
      total_eq_zero fun _ => rfl
    rw [hzero]
    rfl
  received := fun p => by
    have hzero : total (fun w => w.pc.held.count p) ({} : Capture n).writer = 0 :=
      total_eq_zero fun _ => rfl
    rw [hzero]
    rfl
  accepted := fun _ => le_rfl
  numbered := rfl

/-- A drained step of the receiver keeps what holds. -/
theorem StopInv.receiver_step {date : CLib.CStr} {burst : ℕ} (h : StopInv s)
    (hguard : Drained (.receiver date burst) s)
    (hs : captureStep (.receiver date burst) s = some t) : StopInv t := by
  cases hs
  refine ⟨h.receiver.step, h.writer, ?_, fun p => ?_, fun p => ?_, fun p => ?_, ?_⟩
  · intro hring
    cases hpc : s.receiver.pc with
    | enqueue bufs => exact hguard (by rw [hpc]; rfl)
    | _ =>
      simp only [pcapProcReceive, hpc] at hring
      exact h.active hring
  · have henqueued := h.enqueued p
    obtain ⟨hwritten, hmoved⟩ := @receiver_enqueued_step (n + 1) burst date s.shared s.receiver p
    dsimp only
    rw [hwritten]
    omega
  · have hreceived := h.received p
    have hmoved := @receiver_received_step (n + 1) burst date s.shared s.receiver p
    dsimp only
    omega
  · have haccepted := h.accepted p
    have hmoved := @receiver_accepted_step (n + 1) burst date s.shared s.receiver p
    dsimp only
    omega
  · exact receiver_numbered_step h.numbered

/-- A drained step of a writer keeps what holds. -/
theorem StopInv.writer_step {i : Fin n} {ok full : Bool} (h : StopInv s)
    (hguard : Drained (.writer i ok full) s)
    (hs : captureStep (.writer i ok full) s = some t) : StopInv t := by
  obtain ⟨g', w', hwrite, rfl⟩ := captureStep_writer hs
  obtain ⟨rfl, hstop⟩ := hguard
  obtain ⟨startUpCnt, ring, written, freed, hframe⟩ := pcapProcWrite_frame hwrite
  have henqueued' : g'.enqueued = s.shared.enqueued := by rw [hframe]
  have hreceived' : g'.received = s.shared.received := by rw [hframe]
  refine ⟨h.receiver, forall_update h.writer ((h.writer i).step (fun _ => rfl) hwrite), ?_,
    fun p => ?_, fun p => ?_, fun p => ?_, ?_⟩
  · intro hring
    have hbefore : s.shared.ring ≠ [] := fun hnil => hring (writer_ring_step hwrite hnil)
    have hother (j : Fin n) (hj : j ≠ i) (hactive : (s.writer j).active = true) :
        ∃ k, (Function.update s.writer i w' k).active = true :=
      ⟨j, by rw [Function.update_of_ne hj, hactive]⟩
    by_cases hdecides : (s.writer i).pc = .readStatusEmpty ∧ s.shared.captureStatus = .idle
    · obtain hnil | ⟨j, hj, hactive⟩ := hstop hdecides.1 hdecides.2
      · exact absurd hnil hbefore
      · exact hother j hj hactive
    · obtain ⟨j, hactive⟩ := h.active hbefore
      by_cases hj : j = i
      · subst hj
        refine ⟨j, ?_⟩
        dsimp only
        rw [Function.update_self]
        exact writer_active_step (h.writer j) hactive
          (fun hpc hidle => hdecides ⟨hpc, hidle⟩) hwrite
      · exact hother j hj hactive
  · have henqueued := h.enqueued p
    have hmoved := @writer_toWrite_step _ _ _ _ _ _ p (h.writer i) hwrite
    have htotal := @total_update _ _ (fun w : Writer => w.pc.toWrite.count p) s.writer _ _ i w'
    dsimp only at htotal ⊢
    rw [henqueued']
    omega
  · have hreceived := h.received p
    have hmoved := @writer_held_step _ _ _ _ _ _ p (h.writer i) hwrite
    have htotal := @total_update _ _ (fun w : Writer => w.pc.held.count p) s.writer _ _ i w'
    dsimp only at htotal ⊢
    rw [hreceived']
    omega
  · dsimp only
    rw [henqueued', hreceived']
    exact h.accepted p
  · dsimp only
    rw [hreceived']
    exact h.numbered

/-- An idle writer holds no packets. -/
theorem Writer.Placed.held_of_idle {w : Writer} (h : w.Placed) (hidle : w.status = .idle) :
    w.pc.held = [] ∧ w.pc.toWrite = [] := by
  obtain ⟨status, fileNo, fp, pc⟩ := w
  cases pc with
  | freePackets bufs failed => cases failed <;> simp_all [Writer.Placed]
  | _ => simp_all [Writer.Placed, WriterPc.held, WriterPc.toWrite]

/-- An idle receiver holds no packets. -/
theorem Receiver.Placed.bufs_of_idle {r : Receiver} (h : r.Placed) (hidle : r.status = .idle) :
    r.pc.bufs = [] := by
  obtain ⟨status, pc⟩ := r
  cases pc <;> simp_all [Receiver.Placed, ReceiverPc.bufs]

/-- No packet is received twice. -/
theorem StopInv.received_count_le (h : StopInv s) (p : Packet) : s.shared.received.count p ≤ 1 := by
  have hnodup : s.shared.received.Nodup := by
    refine List.Nodup.of_map Packet.no ?_
    rw [h.numbered]
    exact List.nodup_range
  exact List.nodup_iff_count_le_one.mp hnodup p

/-- What holds in every state of a drained run leaves nothing behind in a stopped
state. -/
theorem StopInv.nothingLost (h : StopInv s) (hstopped : s.stopped) : NothingLost s := by
  obtain ⟨-, hreceiver, hwriter⟩ := hstopped
  have hring : s.shared.ring = [] := by
    by_contra hne
    obtain ⟨i, hactive⟩ := h.active hne
    simp [Writer.active, hwriter i] at hactive
  have hbufs : s.receiver.pc.bufs = [] := h.receiver.bufs_of_idle hreceiver
  have hwritten (p : Packet) :
      (s.shared.written.map Prod.fst).count p = s.shared.enqueued.count p := by
    have hzero : total (fun w => w.pc.toWrite.count p) s.writer = 0 :=
      total_eq_zero fun i => by simp [((h.writer i).held_of_idle (hwriter i)).2]
    have henqueued := h.enqueued p
    simp only [hring, List.count_nil] at henqueued
    omega
  have hfreed (p : Packet) : s.shared.freed.count p = s.shared.received.count p := by
    have hzero : total (fun w => w.pc.held.count p) s.writer = 0 :=
      total_eq_zero fun i => by simp [((h.writer i).held_of_idle (hwriter i)).1]
    have hreceived := h.received p
    simp only [hring, hbufs, List.count_nil] at hreceived
    omega
  refine ⟨hring, fun p hp => ?_, fun p hp _ => ?_⟩
  · have hpos : 0 < s.shared.enqueued.count p := List.count_pos_iff.mpr hp
    have haccepted := h.accepted p
    have hle := h.received_count_le p
    rw [hwritten, hfreed]
    omega
  · have hpos : 0 < s.shared.received.count p := List.count_pos_iff.mpr hp
    rw [← hfreed] at hpos
    exact List.count_pos_iff.mp hpos

/-- In every run, of any number of writers, in which file operations succeed, the
receiver enqueues where a writer is active, and a writer decides to stop where the
ring is still empty or another writer is active, a stopped capture has lost nothing. -/
theorem nothingLost_of_reaches (h : Reaches captureStep Drained {} s) (hstopped : s.stopped) :
    NothingLost s := by
  refine StopInv.nothingLost (h.invariant stopInv_initial ?_) hstopped
  intro e u v hinv hguard hs
  cases e with
  | start =>
    cases hs
    exact ⟨hinv.receiver, hinv.writer, hinv.active, hinv.enqueued, hinv.received, hinv.accepted,
      hinv.numbered⟩
  | stop =>
    cases hs
    exact ⟨hinv.receiver, hinv.writer, hinv.active, hinv.enqueued, hinv.received, hinv.accepted,
      hinv.numbered⟩
  | receiver date burst => exact hinv.receiver_step hguard hs
  | writer i ok full => exact hinv.writer_step hguard hs

/-- Two packets are captured by one writer, and the capture is stopped. -/
def captureTwoRun : List (CaptureEvent 1) :=
  .start :: List.replicate 7 (.receiver [] 2) ++ List.replicate 6 (.writer sole true false) ++
    List.replicate 3 (.receiver [] 2) ++ .stop :: List.replicate 6 (.receiver [] 2) ++
    List.replicate 11 (.writer sole true false)

/-- The condition of a drained step, as a test for one writer. -/
def drainedTest : CaptureEvent 1 → Capture 1 → Bool
  | .start, _ | .stop, _ => true
  | .receiver _ _, s => !s.receiver.pc.enqueues || (s.writer sole).active
  | .writer _ ok _, s => ok && ((s.writer sole).pc ≠ .readStatusEmpty || s.shared.ring.isEmpty)

/-- A step that passes the test is drained. -/
theorem drained_of_test (e : CaptureEvent 1) (s : Capture 1) (h : drainedTest e s = true) :
    Drained e s := by
  cases e with
  | start => trivial
  | stop => trivial
  | receiver date burst =>
    intro henqueues
    refine ⟨sole, ?_⟩
    simpa [drainedTest, henqueues] using h
  | writer i ok full =>
    simp only [drainedTest, Bool.and_eq_true, Bool.or_eq_true, decide_eq_true_eq,
      List.isEmpty_iff] at h
    obtain rfl : i = sole := Subsingleton.elim i sole
    exact ⟨h.1, fun hpc _ => .inl (h.2.resolve_left fun hne => hne hpc)⟩

/-- The capture of two packets is stopped, and they are not lost. -/
theorem nothingLost_captureTwoRun :
    ∃ s, runAll (tested captureStep drainedTest) captureTwoRun {} = some s ∧
      s.stopped ∧ s.shared.enqueued.length = 2 ∧ NothingLost s := by
  have hrun : (runAll (tested captureStep drainedTest) captureTwoRun {}).any (fun s =>
      s.shared.captureRequest = .idle ∧ s.receiver.status = .idle ∧ (s.writer sole).status = .idle ∧
        s.shared.enqueued.length = 2) = true := by decide
  obtain ⟨s, hs, hrequest, hreceiver, hwriter, hlength⟩ := exists_of_runAll hrun
  have hstopped : s.stopped := ⟨hrequest, hreceiver, fun i => Subsingleton.elim sole i ▸ hwriter⟩
  have hreach : Reaches captureStep Drained {} s :=
    reaches_of_runAll_tested hs fun e _ u => drained_of_test e u
  exact ⟨s, hs, hstopped, hlength, nothingLost_of_reaches hreach hstopped⟩

/-- The writer finds the ring empty, the receiver enqueues two packets and stops,
and the writer reads that the capture is idle. -/
def lateEnqueueRun : List (CaptureEvent 1) :=
  .start :: List.replicate 7 (.receiver [] 2) ++ List.replicate 7 (.writer sole true false) ++
    List.replicate 3 (.receiver [] 2) ++ .stop :: List.replicate 4 (.receiver [] 2) ++
    List.replicate 2 (.writer sole true false)

/-- A stopped capture can leave packets in the ring. -/
theorem not_nothingLost_lateEnqueue : ∃ s, runAll captureStep lateEnqueueRun {} = some s ∧
    (∀ i b, .writer i false b ∉ lateEnqueueRun) ∧ s.stopped ∧ ¬ NothingLost s := by
  have hrun : (runAll captureStep lateEnqueueRun {}).any (fun s =>
      s.shared.captureRequest = .idle ∧ s.receiver.status = .idle ∧ (s.writer sole).status = .idle ∧
        s.shared.ring ≠ []) = true := by decide
  obtain ⟨s, hs, hrequest, hreceiver, hwriter, hring⟩ := exists_of_runAll hrun
  exact ⟨s, hs, by simp [lateEnqueueRun],
    ⟨hrequest, hreceiver, fun i => Subsingleton.elim sole i ▸ hwriter⟩, fun h => hring h.ring⟩

end Run

end Spp.Pcap
