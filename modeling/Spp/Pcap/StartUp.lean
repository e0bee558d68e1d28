import Spp.Lib.Parties
import Spp.Pcap.Places

/-!
# The start-up barrier

Every core of spp_pcap counts itself in `start_up_cnt` when it starts and takes
itself out when it stops, in a read step and a write step of its own. The
receiver takes packets once the count reaches the number of cores. Here is what
keeps the count right, and what it then says about the cores.
-/

namespace Spp.Pcap

open GuardedRun Parties

section Counted

/-- The receiver runs and has yet to count itself. -/
def ReceiverPc.starting : ReceiverPc → Bool
  | .setCaptureRunning | .readCount | .writeCount _ => true
  | _ => false

/-- The receiver is idle and has yet to take itself out of the count. -/
def ReceiverPc.stopping : ReceiverPc → Bool
  | .setCaptureIdle | .readCountStop | .writeCountStop _ => true
  | _ => false

/-- The count that the receiver has read, and from which it computes the new one. -/
def ReceiverPc.pending : ReceiverPc → Option ℕ
  | .writeCount cnt | .writeCountStop cnt => some cnt
  | _ => none

/-- The writer runs and has yet to count itself. -/
def WriterPc.starting : WriterPc → Bool
  | .initFile | .initFailed | .readCount | .writeCount _ => true
  | _ => false

/-- The writer is idle and has yet to take itself out of the count. -/
def WriterPc.stopping : WriterPc → Bool
  | .readCountStop | .writeCountStop _ => true
  | _ => false

/-- The count that the writer has read, and from which it computes the new one. -/
def WriterPc.pending : WriterPc → Option ℕ
  | .writeCount cnt | .writeCountStop cnt => some cnt
  | _ => none

/-- The receiver runs and has completed its start. -/
def Receiver.started (r : Receiver) : Bool := r.status = .running && !r.pc.starting

/-- The writer runs and has completed its start. -/
def Writer.started (w : Writer) : Bool := w.status = .running && !w.pc.starting

/-- The receiver is at an update of the count, which begins with its change of
status when it stops. -/
def Receiver.updating (r : Receiver) : Bool := r.pc.pending.isSome || r.pc.stopping

/-- The writer is at an update of the count. -/
def Writer.updating (w : Writer) : Bool := w.pc.pending.isSome || w.pc.stopping

/-- What the receiver has contributed to the count. -/
def Receiver.counted (r : Receiver) : ℕ := (r.started || r.pc.stopping).toNat

/-- What the writer has contributed to the count. -/
def Writer.counted (w : Writer) : ℕ := (w.started || w.pc.stopping).toNat

variable {n : ℕ}

/-- The number of cores that run and have completed their start. -/
def Capture.startedCores (s : Capture n) : ℕ :=
  s.receiver.started.toNat + total (fun w => w.started.toNat) s.writer

/-- The barrier is sound: between the updates the count is the number of started
cores, and where the receiver takes packets every core runs, with its file open
if it is a writer. -/
structure StartUpBarrier (s : Capture n) : Prop where
  count : s.receiver.updating = false → (∀ i, (s.writer i).updating = false) →
    s.shared.startUpCnt = s.startedCores
  receive : s.receiver.pc = .receive →
    s.receiver.status = .running ∧
      ∀ i, (s.writer i).status = .running ∧ (s.writer i).compressFp.isSome

/-- Updates of the count do not overlap, no operation on the file of a started
writer fails, the receiver does not pass the wait while a writer that stops is
still counted, and no writer stops where the receiver takes packets. -/
def Undisturbed : CaptureEvent n → Capture n → Prop
  | .start, _ | .stop, _ => True
  | .receiver _ _, s =>
    (s.receiver.pc.pending.isSome → ∀ i, (s.writer i).pc.pending = none) ∧
      (s.receiver.pc = .startUpWait → n + 1 ≤ s.shared.startUpCnt →
        ∀ i, (s.writer i).pc.stopping = false)
  | .writer i ok _, s =>
    ((s.writer i).pc.pending.isSome →
      s.receiver.pc.pending = none ∧ ∀ j, j ≠ i → (s.writer j).pc.pending = none) ∧
      ((s.writer i).writing → ok = true) ∧
      ((s.writer i).pc = .setIdle → s.receiver.pc ≠ .receive)

end Counted

section ReceiverStep

variable {threadCnt burst : ℕ} {date : CLib.CStr} {g : Shared} {r : Receiver}

/-- Without a pending update the receiver leaves the count alone. -/
theorem receiver_startUpCnt_of_pending (h : r.pc.pending = none) :
    (pcapProcReceive threadCnt date burst g r).1.startUpCnt = g.startUpCnt := by
  obtain ⟨status, pc⟩ := r
  cases pc <;> first | rfl | cases h

/-- What the receiver has read of the count is the count, after its step as well. -/
theorem receiver_pending_step {cnt : ℕ}
    (hnext : (pcapProcReceive threadCnt date burst g r).2.pc.pending = some cnt) :
    cnt = (pcapProcReceive threadCnt date burst g r).1.startUpCnt := by
  obtain ⟨status, pc⟩ := r
  cases pc <;> simp only [pcapProcReceive] at hnext ⊢ <;> (try split at hnext) <;>
    simp_all [ReceiverPc.pending]

/-- The count moves with what the receiver contributes. -/
theorem receiver_counted_step (h : r.Placed) (hle : r.counted ≤ g.startUpCnt)
    (hpending : ∀ cnt, r.pc.pending = some cnt → cnt = g.startUpCnt) :
    (pcapProcReceive threadCnt date burst g r).1.startUpCnt + r.counted =
      g.startUpCnt + (pcapProcReceive threadCnt date burst g r).2.counted := by
  obtain ⟨status, pc⟩ := r
  have hstatus : status ≠ .idle → status = .running := CaptureStatus.running_of_ne_idle
  cases pc <;> simp only [Receiver.Placed] at h <;> simp only [pcapProcReceive] <;> (try split) <;>
    simp_all [Receiver.counted, Receiver.started, ReceiverPc.starting, ReceiverPc.stopping,
      ReceiverPc.pending]

/-- Where the receiver goes on to take packets, the count has reached the number
of cores. -/
theorem receiver_receive_step
    (hnext : (pcapProcReceive threadCnt date burst g r).2.pc = .receive) :
    r.pc = .startUpWait ∧ threadCnt ≤ g.startUpCnt := by
  obtain ⟨status, pc⟩ := r
  cases pc <;> simp only [pcapProcReceive] at hnext <;> (try split at hnext) <;> simp_all

end ReceiverStep

section WriterStep

variable {threadNo : ℕ} {ok full : Bool} {g g' : Shared} {w w' : Writer}

/-- Without a pending update a writer leaves the count alone. -/
theorem writer_startUpCnt_of_pending (h : w.pc.pending = none)
    (hs : pcapProcWrite threadNo ok full g w = some (g', w')) : g'.startUpCnt = g.startUpCnt := by
  obtain ⟨status, fileNo, fp, pc⟩ := w
  cases pc with
  | initFile => cases ok <;> cases hs <;> rfl
  | writeCount cnt => cases h
  | writeCountStop cnt => cases h
  | writePacket bufs rest =>
    cases rest with
    | nil =>
      cases hs
      rfl
    | cons pkt rest =>
      obtain ⟨written, fileNo', fp', rfl, rfl | rfl⟩ := writePacket_step hs <;> rfl
  | ended => cases hs
  | _ =>
    cases hs
    rfl

/-- What a writer has read of the count is the count, after its step as well. -/
theorem writer_pending_step {cnt : ℕ} (hs : pcapProcWrite threadNo ok full g w = some (g', w'))
    (hnext : w'.pc.pending = some cnt) : cnt = g'.startUpCnt := by
  obtain ⟨status, fileNo, fp, pc⟩ := w
  cases pc with
  | initFile => cases ok <;> cases hs <;> cases hnext
  | writePacket bufs rest =>
    cases rest with
    | nil =>
      cases hs
      cases hnext
    | cons pkt rest =>
      obtain ⟨written, fileNo', fp', rfl, rfl | rfl⟩ := writePacket_step hs <;> cases hnext
  | freePackets bufs failed => cases failed <;> cases hs <;> cases hnext
  | ended => cases hs
  | _ =>
    simp only [pcapProcWrite] at hs
    try split at hs
    all_goals cases hs
    all_goals simp_all [WriterPc.pending]

/-- The count moves with what a writer contributes. -/
theorem writer_counted_step (h : w.Placed) (hok : w.writing → ok = true)
    (hle : w.counted ≤ g.startUpCnt)
    (hpending : ∀ cnt, w.pc.pending = some cnt → cnt = g.startUpCnt)
    (hs : pcapProcWrite threadNo ok full g w = some (g', w')) :
    g'.startUpCnt + w.counted = g.startUpCnt + w'.counted := by
  obtain ⟨status, fileNo, fp, pc⟩ := w
  have hstatus : status ≠ .idle → status = .running := CaptureStatus.running_of_ne_idle
  cases pc with
  | initFile => cases ok <;> cases hs <;> rfl
  | writePacket bufs rest =>
    cases rest with
    | nil =>
      cases hs
      rfl
    | cons pkt rest =>
      obtain rfl := hok rfl
      obtain ⟨fileNo', file, rfl, rfl⟩ := writePacket_step_ok h.2 hs
      rfl
  | writeFailed bufs => exact h.elim
  | ended => cases hs
  | _ =>
    simp only [pcapProcWrite] at hs
    try split at hs
    all_goals cases hs
    all_goals simp_all [Writer.counted, Writer.started, Writer.Placed, WriterPc.starting,
      WriterPc.stopping, WriterPc.pending]

/-- A started writer stays started, unless it stops. -/
theorem writer_started_step (h : w.Placed) (hok : w.writing → ok = true)
    (hstarted : w.started = true) (hstop : w.pc ≠ .setIdle)
    (hs : pcapProcWrite threadNo ok full g w = some (g', w')) :
    w'.started = true := by
  obtain ⟨status, fileNo, fp, pc⟩ := w
  cases pc with
  | writePacket bufs rest =>
    cases rest with
    | nil =>
      cases hs
      exact hstarted
    | cons pkt rest =>
      obtain rfl := hok rfl
      obtain ⟨fileNo', file, -, rfl⟩ := writePacket_step_ok h.2 hs
      exact hstarted
  | setIdle => exact absurd rfl hstop
  | writeFailed bufs => exact h.elim
  | ended => cases hs
  | _ =>
    simp only [pcapProcWrite] at hs
    try split at hs
    all_goals cases hs
    all_goals simp_all [Writer.started, Writer.Placed, WriterPc.starting]

end WriterStep

section Run

variable {n : ℕ} {s t : Capture n}

/-- What holds in every state of an undisturbed run. -/
structure BarrierInv (s : Capture n) : Prop where
  receiver : s.receiver.Placed
  writer : ∀ i, (s.writer i).Placed
  count : s.shared.startUpCnt = s.receiver.counted + total Writer.counted s.writer
  receiverPending : ∀ cnt, s.receiver.pc.pending = some cnt → cnt = s.shared.startUpCnt
  writerPending : ∀ i cnt, (s.writer i).pc.pending = some cnt → cnt = s.shared.startUpCnt
  receive : s.receiver.pc = .receive → ∀ i, (s.writer i).started = true

/-- A core contributes at most one. -/
theorem Writer.counted_le_one (w : Writer) : w.counted ≤ 1 := Bool.toNat_le _

/-- The contribution of one writer is part of the count. -/
theorem BarrierInv.counted_le (h : BarrierInv s) (i : Fin n) :
    (s.writer i).counted ≤ s.shared.startUpCnt := by
  have hsum : (s.writer i).counted ≤ total Writer.counted s.writer := le_total i
  have hcount := h.count
  omega

/-- Nothing has started at first. -/
theorem barrierInv_initial : BarrierInv (n := n) {} where
  receiver := trivial
  writer := fun _ h => absurd h (by simp)
  count := by
    have hzero : total Writer.counted ({} : Capture n).writer = 0 := total_eq_zero fun _ => rfl
    rw [hzero]
    rfl
  receiverPending := fun _ h => absurd h (by simp [ReceiverPc.pending])
  writerPending := fun _ _ h => absurd h (by simp [WriterPc.pending])
  receive := fun h => absurd h (by simp)

/-- An undisturbed step of the receiver keeps what holds. -/
theorem BarrierInv.receiver_step {date : CLib.CStr} {burst : ℕ} (h : BarrierInv s)
    (hguard : Undisturbed (.receiver date burst) s)
    (hs : captureStep (.receiver date burst) s = some t) : BarrierInv t := by
  cases hs
  have hcount := h.count
  have hmoved := @receiver_counted_step (n + 1) burst date s.shared s.receiver h.receiver (by omega)
    h.receiverPending
  refine ⟨h.receiver.step, h.writer, ?_, fun _ => receiver_pending_step, ?_, ?_⟩
  · dsimp only
    omega
  · intro i cnt hi
    cases hpending : s.receiver.pc.pending with
    | none =>
      dsimp only
      rw [receiver_startUpCnt_of_pending hpending]
      exact h.writerPending i cnt hi
    | some _ =>
      have hnone := hguard.1 (by simp [hpending]) i
      rw [hnone] at hi
      cases hi
  · intro hreceive i
    obtain ⟨hwait, hreached⟩ := receiver_receive_step hreceive
    have hone : s.receiver.counted ≤ 1 := Bool.toNat_le _
    have hreach : Fintype.card (Fin n) ≤ total Writer.counted s.writer := by
      rw [Fintype.card_fin]
      omega
    have hall : (s.writer i).counted = 1 :=
      eq_one_of_card_le_total (fun j => Writer.counted_le_one (s.writer j)) hreach i
    have hstays := hguard.2 hwait hreached i
    simpa [Writer.counted, hstays] using hall

/-- An undisturbed step of a writer keeps what holds. -/
theorem BarrierInv.writer_step {i : Fin n} {ok full : Bool} (h : BarrierInv s)
    (hguard : Undisturbed (.writer i ok full) s)
    (hs : captureStep (.writer i ok full) s = some t) : BarrierInv t := by
  obtain ⟨g', w', hwrite, rfl⟩ := captureStep_writer hs
  obtain ⟨halone, hok, hstop⟩ := hguard
  have hcount := h.count
  have hmoved := writer_counted_step (h.writer i) hok (h.counted_le i) (h.writerPending i) hwrite
  have htotal := @total_update _ _ Writer.counted s.writer _ _ i w'
  have hkept : (s.writer i).pc.pending = none → g'.startUpCnt = s.shared.startUpCnt := fun hnone =>
    writer_startUpCnt_of_pending hnone hwrite
  refine ⟨h.receiver, forall_update h.writer ((h.writer i).step hok hwrite), ?_, ?_, ?_, ?_⟩
  · dsimp only
    omega
  · intro cnt hcnt
    cases hpending : (s.writer i).pc.pending with
    | none =>
      dsimp only
      rw [hkept hpending]
      exact h.receiverPending cnt hcnt
    | some _ =>
      have hnone := (halone (by simp [hpending])).1
      rw [hnone] at hcnt
      cases hcnt
  · intro j cnt hcnt
    dsimp only at hcnt ⊢
    by_cases hj : j = i
    · subst hj
      rw [Function.update_self] at hcnt
      exact writer_pending_step hwrite hcnt
    · rw [Function.update_of_ne hj] at hcnt
      cases hpending : (s.writer i).pc.pending with
      | none =>
        rw [hkept hpending]
        exact h.writerPending j cnt hcnt
      | some _ =>
        have hnone := (halone (by simp [hpending])).2 j hj
        rw [hnone] at hcnt
        cases hcnt
  · intro hreceive
    have hnotStop : (s.writer i).pc ≠ .setIdle := fun hpc => hstop hpc hreceive
    have hnext := writer_started_step (h.writer i) hok (h.receive hreceive i) hnotStop hwrite
    exact forall_update (P := fun w : Writer => w.started = true) (h.receive hreceive) hnext

/-- A started writer runs and its file is open. -/
theorem Writer.Placed.file_of_started {w : Writer} (h : w.Placed) (hstarted : w.started = true) :
    w.status = .running ∧ w.compressFp.isSome := by
  obtain ⟨status, fileNo, fp, pc⟩ := w
  cases pc with
  | freePackets bufs failed => cases failed <;> simp_all [Writer.Placed, Writer.started]
  | _ => simp_all [Writer.Placed, Writer.started, WriterPc.starting]

/-- Without an update under way, what a writer contributes is whether it has
started. -/
theorem Writer.counted_of_updating {w : Writer} (h : w.updating = false) :
    w.counted = w.started.toNat := by
  have hstop : w.pc.stopping = false := (Bool.or_eq_false_iff.mp h).2
  simp [Writer.counted, hstop]

/-- What holds in every state of an undisturbed run makes the barrier sound. -/
theorem BarrierInv.startUpBarrier (h : BarrierInv s) : StartUpBarrier s := by
  constructor
  · intro hreceiver hwriter
    have hstop : s.receiver.pc.stopping = false := (Bool.or_eq_false_iff.mp hreceiver).2
    have hcounted : s.receiver.counted = s.receiver.started.toNat := by
      simp [Receiver.counted, hstop]
    have htotal : total Writer.counted s.writer = total (fun w => w.started.toNat) s.writer :=
      Finset.sum_congr rfl fun i _ => Writer.counted_of_updating (hwriter i)
    rw [h.count, hcounted, htotal]
    rfl
  · intro hreceive
    have hplaced := h.receiver
    unfold Receiver.Placed at hplaced
    rw [hreceive] at hplaced
    exact ⟨hplaced, fun i => (h.writer i).file_of_started (h.receive hreceive i)⟩

/-- In every run, of any number of writers, in which the updates of the count do
not overlap, no started writer fails and the barrier is not passed or a writer
stopped at the wrong moment, the barrier is sound in every state. -/
theorem startUpBarrier_of_reaches (h : Reaches captureStep Undisturbed {} s) :
    StartUpBarrier s := by
  refine BarrierInv.startUpBarrier (h.invariant barrierInv_initial ?_)
  intro e u v hinv hguard hs
  cases e with
  | start =>
    cases hs
    exact ⟨hinv.receiver, hinv.writer, hinv.count, hinv.receiverPending, hinv.writerPending,
      hinv.receive⟩
  | stop =>
    cases hs
    exact ⟨hinv.receiver, hinv.writer, hinv.count, hinv.receiverPending, hinv.writerPending,
      hinv.receive⟩
  | receiver date burst => exact hinv.receiver_step hguard hs
  | writer i ok full => exact hinv.writer_step hguard hs

/-- A run of one writer up to the place where the receiver takes packets. -/
def startUpRun : List (CaptureEvent 1) :=
  .start :: List.replicate 7 (.receiver [] 2) ++ List.replicate 6 (.writer sole true false) ++
    [.receiver [] 2]

/-- The condition of an undisturbed step, as a test for one writer that never
fails. -/
def undisturbedTest : CaptureEvent 1 → Capture 1 → Bool
  | .start, _ | .stop, _ => true
  | .receiver _ _, s => (s.writer sole).pc.pending.isNone && !(s.writer sole).pc.stopping
  | .writer _ ok _, s =>
    s.receiver.pc.pending.isNone && ok && decide ((s.writer sole).pc ≠ .setIdle)

/-- A step that passes the test is undisturbed. -/
theorem undisturbed_of_test (e : CaptureEvent 1) (s : Capture 1) (h : undisturbedTest e s = true) :
    Undisturbed e s := by
  cases e with
  | start => trivial
  | stop => trivial
  | receiver date burst =>
    simp only [undisturbedTest, Bool.and_eq_true, Option.isNone_iff_eq_none,
      Bool.not_eq_true'] at h
    exact ⟨fun _ i => Subsingleton.elim sole i ▸ h.1, fun _ _ i => Subsingleton.elim sole i ▸ h.2⟩
  | writer i ok full =>
    simp only [undisturbedTest, Bool.and_eq_true, Option.isNone_iff_eq_none,
      decide_eq_true_eq] at h
    obtain rfl : i = sole := Subsingleton.elim i sole
    exact ⟨fun _ => ⟨h.1.1, fun j hj => absurd (Subsingleton.elim j sole) hj⟩, fun _ => h.1.2,
      fun hpc => absurd hpc h.2⟩

/-- The run reaches the place where the receiver takes packets, and the barrier is
sound there. -/
theorem startUpBarrier_startUpRun :
    ∃ s, runAll (tested captureStep undisturbedTest) startUpRun {} = some s ∧
      s.receiver.pc = .receive ∧ StartUpBarrier s := by
  have hrun : (runAll (tested captureStep undisturbedTest) startUpRun {}).any
      (fun s => s.receiver.pc = .receive) = true := by decide
  obtain ⟨s, hs, hpc⟩ := exists_of_runAll hrun
  have hreach : Reaches captureStep Undisturbed {} s :=
    reaches_of_runAll_tested hs fun e _ u => undisturbed_of_test e u
  exact ⟨s, hs, hpc, startUpBarrier_of_reaches hreach⟩

/-- The receiver reads the count, the writer counts itself, and the receiver
stores its stale sum: the update of the writer is lost. -/
def lostUpdateRun : List (CaptureEvent 1) :=
  .start :: List.replicate 6 (.receiver [] 2) ++ List.replicate 6 (.writer sole true false) ++
    [.receiver [] 2]

/-- The barrier is not sound in every run. -/
theorem not_startUpBarrier_lostUpdate : ∃ s, runAll captureStep lostUpdateRun {} = some s ∧
    ¬ StartUpBarrier s := by
  have hrun : (runAll captureStep lostUpdateRun {}).any (fun s => s.receiver.updating = false ∧
      (s.writer sole).updating = false ∧ s.shared.startUpCnt ≠ s.startedCores) = true := by decide
  obtain ⟨s, hs, hreceiver, hwriter, hcount⟩ := exists_of_runAll hrun
  exact ⟨s, hs, fun h => hcount (h.count hreceiver fun i => Subsingleton.elim sole i ▸ hwriter)⟩

end Run

end Spp.Pcap
