import Spp.Pcap.Capture

/-!
# What the place of a core says about it

The status of a core, its open file and the packets it holds, by its place in the
program. A writer keeps to this as long as no operation on the file of its packets
fails.
-/

namespace Spp.Pcap

/-- The status of the receiver at its place. -/
def Receiver.Placed (r : Receiver) : Prop :=
  match r.pc with
  | .setIdle | .setCaptureRunning | .readCount | .writeCount _ | .startUpWait | .receive
  | .enqueue _ | .discard _ => r.status = .running
  | .setCaptureIdle | .readCountStop | .writeCountStop _ | .setDate | .setRunning =>
    r.status = .idle
  | .readRequest | .testRunning | .testIdle => True

/-- The status of a writer at its place, and whether its file is open. -/
def Writer.Placed (w : Writer) : Prop :=
  match w.pc with
  | .readStatus | .testIdle | .testStart => w.status = .running → w.compressFp.isSome
  | .setRunning | .readCountStop | .writeCountStop _ | .closeFile | .ended => w.status = .idle
  | .initFile | .initFailed => w.status = .running
  | .readCount | .writeCount _ | .dequeue | .readStatusEmpty | .setIdle | .writePacket _ _
  | .freePackets _ false => w.status = .running ∧ w.compressFp.isSome
  | .writeFailed _ | .freePackets _ true => False

/-- Whether the writer is about to write a packet. -/
def Writer.writing (w : Writer) : Bool :=
  match w.pc with
  | .writePacket _ (_ :: _) => true
  | _ => false

/-- The packets that the receiver has taken from the port and not handed on. -/
def ReceiverPc.bufs : ReceiverPc → List Packet
  | .enqueue bufs | .discard bufs => bufs
  | _ => []

/-- The packets that a writer has taken from the ring and not freed. -/
def WriterPc.held : WriterPc → List Packet
  | .writePacket bufs _ | .writeFailed bufs | .freePackets bufs _ => bufs
  | _ => []

/-- The packets that a writer has taken from the ring and not written. -/
def WriterPc.toWrite : WriterPc → List Packet
  | .writePacket _ rest => rest
  | _ => []

/-- A status that is not idle is running. -/
theorem CaptureStatus.running_of_ne_idle {c : CaptureStatus} (h : c ≠ .idle) : c = .running := by
  cases c
  · exact absurd rfl h
  · rfl

section Receiver

variable {threadCnt burst : ℕ} {date : CLib.CStr} {g : Shared} {r : Receiver}

/-- The receiver keeps to its places. -/
theorem Receiver.Placed.step (h : r.Placed) :
    (pcapProcReceive threadCnt date burst g r).2.Placed := by
  obtain ⟨status, pc⟩ := r
  have hstatus : status ≠ .idle → status = .running := CaptureStatus.running_of_ne_idle
  cases pc <;> simp only [Receiver.Placed] at h <;> simp only [pcapProcReceive] <;>
    (try split) <;> simp_all [Receiver.Placed]

end Receiver

section Writer

variable {threadNo : ℕ} {ok full : Bool} {g g' : Shared} {w w' : Writer} {pkt : Packet}

/-- Writing a packet changes the written packets and the writer's file at most. -/
theorem compressFilePacket_frame :
    ∃ done written fileNo fp, compressFilePacket threadNo ok full g w pkt =
      (done, { g with written := written }, { w with fileNo := fileNo, compressFp := fp }) := by
  obtain ⟨status, fileNo, fp, pc⟩ := w
  cases fp with
  | none => exact ⟨true, g.written, fileNo, none, rfl⟩
  | some file =>
    cases ok
    · exact ⟨false, g.written, fileNo, none, rfl⟩
    cases full
    · exact ⟨true, _, fileNo, some file, rfl⟩
    · exact ⟨true, _, fileNo + 1, some (openedFile g threadNo (fileNo + 1)), rfl⟩

/-- If no operation fails, the packet goes into the open file, or into the next
one, which is then the open file. -/
theorem compressFilePacket_ok (hfp : w.compressFp.isSome) :
    ∃ fileNo file, compressFilePacket threadNo true full g w pkt =
      (true, { g with written := g.written ++ [(pkt, file)] },
        { w with fileNo := fileNo, compressFp := some file }) := by
  obtain ⟨status, fileNo, fp, pc⟩ := w
  obtain ⟨file, rfl⟩ := Option.isSome_iff_exists.mp hfp
  cases full
  · exact ⟨fileNo, file, rfl⟩
  · exact ⟨fileNo + 1, openedFile g threadNo (fileNo + 1), rfl⟩

/-- The step of a writer with a packet to write. -/
theorem writePacket_step {status : CaptureStatus} {fileNo : ℕ} {fp : Option CompressFile}
    {bufs rest : List Packet} (hs : pcapProcWrite threadNo ok full g
      ⟨status, fileNo, fp, .writePacket bufs (pkt :: rest)⟩ = some (g', w')) :
    ∃ written fileNo' fp', g' = { g with written := written } ∧
      (w' = ⟨status, fileNo', fp', .writePacket bufs rest⟩ ∨
        w' = ⟨status, fileNo', fp', .writeFailed bufs⟩) := by
  obtain ⟨done, written, fileNo', fp', hfile⟩ := @compressFilePacket_frame threadNo ok full g
    ⟨status, fileNo, fp, .writePacket bufs (pkt :: rest)⟩ pkt
  simp only [pcapProcWrite, hfile] at hs
  cases done
  · cases hs
    exact ⟨written, fileNo', fp', rfl, .inr rfl⟩
  · cases hs
    exact ⟨written, fileNo', fp', rfl, .inl rfl⟩

/-- The step of a writer with a packet to write and an open file, if no operation
fails. -/
theorem writePacket_step_ok {status : CaptureStatus} {fileNo : ℕ} {fp : Option CompressFile}
    {bufs rest : List Packet} (hfp : fp.isSome) (hs : pcapProcWrite threadNo true full g
      ⟨status, fileNo, fp, .writePacket bufs (pkt :: rest)⟩ = some (g', w')) :
    ∃ fileNo' file, g' = { g with written := g.written ++ [(pkt, file)] } ∧
      w' = ⟨status, fileNo', some file, .writePacket bufs rest⟩ := by
  obtain ⟨fileNo', file, hfile⟩ := @compressFilePacket_ok threadNo full g
    ⟨status, fileNo, fp, .writePacket bufs (pkt :: rest)⟩ pkt hfp
  simp only [pcapProcWrite, hfile] at hs
  cases hs
  exact ⟨fileNo', file, rfl, rfl⟩

/-- What a writer's step may change of the shared variables. -/
theorem pcapProcWrite_frame (hs : pcapProcWrite threadNo ok full g w = some (g', w')) :
    ∃ startUpCnt ring written freed, g' = { g with
      startUpCnt := startUpCnt, ring := ring, written := written, freed := freed } := by
  obtain ⟨status, fileNo, fp, pc⟩ := w
  cases pc with
  | initFile =>
    cases ok <;> cases hs
    all_goals exact ⟨_, _, _, _, rfl⟩
  | writePacket bufs rest =>
    cases rest with
    | nil =>
      cases hs
      exact ⟨_, _, _, _, rfl⟩
    | cons pkt rest =>
      obtain ⟨written, _, _, rfl, _⟩ := writePacket_step hs
      exact ⟨_, _, written, _, rfl⟩
  | ended => cases hs
  | _ =>
    cases hs
    exact ⟨_, _, _, _, rfl⟩

/-- A writer keeps to its places, if no operation fails where it writes packets. -/
theorem Writer.Placed.step (h : w.Placed) (hok : w.writing → ok = true)
    (hs : pcapProcWrite threadNo ok full g w = some (g', w')) : w'.Placed := by
  obtain ⟨status, fileNo, fp, pc⟩ := w
  have hstatus : status ≠ .idle → status = .running := CaptureStatus.running_of_ne_idle
  cases pc with
  | initFile => cases ok <;> cases hs <;> simp_all [Writer.Placed]
  | writePacket bufs rest =>
    cases rest with
    | nil =>
      cases hs
      exact h
    | cons pkt rest =>
      obtain rfl := hok rfl
      obtain ⟨fileNo', file, -, rfl⟩ := writePacket_step_ok h.2 hs
      exact ⟨h.1, rfl⟩
  | freePackets bufs failed =>
    cases failed
    · cases hs
      exact fun _ => h.2
    · exact h.elim
  | writeFailed bufs => exact h.elim
  | ended => cases hs
  | _ =>
    simp only [Writer.Placed] at h
    simp only [pcapProcWrite] at hs
    try split at hs
    all_goals cases hs
    all_goals simp_all [Writer.Placed]

end Writer

section Capture

variable {n : ℕ} {s t : Capture n}

/-- The only writer of a process with one. -/
def sole : Fin 1 := ⟨0, Nat.one_pos⟩

/-- What a writer's step does to the process. -/
theorem captureStep_writer {i : Fin n} {ok full : Bool}
    (hs : captureStep (.writer i ok full) s = some t) :
    ∃ g' w', pcapProcWrite (i + 1) ok full s.shared (s.writer i) = some (g', w') ∧
      t = { s with shared := g', writer := Function.update s.writer i w' } := by
  obtain ⟨⟨g', w'⟩, hwrite, rfl⟩ := Option.map_eq_some_iff.mp hs
  exact ⟨g', w', hwrite, rfl⟩

end Capture

end Spp.Pcap
