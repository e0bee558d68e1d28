import Spp.Lib.GuardedRun
import Spp.Pcap.CaptureFiles

/-!
# The resources of a writer of spp_pcap

Over any passes, with failures at any of their calls, the output buffers and the files are
released exactly once, and an idle writer holds none. The contexts of LZ4 are never released.
-/

namespace Spp.Pcap.Files.Resources

open Lifetimes GuardedRun

section Statement

variable {lz4 : Lz4}

/-- A pass of a writer. -/
def passStep (fsizeLimit : ℕ) (pass : Pass) (info : FileWriter lz4) : Option (FileWriter lz4) :=
  some (pcapProcWrite fsizeLimit pass info).2

/-- Each resource is acquired once, used only while it is held and released at most once, and
an idle writer holds none: whatever it has acquired it has released. -/
structure ResourcesReleased (info : FileWriter lz4) : Prop where
  inOrder : ∀ r, InOrder info.trace r
  idle : info.status = .idle → ∀ r, ¬ Held info.trace r

/-- A pass that finds the writer idle and a capture going does not get a context: either
`fopen` fails or `LZ4F_createCompressionContext` does. -/
def NoContext (pass : Pass) (info : FileWriter lz4) : Prop :=
  info.status = .idle → pass.captureStatus ≠ .idle → pass.ok 0 = false ∨ pass.ok 1 = false

end Statement

section Ledger

/-- What a writer records of its resources. -/
structure Ledger where
  status : CaptureStatus
  trace : List (Op × Resource)
  buffers : ℕ
  opened : ℕ
  created : ℕ
  outbuff : ℕ
  compressFp : ℕ
  ctx : ℕ

/-- The records of a writer. -/
def ledger {lz4 : Lz4} (info : FileWriter lz4) : Ledger where
  status := info.status
  trace := info.trace
  buffers := info.buffers
  opened := info.opened
  created := info.created
  outbuff := info.outbuff
  compressFp := info.compressFp
  ctx := info.ctx

/-- The stage of the number `i` when `last` numbers have been given, and only `cur` is held;
zero stands for none. -/
def stageOf (last cur i : ℕ) : Stage :=
  if i = 0 ∨ last < i then .fresh else if i = cur then .held else .released

/-- Everything is in order, the buffer `buf` is held, and so are the file that is open and all
contexts. -/
structure Tracked (buf : ℕ) (l : Ledger) : Prop where
  buffer : ∀ i, stage l.trace (.outbuff i) = some (stageOf l.buffers buf i)
  file : ∀ i, stage l.trace (.file i) = some (stageOf l.opened l.compressFp i)
  context : ∀ i, stage l.trace (.context i) =
    some (if i = 0 ∨ l.created < i then .fresh else .held)
  buf_le : buf ≤ l.buffers
  fp_le : l.compressFp ≤ l.opened
  ctx_le : l.ctx ≤ l.created

/-- The output buffer is held. -/
structure Buffered (st : CaptureStatus) (l : Ledger) : Prop extends Tracked l.outbuff l where
  status : l.status = st
  outbuff_ne : l.outbuff ≠ 0

/-- The output buffer, a file and a context are held. -/
structure Ready (st : CaptureStatus) (l : Ledger) : Prop extends Buffered st l where
  fp_ne : l.compressFp ≠ 0
  ctx_ne : l.ctx ≠ 0

/-- Neither a buffer nor a file is held. -/
structure Done (st : CaptureStatus) (l : Ledger) : Prop extends Tracked 0 l where
  status : l.status = st
  fp_eq : l.compressFp = 0

/-- What a function leaves that returns an error after it has given up everything. -/
def Settled (st : CaptureStatus) (b : Bool) (l : Ledger) : Prop :=
  if b then Ready st l else Done st l

variable {l : Ledger} {buf last cur i : ℕ} {st : CaptureStatus}

/-- The number that is held. -/
theorem stageOf_held (hne : cur ≠ 0) (hle : cur ≤ last) : stageOf last cur cur = .held := by
  rw [stageOf, if_neg (by omega), if_pos rfl]

/-- The next number is fresh. -/
theorem stageOf_next : stageOf last cur (last + 1) = .fresh := by
  rw [stageOf, if_pos (by omega)]

/-- The next number is given when none is held. -/
theorem stageOf_acquire :
    (if last + 1 = i then some Stage.held else some (stageOf last 0 i)) =
      some (stageOf (last + 1) (last + 1) i) := by
  unfold stageOf
  by_cases heq : last + 1 = i
  · rw [if_pos heq, if_neg (by omega), if_pos heq.symm]
  · rw [if_neg heq, if_neg (fun h : i = last + 1 => heq h.symm)]
    by_cases hfresh : i = 0 ∨ last < i
    · rw [if_pos hfresh, if_pos (by omega)]
    · rw [if_neg hfresh, if_neg (by omega), if_neg (by omega)]

/-- The number that is held is given back. -/
theorem stageOf_release (hne : cur ≠ 0) (hle : cur ≤ last) :
    (if cur = i then some Stage.released else some (stageOf last cur i)) =
      some (stageOf last 0 i) := by
  unfold stageOf
  by_cases heq : cur = i
  · rw [if_pos heq, if_neg (by omega), if_neg (by omega)]
  · rw [if_neg heq, if_neg (fun h : i = cur => heq h.symm)]
    by_cases hfresh : i = 0 ∨ last < i
    · rw [if_pos hfresh, if_pos hfresh]
    · rw [if_neg hfresh, if_neg hfresh, if_neg (by omega)]

/-- Resources that are held are used. -/
theorem Tracked.use (h : Tracked buf l) {rs : List Resource}
    (hrs : ∀ r ∈ rs, stage l.trace r = some .held) :
    Tracked buf { l with trace := l.trace ++ rs.map (Op.use, ·) } where
  buffer i := (stage_uses hrs).trans (h.buffer i)
  file i := (stage_uses hrs).trans (h.file i)
  context i := (stage_uses hrs).trans (h.context i)
  buf_le := h.buf_le
  fp_le := h.fp_le
  ctx_le := h.ctx_le

/-- `malloc`. -/
theorem Tracked.malloc (h : Tracked 0 l) : Tracked (l.buffers + 1) { l with
    outbuff := l.buffers + 1
    buffers := l.buffers + 1
    trace := l.trace ++ [(.acquire, .outbuff (l.buffers + 1))] } := by
  have hfresh : stage l.trace (.outbuff (l.buffers + 1)) = some .fresh :=
    (h.buffer _).trans (congrArg some stageOf_next)
  refine ⟨fun i => ?_, fun i => ?_, fun i => ?_, le_refl _, h.fp_le, h.ctx_le⟩
  · rw [stage_acquire hfresh, h.buffer]
    simpa only [Resource.outbuff.injEq] using stageOf_acquire
  · rw [stage_acquire hfresh, if_neg (by simp), h.file]
  · rw [stage_acquire hfresh, if_neg (by simp), h.context]

/-- `free`. -/
theorem Tracked.free (h : Tracked buf l) (hne : buf ≠ 0) :
    Tracked 0 { l with trace := l.trace ++ [(.release, .outbuff buf)] } := by
  have hheld : stage l.trace (.outbuff buf) = some .held :=
    (h.buffer _).trans (congrArg some (stageOf_held hne h.buf_le))
  refine ⟨fun i => ?_, fun i => ?_, fun i => ?_, Nat.zero_le _, h.fp_le, h.ctx_le⟩
  · rw [stage_release hheld, h.buffer]
    simpa only [Resource.outbuff.injEq] using stageOf_release hne h.buf_le
  · rw [stage_release hheld, if_neg (by simp), h.file]
  · rw [stage_release hheld, if_neg (by simp), h.context]

/-- `fopen`. -/
theorem Tracked.fopen (h : Tracked buf l) (hfp : l.compressFp = 0) : Tracked buf { l with
    compressFp := l.opened + 1
    opened := l.opened + 1
    trace := l.trace ++ [(.acquire, .file (l.opened + 1))] } := by
  have hfresh : stage l.trace (.file (l.opened + 1)) = some .fresh :=
    (h.file _).trans (congrArg some stageOf_next)
  refine ⟨fun i => ?_, fun i => ?_, fun i => ?_, h.buf_le, le_refl _, h.ctx_le⟩
  · rw [stage_acquire hfresh, if_neg (by simp), h.buffer]
  · rw [stage_acquire hfresh, h.file, hfp]
    simpa only [Resource.file.injEq] using stageOf_acquire
  · rw [stage_acquire hfresh, if_neg (by simp), h.context]

/-- `fclose`. -/
theorem Tracked.fclose (h : Tracked buf l) (hfp : l.compressFp ≠ 0) : Tracked buf { l with
    trace := l.trace ++ [(.release, .file l.compressFp)]
    compressFp := 0 } := by
  have hheld : stage l.trace (.file l.compressFp) = some .held :=
    (h.file _).trans (congrArg some (stageOf_held hfp h.fp_le))
  refine ⟨fun i => ?_, fun i => ?_, fun i => ?_, h.buf_le, Nat.zero_le _, h.ctx_le⟩
  · rw [stage_release hheld, if_neg (by simp), h.buffer]
  · rw [stage_release hheld, h.file]
    simpa only [Resource.file.injEq] using stageOf_release hfp h.fp_le
  · rw [stage_release hheld, if_neg (by simp), h.context]

/-- `LZ4F_createCompressionContext`. The context before it is still held. -/
theorem Tracked.createContext (h : Tracked buf l) : Tracked buf { l with
    ctx := l.created + 1
    created := l.created + 1
    trace := l.trace ++ [(.acquire, .context (l.created + 1))] } := by
  have hfresh : stage l.trace (.context (l.created + 1)) = some .fresh := by
    rw [h.context, if_pos (by omega)]
  refine ⟨fun i => ?_, fun i => ?_, fun i => ?_, h.buf_le, h.fp_le, le_refl _⟩
  · rw [stage_acquire hfresh, if_neg (by simp), h.buffer]
  · rw [stage_acquire hfresh, if_neg (by simp), h.file]
  · rw [stage_acquire hfresh, h.context]
    simp only [Resource.context.injEq]
    by_cases heq : l.created + 1 = i
    · rw [if_pos heq, if_neg (by omega)]
    · rw [if_neg heq]
      congr 1
      exact if_congr (by omega) rfl rfl

end Ledger

section Calls

variable {lz4 : Lz4} {info : FileWriter lz4} {st : CaptureStatus} (ok : ℕ → Bool)

/-- The resources of a writer that is ready are held. -/
theorem Ready.held (h : Ready st (ledger info)) :
    ∀ r ∈ [Resource.outbuff info.outbuff, .file info.compressFp, .context info.ctx],
      stage info.trace r = some .held := by
  have hctx : ¬ (info.ctx = 0 ∨ info.created < info.ctx) := by
    have hne := h.ctx_ne
    have hle := h.ctx_le
    simp only [ledger] at hne hle
    omega
  refine List.forall_mem_cons.mpr ⟨?_, List.forall_mem_cons.mpr ⟨?_, ?_⟩⟩
  · exact (h.buffer _).trans (congrArg some (stageOf_held h.outbuff_ne h.buf_le))
  · exact (h.file _).trans (congrArg some (stageOf_held h.fp_ne h.fp_le))
  · refine List.forall_mem_singleton.mpr ((h.context _).trans ?_)
    exact congrArg some (if_neg hctx)

/-- A call that may fail. -/
theorem Ready.use (h : Ready st (ledger info)) {rs : List Resource}
    (hrs : rs ⊆ [.outbuff info.outbuff, .file info.compressFp, .context info.ctx]) :
    Ready st (ledger (info.use rs)) :=
  ⟨⟨h.toTracked.use fun r hr => h.held r (hrs hr), h.status, h.outbuff_ne⟩, h.fp_ne, h.ctx_ne⟩

/-- A call of LZ4F. -/
theorem Ready.lz4Call (h : Ready st (ledger info)) (f : lz4.Ctx → lz4.Ctx × Bytes) :
    Ready st (ledger (lz4Call ok f info).2) := by
  have hused : Ready st (ledger (info.use [.context info.ctx, .outbuff info.outbuff])) :=
    h.use (by simp)
  unfold Files.lz4Call
  dsimp only
  split
  · exact hused
  · exact hused

/-- What is put out is written. -/
theorem Ready.outputPcapFile (h : Ready st (ledger info)) (srcbuf : Bytes) :
    Ready st (ledger (outputPcapFile ok srcbuf info).2) := by
  have hused : Ready st (ledger (info.use [.outbuff info.outbuff, .file info.compressFp])) :=
    h.use (by simp)
  unfold Files.outputPcapFile
  dsimp only
  split
  · exact h
  · split
    · exact hused
    · exact hused

/-- Something is compressed and written. -/
theorem Ready.outputLz4PcapFile (h : Ready st (ledger info)) (srcbuf : Bytes) :
    Ready st (ledger (outputLz4PcapFile ok srcbuf info).2) := by
  have hcall := h.lz4Call ok (lz4.compressUpdate srcbuf)
  unfold Files.outputLz4PcapFile
  dsimp only
  split
  · exact hcall
  · exact hcall.outputPcapFile ok _

/-- A writer with a buffer and a file gives up both. -/
theorem Buffered.abandon (h : Buffered st (ledger info)) (hfp : info.compressFp ≠ 0) :
    Done st (ledger info.abandon) :=
  ⟨(h.toTracked.fclose hfp).free h.outbuff_ne, h.status, rfl⟩

/-- A writer with a buffer alone gives it up. -/
theorem Buffered.free (h : Buffered st (ledger info)) (hfp : info.compressFp = 0) :
    Done st (ledger info.free) :=
  ⟨h.toTracked.free h.outbuff_ne, h.status, hfp⟩

/-- The status is not among what is tracked. -/
theorem Ready.setStatus {st' : CaptureStatus} (h : Ready st (ledger info)) :
    Ready st' (ledger { info with status := st' }) :=
  ⟨⟨⟨h.buffer, h.file, h.context, h.buf_le, h.fp_le, h.ctx_le⟩, rfl, h.outbuff_ne⟩, h.fp_ne,
    h.ctx_ne⟩

/-- The status is not among what is tracked. -/
theorem Done.setStatus {st' : CaptureStatus} (h : Done st (ledger info)) :
    Done st' (ledger { info with status := st' }) :=
  ⟨⟨h.buffer, h.file, h.context, h.buf_le, h.fp_le, h.ctx_le⟩, rfl, h.fp_eq⟩

/-- From `fopen` on: a writer with a buffer gets a file and a context, or gives up all. -/
theorem openFile_settled (h : Buffered st (ledger info)) (hfp : info.compressFp = 0) :
    Settled st (openFile ok info).1 (ledger (openFile ok info).2) := by
  have hopen : Buffered st (ledger info.fopen) :=
    ⟨h.toTracked.fopen hfp, h.status, h.outbuff_ne⟩
  have hready : Ready st (ledger info.fopen.createContext) :=
    ⟨⟨hopen.toTracked.createContext, h.status, h.outbuff_ne⟩, Nat.succ_ne_zero _,
      Nat.succ_ne_zero _⟩
  have hbegun := hready.lz4Call ok lz4.compressBegin
  unfold openFile
  dsimp only
  split
  · -- the pointer is `NULL` before and after
    have hclosed : ledger { info with calls := info.calls + 1, compressFp := 0 } = ledger info := by
      simp only [ledger, hfp]
    exact (show Buffered st _ from hclosed ▸ h).free rfl
  · split
    · exact @Buffered.abandon lz4 { info.fopen with calls := info.fopen.calls + 1 } st hopen
        (Nat.succ_ne_zero _)
    · split
      · exact hbegun.abandon hbegun.fp_ne
      · rename_i header _
        have hwritten := hbegun.outputPcapFile ok header
        split
        · exact hwritten.abandon hwritten.fp_ne
        · have hstarted := @Ready.outputLz4PcapFile lz4 { (Files.outputPcapFile ok header
            (Files.lz4Call ok lz4.compressBegin info.fopen.createContext).2).2 with
              fileSize := header.length } st ok hwritten pcapHeader
          split
          · exact hstarted.abandon hstarted.fp_ne
          · rename_i hok
            rw [Settled, if_pos (by simpa using hok)]
            exact hstarted

/-- A session starts. -/
theorem init_settled (h : Done st (ledger info)) :
    Settled st (fileCompressionOperation ok .init info).1
      (ledger (fileCompressionOperation ok .init info).2) :=
  @openFile_settled lz4 { info.malloc with fileSize := 0, fileNo := 1 } st ok
    ⟨h.toTracked.malloc, h.status, Nat.succ_ne_zero _⟩ h.fp_eq

/-- One file follows another. -/
theorem update_settled (h : Ready st (ledger info)) :
    Settled st (fileCompressionOperation ok .update info).1
      (ledger (fileCompressionOperation ok .update info).2) := by
  have hended := h.lz4Call ok lz4.compressEnd
  unfold fileCompressionOperation
  dsimp only
  split
  · exact hended.abandon hended.fp_ne
  · rename_i rest _
    have hwritten := hended.outputPcapFile ok rest
    split
    · exact hwritten.abandon hwritten.fp_ne
    · exact openFile_settled ok
        ⟨hwritten.toTracked.fclose hwritten.fp_ne, hwritten.status, hwritten.outbuff_ne⟩ rfl

/-- A session ends, and nothing is left of it but its contexts. -/
theorem close_done (h : Ready st (ledger info) ∨ Done st (ledger info)) :
    Done st (ledger (fileCompressionOperation ok .close info).2) := by
  unfold fileCompressionOperation
  dsimp only
  rcases h with h | h
  · have hended := h.lz4Call ok lz4.compressEnd
    have hclosed {info' : FileWriter lz4} (h' : Ready st (ledger info')) :
        Done st (ledger ((info'.fclose.rename info'.compressFp).free)) :=
      ⟨(h'.toTracked.fclose h'.fp_ne).free h'.outbuff_ne, h'.status, rfl⟩
    rw [if_neg (show ¬ info.compressFp = 0 from h.fp_ne)]
    dsimp only
    split
    · exact hclosed hended
    · rename_i rest _
      have hwritten := hended.outputPcapFile ok rest
      exact @hclosed ((Files.outputPcapFile ok rest _).2.grow rest.length) hwritten
  · rw [if_pos (show info.compressFp = 0 from h.fp_eq)]
    exact h

end Calls

section Passes

variable {lz4 : Lz4} {info : FileWriter lz4} {st : CaptureStatus} (ok : ℕ → Bool)

/-- The content of a packet is written, or the session ends. -/
theorem writeContent_settled (segments : List Bytes) (remainingBytes : ℕ)
    (h : Ready st (ledger info)) :
    Settled st (writeContent ok segments remainingBytes info).1
      (ledger (writeContent ok segments remainingBytes info).2) := by
  induction segments generalizing remainingBytes info with
  | nil => exact h
  | cons segment segments ih =>
    unfold writeContent
    dsimp only
    split
    · exact h
    · have hwritten := h.outputLz4PcapFile ok (segment.take (min segment.length remainingBytes))
      split
      · exact close_done ok (.inl hwritten)
      · exact ih _ (show Ready st (ledger (FileWriter.grow _ _)) from hwritten)

/-- A packet is written, or the session ends. -/
theorem compressFilePacket_settled (fsizeLimit : ℕ) (pkt : CapPkt) (h : Ready st (ledger info)) :
    Settled st (compressFilePacket ok fsizeLimit pkt info).1
      (ledger (compressFilePacket ok fsizeLimit pkt info).2) := by
  have hrolled : Settled st
      (if fsizeLimit < info.fileSize then fileCompressionOperation ok .update info
        else (true, info)).1
      (ledger (if fsizeLimit < info.fileSize then fileCompressionOperation ok .update info
        else (true, info)).2) := by
    split
    · exact update_settled ok h
    · exact h
  unfold compressFilePacket
  rw [if_neg (show ¬ info.compressFp = 0 from h.fp_ne)]
  dsimp only
  generalize (if fsizeLimit < info.fileSize then fileCompressionOperation ok .update info
    else (true, info)) = rolled at hrolled ⊢
  obtain ⟨success, info'⟩ := rolled
  cases success with
  | false => exact hrolled
  | true =>
    have hready : Ready st (ledger info') := hrolled
    have hwritten := hready.outputLz4PcapFile ok pkt.header
    rw [if_neg (by simp)]
    split
    · exact close_done ok (.inl hwritten)
    · exact writeContent_settled ok _ _ (show Ready st (ledger (FileWriter.grow _ _)) from hwritten)

/-- Between passes a writer is running and holds a buffer, a file and a context, or it is idle
and holds neither a buffer nor a file. -/
def Between (l : Ledger) : Prop := Ready .running l ∨ Done .idle l

/-- Packets are written, or the session ends. -/
theorem writePackets_between (fsizeLimit : ℕ) (bufs : List CapPkt)
    (h : Ready .running (ledger info)) :
    Between (ledger (writePackets ok fsizeLimit bufs info).2) := by
  induction bufs generalizing info with
  | nil => exact .inl h
  | cons pkt bufs ih =>
    have hwritten := compressFilePacket_settled ok fsizeLimit pkt h
    unfold writePackets
    dsimp only
    generalize compressFilePacket ok fsizeLimit pkt info = written at hwritten ⊢
    obtain ⟨success, info'⟩ := written
    cases success with
    | false =>
      have hdone : Done .running (ledger info') := hwritten
      exact .inr (close_done ok (.inr hdone.setStatus))
    | true =>
      rw [if_neg (by simp)]
      exact ih hwritten

/-- A pass leaves a writer that is running or idle. -/
theorem pcapProcWrite_between (fsizeLimit : ℕ) (pass : Pass) (h : Between (ledger info)) :
    Between (ledger (pcapProcWrite fsizeLimit pass info).2) := by
  have hgo {info' : FileWriter lz4} (h' : Ready .running (ledger info')) :
      Between (ledger (if pass.bufs = [] then
        if pass.captureStatusEmpty = .idle then
          fileCompressionOperation pass.ok .close { info' with status := .idle }
        else (true, info')
      else writePackets pass.ok fsizeLimit pass.bufs info').2) := by
    split
    · split
      · exact .inr (close_done pass.ok (.inl h'.setStatus))
      · exact .inl h'
    · exact writePackets_between pass.ok fsizeLimit pass.bufs h'
  unfold pcapProcWrite
  split
  · exact h
  · dsimp only
    rcases h with h | h
    · have hrunning : info.status = .running := h.status
      have hne : ¬ info.status = .idle := by rw [hrunning]; decide
      rw [if_neg hne, if_neg (by simp)]
      exact @hgo { info with calls := 0 } h
    · rw [if_pos (show info.status = .idle from h.status)]
      have hstarted := @init_settled lz4 { info with calls := 0, status := .running } .running
        pass.ok (Done.setStatus h)
      generalize fileCompressionOperation pass.ok .init
        { info with calls := 0, status := .running } = started at hstarted ⊢
      obtain ⟨success, info'⟩ := started
      cases success with
      | false =>
        have hdone : Done .running (ledger info') := hstarted
        exact .inr hdone.setStatus
      | true =>
        rw [if_neg (by simp)]
        exact hgo hstarted

/-- Without a context a session does not start. -/
theorem openFile_noContext (h : ok info.calls = false ∨ ok (info.calls + 1) = false) :
    (openFile ok info).1 = false ∧ (openFile ok info).2.created = info.created := by
  unfold openFile
  dsimp only
  by_cases hopen : ok info.calls = false
  · rw [if_pos hopen]
    exact ⟨rfl, rfl⟩
  · rw [if_neg hopen, if_pos (show ok info.fopen.calls = false from h.resolve_left hopen)]
    exact ⟨rfl, rfl⟩

/-- An idle writer that does not get a context stays idle. -/
theorem pcapProcWrite_noContext (fsizeLimit : ℕ) {pass : Pass} (hidle : info.status = .idle)
    (h : NoContext pass info) :
    (pcapProcWrite fsizeLimit pass info).2.status = .idle ∧
      (pcapProcWrite fsizeLimit pass info).2.created = info.created := by
  unfold pcapProcWrite
  split
  · exact ⟨hidle, rfl⟩
  · rename_i hcapture
    have hcalls := h hidle fun heq => hcapture ⟨heq, hidle⟩
    dsimp only
    rw [if_pos hidle]
    obtain ⟨hfail, hcreated⟩ := @openFile_noContext lz4
      { ({ info with calls := 0, status := .running } : FileWriter lz4).malloc with
        fileSize := 0, fileNo := 1 } pass.ok hcalls
    rw [fileCompressionOperation, if_pos hfail]
    exact ⟨rfl, hcreated⟩

end Passes

section Runs

variable {lz4 : Lz4} {info : FileWriter lz4} {fsizeLimit : ℕ}

/-- A writer before its first pass is idle. -/
theorem between_initial (lz4 : Lz4) : Between (ledger (FileWriter.initial lz4)) := by
  refine .inr ⟨⟨fun i => ?_, fun i => ?_, fun i => ?_, le_refl _, le_refl _, le_refl _⟩, rfl, rfl⟩
  · have hfresh : stageOf 0 0 i = .fresh := by rw [stageOf, if_pos (by omega)]
    exact congrArg some hfresh.symm
  · have hfresh : stageOf 0 0 i = .fresh := by rw [stageOf, if_pos (by omega)]
    exact congrArg some hfresh.symm
  · exact congrArg some (if_pos (show i = 0 ∨ 0 < i by omega)).symm

/-- What is tracked is in order. -/
theorem Tracked.inOrder {buf : ℕ} {l : Ledger} (h : Tracked buf l) (r : Resource) :
    InOrder l.trace r := by
  cases r with
  | outbuff i => exact inOrder_of_stage (h.buffer i)
  | file i => exact inOrder_of_stage (h.file i)
  | context i => exact inOrder_of_stage (h.context i)

/-- A resource in another stage is not held. -/
theorem not_held_of_stage {r : Resource} {s : Stage} (h : stage info.trace r = some s)
    (hne : s ≠ .held) : ¬ Held info.trace r := fun hheld =>
  hne (Option.some.inj (h.symm.trans (stage_of_held hheld)))

/-- No number is held where none is. -/
theorem stageOf_zero_ne_held (last i : ℕ) : stageOf last 0 i ≠ .held := by
  unfold stageOf
  by_cases hfresh : i = 0 ∨ last < i
  · rw [if_pos hfresh]
    decide
  · rw [if_neg hfresh, if_neg (by omega)]
    decide

/-- Between passes all resources are in order. -/
theorem Between.inOrder (h : Between (ledger info)) (r : Resource) : InOrder info.trace r :=
  h.elim (fun h => h.toTracked.inOrder r) fun h => h.toTracked.inOrder r

/-- Between passes an idle writer holds nothing but contexts. -/
theorem Between.done (h : Between (ledger info)) (hidle : info.status = .idle) :
    Done .idle (ledger info) := by
  refine h.resolve_left fun hready => ?_
  have hrunning : info.status = .running := hready.status
  exact absurd (hidle.symm.trans hrunning) (by decide)

/-- Between passes all is released if and only if an idle writer has never got a context. -/
theorem Between.resourcesReleased_iff (h : Between (ledger info)) :
    ResourcesReleased info ↔ (info.status = .idle → info.created = 0) := by
  constructor
  · intro hreleased hidle
    by_contra hcreated
    have hheld : stage info.trace (.context 1) = some .held :=
      ((h.done hidle).context 1).trans (congrArg some (if_neg (by
        show ¬ (1 = 0 ∨ info.created < 1)
        omega)))
    exact hreleased.idle hidle _ (held_of_stage hheld)
  · refine fun hcreated => ⟨h.inOrder, fun hidle r => ?_⟩
    have hdone := h.done hidle
    cases r with
    | outbuff i => exact not_held_of_stage (hdone.buffer i) (stageOf_zero_ne_held _ i)
    | file i =>
      refine not_held_of_stage (hdone.file i) ?_
      rw [hdone.fp_eq]
      exact stageOf_zero_ne_held _ i
    | context i =>
      refine not_held_of_stage (hdone.context i) ?_
      have hnone : (ledger info).created = 0 := hcreated hidle
      rw [hnone, if_pos (by omega)]
      decide

/-- Passes keep what holds between them. -/
theorem between_of_reaches {guard : Pass → FileWriter lz4 → Prop}
    (h : Reaches (passStep fsizeLimit) guard (.initial lz4) info) : Between (ledger info) := by
  refine @Reaches.invariant _ _ _ _ (fun u => Between (ledger u)) _ _ h (between_initial lz4)
    fun pass u v hinv _ hstep => ?_
  rw [← Option.some.inj hstep]
  exact pcapProcWrite_between fsizeLimit pass hinv

/-- In every run buffers and files are released exactly once, and all is in order with the
contexts too, except that they are never released: an idle writer holds those it has got. In a
run whose passes get none, everything is released. -/
theorem resourcesReleased_of_reaches (lz4 : Lz4) (fsizeLimit : ℕ) :
    (∀ info, Reaches (passStep fsizeLimit) (fun _ _ => True) (.initial lz4) info →
      (∀ r, InOrder info.trace r) ∧
      (info.status = .idle → ∀ i, ¬ Held info.trace (.outbuff i) ∧ ¬ Held info.trace (.file i)) ∧
      (ResourcesReleased info ↔ (info.status = .idle → info.created = 0))) ∧
    ∀ info, Reaches (passStep fsizeLimit) NoContext (.initial lz4) info →
      ResourcesReleased info := by
  refine ⟨fun info hrun => ?_, fun info hrun => ?_⟩
  · have hbetween := between_of_reaches hrun
    refine ⟨hbetween.inOrder, fun hidle i => ?_, hbetween.resourcesReleased_iff⟩
    have hdone := hbetween.done hidle
    refine ⟨not_held_of_stage (hdone.buffer i) (stageOf_zero_ne_held _ i), ?_⟩
    refine not_held_of_stage (hdone.file i) ?_
    rw [hdone.fp_eq]
    exact stageOf_zero_ne_held _ i
  · refine (between_of_reaches hrun).resourcesReleased_iff.mpr fun _ => ?_
    have hidle : info.status = .idle ∧ info.created = 0 := by
      refine @Reaches.invariant _ _ _ _ (fun u => u.status = .idle ∧ u.created = 0) _ _ hrun
        ⟨rfl, rfl⟩ fun pass u v hinv hguard hstep => ?_
      rw [← Option.some.inj hstep]
      obtain ⟨hstatus, hcreated⟩ := pcapProcWrite_noContext fsizeLimit hinv.1 hguard
      exact ⟨hstatus, hcreated.trans hinv.2⟩
    exact hidle.2

/-- A session starts in a pass that finds nothing in the ring. -/
def startPass (ok : ℕ → Bool) : Pass := ⟨.running, .running, [], ok⟩

/-- A session ends in a pass that finds nothing in the ring. -/
def stopPass : Pass := ⟨.idle, .idle, [], allOk⟩

/-- The writer after its file could not be opened. -/
theorem resourcesReleased_noFile :
    ResourcesReleased (pcapProcWrite 0 (startPass fun _ => false) (.initial storedLz4)).2 :=
  (resourcesReleased_of_reaches storedLz4 0).2 _
    (.single ⟨startPass fun _ => false, fun _ _ => .inl rfl, rfl⟩)

/-- A session that goes well from its start to its end leaves its context behind. -/
theorem not_resourcesReleased_session :
    ∃ info, Reaches (passStep 0) (fun _ _ => True) (.initial storedLz4) info ∧
      info.status = .idle ∧ ¬ ResourcesReleased info := by
  have hrun : Reaches (passStep 0) (fun _ _ => True) (.initial storedLz4) (pcapProcWrite 0 stopPass
      (pcapProcWrite 0 (startPass allOk) (.initial storedLz4)).2).2 :=
    .tail (.single ⟨startPass allOk, trivial, rfl⟩) ⟨stopPass, trivial, rfl⟩
  refine ⟨_, hrun, rfl, fun hreleased => ?_⟩
  exact absurd ((between_of_reaches hrun).resourcesReleased_iff.mp hreleased rfl) (by decide)

end Runs

end Spp.Pcap.Files.Resources
