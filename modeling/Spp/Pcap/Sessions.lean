import Spp.Pcap.Places

/-!
# Sessions of a capture

A session begins when the receiver sets the date of the files. Writers read that
date whenever they open a file, and see the start and the stop of a session only
if they look in time. Here is when the packets and the files of different
sessions stay apart.
-/

namespace Spp.Pcap

open GuardedRun

section Apart

variable {n : ℕ}

/-- Every written packet went into a file with the date of its session, and in a
session only files of this session are open. -/
structure SessionsApart (s : Capture n) : Prop where
  written : ∀ x ∈ s.shared.written, x.2.date = x.1.date
  files : s.receiver.status = .running →
    ∀ i file, (s.writer i).compressFp = some file → file.session = s.shared.session

/-- A session begins where the previous one is wound up: the ring is empty and no
writer has a file open. -/
def WoundUp : CaptureEvent n → Capture n → Prop
  | .receiver _ _, s =>
    s.receiver.pc = .setDate → s.shared.ring = [] ∧ ∀ i, (s.writer i).compressFp = none
  | _, _ => True

/-- The file was opened in this session and carries its date. -/
def CompressFile.Current (g : Shared) (file : CompressFile) : Prop :=
  file.date = g.compressFileDate ∧ file.session = g.session

/-- The packets carry the date of this session. -/
def PacketsCurrent (g : Shared) (bufs : List Packet) : Prop :=
  ∀ p ∈ bufs, p.date = g.compressFileDate

/-- The open file of a writer is one of this session, and so are the packets it
has yet to write. -/
def Writer.Current (g : Shared) (w : Writer) : Prop :=
  ∀ file, w.compressFp = some file → file.Current g ∧ PacketsCurrent g w.pc.toWrite

/-- What holds in every state of a run whose sessions are wound up. -/
structure SessionInv (s : Capture n) : Prop where
  ring : PacketsCurrent s.shared s.shared.ring
  bufs : PacketsCurrent s.shared s.receiver.pc.bufs
  writer : ∀ i, (s.writer i).Current s.shared
  written : ∀ x ∈ s.shared.written, x.2.date = x.1.date

end Apart

section WriterStep

variable {threadNo : ℕ} {ok full : Bool} {g g' : Shared} {w w' : Writer}

/-- A file that is opened is one of this session. -/
theorem openedFile_current (g : Shared) (threadNo fileNo : ℕ) :
    (openedFile g threadNo fileNo).Current g := ⟨rfl, rfl⟩

/-- A packet of this session that goes into a file of this session keeps the dates
of written packets right. -/
theorem written_append {pkt : Packet} {file : CompressFile}
    (hwritten : ∀ x ∈ g.written, x.2.date = x.1.date) (hpkt : pkt.date = g.compressFileDate)
    (hfile : file.Current g) : ∀ x ∈ g.written ++ [(pkt, file)], x.2.date = x.1.date := by
  intro x hx
  obtain hx | hx := List.mem_append.mp hx
  · exact hwritten x hx
  · obtain rfl := List.mem_singleton.mp hx
    exact hfile.1.trans hpkt.symm

/-- A writer with packets of this session writes them into files of this session,
whether they are open or open on the way. -/
theorem writer_current_step (h : w.Current g) (hring : PacketsCurrent g g.ring)
    (hwritten : ∀ x ∈ g.written, x.2.date = x.1.date)
    (hs : pcapProcWrite threadNo ok full g w = some (g', w')) :
    w'.Current g ∧ ∀ x ∈ g'.written, x.2.date = x.1.date := by
  obtain ⟨status, fileNo, fp, pc⟩ := w
  have hnone : PacketsCurrent g [] := fun _ hp => absurd hp List.not_mem_nil
  cases pc with
  | initFile =>
    cases ok
    · cases hs
      exact ⟨fun _ hfile => absurd hfile (by simp), hwritten⟩
    · cases hs
      refine ⟨fun file hfile => ?_, hwritten⟩
      obtain rfl := Option.some.inj hfile
      exact ⟨openedFile_current g threadNo 1, hnone⟩
  | dequeue =>
    cases hs
    refine ⟨fun file hfile => ⟨(h file hfile).1, fun p hp => ?_⟩, hwritten⟩
    dsimp only at hp
    split at hp
    · exact absurd hp List.not_mem_nil
    · exact hring p (List.mem_of_mem_take hp)
  | writePacket bufs rest =>
    cases rest with
    | nil =>
      cases hs
      exact ⟨fun file hfile => ⟨(h file hfile).1, hnone⟩, hwritten⟩
    | cons pkt rest =>
      cases fp with
      | none =>
        cases hs
        exact ⟨fun _ hfile => absurd hfile (by simp), hwritten⟩
      | some file =>
        obtain ⟨hcurrent, hpackets⟩ := h file rfl
        have hpkt : pkt.date = g.compressFileDate := hpackets pkt List.mem_cons_self
        have hrest : PacketsCurrent g rest := fun p hp => hpackets p (List.mem_cons_of_mem pkt hp)
        cases ok
        · cases hs
          exact ⟨fun _ hfile => absurd hfile (by simp), hwritten⟩
        cases full
        · cases hs
          refine ⟨fun file' hfile => ?_, written_append hwritten hpkt hcurrent⟩
          obtain rfl := Option.some.inj hfile
          exact ⟨hcurrent, hrest⟩
        · -- the file is full: the next one is opened with the date of this moment
          have hopened := openedFile_current g threadNo (fileNo + 1)
          cases hs
          refine ⟨fun file' hfile => ?_, written_append hwritten hpkt hopened⟩
          obtain rfl := Option.some.inj hfile
          exact ⟨hopened, hrest⟩
  | freePackets bufs failed =>
    cases hs
    exact ⟨fun file hfile => ⟨(h file hfile).1, by cases failed <;> exact hnone⟩, hwritten⟩
  | closeFile =>
    cases hs
    exact ⟨fun _ hfile => absurd hfile (by simp), hwritten⟩
  | ended => cases hs
  | _ =>
    simp only [pcapProcWrite] at hs
    try split at hs
    all_goals cases hs
    all_goals exact ⟨fun file hfile => ⟨(h file hfile).1, hnone⟩, hwritten⟩

/-- A writer does not add to the ring. -/
theorem writer_ring_subset (hs : pcapProcWrite threadNo ok full g w = some (g', w')) :
    ∀ p ∈ g'.ring, p ∈ g.ring := by
  obtain ⟨status, fileNo, fp, pc⟩ := w
  cases pc with
  | initFile => cases ok <;> cases hs <;> exact fun _ hp => hp
  | dequeue =>
    cases hs
    exact fun p hp => List.mem_of_mem_drop hp
  | writePacket bufs rest =>
    cases rest with
    | nil =>
      cases hs
      exact fun _ hp => hp
    | cons pkt rest =>
      obtain ⟨written, fileNo', fp', rfl, -⟩ := writePacket_step hs
      exact fun _ hp => hp
  | ended => cases hs
  | _ =>
    cases hs
    exact fun _ hp => hp

end WriterStep

section Run

variable {n : ℕ} {s t : Capture n}

/-- The date and the number of the session change only where a session begins. -/
theorem receiver_session_of_pc {threadCnt burst : ℕ} {date : CLib.CStr} {g : Shared} {r : Receiver}
    (h : r.pc ≠ .setDate) :
    (pcapProcReceive threadCnt date burst g r).1.compressFileDate = g.compressFileDate ∧
      (pcapProcReceive threadCnt date burst g r).1.session = g.session := by
  obtain ⟨status, pc⟩ := r
  cases pc with
  | setDate => exact absurd rfl h
  | _ => exact ⟨rfl, rfl⟩

/-- The receiver writes no packets. -/
theorem receiver_written {threadCnt burst : ℕ} {date : CLib.CStr} {g : Shared} {r : Receiver} :
    (pcapProcReceive threadCnt date burst g r).1.written = g.written := by
  obtain ⟨status, pc⟩ := r
  cases pc <;> rfl

/-- In a session the receiver takes and hands on packets of this session. -/
theorem receiver_packets_step {threadCnt burst : ℕ} {date : CLib.CStr} {g : Shared} {r : Receiver}
    (hpc : r.pc ≠ .setDate) (hring : PacketsCurrent g g.ring) (hbufs : PacketsCurrent g r.pc.bufs) :
    PacketsCurrent g (pcapProcReceive threadCnt date burst g r).1.ring ∧
      PacketsCurrent g (pcapProcReceive threadCnt date burst g r).2.pc.bufs := by
  obtain ⟨status, pc⟩ := r
  have hnone : PacketsCurrent g [] := fun _ hp => absurd hp List.not_mem_nil
  cases pc with
  | setDate => exact absurd rfl hpc
  | receive =>
    refine ⟨hring, ?_⟩
    have hnew : PacketsCurrent g (newPackets g (min burst maxPcapBurst)) := by
      intro p hp
      obtain ⟨_, -, rfl⟩ := List.mem_map.mp hp
      rfl
    simp only [pcapProcReceive]
    split
    · exact hnone
    · exact hnew
  | enqueue bufs =>
    have htake (nbTx : ℕ) : PacketsCurrent g (g.ring ++ bufs.take nbTx) := by
      intro p hp
      obtain hp | hp := List.mem_append.mp hp
      · exact hring p hp
      · exact hbufs p (List.mem_of_mem_take hp)
    refine ⟨htake _, ?_⟩
    simp only [pcapProcReceive]
    split
    · exact fun p hp => hbufs p (List.mem_of_mem_drop hp)
    · exact hnone
  | discard bufs => exact ⟨hring, hnone⟩
  | _ =>
    simp only [pcapProcReceive]
    try split
    all_goals exact ⟨hring, hnone⟩

/-- There are neither packets nor files at first. -/
theorem sessionInv_initial : SessionInv (n := n) {} where
  ring := fun _ hp => absurd hp List.not_mem_nil
  bufs := fun _ hp => absurd hp List.not_mem_nil
  writer := fun _ _ hfile => absurd hfile (by simp)
  written := fun _ hx => absurd hx List.not_mem_nil

/-- A step of the receiver keeps what holds, if the previous session is wound up
where one begins. -/
theorem SessionInv.receiver_step {date : CLib.CStr} {burst : ℕ} (h : SessionInv s)
    (hguard : WoundUp (.receiver date burst) s)
    (hs : captureStep (.receiver date burst) s = some t) : SessionInv t := by
  cases hs
  have hwritten := @receiver_written (n + 1) burst date s.shared s.receiver
  by_cases hpc : s.receiver.pc = .setDate
  · obtain ⟨hring, hfiles⟩ := hguard hpc
    have hnext : pcapProcReceive (n + 1) date burst s.shared s.receiver =
        ({ s.shared with compressFileDate := date, session := s.shared.session + 1 },
          { s.receiver with pc := .setRunning }) := by
      simp only [pcapProcReceive, hpc]
    refine ⟨?_, ?_, fun i file hfile => ?_, ?_⟩
    · dsimp only
      rw [hnext]
      dsimp only
      rw [hring]
      exact fun _ hp => absurd hp List.not_mem_nil
    · dsimp only
      rw [hnext]
      exact fun _ hp => absurd hp List.not_mem_nil
    · have hnofile := hfiles i
      rw [hnofile] at hfile
      cases hfile
    · dsimp only
      rw [hwritten]
      exact h.written
  · obtain ⟨hdate, hsession⟩ := @receiver_session_of_pc (n + 1) burst date s.shared s.receiver hpc
    obtain ⟨hring, hbufs⟩ :=
      @receiver_packets_step (n + 1) burst date s.shared s.receiver hpc h.ring h.bufs
    refine ⟨?_, ?_, ?_, ?_⟩
    all_goals dsimp only [PacketsCurrent, Writer.Current, CompressFile.Current]
    · rw [hdate]
      exact hring
    · rw [hdate]
      exact hbufs
    · rw [hdate, hsession]
      exact h.writer
    · rw [hwritten]
      exact h.written

/-- A step of a writer keeps what holds. -/
theorem SessionInv.writer_step {i : Fin n} {ok full : Bool} (h : SessionInv s)
    (hs : captureStep (.writer i ok full) s = some t) : SessionInv t := by
  obtain ⟨g', w', hwrite, rfl⟩ := captureStep_writer hs
  obtain ⟨hcurrent, hwritten⟩ := writer_current_step (h.writer i) h.ring h.written hwrite
  have hring := writer_ring_subset hwrite
  obtain ⟨startUpCnt, ring, written, freed, rfl⟩ := pcapProcWrite_frame hwrite
  refine ⟨fun p hp => h.ring p (hring p hp), h.bufs, fun j => ?_, hwritten⟩
  dsimp only
  by_cases hj : j = i
  · subst hj
    rw [Function.update_self]
    exact hcurrent
  · rw [Function.update_of_ne hj]
    exact h.writer j

/-- One writer captures two packets. -/
def captureTwo (date : CLib.CStr) : List (CaptureEvent 1) :=
  .start :: List.replicate 7 (.receiver date 2) ++ List.replicate 6 (.writer sole true false) ++
    List.replicate 3 (.receiver date 2) ++ List.replicate 5 (.writer sole true false)

/-- Two sessions of one writer, which closes its file between them. -/
def twoSessionsRun : List (CaptureEvent 1) :=
  captureTwo "20240101000000".toList ++ .stop :: List.replicate 6 (.receiver [] 0) ++
    List.replicate 9 (.writer sole true false) ++ captureTwo "20240101000100".toList

/-- The condition of the beginning of a session, as a test for one writer. -/
def woundUpTest : CaptureEvent 1 → Capture 1 → Bool
  | .receiver _ _, s => s.receiver.pc ≠ .setDate ||
    s.shared.ring.isEmpty && (s.writer sole).compressFp.isNone
  | _, _ => true

/-- A step that passes the test begins a session at the right moment. -/
theorem woundUp_of_test (e : CaptureEvent 1) (s : Capture 1) (h : woundUpTest e s = true) :
    WoundUp e s := by
  cases e with
  | start => trivial
  | stop => trivial
  | receiver date burst =>
    intro hpc
    simp only [woundUpTest, hpc, ne_eq, not_true_eq_false, decide_false, Bool.false_or,
      Bool.and_eq_true, List.isEmpty_iff, Option.isNone_iff_eq_none] at h
    exact ⟨h.1, fun i => Subsingleton.elim sole i ▸ h.2⟩
  | writer i ok full => trivial

/-- A stop and a start of which the writer sees neither. -/
def quickRestartRun : List (CaptureEvent 1) :=
  captureTwo "20240101000000".toList ++ .stop :: List.replicate 6 (.receiver [] 0) ++
    .start :: List.replicate 10 (.receiver "20240101000001".toList 2) ++
    List.replicate 5 (.writer sole true false)

end Run

end Spp.Pcap
