import Spp.Pcap.FileWriter

/-!
# The capture files are complete

Where all operations on files and of LZ4 succeed, the files of a capture hold its packets one
after the other: each begins with the header of a pcap file and holds whole records.
-/

namespace Spp.Pcap.Files

section Statement

variable {lz4 : Lz4}

/-- A chain of segments that each fit a chunk, and have `pkt_len` bytes together. -/
structure CapPkt.WellFormed (pkt : CapPkt) : Prop where
  segment_le : ∀ segment ∈ pkt.segments, segment.length ≤ inChunkSize
  pktLen_eq : pkt.segments.flatten.length = pkt.pktLen

/-- The record of a packet: `write_len` and `packet_len` behind the time stamp, and as many of
its bytes as `write_len` says. -/
def CapPkt.record (pkt : CapPkt) : Bytes :=
  pkt.timeStamp ++ le32 (min 65535 pkt.pktLen) ++ le32 pkt.pktLen ++
    pkt.segments.flatten.take (min 65535 pkt.pktLen)

/-- A file has its number and its persistent name, and is the compressed capture of some
packets. -/
structure OutFile.IsCapture (lz4 : Lz4) (file : OutFile) (no : ℕ) (pkts : List CapPkt) : Prop where
  fileNo : file.fileNo = no
  saved : file.saved = true
  content : lz4.decompress file.content = some (pcapHeader ++ pkts.flatMap CapPkt.record)

/-- All calls succeed. -/
def allOk (_ : ℕ) : Bool := true

/-- The packets between `INIT_MODE` and `CLOSE_MODE`. -/
def capture (fsizeLimit : ℕ) (pkts : List CapPkt) (info : FileWriter lz4) : FileWriter lz4 :=
  let opened := (fileCompressionOperation allOk .init info).2
  let written := (writePackets allOk fsizeLimit pkts opened).2
  (fileCompressionOperation allOk .close written).2

end Statement

section Frames

variable {lz4 : Lz4}

/-- One more chunk. -/
theorem updates_concat (c : lz4.Ctx) (chunks : List Bytes) (chunk : Bytes) :
    lz4.updates c (chunks ++ [chunk]) =
      ((lz4.compressUpdate chunk (lz4.updates c chunks).1).1,
        (lz4.updates c chunks).2 ++ (lz4.compressUpdate chunk (lz4.updates c chunks).1).2) := by
  induction chunks generalizing c with
  | nil => simp [Lz4.updates]
  | cons first chunks ih =>
    rw [List.cons_append, Lz4.updates, ih]
    simp [Lz4.updates]

/-- The same for a frame that has been begun. -/
theorem upTo_concat (chunks : List Bytes) (chunk : Bytes) :
    lz4.upTo (chunks ++ [chunk]) =
      ((lz4.compressUpdate chunk (lz4.upTo chunks).1).1,
        (lz4.upTo chunks).2 ++ (lz4.compressUpdate chunk (lz4.upTo chunks).1).2) := by
  simp only [Lz4.upTo, updates_concat, List.append_assoc]

end Frames

section Operations

variable {lz4 : Lz4} {info : FileWriter lz4} {chunks : List Bytes}

/-- The file that is open, and its context, after some chunks. -/
structure FileWriter.Holds (info : FileWriter lz4) (chunks : List Bytes) : Prop where
  file : info.files info.compressFp = ⟨info.fileNo, (lz4.upTo chunks).2, false⟩
  context : info.contexts info.ctx = (lz4.upTo chunks).1

/-- At most the content of the open file has changed. -/
structure SameFile (info info' : FileWriter lz4) : Prop where
  fileNo : info'.fileNo = info.fileNo
  ctx : info'.ctx = info.ctx
  compressFp : info'.compressFp = info.compressFp
  opened : info'.opened = info.opened
  others : ∀ h, h ≠ info.compressFp → info'.files h = info.files h

theorem SameFile.refl (info : FileWriter lz4) : SameFile info info :=
  ⟨rfl, rfl, rfl, rfl, fun _ _ => rfl⟩

theorem SameFile.trans {info' info'' : FileWriter lz4} (h : SameFile info info')
    (h' : SameFile info' info'') : SameFile info info'' where
  fileNo := h'.fileNo.trans h.fileNo
  ctx := h'.ctx.trans h.ctx
  compressFp := h'.compressFp.trans h.compressFp
  opened := h'.opened.trans h.opened
  others := fun k hk => (h'.others k (h.compressFp ▸ hk)).trans (h.others k hk)

/-- `output_pcap_file` appends to the open file. -/
theorem outputPcapFile_allOk (srcbuf : Bytes) (info : FileWriter lz4) :
    (outputPcapFile allOk srcbuf info).1 = true ∧
      SameFile info (outputPcapFile allOk srcbuf info).2 ∧
      (outputPcapFile allOk srcbuf info).2.contexts = info.contexts ∧
      (outputPcapFile allOk srcbuf info).2.files info.compressFp =
        { info.files info.compressFp with
          content := (info.files info.compressFp).content ++ srcbuf } := by
  unfold outputPcapFile
  by_cases hempty : srcbuf = []
  · rw [if_pos hempty, hempty, List.append_nil]
    exact ⟨rfl, ⟨rfl, rfl, rfl, rfl, fun _ _ => rfl⟩, rfl, rfl⟩
  · rw [if_neg hempty]
    refine ⟨rfl, ⟨rfl, rfl, rfl, rfl, fun k hk => ?_⟩, rfl, ?_⟩
    · exact Function.update_of_ne hk _ _
    · exact Function.update_self _ _ _

/-- `output_lz4_pcap_file` adds a chunk. -/
theorem outputLz4PcapFile_allOk (srcbuf : Bytes) (h : info.Holds chunks) :
    (outputLz4PcapFile allOk srcbuf info).1 = true ∧
      SameFile info (outputLz4PcapFile allOk srcbuf info).2 ∧
      (outputLz4PcapFile allOk srcbuf info).2.Holds (chunks ++ [srcbuf]) := by
  obtain ⟨next, hnext⟩ : ∃ next, next = (lz4Call allOk (lz4.compressUpdate srcbuf) info).2 :=
    ⟨_, rfl⟩
  have hcall : lz4Call allOk (lz4.compressUpdate srcbuf) info =
      (some (lz4.compressUpdate srcbuf (lz4.upTo chunks).1).2, next) := by
    rw [hnext, ← h.context]
    rfl
  have hsame : SameFile info next := by
    rw [hnext]
    exact ⟨rfl, rfl, rfl, rfl, fun _ _ => rfl⟩
  obtain ⟨hok, hout, hcontexts, hfile⟩ :=
    outputPcapFile_allOk (lz4.compressUpdate srcbuf (lz4.upTo chunks).1).2 next
  have hcode : outputLz4PcapFile allOk srcbuf info =
      outputPcapFile allOk (lz4.compressUpdate srcbuf (lz4.upTo chunks).1).2 next := by
    unfold outputLz4PcapFile
    rw [hcall]
  rw [hcode]
  refine ⟨hok, hsame.trans hout, ?_, ?_⟩
  · have hcurrent : next.files next.compressFp = ⟨info.fileNo, (lz4.upTo chunks).2, false⟩ := by
      rw [hnext]
      exact h.file
    rw [hout.compressFp, hfile, hcurrent, upTo_concat, hout.fileNo, hsame.fileNo]
  · rw [hcontexts, hout.ctx, upTo_concat, hnext, ← h.context]
    exact Function.update_self _ _ _

/-- What is in the output buffer after `LZ4F_compressBegin`. -/
def frameHeader (lz4 : Lz4) : Bytes := (lz4.compressBegin lz4.created).2

/-- A new file after the header of the frame. -/
def begun (info : FileWriter lz4) : FileWriter lz4 :=
  (outputPcapFile allOk (frameHeader lz4)
    (lz4Call allOk lz4.compressBegin info.fopen.createContext).2).2

/-- A new file holds nothing yet. -/
theorem begun_spec (info : FileWriter lz4) :
    (begun info).compressFp = info.opened + 1 ∧ (begun info).opened = info.opened + 1 ∧
      (begun info).fileNo = info.fileNo ∧
      (∀ h ≤ info.opened, (begun info).files h = info.files h) ∧ (begun info).Holds [] := by
  obtain ⟨called, hcalled⟩ : ∃ called, called =
      (lz4Call allOk lz4.compressBegin info.fopen.createContext).2 := ⟨_, rfl⟩
  have hbegun : begun info = (outputPcapFile allOk (frameHeader lz4) called).2 := by
    rw [hcalled]
    rfl
  obtain ⟨-, hsame, hcontexts, hfile⟩ := outputPcapFile_allOk (frameHeader lz4) called
  rw [← hbegun] at hsame hcontexts hfile
  have hfp : called.compressFp = info.opened + 1 := by rw [hcalled]; rfl
  have hopened : called.opened = info.opened + 1 := by rw [hcalled]; rfl
  have hno : called.fileNo = info.fileNo := by rw [hcalled]; rfl
  have hfiles : called.files =
      Function.update info.files (info.opened + 1) ⟨info.fileNo, [], false⟩ := by
    rw [hcalled]
    rfl
  have hctx : called.contexts called.ctx = (lz4.compressBegin lz4.created).1 := by
    have hcreated : info.fopen.createContext.contexts info.fopen.createContext.ctx =
        lz4.created := Function.update_self _ _ _
    rw [hcalled, ← hcreated]
    exact Function.update_self _ _ _
  refine ⟨hsame.compressFp.trans hfp, hsame.opened.trans hopened, hsame.fileNo.trans hno, ?_, ?_, ?_⟩
  · intro k hk
    rw [hsame.others k (by omega), hfiles, Function.update_of_ne (by omega)]
  · rw [hsame.compressFp, hfile, hfp, hfiles, Function.update_self, hsame.fileNo, hno]
    simp [Lz4.upTo, Lz4.updates, frameHeader]
  · rw [hcontexts, hsame.ctx, hctx]
    rfl

/-- A new file begins with its header. -/
theorem openFile_allOk (info : FileWriter lz4) :
    (openFile allOk info).1 = true ∧
      (openFile allOk info).2.compressFp = info.opened + 1 ∧
      (openFile allOk info).2.opened = info.opened + 1 ∧
      (openFile allOk info).2.fileNo = info.fileNo ∧
      (∀ h ≤ info.opened, (openFile allOk info).2.files h = info.files h) ∧
      (openFile allOk info).2.Holds [pcapHeader] := by
  obtain ⟨hfp, hopened, hno, hold, hholds⟩ := begun_spec info
  obtain ⟨sized, hsized⟩ : ∃ sized, sized =
      { begun info with fileSize := (frameHeader lz4).length } := ⟨_, rfl⟩
  have hholds' : sized.Holds [] := by
    rw [hsized]
    exact ⟨hholds.file, hholds.context⟩
  obtain ⟨hok, hsame, hheld⟩ := outputLz4PcapFile_allOk pcapHeader hholds'
  have hcode : openFile allOk info = outputLz4PcapFile allOk pcapHeader sized := by
    have hwritten := (outputPcapFile_allOk (frameHeader lz4)
      (lz4Call allOk lz4.compressBegin info.fopen.createContext).2).1
    have hcall : (lz4Call allOk lz4.compressBegin info.fopen.createContext).1 =
        some (frameHeader lz4) := by
      have hcreated : info.fopen.createContext.contexts info.fopen.createContext.ctx =
          lz4.created := Function.update_self _ _ _
      rw [frameHeader, ← hcreated]
      rfl
    have htrue : ∀ k, ¬ allOk k = false := fun _ => Bool.noConfusion
    rw [hsized] at hok ⊢
    unfold openFile
    simp only [htrue, if_false, hcall, hwritten, Bool.true_eq_false]
    exact if_neg fun hfalse => Bool.noConfusion (hok.symm.trans hfalse)
  rw [hcode]
  have hfp' : sized.compressFp = info.opened + 1 := by rw [hsized]; exact hfp
  have hopened' : sized.opened = info.opened + 1 := by rw [hsized]; exact hopened
  have hno' : sized.fileNo = info.fileNo := by rw [hsized]; exact hno
  refine ⟨hok, hsame.compressFp.trans hfp', hsame.opened.trans hopened', hsame.fileNo.trans hno',
    ?_, hheld⟩
  intro k hk
  rw [hsame.others k (by omega), hsized]
  exact hold k hk

/-- The file that is open, with its frame ended. -/
def ended (info : FileWriter lz4) : FileWriter lz4 :=
  (outputPcapFile allOk (lz4.compressEnd (info.contexts info.ctx)).2
    (lz4Call allOk lz4.compressEnd info).2).2

/-- It holds the frame of all its chunks. -/
theorem ended_spec (h : info.Holds chunks) : SameFile info (ended info) ∧
    (ended info).files info.compressFp = ⟨info.fileNo, lz4.frame chunks, false⟩ := by
  obtain ⟨-, hsame, -, hfile⟩ := outputPcapFile_allOk (lz4.compressEnd (info.contexts info.ctx)).2
    (lz4Call allOk lz4.compressEnd info).2
  have hcall : SameFile info (lz4Call allOk lz4.compressEnd info).2 :=
    ⟨rfl, rfl, rfl, rfl, fun _ _ => rfl⟩
  refine ⟨hcall.trans hsame, hfile.trans ?_⟩
  have hcurrent : (lz4Call allOk lz4.compressEnd info).2.files
      (lz4Call allOk lz4.compressEnd info).2.compressFp =
        ⟨info.fileNo, (lz4.upTo chunks).2, false⟩ := h.file
  rw [hcurrent, h.context]
  rfl

/-- A rotation completes the open file and begins the next one. -/
theorem update_allOk (h : info.Holds chunks) (hfp : info.compressFp = info.opened) :
    (fileCompressionOperation allOk .update info).1 = true ∧
      (fileCompressionOperation allOk .update info).2.compressFp = info.opened + 1 ∧
      (fileCompressionOperation allOk .update info).2.opened = info.opened + 1 ∧
      (fileCompressionOperation allOk .update info).2.fileNo = info.fileNo + 1 ∧
      (fileCompressionOperation allOk .update info).2.files info.opened =
        ⟨info.fileNo, lz4.frame chunks, true⟩ ∧
      (∀ k < info.opened,
        (fileCompressionOperation allOk .update info).2.files k = info.files k) ∧
      (fileCompressionOperation allOk .update info).2.Holds [pcapHeader] := by
  obtain ⟨hsame, hfile⟩ := ended_spec h
  obtain ⟨next, hnext⟩ : ∃ next, next = { (ended info).fclose.rename (ended info).compressFp with
      fileSize := 0, fileNo := (ended info).fileNo + 1 } := ⟨_, rfl⟩
  have hcode : fileCompressionOperation allOk .update info = openFile allOk next := by
    have hwritten := (outputPcapFile_allOk (lz4.compressEnd (info.contexts info.ctx)).2
      (lz4Call allOk lz4.compressEnd info).2).1
    have hcall : (lz4Call allOk lz4.compressEnd info).1 =
        some (lz4.compressEnd (info.contexts info.ctx)).2 := rfl
    rw [hnext]
    simp only [fileCompressionOperation, hcall, hwritten, Bool.true_eq_false, if_false]
    rfl
  have hopened : next.opened = info.opened := by rw [hnext]; exact hsame.opened
  have hno : next.fileNo = info.fileNo + 1 := by
    rw [hnext]
    exact congrArg (· + 1) hsame.fileNo
  have hfiles : next.files = Function.update (ended info).files info.compressFp
      ⟨info.fileNo, lz4.frame chunks, true⟩ := by
    rw [hnext, ← hsame.compressFp]
    show Function.update _ _ _ = _
    rw [hsame.compressFp]
    show Function.update (ended info).files info.compressFp
      { (ended info).files info.compressFp with saved := true } = _
    rw [hfile]
  obtain ⟨hok, hfp', hopened', hno', hold, hheld⟩ := openFile_allOk next
  rw [hcode]
  rw [hopened] at hfp' hopened' hold
  refine ⟨hok, hfp', hopened', hno'.trans hno, ?_, ?_, hheld⟩
  · rw [hold info.opened le_rfl, hfiles, hfp, Function.update_self]
  · intro k hk
    rw [hold k (Nat.le_of_lt hk), hfiles, Function.update_of_ne (by omega), hsame.others k (by omega)]

/-- Closing completes the open file. -/
theorem close_allOk (h : info.Holds chunks) (hne : info.compressFp ≠ 0) :
    (fileCompressionOperation allOk .close info).2.opened = info.opened ∧
      (fileCompressionOperation allOk .close info).2.files info.compressFp =
        ⟨info.fileNo, lz4.frame chunks, true⟩ ∧
      ∀ k, k ≠ info.compressFp →
        (fileCompressionOperation allOk .close info).2.files k = info.files k := by
  obtain ⟨hsame, hfile⟩ := ended_spec h
  have hfiles : (fileCompressionOperation allOk .close info).2.files =
      Function.update (ended info).files (ended info).compressFp
        { (ended info).files (ended info).compressFp with saved := true } := by
    rw [fileCompressionOperation, if_neg hne]
    rfl
  have hopened : (fileCompressionOperation allOk .close info).2.opened = (ended info).opened := by
    rw [fileCompressionOperation, if_neg hne]
    rfl
  rw [hsame.compressFp, hfile] at hfiles
  refine ⟨hopened.trans hsame.opened, ?_, ?_⟩
  · rw [hfiles, Function.update_self]
  · intro k hk
    rw [hfiles, Function.update_of_ne hk, hsame.others k hk]

/-- The segments of a packet become chunks, cut after the bytes that are to be written. -/
theorem writeContent_allOk (segments : List Bytes) (remainingBytes : ℕ) (h : info.Holds chunks)
    (hle : ∀ segment ∈ segments, segment.length ≤ inChunkSize) :
    (writeContent allOk segments remainingBytes info).1 = true ∧
      SameFile info (writeContent allOk segments remainingBytes info).2 ∧
      ∃ more : List Bytes, (∀ chunk ∈ more, chunk.length ≤ inChunkSize) ∧
        more.flatten = segments.flatten.take remainingBytes ∧
        (writeContent allOk segments remainingBytes info).2.Holds (chunks ++ more) := by
  induction segments generalizing remainingBytes info chunks with
  | nil => exact ⟨rfl, .refl info, [], by simp, by simp, by simpa [writeContent] using h⟩
  | cons segment segments ih =>
    by_cases hzero : remainingBytes = 0
    · rw [writeContent, if_pos hzero]
      exact ⟨rfl, .refl info, [], by simp, by simp [hzero], by simpa using h⟩
    · obtain ⟨hok, hsame, hheld⟩ :=
        outputLz4PcapFile_allOk (segment.take (min segment.length remainingBytes)) h
      obtain ⟨grown, hgrown⟩ : ∃ grown, grown = (outputLz4PcapFile allOk
        (segment.take (min segment.length remainingBytes)) info).2.grow
          (min segment.length remainingBytes) := ⟨_, rfl⟩
      have hsame' : SameFile info grown := by
        rw [hgrown]
        exact ⟨hsame.fileNo, hsame.ctx, hsame.compressFp, hsame.opened, hsame.others⟩
      have hheld' : grown.Holds
          (chunks ++ [segment.take (min segment.length remainingBytes)]) := by
        rw [hgrown]
        exact ⟨hheld.file, hheld.context⟩
      have hcode : writeContent allOk (segment :: segments) remainingBytes info =
          writeContent allOk segments (remainingBytes - min segment.length remainingBytes)
            grown := by
        rw [writeContent, if_neg hzero, hgrown]
        simp only [hok, Bool.true_eq_false, if_false]
      obtain ⟨hrest, hsame'', more, hmore, hflat, hheld''⟩ :=
        ih (remainingBytes - min segment.length remainingBytes) hheld'
          fun s hs => hle s (List.mem_cons_of_mem _ hs)
      rw [hcode]
      refine ⟨hrest, hsame'.trans hsame'',
        segment.take (min segment.length remainingBytes) :: more, ?_, ?_, ?_⟩
      · intro chunk hchunk
        rcases List.mem_cons.mp hchunk with rfl | hchunk
        · have hlength := hle segment List.mem_cons_self
          rw [List.length_take]
          omega
        · exact hmore chunk hchunk
      · rw [List.flatten_cons, List.flatten_cons, List.take_append, hflat]
        have hcut : segment.take (min segment.length remainingBytes) =
            segment.take remainingBytes := by
          rw [List.take_eq_take_iff]
          omega
        have hrest : remainingBytes - min segment.length remainingBytes =
            remainingBytes - segment.length := by omega
        rw [hcut, hrest]
      · rw [List.append_assoc, List.singleton_append] at hheld''
        exact hheld''

end Operations

section Sessions

variable {lz4 : Lz4} {start info : FileWriter lz4} {done : List (List CapPkt)}
  {cur : List CapPkt} {pkt : CapPkt}

/-- The header of a pcap file has 24 bytes, and that of a record 16. -/
theorem length_headers : pcapHeader.length = 24 ∧ ∀ pkt : CapPkt, pkt.header.length = 16 :=
  ⟨by decide, fun _ => rfl⟩

/-- The files of a capture that is going on: those that are complete, each with its packets,
and the one that is open. -/
structure Writing (start info : FileWriter lz4) (done : List (List CapPkt))
    (cur : List CapPkt) : Prop where
  opened : info.opened = start.opened + done.length + 1
  compressFp : info.compressFp = info.opened
  fileNo : info.fileNo = done.length + 1
  /-- The files of earlier captures are left alone. -/
  old : ∀ k ≤ start.opened, info.files k = start.files k
  complete : ∀ i (hi : i < done.length),
    (info.files (start.opened + i + 1)).IsCapture lz4 (i + 1) done[i]
  current : ∃ chunks : List Bytes, (∀ chunk ∈ chunks, chunk.length ≤ inChunkSize) ∧
    chunks.flatten = pcapHeader ++ cur.flatMap CapPkt.record ∧ info.Holds chunks

/-- What is compressed in an open file is what it has to be in a complete one. -/
theorem isCapture_frame (hlz4 : lz4.Inverts) {chunks : List Bytes} {no : ℕ}
    (hle : ∀ chunk ∈ chunks, chunk.length ≤ inChunkSize)
    (hflat : chunks.flatten = pcapHeader ++ cur.flatMap CapPkt.record) :
    OutFile.IsCapture lz4 ⟨no, lz4.frame chunks, true⟩ no cur :=
  ⟨rfl, rfl, by rw [hlz4 chunks hle, hflat]⟩

/-- The start of a capture. -/
theorem writing_init (start : FileWriter lz4) :
    Writing start (fileCompressionOperation allOk .init start).2 [] [] := by
  obtain ⟨-, hfp, hopened, hno, hold, hheld⟩ :=
    openFile_allOk { start.malloc with fileSize := 0, fileNo := 1 }
  refine ⟨hopened, hfp.trans hopened.symm, hno, hold, nofun, [pcapHeader], ?_, by simp, hheld⟩
  intro chunk hchunk
  obtain rfl := List.mem_singleton.mp hchunk
  decide

/-- A rotation. -/
theorem Writing.update (hlz4 : lz4.Inverts) (h : Writing start info done cur) :
    (fileCompressionOperation allOk .update info).1 = true ∧
      Writing start (fileCompressionOperation allOk .update info).2 (done ++ [cur]) [] := by
  obtain ⟨hopen, hfpEq, hno, hold, hcomplete, chunks, hle, hflat, hheld⟩ := h
  obtain ⟨hok, hfp', hopen', hno', hlast, hrest, hheld'⟩ := update_allOk hheld hfpEq
  refine ⟨hok, ?_, hfp'.trans hopen'.symm, ?_, ?_, ?_, [pcapHeader], ?_, by simp, hheld'⟩
  · rw [hopen', hopen, List.length_append, List.length_singleton]
    omega
  · rw [hno', hno, List.length_append, List.length_singleton]
  · intro k hk
    rw [hrest k (by omega), hold k hk]
  · intro i hi
    rw [List.length_append, List.length_singleton] at hi
    by_cases hlt : i < done.length
    · rw [hrest _ (by omega), List.getElem_append_left hlt]
      exact hcomplete i hlt
    · obtain rfl : i = done.length := by omega
      rw [← hopen, hlast, hno]
      simpa using isCapture_frame hlz4 hle hflat
  · intro chunk hchunk
    obtain rfl := List.mem_singleton.mp hchunk
    decide

/-- A packet is appended to the open file. -/
theorem Writing.record (hpkt : pkt.WellFormed) (h : Writing start info done cur) :
    ∃ next, (outputLz4PcapFile allOk pkt.header info).1 = true ∧
      writeContent allOk pkt.segments pkt.writeLen
        ((outputLz4PcapFile allOk pkt.header info).2.grow 16) = (true, next) ∧
      Writing start next done (cur ++ [pkt]) := by
  obtain ⟨hopen, hfpEq, hno, hold, hcomplete, chunks, hle, hflat, hheld⟩ := h
  obtain ⟨hok, hsame, hheld⟩ := outputLz4PcapFile_allOk pkt.header hheld
  obtain ⟨grown, hgrown⟩ : ∃ grown, grown = (outputLz4PcapFile allOk pkt.header info).2.grow 16 :=
    ⟨_, rfl⟩
  have hsame' : SameFile info grown := by
    rw [hgrown]
    exact ⟨hsame.fileNo, hsame.ctx, hsame.compressFp, hsame.opened, hsame.others⟩
  have hheld' : grown.Holds (chunks ++ [pkt.header]) := by
    rw [hgrown]
    exact ⟨hheld.file, hheld.context⟩
  obtain ⟨hok', hrest, more, hmore, hmoreFlat, hheld''⟩ :=
    writeContent_allOk pkt.segments pkt.writeLen hheld' hpkt.segment_le
  have hall := hsame'.trans hrest
  rw [← hgrown]
  refine ⟨(writeContent allOk pkt.segments pkt.writeLen grown).2, hok, Prod.ext hok' rfl, ?_⟩
  refine ⟨hall.opened.trans hopen, ?_, hall.fileNo.trans hno, ?_, ?_,
    chunks ++ [pkt.header] ++ more, ?_, ?_, hheld''⟩
  · rw [hall.compressFp, hall.opened, hfpEq]
  · intro k hk
    rw [hall.others k (by omega), hold k hk]
  · intro i hi
    rw [hall.others _ (by omega)]
    exact hcomplete i hi
  · intro chunk hchunk
    rcases List.mem_append.mp hchunk with hchunk | hchunk
    · rcases List.mem_append.mp hchunk with hchunk | hchunk
      · exact hle chunk hchunk
      · obtain rfl := List.mem_singleton.mp hchunk
        rw [length_headers.2]
        decide
    · exact hmore chunk hchunk
  · rw [List.flatten_append, List.flatten_append, hflat, hmoreFlat]
    simp [CapPkt.record, CapPkt.header, CapPkt.writeLen, pcapSnaplenMax]

/-- `compress_file_packet` writes a packet as a whole, to the open file or to the next one. -/
theorem Writing.packet (hlz4 : lz4.Inverts) (fsizeLimit : ℕ) (hpkt : pkt.WellFormed)
    (h : Writing start info done cur) :
    ∃ next done' cur', compressFilePacket allOk fsizeLimit pkt info = (true, next) ∧
      Writing start next done' cur' ∧ done'.flatten ++ cur' = done.flatten ++ cur ++ [pkt] := by
  have hne : info.compressFp ≠ 0 := by
    have hfp := h.compressFp
    have hopened := h.opened
    omega
  by_cases hfull : fsizeLimit < info.fileSize
  · obtain ⟨hok, hrolled⟩ := h.update hlz4
    obtain ⟨next, hheader, hcontent, hnext⟩ := hrolled.record hpkt
    refine ⟨next, done ++ [cur], [] ++ [pkt], ?_, hnext, by simp⟩
    simp only [compressFilePacket, if_neg hne, if_pos hfull, hok, hheader, Bool.true_eq_false,
      if_false, hcontent]
  · obtain ⟨next, hheader, hcontent, hnext⟩ := h.record hpkt
    refine ⟨next, done, cur ++ [pkt], ?_, hnext, by simp⟩
    simp only [compressFilePacket, if_neg hne, if_neg hfull, hheader, Bool.true_eq_false,
      if_false, hcontent]

/-- Any number of packets. -/
theorem Writing.packets (hlz4 : lz4.Inverts) (fsizeLimit : ℕ) {pkts : List CapPkt}
    (hpkts : ∀ pkt ∈ pkts, pkt.WellFormed) (h : Writing start info done cur) :
    ∃ done' cur', Writing start (writePackets allOk fsizeLimit pkts info).2 done' cur' ∧
      done'.flatten ++ cur' = done.flatten ++ cur ++ pkts := by
  induction pkts generalizing info done cur with
  | nil => exact ⟨done, cur, h, by simp⟩
  | cons pkt pkts ih =>
    obtain ⟨next, done', cur', hcode, hnext, hflat⟩ :=
      h.packet hlz4 fsizeLimit (hpkts pkt List.mem_cons_self)
    obtain ⟨done'', cur'', hrest, hflat'⟩ :=
      ih (fun p hp => hpkts p (List.mem_cons_of_mem _ hp)) hnext
    refine ⟨done'', cur'', ?_, ?_⟩
    · simpa only [writePackets, hcode, Bool.true_eq_false, if_false] using hrest
    · rw [hflat', hflat, List.append_assoc _ [pkt], List.singleton_append]

/-- The files of a capture are numbered from one, and hold its packets in their order, each
as a whole record of one file. The headers have their sizes. -/
theorem captureFiles_complete (hlz4 : lz4.Inverts) (fsizeLimit : ℕ) {pkts : List CapPkt}
    (hpkts : ∀ pkt ∈ pkts, pkt.WellFormed) (start : FileWriter lz4) :
    (pcapHeader.length = 24 ∧ ∀ pkt : CapPkt, pkt.header.length = 16) ∧
    ∃ groups : List (List CapPkt), groups.flatten = pkts ∧
      (capture fsizeLimit pkts start).opened = start.opened + groups.length ∧
      (∀ k ≤ start.opened, (capture fsizeLimit pkts start).files k = start.files k) ∧
      ∀ i (hi : i < groups.length),
        ((capture fsizeLimit pkts start).files (start.opened + i + 1)).IsCapture lz4 (i + 1)
          groups[i] := by
  obtain ⟨done, cur, hwriting, hflat⟩ :=
    (writing_init start).packets hlz4 fsizeLimit hpkts
  obtain ⟨hopen, hfpEq, hno, hold, hcomplete, chunks, hle, hchunks, hheld⟩ := hwriting
  obtain ⟨hopen', hlast, hrest⟩ := close_allOk hheld (by omega)
  refine ⟨length_headers, done ++ [cur], by simpa using hflat, ?_, ?_, ?_⟩
  · rw [List.length_append, List.length_singleton]
    exact hopen'.trans (by omega)
  · intro k hk
    exact (hrest k (by omega)).trans (hold k hk)
  · intro i hi
    rw [List.length_append, List.length_singleton] at hi
    by_cases hlt : i < done.length
    · have hsame := hrest (start.opened + i + 1) (by omega)
      rw [capture, hsame, List.getElem_append_left hlt]
      exact hcomplete i hlt
    · obtain rfl : i = done.length := by omega
      rw [hfpEq, hopen, hno] at hlast
      rw [capture, hlast]
      simpa using isCapture_frame hlz4 hle hchunks

end Sessions

section Stored

/-- What a frame begins with: the magic number, and the descriptor for linked blocks of at
most 256 KB without checksums. -/
def storedHeader : Bytes := [0x04, 0x22, 0x4d, 0x18, 0x40, 0x50, 0x77]

/-- A block that is stored as it is, which the highest bit of its size says. -/
def storedBlock (chunk : Bytes) : Bytes :=
  if chunk = [] then [] else le32 (2 ^ 31 + chunk.length) ++ chunk

/-- The stored blocks up to the end mark. -/
def readStored : ℕ → Bytes → Option Bytes
  | fuel + 1, b₀ :: b₁ :: b₂ :: b₃ :: rest =>
    let size := b₀.toNat + b₁.toNat * 2 ^ 8 + b₂.toNat * 2 ^ 16 + b₃.toNat * 2 ^ 24
    if size = 0 then if rest = [] then some [] else none
    else if 2 ^ 31 ≤ size ∧ size - 2 ^ 31 ≤ rest.length then
      (readStored fuel (rest.drop (size - 2 ^ 31))).map (rest.take (size - 2 ^ 31) ++ ·)
    else none
  | _, _ => none

/-- A frame of stored blocks. -/
def readStoredFrame (bytes : Bytes) : Option Bytes :=
  if bytes.take 7 = storedHeader then readStored bytes.length (bytes.drop 7) else none

/-- LZ4 frames that do not compress: each chunk becomes a stored block. -/
def storedLz4 : Lz4 where
  Ctx := Unit
  created := ()
  compressBegin := fun _ => ((), storedHeader)
  compressUpdate := fun chunk _ => ((), storedBlock chunk)
  compressEnd := fun _ => ((), le32 0)
  decompress := readStoredFrame

/-- A size is read back from its four bytes. -/
theorem le32_toNat {n : ℕ} (h : n < 2 ^ 32) :
    (UInt8.ofNat n).toNat + (UInt8.ofNat (n / 2 ^ 8)).toNat * 2 ^ 8 +
      (UInt8.ofNat (n / 2 ^ 16)).toNat * 2 ^ 16 +
      (UInt8.ofNat (n / 2 ^ 24)).toNat * 2 ^ 24 = n := by
  simp only [UInt8.toNat_ofNat']
  omega

/-- The stored blocks are read back. -/
theorem readStored_blocks {chunks : List Bytes}
    (hle : ∀ chunk ∈ chunks, chunk.length ≤ inChunkSize) {fuel : ℕ}
    (hfuel : (chunks.flatMap storedBlock).length < fuel) :
    readStored fuel (chunks.flatMap storedBlock ++ le32 0) = some chunks.flatten := by
  induction chunks generalizing fuel with
  | nil =>
    obtain ⟨fuel, rfl⟩ : ∃ k, fuel = k + 1 := ⟨fuel - 1, by omega⟩
    simp [readStored, le32]
  | cons chunk chunks ih =>
    have hrest := fun c hc => hle c (List.mem_cons_of_mem chunk hc)
    by_cases hnil : chunk = []
    · subst hnil
      exact ih hrest hfuel
    · have hchunk := hle chunk List.mem_cons_self
      have hblock : storedBlock chunk = le32 (2 ^ 31 + chunk.length) ++ chunk := if_neg hnil
      obtain ⟨fuel, rfl⟩ : ∃ k, fuel = k + 1 := ⟨fuel - 1, by omega⟩
      have hpos : 0 < chunk.length := List.length_pos_iff.mpr hnil
      unfold inChunkSize at hchunk
      have hsize := le32_toNat (n := 2 ^ 31 + chunk.length) (by omega)
      have hlength : 2 ^ 31 + chunk.length - 2 ^ 31 = chunk.length := by omega
      rw [List.flatMap_cons, hblock, List.length_append, List.length_append] at hfuel
      have hfour : (le32 (2 ^ 31 + chunk.length)).length = 4 := rfl
      have hread := @ih hrest fuel (by omega)
      rw [List.flatMap_cons, hblock, List.append_assoc, List.append_assoc]
      have hbig : 2 ^ 31 ≤ 2 ^ 31 + chunk.length := by omega
      generalize le32 0 = mark at hread ⊢
      generalize 2 ^ 31 + chunk.length = size at hsize hlength hbig
      unfold le32
      rw [List.cons_append, List.cons_append, List.cons_append, List.cons_append, List.nil_append,
        readStored]
      have hfits : 2 ^ 31 ≤ size ∧ size - 2 ^ 31 ≤
          (chunk ++ (chunks.flatMap storedBlock ++ mark)).length := by
        rw [List.length_append]
        omega
      simp only [hsize]
      rw [if_neg (by omega), if_pos hfits, hlength, List.drop_left, List.take_left, hread, List.flatten_cons]
      rfl

/-- The frames of stored blocks give back what was put in. -/
theorem storedLz4_inverts : storedLz4.Inverts := by
  intro chunks hle
  have hupdates : ∀ chunks : List Bytes,
      (storedLz4.updates () chunks).2 = chunks.flatMap storedBlock := by
    intro chunks
    induction chunks with
    | nil => rfl
    | cons chunk chunks ih =>
      rw [List.flatMap_cons, ← ih]
      rfl
  have hframe : storedLz4.frame chunks =
      storedHeader ++ (chunks.flatMap storedBlock ++ le32 0) := by
    rw [← hupdates chunks, ← List.append_assoc]
    rfl
  rw [hframe]
  have htake : (storedHeader ++ (chunks.flatMap storedBlock ++ le32 0)).take 7 = storedHeader :=
    rfl
  have hread : storedLz4.decompress = readStoredFrame := rfl
  rw [hread, readStoredFrame, if_pos htake]
  refine readStored_blocks hle ?_
  rw [List.length_append, List.length_append]
  exact Nat.lt_add_left _ (Nat.lt_add_of_pos_right (show 0 < 4 by decide))

/-- A packet of three bytes in two segments. -/
def smallPkt : CapPkt where
  segments := [[1, 2], [3]]
  pktLen := 3
  tvSec := 1704067200
  tvNsec := 0

/-- Two packets go to three files if there is a new file for each. -/
theorem captureFiles_complete_twoPkts :
    ∃ groups : List (List CapPkt), groups.flatten = [smallPkt, smallPkt] ∧
      ∀ i (hi : i < groups.length),
        ((capture 0 [smallPkt, smallPkt] (.initial storedLz4)).files (i + 1)).IsCapture storedLz4
          (i + 1) groups[i] := by
  have hpkts : ∀ pkt ∈ [smallPkt, smallPkt], pkt.WellFormed := by
    intro pkt hpkt
    obtain rfl : pkt = smallPkt := by simpa using hpkt
    exact ⟨by decide, by decide⟩
  obtain ⟨-, groups, hflat, -, -, hfiles⟩ :=
    captureFiles_complete storedLz4_inverts 0 hpkts (.initial storedLz4)
  refine ⟨groups, hflat, fun i hi => ?_⟩
  have hfile := hfiles i hi
  rwa [show (FileWriter.initial storedLz4).opened + i + 1 = i + 1 by
    show 0 + i + 1 = i + 1
    omega] at hfile

end Stored

end Spp.Pcap.Files
