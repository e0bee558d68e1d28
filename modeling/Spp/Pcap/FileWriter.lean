import Spp.Lib.Lifetimes
import Spp.Pcap.Capture

/-!
# The files of a writer of spp_pcap

`file_compression_operation`, `compress_file_packet` and a pass of `pcap_proc_write` for one
writer, with what they write and what they do with their resources: the output buffer, the
file and the context of LZ4. Any of the calls that the code checks may fail.
-/

namespace Spp.Pcap.Files

open Lifetimes

section Library

/-- A text of bytes. -/
abbrev Bytes := List UInt8

/-- What the writer uses of LZ4F: the states of a context, what is put out on the way, and
the decompression of a whole frame. -/
structure Lz4 where
  Ctx : Type
  /-- A context as `LZ4F_createCompressionContext` makes it. -/
  created : Ctx
  compressBegin : Ctx → Ctx × Bytes
  compressUpdate : Bytes → Ctx → Ctx × Bytes
  compressEnd : Ctx → Ctx × Bytes
  decompress : Bytes → Option Bytes

/-- `IN_CHUNK_SIZE`. The output buffer has room for what becomes of a chunk of this size. -/
def inChunkSize : ℕ := 16 * 1024

/-- The context and the output after a list of chunks. -/
def Lz4.updates (lz4 : Lz4) (c : lz4.Ctx) : List Bytes → lz4.Ctx × Bytes
  | [] => (c, [])
  | chunk :: chunks =>
    let next := lz4.compressUpdate chunk c
    let rest := lz4.updates next.1 chunks
    (rest.1, next.2 ++ rest.2)

/-- What is put out up to some chunk, with the context after it. -/
def Lz4.upTo (lz4 : Lz4) (chunks : List Bytes) : lz4.Ctx × Bytes :=
  let opening := lz4.compressBegin lz4.created
  let body := lz4.updates opening.1 chunks
  (body.1, opening.2 ++ body.2)

/-- The frame of a list of chunks. -/
def Lz4.frame (lz4 : Lz4) (chunks : List Bytes) : Bytes :=
  (lz4.upTo chunks).2 ++ (lz4.compressEnd (lz4.upTo chunks).1).2

/-- The decompression of a frame gives back what was compressed, chunk by chunk. -/
def Lz4.Inverts (lz4 : Lz4) : Prop :=
  ∀ chunks : List Bytes, (∀ chunk ∈ chunks, chunk.length ≤ inChunkSize) →
    lz4.decompress (lz4.frame chunks) = some chunks.flatten

end Library

section Headers

/-- The bytes of a `uint16_t`. -/
def le16 (n : ℕ) : Bytes := [UInt8.ofNat n, UInt8.ofNat (n / 2 ^ 8)]

/-- The bytes of a `uint32_t`. -/
def le32 (n : ℕ) : Bytes :=
  [UInt8.ofNat n, UInt8.ofNat (n / 2 ^ 8), UInt8.ofNat (n / 2 ^ 16), UInt8.ofNat (n / 2 ^ 24)]

/-- `PCAP_SNAPLEN_MAX`. -/
def pcapSnaplenMax : ℕ := 65535

/-- `struct pcap_header` as `file_compression_operation` fills it. -/
def pcapHeader : Bytes :=
  le32 0xa1b2c3d4 ++ le16 2 ++ le16 4 ++ le32 0 ++ le32 0 ++ le32 pcapSnaplenMax ++ le32 1

/-- A packet that is captured: the data of its segments, its `pkt_len` and what
`clock_gettime` returns when it is written. -/
structure CapPkt where
  segments : List Bytes
  pktLen : ℕ
  tvSec : ℤ
  tvNsec : ℕ

/-- `write_packet_length`. -/
def CapPkt.writeLen (pkt : CapPkt) : ℕ := min pcapSnaplenMax pkt.pktLen

/-- `ts_sec` and `ts_usec`. -/
def CapPkt.timeStamp (pkt : CapPkt) : Bytes :=
  le32 (pkt.tvSec % 2 ^ 32).toNat ++ le32 (pkt.tvNsec / 1000)

/-- `struct pcap_packet_header` as `compress_file_packet` fills it. -/
def CapPkt.header (pkt : CapPkt) : Bytes :=
  pkt.timeStamp ++ le32 pkt.writeLen ++ le32 pkt.pktLen

end Headers

section Source

/-- What a writer acquires and has to release, each with the number it was acquired under. -/
inductive Resource
  | outbuff (i : ℕ)
  | file (i : ℕ)
  | context (i : ℕ)
  deriving DecidableEq

/-- A file: the number in its name, what has been written to it, and whether it has got its
persistent name. -/
structure OutFile where
  fileNo : ℕ
  content : Bytes
  saved : Bool

/-- `struct pcap_mng_info` of a writer, with all that it has acquired. The pointers are the
numbers of what they point to, which are counted from one; zero is `NULL`. `calls` counts the
calls of a pass that may fail. -/
structure FileWriter (lz4 : Lz4) where
  status : CaptureStatus
  fileNo : ℕ
  ctx : ℕ
  compressFp : ℕ
  outbuff : ℕ
  fileSize : ℕ
  calls : ℕ
  trace : List (Op × Resource)
  buffers : ℕ
  opened : ℕ
  created : ℕ
  files : ℕ → OutFile
  contexts : ℕ → lz4.Ctx

variable {lz4 : Lz4}

/-- A call that may fail, and uses resources. -/
def FileWriter.use (info : FileWriter lz4) (resources : List Resource) : FileWriter lz4 :=
  { info with calls := info.calls + 1, trace := info.trace ++ resources.map (Op.use, ·) }

/-- A change of a file. -/
def FileWriter.editFile (info : FileWriter lz4) (fp : ℕ) (f : OutFile → OutFile) :
    FileWriter lz4 :=
  { info with files := Function.update info.files fp (f (info.files fp)) }

/-- What is written to the file. -/
def FileWriter.fwrite (info : FileWriter lz4) (bytes : Bytes) : FileWriter lz4 :=
  info.editFile info.compressFp fun file => { file with content := file.content ++ bytes }

/-- `info->file_size += len`. -/
def FileWriter.grow (info : FileWriter lz4) (len : ℕ) : FileWriter lz4 :=
  { info with fileSize := (info.fileSize + len) % 2 ^ 64 }

/-- `malloc` of the output buffer. -/
def FileWriter.malloc (info : FileWriter lz4) : FileWriter lz4 :=
  { info with
    outbuff := info.buffers + 1
    buffers := info.buffers + 1
    trace := info.trace ++ [(.acquire, .outbuff (info.buffers + 1))] }

/-- `free(info->outbuff)`, which leaves the pointer as it is. -/
def FileWriter.free (info : FileWriter lz4) : FileWriter lz4 :=
  { info with trace := info.trace ++ [(.release, .outbuff info.outbuff)] }

/-- `fclose(info->compress_fp)`, with the pointer set to `NULL`. -/
def FileWriter.fclose (info : FileWriter lz4) : FileWriter lz4 :=
  { info with
    trace := info.trace ++ [(.release, .file info.compressFp)]
    compressFp := 0 }

/-- The temporary file gets its persistent name. -/
def FileWriter.rename (info : FileWriter lz4) (fp : ℕ) : FileWriter lz4 :=
  info.editFile fp fun file => { file with saved := true }

/-- `fopen` that succeeds. -/
def FileWriter.fopen (info : FileWriter lz4) : FileWriter lz4 :=
  { info with
    calls := info.calls + 1
    compressFp := info.opened + 1
    opened := info.opened + 1
    files := Function.update info.files (info.opened + 1) ⟨info.fileNo, [], false⟩
    trace := info.trace ++ [(.acquire, .file (info.opened + 1))] }

/-- `LZ4F_createCompressionContext` that succeeds. -/
def FileWriter.createContext (info : FileWriter lz4) : FileWriter lz4 :=
  { info with
    calls := info.calls + 1
    ctx := info.created + 1
    created := info.created + 1
    contexts := Function.update info.contexts (info.created + 1) lz4.created
    trace := info.trace ++ [(.acquire, .context (info.created + 1))] }

variable (ok : ℕ → Bool)

/-- A call of LZ4F with the context and the output buffer; `none` is an error. -/
def lz4Call (f : lz4.Ctx → lz4.Ctx × Bytes) (info : FileWriter lz4) :
    Option Bytes × FileWriter lz4 :=
  let used := info.use [.context info.ctx, .outbuff info.outbuff]
  if ok info.calls then
    let result := f (info.contexts info.ctx)
    (some result.2,
      { used with contexts := Function.update info.contexts info.ctx result.1 })
  else (none, used)

/-- `output_pcap_file`, of what is in the output buffer. -/
def outputPcapFile (srcbuf : Bytes) (info : FileWriter lz4) : Bool × FileWriter lz4 :=
  if srcbuf = [] then (true, info)
  else
    let used := info.use [.outbuff info.outbuff, .file info.compressFp]
    if ok info.calls then (true, used.fwrite srcbuf) else (false, used)

/-- `output_lz4_pcap_file`. -/
def outputLz4PcapFile (srcbuf : Bytes) (info : FileWriter lz4) : Bool × FileWriter lz4 :=
  let result := lz4Call ok (lz4.compressUpdate srcbuf) info
  match result.1 with
  | none => (false, result.2)
  | some out => outputPcapFile ok out result.2

/-- `enum comp_file_generate_mode`. -/
inductive CompFileGenerateMode
  | init
  | update
  | close
  deriving DecidableEq

/-- What `file_compression_operation` does with what it holds before it returns an error. -/
def FileWriter.abandon (info : FileWriter lz4) : FileWriter lz4 := info.fclose.free

/-- The part of `file_compression_operation` from `fopen` on. -/
def openFile (info : FileWriter lz4) : Bool × FileWriter lz4 :=
  if ok info.calls = false then
    (false, { info with calls := info.calls + 1, compressFp := 0 }.free)
  else
    let info := info.fopen
    if ok info.calls = false then (false, { info with calls := info.calls + 1 }.abandon)
    else
      let result := lz4Call ok lz4.compressBegin info.createContext
      match result.1 with
      | none => (false, result.2.abandon)
      | some header =>
        let written := outputPcapFile ok header result.2
        if written.1 = false then (false, written.2.abandon)
        else
          let started := outputLz4PcapFile ok pcapHeader
            { written.2 with fileSize := header.length }
          if started.1 = false then (false, started.2.abandon) else started

/-- `file_compression_operation`. -/
def fileCompressionOperation (mode : CompFileGenerateMode) (info : FileWriter lz4) :
    Bool × FileWriter lz4 :=
  match mode with
  | .init => openFile ok { info.malloc with fileSize := 0, fileNo := 1 }
  | .update =>
    let result := lz4Call ok lz4.compressEnd info
    match result.1 with
    | none => (false, result.2.abandon)
    | some rest =>
      let written := outputPcapFile ok rest result.2
      if written.1 = false then (false, written.2.abandon)
      else
        let renamed := written.2.fclose.rename written.2.compressFp
        openFile ok { renamed with fileSize := 0, fileNo := renamed.fileNo + 1 }
  | .close =>
    if info.compressFp = 0 then (true, info)
    else
      let result := lz4Call ok lz4.compressEnd info
      -- neither an error of `LZ4F_compressEnd` nor one of `fwrite` keeps it from closing
      let ended := match result.1 with
        | none => result.2
        | some rest => (outputPcapFile ok rest result.2).2.grow rest.length
      (true, (ended.fclose.rename ended.compressFp).free)

/-- The loop of `compress_file_packet` over the segments. -/
def writeContent : List Bytes → ℕ → FileWriter lz4 → Bool × FileWriter lz4
  | [], _, info => (true, info)
  | segment :: segments, remainingBytes, info =>
    if remainingBytes = 0 then (true, info)
    else
      let bytesToWrite := min segment.length remainingBytes
      let written := outputLz4PcapFile ok (segment.take bytesToWrite) info
      if written.1 = false then (false, (fileCompressionOperation ok .close written.2).2)
      else writeContent segments (remainingBytes - bytesToWrite) (written.2.grow bytesToWrite)

/-- `compress_file_packet`. -/
def compressFilePacket (fsizeLimit : ℕ) (pkt : CapPkt) (info : FileWriter lz4) :
    Bool × FileWriter lz4 :=
  if info.compressFp = 0 then (true, info)
  else
    let rolled :=
      if fsizeLimit < info.fileSize then fileCompressionOperation ok .update info
      else (true, info)
    if rolled.1 = false then rolled
    else
      let written := outputLz4PcapFile ok pkt.header rolled.2
      if written.1 = false then (false, (fileCompressionOperation ok .close written.2).2)
      else writeContent ok pkt.segments pkt.writeLen (written.2.grow 16)

/-- The loop of `pcap_proc_write` over the packets. -/
def writePackets (fsizeLimit : ℕ) : List CapPkt → FileWriter lz4 → Bool × FileWriter lz4
  | [], info => (true, info)
  | pkt :: bufs, info =>
    let written := compressFilePacket ok fsizeLimit pkt info
    if written.1 = false then
      (false, (fileCompressionOperation ok .close { written.2 with status := .idle }).2)
    else writePackets fsizeLimit bufs written.2

/-- What a pass of `pcap_proc_write` comes upon: `g_capture_status` at its start and when the
ring is empty, the packets in the ring, and which of its calls succeed. -/
structure Pass where
  captureStatus : CaptureStatus
  captureStatusEmpty : CaptureStatus
  bufs : List CapPkt
  ok : ℕ → Bool

/-- `pcap_proc_write`. -/
def pcapProcWrite (fsizeLimit : ℕ) (pass : Pass) (info : FileWriter lz4) : Bool × FileWriter lz4 :=
  if pass.captureStatus = .idle ∧ info.status = .idle then (true, info)
  else
    let info := { info with calls := 0 }
    let started :=
      if info.status = .idle then
        fileCompressionOperation pass.ok .init { info with status := .running }
      else (true, info)
    if started.1 = false then (false, { started.2 with status := .idle })
    else if pass.bufs = [] then
      if pass.captureStatusEmpty = .idle then
        fileCompressionOperation pass.ok .close { started.2 with status := .idle }
      else started
    else writePackets pass.ok fsizeLimit pass.bufs started.2

/-- A writer before its first pass. -/
def FileWriter.initial (lz4 : Lz4) : FileWriter lz4 where
  status := .idle
  fileNo := 0
  ctx := 0
  compressFp := 0
  outbuff := 0
  fileSize := 0
  calls := 0
  trace := []
  buffers := 0
  opened := 0
  created := 0
  files := fun _ => ⟨0, [], false⟩
  contexts := fun _ => lz4.created

end Source

end Spp.Pcap.Files
