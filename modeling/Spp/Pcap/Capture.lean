import Mathlib.Logic.Function.Basic
import Spp.Lib.CString
import Spp.Lib.GuardedRun

/-!
# The cores of spp_pcap

`pcap_proc_receive` and `pcap_proc_write` of `spp_pcap.c`, step by step: each
operation on the ring and each access to a variable that cores share is one
step, and any core may take the next one. Beside the variables of the source the
state keeps what has become of the packets, and how many captures have begun.
-/

namespace Spp.Pcap

open CLib

/-- `MAX_PCAP_BURST`. -/
def maxPcapBurst : ℕ := 256

/-- What fits into a ring of `RING_SIZE` slots, one of which stays free. -/
def ringCapacity : ℕ := 16383

/-- `enum spp_capture_status`. -/
inductive CaptureStatus
  | idle
  | running
  deriving DecidableEq

/-- A received packet: its number, and the `compress_file_date` at that time. -/
structure Packet where
  no : ℕ
  date : CStr
  deriving DecidableEq

/-- A file of a writer: the parts of its name that differ between files, and the
number of captures that had begun when it was opened. -/
structure CompressFile where
  date : CStr
  threadNo : ℕ
  fileNo : ℕ
  session : ℕ
  deriving DecidableEq

/-- The variables that the cores share, and the fate of the packets. The ring
holds the oldest packet first. -/
structure Shared where
  captureRequest : CaptureStatus := .idle
  captureStatus : CaptureStatus := .idle
  startUpCnt : ℕ := 0
  compressFileDate : CStr := []
  ring : List Packet := []
  session : ℕ := 0
  received : List Packet := []
  enqueued : List Packet := []
  written : List (Packet × CompressFile) := []
  freed : List Packet := []
  deriving DecidableEq

/-- Where the receiver is in `pcap_proc_receive`, named after the next step. -/
inductive ReceiverPc
  | readRequest
  | testRunning
  | setIdle
  | setCaptureIdle
  | readCountStop
  | writeCountStop (cnt : ℕ)
  | testIdle
  | setDate
  | setRunning
  | setCaptureRunning
  | readCount
  | writeCount (cnt : ℕ)
  | startUpWait
  | receive
  | enqueue (bufs : List Packet)
  | discard (bufs : List Packet)
  deriving DecidableEq

/-- Where a writer is in `pcap_proc_write`, named after the next step. With
`bufs` it holds the packets of a burst, of which `rest` is yet to be written.
`ended` is the end of `slave_main` after an error. -/
inductive WriterPc
  | readStatus
  | testIdle
  | testStart
  | setRunning
  | initFile
  | initFailed
  | readCount
  | writeCount (cnt : ℕ)
  | dequeue
  | readStatusEmpty
  | setIdle
  | readCountStop
  | writeCountStop (cnt : ℕ)
  | closeFile
  | writePacket (bufs rest : List Packet)
  | writeFailed (bufs : List Packet)
  | freePackets (bufs : List Packet) (failed : Bool)
  | ended
  deriving DecidableEq

/-- `struct pcap_mng_info` of the receiver. -/
structure Receiver where
  status : CaptureStatus := .idle
  pc : ReceiverPc := .readRequest
  deriving DecidableEq

/-- `struct pcap_mng_info` of a writer, with the open file for `compress_fp`. -/
structure Writer where
  status : CaptureStatus := .idle
  fileNo : ℕ := 0
  compressFp : Option CompressFile := none
  pc : WriterPc := .readStatus
  deriving DecidableEq

/-- The packets of a burst of the port. -/
def newPackets (g : Shared) (burst : ℕ) : List Packet :=
  (List.range burst).map fun k => ⟨g.received.length + k, g.compressFileDate⟩

/-- One step of `pcap_proc_receive`, for `threadCnt` slave cores. The date is
the one of the clock, and `burst` the number of packets at the port. -/
def pcapProcReceive (threadCnt : ℕ) (date : CStr) (burst : ℕ) (g : Shared) (info : Receiver) :
    Shared × Receiver :=
  match info.pc with
  | .readRequest =>
    (g, { info with pc := if g.captureRequest = .idle then .testRunning else .testIdle })
  | .testRunning =>
    (g, { info with pc := if info.status = .running then .setIdle else .readRequest })
  | .setIdle => (g, { info with status := .idle, pc := .setCaptureIdle })
  | .setCaptureIdle => ({ g with captureStatus := .idle }, { info with pc := .readCountStop })
  | .readCountStop =>
    (g, { info with pc := if g.startUpCnt ≠ 0 then .writeCountStop g.startUpCnt else .readRequest })
  | .writeCountStop cnt => ({ g with startUpCnt := cnt - 1 }, { info with pc := .readRequest })
  | .testIdle => (g, { info with pc := if info.status = .idle then .setDate else .startUpWait })
  | .setDate =>
    ({ g with compressFileDate := date, session := g.session + 1 }, { info with pc := .setRunning })
  | .setRunning => (g, { status := .running, pc := .setCaptureRunning })
  | .setCaptureRunning => ({ g with captureStatus := .running }, { info with pc := .readCount })
  | .readCount => (g, { info with pc := .writeCount g.startUpCnt })
  | .writeCount cnt => ({ g with startUpCnt := cnt + 1 }, { info with pc := .startUpWait })
  | .startUpWait =>
    (g, { info with pc := if threadCnt > g.startUpCnt then .readRequest else .receive })
  | .receive =>
    let bufs := newPackets g (min burst maxPcapBurst)
    ({ g with received := g.received ++ bufs },
      { info with pc := if bufs = [] then .readRequest else .enqueue bufs })
  | .enqueue bufs =>
    let nbTx := min bufs.length (ringCapacity - g.ring.length)
    ({ g with ring := g.ring ++ bufs.take nbTx, enqueued := g.enqueued ++ bufs.take nbTx },
      { info with pc := if nbTx < bufs.length then .discard (bufs.drop nbTx) else .readRequest })
  | .discard bufs => ({ g with freed := g.freed ++ bufs }, { info with pc := .readRequest })

/-- A file opened by `file_compression_operation`; its name carries the date of
this moment. -/
def openedFile (g : Shared) (threadNo fileNo : ℕ) : CompressFile :=
  ⟨g.compressFileDate, threadNo, fileNo, g.session⟩

/-- `compress_file_packet`: whether the file is full and a new one begins is
`full`, and whether all operations on files succeed is `ok`. A failure leaves no
file open. -/
def compressFilePacket (threadNo : ℕ) (ok full : Bool) (g : Shared) (info : Writer) (pkt : Packet) :
    Bool × Shared × Writer :=
  match info.compressFp with
  | none => (true, g, info)
  | some file =>
    if ok = false then (false, g, { info with compressFp := none })
    else if full then
      let file := openedFile g threadNo (info.fileNo + 1)
      (true, { g with written := g.written ++ [(pkt, file)] },
        { info with fileNo := info.fileNo + 1, compressFp := some file })
    else (true, { g with written := g.written ++ [(pkt, file)] }, info)

/-- One step of `pcap_proc_write`. -/
def pcapProcWrite (threadNo : ℕ) (ok full : Bool) (g : Shared) (info : Writer) :
    Option (Shared × Writer) :=
  match info.pc with
  | .readStatus =>
    some (g, { info with pc := if g.captureStatus = .idle then .testIdle else .testStart })
  | .testIdle =>
    some (g, { info with pc := if info.status = .idle then .readStatus else .testStart })
  | .testStart =>
    some (g, { info with pc := if info.status = .idle then .setRunning else .dequeue })
  | .setRunning => some (g, { info with status := .running, pc := .initFile })
  | .initFile =>
    if ok then
      some (g, { info with
        fileNo := 1, compressFp := some (openedFile g threadNo 1), pc := .readCount })
    else some (g, { info with fileNo := 1, compressFp := none, pc := .initFailed })
  | .initFailed => some (g, { info with status := .idle, pc := .ended })
  | .readCount => some (g, { info with pc := .writeCount g.startUpCnt })
  | .writeCount cnt => some ({ g with startUpCnt := cnt + 1 }, { info with pc := .dequeue })
  | .dequeue =>
    let bufs := g.ring.take maxPcapBurst
    some ({ g with ring := g.ring.drop maxPcapBurst },
      { info with pc := if bufs = [] then .readStatusEmpty else .writePacket bufs bufs })
  | .readStatusEmpty =>
    some (g, { info with pc := if g.captureStatus = .idle then .setIdle else .readStatus })
  | .setIdle => some (g, { info with status := .idle, pc := .readCountStop })
  | .readCountStop =>
    some (g, { info with
      pc := if g.startUpCnt ≠ 0 then .writeCountStop g.startUpCnt else .closeFile })
  | .writeCountStop cnt => some ({ g with startUpCnt := cnt - 1 }, { info with pc := .closeFile })
  | .closeFile => some (g, { info with compressFp := none, pc := .readStatus })
  | .writePacket bufs [] => some (g, { info with pc := .freePackets bufs false })
  | .writePacket bufs (pkt :: rest) =>
    match compressFilePacket threadNo ok full g info pkt with
    | (true, g, info) => some (g, { info with pc := .writePacket bufs rest })
    | (false, g, info) => some (g, { info with pc := .writeFailed bufs })
  | .writeFailed bufs => some (g, { info with status := .idle, pc := .freePackets bufs true })
  | .freePackets bufs failed =>
    some ({ g with freed := g.freed ++ bufs },
      { info with pc := if failed then .ended else .readStatus })
  | .ended => none

/-- The shared variables, the receiver and `n` writers. -/
structure Capture (n : ℕ) where
  shared : Shared := {}
  receiver : Receiver := {}
  writer : Fin n → Writer := fun _ => {}

/-- A step of the process: a command is executed, or a core takes one step. -/
inductive CaptureEvent (n : ℕ)
  | start
  | stop
  | receiver (date : CStr) (burst : ℕ)
  | writer (i : Fin n) (ok full : Bool)
  deriving DecidableEq

/-- One step of the process. The commands set `g_capture_request`; the receiver
is thread 0, and the writers are the threads from 1 on. -/
def captureStep {n : ℕ} : CaptureEvent n → Capture n → Option (Capture n)
  | .start, s => some { s with shared := { s.shared with captureRequest := .running } }
  | .stop, s => some { s with shared := { s.shared with captureRequest := .idle } }
  | .receiver date burst, s =>
    let next := pcapProcReceive (n + 1) date burst s.shared s.receiver
    some { s with shared := next.1, receiver := next.2 }
  | .writer i ok full, s =>
    (pcapProcWrite (i + 1) ok full s.shared (s.writer i)).map fun next =>
      { s with shared := next.1, writer := Function.update s.writer i next.2 }

end Spp.Pcap
