import Mathlib.Logic.Function.Basic
import Mathlib.Data.List.Basic
import Spp.Lib.GuardedRun
import Spp.Vf.Tables

/-!
# Start and end of a process

The main thread of spp_vf and spp_mirror launches a worker on every slave lcore,
waits until each has set its status to idle, lets them forward, and serves
commands. To end, it waits until each has stopped, and then removes the socket
files of vhost. In between a signal handler may ask all of them to stop, any
number of times, and its writes mix with everything else. The main thread of
spp_pcap does the same, and frees its ring at the end.

Every read and every write of a status is a step of its own.
-/

namespace Spp.Vf

open GuardedRun

/-- `SPP_CORE_STATUS_CHECK_MAX`. -/
def coreStatusCheckMax : ℕ := 5

/-- What a worker does about the status that it has read. -/
inductive Reaction
  | stop | pass | spin
  deriving DecidableEq, Repr

/-- The loop of `slave_main` in spp_vf and in spp_mirror. -/
def slaveMain (status : CoreStatus) (_captureIdle : Bool) : Reaction :=
  if status = .stopRequest then .stop else if status = .forward then .pass else .spin

/-- The loop of `slave_main` in spp_pcap, which stops between two captures only. -/
def pcapSlaveMain (status : CoreStatus) (captureIdle : Bool) : Reaction :=
  if status = .stopRequest ∧ captureIdle then .stop else .pass

/-- Where a worker stands: at `waiting` it is not launched, at `launched` it has yet to
set its status, at `pass` it runs the functions of its components. -/
inductive WorkerPc
  | waiting | launched | loop | pass | leaving | ended
  deriving DecidableEq, Repr

/-- The worker has set its status. -/
def WorkerPc.started : WorkerPc → Bool
  | .waiting | .launched => false
  | _ => true

/-- Where the main thread stands. A wait carries the number of its checks so far and the
lcores that the current one has yet to look at. -/
inductive MainPc
  | launch (rest : List ℕ)
  | setIdle
  | checkWait (status : CoreStatus) (cnt : ℕ) (rest : List ℕ)
  | setAll (status : CoreStatus) (rest : List ℕ)
  | test
  | command
  | setStop
  | cleanUp (stopped : Bool)
  | exited (stopped : Bool)
  deriving DecidableEq, Repr

/-- The slave lcores of a process, its main lcore, and the loop of its workers. -/
structure LifeProcess where
  slaves : List ℕ
  mainLcore : ℕ
  react : CoreStatus → Bool → Reaction
  nodup : slaves.Nodup
  main_notMem : mainLcore ∉ slaves

/-- The statuses, the threads, and the writes that each signal handler has yet to do. -/
structure Life where
  status : ℕ → CoreStatus
  worker : ℕ → WorkerPc
  main : MainPc
  handlers : List (List ℕ)

/-- A step of the main thread, with the result of a command, a step of a worker, with
the state of its capture and the result of its pass, a signal, or a step of a handler. -/
inductive LifeEvent
  | main (ret : Ret)
  | worker (lcoreId : ℕ) (captureIdle : Bool) (ret : Ret)
  | signal
  | handler (i : ℕ)
  deriving DecidableEq, Repr

namespace Life

variable (P : LifeProcess)

/-- The state that `init_mng_data` leaves. -/
def start : Life :=
  { status := fun l => if l ∈ P.slaves then .stop else .unuse
    worker := fun _ => .waiting
    main := .launch P.slaves
    handlers := [] }

/-- `set_core_status`. -/
def setStatus (l : ℕ) (status : CoreStatus) (s : Life) : Life :=
  { s with status := Function.update s.status l status }

/-- A thread goes on. -/
def setWorker (l : ℕ) (pc : WorkerPc) (s : Life) : Life :=
  { s with worker := Function.update s.worker l pc }

/-- What `main` does with the result of `check_core_status_wait`. -/
def afterWait (status : CoreStatus) (ret : Ret) : MainPc :=
  if status = .idle then
    if ret = .ok then .setAll .forward P.slaves else .setStop
  else .cleanUp (ret = .ok)

/-- `check_core_status` has found a mismatch. -/
def afterMismatch (status : CoreStatus) (cnt : ℕ) : MainPc :=
  if cnt + 1 < coreStatusCheckMax then .checkWait status (cnt + 1) P.slaves
  else afterWait P status .ng

/-- A step of `main`. -/
def mainStep (ret : Ret) (s : Life) : Option Life :=
  match s.main with
  | .launch (l :: rest) => some { s.setWorker l .launched with main := .launch rest }
  | .launch [] => some { s with main := .setIdle }
  | .setIdle => some { s.setStatus P.mainLcore .idle with main := .checkWait .idle 0 P.slaves }
  | .checkWait status cnt (l :: rest) =>
    some { s with
      main := if s.status l = status then .checkWait status cnt rest else afterMismatch P status cnt }
  | .checkWait status _ [] => some { s with main := afterWait P status .ok }
  | .setAll status (l :: rest) => some { s.setStatus l status with main := .setAll status rest }
  | .setAll status [] => some { s with main := if status = .stopRequest then .setStop else .test }
  | .test =>
    some { s with main := if s.status P.mainLcore = .stopRequest then .setStop else .command }
  | .command =>
    some { s with main := if ret = .ok then .test else .setAll .stopRequest P.slaves }
  | .setStop => some { s.setStatus P.mainLcore .stop with main := .checkWait .stop 0 P.slaves }
  | .cleanUp stopped => some { s with main := .exited stopped }
  | .exited _ => none

/-- A step of `slave_main`. -/
def workerStep (l : ℕ) (captureIdle : Bool) (ret : Ret) (s : Life) : Option Life :=
  match s.worker l with
  | .waiting | .ended => none
  | .launched => some ((s.setStatus l .idle).setWorker l .loop)
  | .loop =>
    match P.react (s.status l) captureIdle with
    | .stop => some (s.setWorker l .leaving)
    | .pass => some (s.setWorker l .pass)
    | .spin => some s
  | .pass => some (s.setWorker l (if ret = .ok then .loop else .leaving))
  | .leaving => some ((s.setStatus l .stop).setWorker l .ended)

/-- A step of the process, which is over when `main` has returned. -/
def step (e : LifeEvent) (s : Life) : Option Life :=
  match s.main, e with
  | .exited _, _ => none
  | _, .main ret => s.mainStep P ret
  | _, .worker l captureIdle ret => s.workerStep P l captureIdle ret
  | _, .signal => some { s with handlers := s.handlers ++ [P.mainLcore :: P.slaves] }
  | _, .handler i =>
    match s.handlers[i]? with
    | some (l :: rest) =>
      some { s.setStatus l .stopRequest with handlers := s.handlers.set i rest }
    | _ => none

section Fields

variable (s : Life) (l : ℕ)

@[simp] theorem setStatus_status (x : CoreStatus) :
    (s.setStatus l x).status = Function.update s.status l x := rfl

@[simp] theorem setStatus_worker (x : CoreStatus) : (s.setStatus l x).worker = s.worker := rfl

@[simp] theorem setStatus_main (x : CoreStatus) : (s.setStatus l x).main = s.main := rfl

@[simp] theorem setStatus_handlers (x : CoreStatus) : (s.setStatus l x).handlers = s.handlers := rfl

@[simp] theorem setWorker_status (pc : WorkerPc) : (s.setWorker l pc).status = s.status := rfl

@[simp] theorem setWorker_worker (pc : WorkerPc) :
    (s.setWorker l pc).worker = Function.update s.worker l pc := rfl

@[simp] theorem setWorker_main (pc : WorkerPc) : (s.setWorker l pc).main = s.main := rfl

@[simp] theorem setWorker_handlers (pc : WorkerPc) : (s.setWorker l pc).handlers = s.handlers := rfl

end Fields

section Inversion

variable {P : LifeProcess} {s t : Life}

/-- What a step of the main thread does. -/
inductive MainStep (P : LifeProcess) (s : Life) : Life → Prop
  | launch (l : ℕ) (rest : List ℕ) (hmain : s.main = .launch (l :: rest)) :
    MainStep P s { s.setWorker l .launched with main := .launch rest }
  | launched (hmain : s.main = .launch []) : MainStep P s { s with main := .setIdle }
  | setIdle (hmain : s.main = .setIdle) :
    MainStep P s { s.setStatus P.mainLcore .idle with main := .checkWait .idle 0 P.slaves }
  | check (status : CoreStatus) (cnt l : ℕ) (rest : List ℕ)
    (hmain : s.main = .checkWait status cnt (l :: rest)) (hstatus : s.status l = status) :
    MainStep P s { s with main := .checkWait status cnt rest }
  | mismatch (status : CoreStatus) (cnt : ℕ) (rest : List ℕ)
    (hmain : s.main = .checkWait status cnt rest) :
    MainStep P s { s with main := afterMismatch P status cnt }
  | checked (status : CoreStatus) (cnt : ℕ) (hmain : s.main = .checkWait status cnt []) :
    MainStep P s { s with main := afterWait P status .ok }
  | setAll (status : CoreStatus) (l : ℕ) (rest : List ℕ) (hmain : s.main = .setAll status (l :: rest)) :
    MainStep P s { s.setStatus l status with main := .setAll status rest }
  | asked (hmain : s.main = .setAll .stopRequest []) : MainStep P s { s with main := .setStop }
  | serving (status : CoreStatus) (hmain : s.main = .setAll status []) (hstatus : status ≠ .stopRequest) :
    MainStep P s { s with main := .test }
  | stopRequested (hmain : s.main = .test) (hstatus : s.status P.mainLcore = .stopRequest) :
    MainStep P s { s with main := .setStop }
  | proceed (hmain : s.main = .test) : MainStep P s { s with main := .command }
  | commandOk (hmain : s.main = .command) : MainStep P s { s with main := .test }
  | commandNg (hmain : s.main = .command) :
    MainStep P s { s with main := .setAll .stopRequest P.slaves }
  | setStop (hmain : s.main = .setStop) :
    MainStep P s { s.setStatus P.mainLcore .stop with main := .checkWait .stop 0 P.slaves }
  | exit (stopped : Bool) (hmain : s.main = .cleanUp stopped) :
    MainStep P s { s with main := .exited stopped }

/-- Every step of the main thread is one of these. -/
theorem mainStep_cases {ret : Ret} (h : s.mainStep P ret = some t) : MainStep P s t := by
  unfold mainStep at h
  split at h <;> rename_i hmain <;> cases h
  · exact .launch _ _ hmain
  · exact .launched hmain
  · exact .setIdle hmain
  · split
    · rename_i hstatus
      exact .check _ _ _ _ hmain hstatus
    · exact .mismatch _ _ _ hmain
  · exact .checked _ _ hmain
  · exact .setAll _ _ _ hmain
  · split
    · rename_i hstatus
      exact .asked (hstatus ▸ hmain)
    · rename_i hstatus
      exact .serving _ hmain hstatus
  · split
    · rename_i hstatus
      exact .stopRequested hmain hstatus
    · exact .proceed hmain
  · split
    · exact .commandOk hmain
    · exact .commandNg hmain
  · exact .setStop hmain
  · exact .exit _ hmain

/-- What a step of a worker does. -/
inductive WorkerStep (P : LifeProcess) (l : ℕ) (captureIdle : Bool) (s : Life) : Life → Prop
  | start (hpc : s.worker l = .launched) :
    WorkerStep P l captureIdle s ((s.setStatus l .idle).setWorker l .loop)
  | stop (hpc : s.worker l = .loop) (hreact : P.react (s.status l) captureIdle = .stop) :
    WorkerStep P l captureIdle s (s.setWorker l .leaving)
  | pass (hpc : s.worker l = .loop) (hreact : P.react (s.status l) captureIdle = .pass) :
    WorkerStep P l captureIdle s (s.setWorker l .pass)
  | spin (hpc : s.worker l = .loop) (hreact : P.react (s.status l) captureIdle = .spin) :
    WorkerStep P l captureIdle s s
  | passed (hpc : s.worker l = .pass) : WorkerStep P l captureIdle s (s.setWorker l .loop)
  | failed (hpc : s.worker l = .pass) : WorkerStep P l captureIdle s (s.setWorker l .leaving)
  | finish (hpc : s.worker l = .leaving) :
    WorkerStep P l captureIdle s ((s.setStatus l .stop).setWorker l .ended)

/-- Every step of a worker is one of these. -/
theorem workerStep_cases {l : ℕ} {captureIdle : Bool} {ret : Ret}
    (h : s.workerStep P l captureIdle ret = some t) : WorkerStep P l captureIdle s t := by
  unfold workerStep at h
  split at h <;> rename_i hpc
  · cases h
  · cases h
  · cases h
    exact .start hpc
  · split at h <;> rename_i hreact <;> cases h
    · exact .stop hpc hreact
    · exact .pass hpc hreact
    · exact .spin hpc hreact
  · cases h
    split
    · exact .passed hpc
    · exact .failed hpc
  · cases h
    exact .finish hpc

/-- A worker that takes a step has been launched, and writes its own status only. -/
theorem WorkerStep.frame {l : ℕ} {captureIdle : Bool} (h : WorkerStep P l captureIdle s t) :
    s.worker l ≠ .waiting ∧ t.main = s.main ∧ t.handlers = s.handlers ∧
      ∀ l', l' ≠ l → t.status l' = s.status l' := by
  cases h with
  | start hpc | finish hpc => exact ⟨by simp [hpc], rfl, rfl, fun _ hne => Function.update_of_ne hne ..⟩
  | stop hpc | pass hpc | spin hpc | passed hpc | failed hpc =>
    exact ⟨by simp [hpc], rfl, rfl, fun _ _ => rfl⟩

/-- What a step of the process does. -/
inductive Step (P : LifeProcess) (s : Life) : LifeEvent → Life → Prop
  | main {ret : Ret} {t : Life} (h : MainStep P s t) : Step P s (.main ret) t
  | worker {l : ℕ} {captureIdle : Bool} {ret : Ret} {t : Life} (h : WorkerStep P l captureIdle s t) :
    Step P s (.worker l captureIdle ret) t
  | signal : Step P s .signal { s with handlers := s.handlers ++ [P.mainLcore :: P.slaves] }
  | handler {i : ℕ} (l : ℕ) (rest : List ℕ) (h : s.handlers[i]? = some (l :: rest)) :
    Step P s (.handler i)
      { s.setStatus l .stopRequest with handlers := s.handlers.set i rest }

/-- Every step of the process is one of these. -/
theorem step_cases {e : LifeEvent} (h : step P e s = some t) : Step P s e t := by
  unfold step at h
  split at h
  · cases h
  · exact .main (mainStep_cases h)
  · exact .worker (workerStep_cases h)
  · cases h
    exact .signal
  · split at h
    · rename_i hhandler
      cases h
      exact .handler _ _ hhandler
    · cases h

/-- Where a mismatch leads. -/
theorem afterMismatch_cases (P : LifeProcess) (status : CoreStatus) (cnt : ℕ) :
    afterMismatch P status cnt = .checkWait status (cnt + 1) P.slaves ∨
      status = .idle ∧ afterMismatch P status cnt = .setStop ∨
      status ≠ .idle ∧ afterMismatch P status cnt = .cleanUp false := by
  unfold afterMismatch afterWait
  by_cases hcnt : cnt + 1 < coreStatusCheckMax
  · exact .inl (if_pos hcnt)
  · rw [if_neg hcnt]
    by_cases hidle : status = .idle
    · exact .inr (.inl ⟨hidle, by simp [hidle]⟩)
    · exact .inr (.inr ⟨hidle, by simp [hidle]⟩)

end Inversion

end Life

end Spp.Vf
