import Spp.Vf.Lifecycle

/-!
# The barriers at the start and at the end

No worker of spp_vf or spp_mirror runs a component function before every worker
has started, and none does so once the main thread has seen all of them stopped.
The main thread looks at one status after the other while all of them change, so
what it has seen has to be a fact that stays: a worker that has started, or one
that has ended.
-/

namespace Spp.Vf

open GuardedRun

/-- The main thread lets the workers forward, serves commands, or asks the workers to stop. -/
def MainPc.serving : MainPc → Bool
  | .setAll .. | .test | .command => true
  | _ => false

/-- The main thread has yet to see all workers started. -/
def MainPc.early : MainPc → Bool
  | .launch _ | .setIdle => true
  | .checkWait status _ _ => status = .idle
  | _ => false

/-- The main thread is on its way out. -/
def MainPc.leaving : MainPc → Bool
  | .setStop | .cleanUp _ | .exited _ => true
  | .checkWait status _ _ => status ≠ .idle
  | _ => false

/-- The final wait has succeeded. -/
def MainPc.allStopped (pc : MainPc) : Bool := pc = .cleanUp true || pc = .exited true

/-- The workers run their components on the status `SPP_CORE_FORWARD` only. -/
def LifeProcess.ForwardOnly (P : LifeProcess) : Prop :=
  ∀ status captureIdle, P.react status captureIdle = .pass → status = .forward

namespace Life

section Invariant

variable (P : LifeProcess) (s : Life)

/-- Where the main thread can be: it launches each worker once, and waits for and writes
certain statuses only. -/
def CanBeAt (worker : ℕ → WorkerPc) : MainPc → Prop
  | .launch rest => rest.Nodup ∧ ∀ l ∈ rest, l ∈ P.slaves ∧ worker l = .waiting
  | .checkWait status _ _ => status = .idle ∨ status = .stop
  | .setAll status rest => (status = .forward ∨ status = .stopRequest) ∧ ∀ l ∈ rest, l ∈ P.slaves
  | _ => True

/-- What a status says about its worker. -/
structure StatusInv : Prop where
  outside : ∀ l ∉ P.slaves, s.worker l = .waiting
  idle : ∀ l ∈ P.slaves, s.status l = .idle → (s.worker l).started
  stop : ∀ l ∈ P.slaves, s.status l = .stop → (s.worker l).started → s.worker l = .ended
  main : CanBeAt P s.worker s.main

/-- All workers have started, and those that the final wait has seen have ended. -/
structure Running : Prop where
  early : s.main.early = false
  started : ∀ l ∈ P.slaves, (s.worker l).started
  seen : ∀ cnt rest, s.main = .checkWait .stop cnt rest → ∀ l ∈ P.slaves, l ∈ rest ∨ s.worker l = .ended
  ended : s.main.allStopped → ∀ l ∈ P.slaves, s.worker l = .ended

/-- No worker is let forward, and those that the first wait has seen have started. -/
structure Quiet : Prop where
  status : ∀ l ∈ P.slaves, s.status l ≠ .forward
  serving : s.main.serving = false
  seen : ∀ cnt rest, s.main = .checkWait .idle cnt rest →
    ∀ l ∈ P.slaves, l ∈ rest ∨ (s.worker l).started
  pass : P.ForwardOnly → ∀ l ∈ P.slaves, s.worker l ≠ .pass

end Invariant

section StatusStep

variable {P : LifeProcess} {s t : Life}

/-- The statuses and the workers of the start. -/
theorem statusInv_start : StatusInv P (start P) where
  outside _ _ := rfl
  idle l hl h := by simp [start, hl] at h
  stop _ _ _ h := by cases h
  main := ⟨P.nodup, fun _ hl => ⟨hl, rfl⟩⟩

/-- A worker that is launched is one of the slaves. -/
theorem StatusInv.mem_of_worker (hs : StatusInv P s) {l : ℕ} (h : s.worker l ≠ .waiting) :
    l ∈ P.slaves := by
  by_contra hl
  exact h (hs.outside l hl)

/-- The main thread goes on. -/
theorem StatusInv.withMain (hs : StatusInv P s) {pc : MainPc}
    (hpc : CanBeAt P s.worker pc) : StatusInv P { s with main := pc } :=
  ⟨hs.outside, hs.idle, hs.stop, hpc⟩

/-- The status of the main lcore says nothing about a worker. -/
theorem StatusInv.setMainStatus (hs : StatusInv P s) (x : CoreStatus) :
    StatusInv P (s.setStatus P.mainLcore x) where
  outside := hs.outside
  idle l hl h := by
    rw [setStatus_status, Function.update_of_ne (ne_of_mem_of_not_mem hl P.main_notMem)] at h
    exact hs.idle l hl h
  stop l hl h := by
    rw [setStatus_status, Function.update_of_ne (ne_of_mem_of_not_mem hl P.main_notMem)] at h
    exact hs.stop l hl h
  main := hs.main

/-- A request says nothing about a worker. -/
theorem StatusInv.setRequest (hs : StatusInv P s) (l : ℕ) {x : CoreStatus}
    (hx : x = .forward ∨ x = .stopRequest) : StatusInv P (s.setStatus l x) where
  outside := hs.outside
  idle l' hl' h := by
    rw [setStatus_status, Function.update_apply] at h
    split at h
    · subst h
      simp at hx
    · exact hs.idle l' hl' h
  stop l' hl' h := by
    rw [setStatus_status, Function.update_apply] at h
    split at h
    · subst h
      simp at hx
    · exact hs.stop l' hl' h
  main := hs.main

/-- The main thread does not touch a worker that has started, and writes `idle` and `stop`
to its own status only. -/
theorem StatusInv.mainStep (hs : StatusInv P s) (h : MainStep P s t) : StatusInv P t := by
  have hmainInv := hs.main
  cases h with
  | launch l rest hmain =>
    rw [hmain] at hmainInv
    obtain ⟨hnodup, hrest⟩ := hmainInv
    obtain ⟨hl, hwaiting⟩ := hrest l List.mem_cons_self
    have hne : ∀ l' ∈ P.slaves, (s.worker l').started → l' ≠ l := by
      rintro l' - hstarted rfl
      rw [hwaiting] at hstarted
      cases hstarted
    refine ⟨fun l' hl' => ?_, fun l' hl' hidle => ?_, fun l' hl' hstop hstarted => ?_, ?_⟩
    · rw [← hs.outside l' hl']
      exact Function.update_of_ne (ne_of_mem_of_not_mem hl hl').symm ..
    · have hstarted := hs.idle l' hl' hidle
      rw [← hstarted]
      exact congrArg _ (Function.update_of_ne (hne l' hl' hstarted) ..)
    · by_cases heq : l' = l
      · subst heq
        simp [WorkerPc.started] at hstarted
      · simp only [setWorker_worker, Function.update_of_ne heq] at hstarted ⊢
        exact hs.stop l' hl' hstop hstarted
    · refine ⟨(List.nodup_cons.mp hnodup).2, fun l' hl' => ?_⟩
      obtain ⟨hmem, hwait⟩ := hrest l' (List.mem_cons_of_mem _ hl')
      have hne' : l' ≠ l := ne_of_mem_of_not_mem hl' (List.nodup_cons.mp hnodup).1
      exact ⟨hmem, (Function.update_of_ne hne' ..).trans hwait⟩
  | launched | stopRequested | asked | proceed | commandOk | serving | exit =>
    exact hs.withMain trivial
  | setIdle => exact (hs.setMainStatus _).withMain (.inl rfl)
  | setStop => exact (hs.setMainStatus _).withMain (.inr rfl)
  | check status cnt l rest hmain =>
    rw [hmain] at hmainInv
    exact hs.withMain hmainInv
  | mismatch status cnt rest hmain =>
    rw [hmain] at hmainInv
    obtain h | ⟨-, h⟩ | ⟨-, h⟩ := afterMismatch_cases P status cnt <;> rw [h]
    · exact hs.withMain hmainInv
    · exact hs.withMain trivial
    · exact hs.withMain trivial
  | checked status cnt hmain =>
    rw [hmain] at hmainInv
    obtain rfl | rfl := hmainInv
    · exact hs.withMain ⟨.inl rfl, fun _ => id⟩
    · exact hs.withMain trivial
  | setAll status l rest hmain =>
    rw [hmain] at hmainInv
    exact (hs.setRequest l hmainInv.1).withMain
      ⟨hmainInv.1, fun l' hl' => hmainInv.2 l' (List.mem_cons_of_mem _ hl')⟩
  | commandNg => exact hs.withMain ⟨.inr rfl, fun _ => id⟩

/-- A worker moves on, with a status that says what holds of it. -/
theorem StatusInv.setWorker {l : ℕ} {x : CoreStatus} {pc : WorkerPc} (hs : StatusInv P s)
    (hl : s.worker l ≠ .waiting) (hpc : pc.started) (hstop : x = .stop → pc = .ended) :
    StatusInv P ((s.setStatus l x).setWorker l pc) := by
  have hmem := hs.mem_of_worker hl
  refine ⟨fun l' hl' => ?_, fun l' hl' hidle => ?_, fun l' hl' h hstarted => ?_, ?_⟩
  · rw [← hs.outside l' hl']
    exact Function.update_of_ne (ne_of_mem_of_not_mem hmem hl').symm ..
  · by_cases heq : l' = l
    · subst heq
      simpa using hpc
    · simp only [setWorker_status, setWorker_worker, setStatus_status, setStatus_worker,
        Function.update_of_ne heq] at hidle ⊢
      exact hs.idle l' hl' hidle
  · by_cases heq : l' = l
    · subst heq
      simpa using hstop (by simpa using h)
    · simp only [setWorker_status, setWorker_worker, setStatus_status, setStatus_worker,
        Function.update_of_ne heq] at h hstarted ⊢
      exact hs.stop l' hl' h hstarted
  · have hmain := hs.main
    change CanBeAt P (Function.update s.worker l pc) s.main
    unfold CanBeAt at hmain ⊢
    split
    · rename_i rest heq
      simp only [heq] at hmain
      refine ⟨hmain.1, fun l' hl' => ?_⟩
      obtain ⟨hmem', hwait⟩ := hmain.2 l' hl'
      have hne : l' ≠ l := fun heq' => hl (heq' ▸ hwait)
      exact ⟨hmem', (Function.update_of_ne hne ..).trans hwait⟩
    · simpa [*] using hmain
    · simpa [*] using hmain
    · trivial

/-- A status that is written again stays. -/
theorem setStatus_self (s : Life) (l : ℕ) : s.setStatus l (s.status l) = s := by
  simp [setStatus]

/-- A worker says of itself that it has started, or that it has ended, when it has. -/
theorem StatusInv.workerStep {l : ℕ} {captureIdle : Bool} (hs : StatusInv P s)
    (h : WorkerStep P l captureIdle s t) : StatusInv P t := by
  -- A worker that moves on before its end does not have the status `stop`.
  have hmove : ∀ pc pc', s.worker l = pc → pc.started → pc ≠ .ended → pc'.started →
      StatusInv P (s.setWorker l pc') := by
    rintro pc pc' rfl hstarted hended hstarted'
    have hne : s.worker l ≠ .waiting := fun h => by simp [h, WorkerPc.started] at hstarted
    have h : StatusInv P ((s.setStatus l (s.status l)).setWorker l pc') :=
      hs.setWorker hne hstarted' fun hstop =>
        absurd (hs.stop l (hs.mem_of_worker hne) hstop hstarted) hended
    rwa [setStatus_self] at h
  cases h with
  | start hpc => exact hs.setWorker (by simp [hpc]) rfl (by simp)
  | stop hpc => exact hmove _ _ hpc rfl (by simp) rfl
  | pass hpc => exact hmove _ _ hpc rfl (by simp) rfl
  | spin => exact hs
  | passed hpc => exact hmove _ _ hpc rfl (by simp) rfl
  | failed hpc => exact hmove _ _ hpc rfl (by simp) rfl
  | finish hpc => exact hs.setWorker (by simp [hpc]) rfl (by simp)

/-- The relation of statuses and workers holds after every step. -/
theorem StatusInv.step {e : LifeEvent} (hs : StatusInv P s) (h : Step P s e t) : StatusInv P t := by
  cases h with
  | main h => exact hs.mainStep h
  | worker h => exact hs.workerStep h
  | signal => exact ⟨hs.outside, hs.idle, hs.stop, hs.main⟩
  | handler l rest h =>
    have hwrite := hs.setRequest l (.inr rfl)
    exact ⟨hwrite.outside, hwrite.idle, hwrite.stop, hwrite.main⟩

end StatusStep

section Barriers

variable {P : LifeProcess} {s t : Life}

/-- A worker that has started stays so, and one that has ended stays so. -/
theorem worker_of_step {e : LifeEvent} (hs : StatusInv P s) (h : Step P s e t) (l : ℕ) :
    ((s.worker l).started → (t.worker l).started) ∧
      (s.worker l = .ended → t.worker l = .ended) := by
  -- A thread that moves on has not ended, and has started afterwards if it had before.
  have hmove : ∀ l' pc, s.worker l' ≠ .ended → ((s.worker l').started → pc.started) →
      ((s.worker l).started → (Function.update s.worker l' pc l).started) ∧
        (s.worker l = .ended → Function.update s.worker l' pc l = .ended) := by
    intro l' pc hended hstarted
    by_cases heq : l = l'
    · subst heq
      rw [Function.update_self]
      exact ⟨hstarted, fun h => absurd h hended⟩
    · rw [Function.update_of_ne heq]
      exact ⟨id, id⟩
  cases h with
  | main h =>
    cases h with
    | launch l' rest hmain =>
      have hmainInv := hs.main
      rw [hmain] at hmainInv
      have hwaiting := (hmainInv.2 l' List.mem_cons_self).2
      refine hmove l' _ (by simp [hwaiting]) fun hstarted => ?_
      rw [hwaiting] at hstarted
      cases hstarted
    | _ => exact ⟨id, id⟩
  | worker h =>
    cases h with
    | spin => exact ⟨id, id⟩
    | start hpc | stop hpc | pass hpc | passed hpc | failed hpc | finish hpc =>
      exact hmove _ _ (by simp [hpc]) fun _ => rfl
  | signal => exact ⟨id, id⟩
  | handler => exact ⟨id, id⟩

/-- The main thread does not wait for the start again. -/
theorem early_of_mainStep (hearly : s.main.early = false) (h : MainStep P s t) :
    t.main.early = false := by
  cases h with
  | launch _ _ hmain | launched hmain | setIdle hmain => simp [hmain, MainPc.early] at hearly
  | check status cnt l rest hmain => simpa [hmain, MainPc.early] using hearly
  | mismatch status cnt rest hmain =>
    obtain h | ⟨-, h⟩ | ⟨-, h⟩ := afterMismatch_cases P status cnt <;> rw [h]
    · simpa [hmain, MainPc.early] using hearly
    · rfl
    · rfl
  | checked status cnt hmain =>
    have hne : status ≠ .idle := by simpa [hmain, MainPc.early] using hearly
    simp [afterWait, hne, MainPc.early]
  | setAll | asked | serving | stopRequested | proceed | commandOk | commandNg | setStop | exit => rfl

/-- What the main thread has seen of the started workers is kept by a step of the main thread. -/
theorem Running.mainStep (hrun : Running P s) (hs : StatusInv P s) (h : MainStep P s t) :
    (∀ cnt rest, t.main = .checkWait .stop cnt rest → ∀ l ∈ P.slaves, l ∈ rest ∨ s.worker l = .ended) ∧
      (t.main.allStopped → ∀ l ∈ P.slaves, s.worker l = .ended) := by
  cases h with
  | launch | launched | setIdle | setAll | asked | serving | stopRequested | proceed | commandOk
  | commandNg =>
    exact ⟨by simp, by simp [MainPc.allStopped]⟩
  | check status cnt l rest hmain hstatus =>
    refine ⟨fun cnt' rest' h l' hl' => ?_, by simp [MainPc.allStopped]⟩
    cases h
    obtain hmem | hended := hrun.seen _ _ hmain l' hl'
    · obtain rfl | hmem := List.mem_cons.mp hmem
      · exact .inr (hs.stop l' hl' hstatus (hrun.started l' hl'))
      · exact .inl hmem
    · exact .inr hended
  | mismatch status cnt rest hmain =>
    obtain h | ⟨-, h⟩ | ⟨-, h⟩ := afterMismatch_cases P status cnt <;> rw [h]
    · refine ⟨fun cnt' rest' h' l hl => .inl ?_, by simp [MainPc.allStopped]⟩
      cases h'
      exact hl
    · exact ⟨by simp, by simp [MainPc.allStopped]⟩
    · exact ⟨by simp, by simp [MainPc.allStopped]⟩
  | checked status cnt hmain =>
    have hwait := hs.main
    rw [hmain] at hwait
    obtain rfl | rfl := hwait
    · exact ⟨by simp [afterWait], by simp [afterWait, MainPc.allStopped]⟩
    · exact ⟨by simp [afterWait], fun _ l hl =>
        (hrun.seen _ _ hmain l hl).resolve_left List.not_mem_nil⟩
  | setStop =>
    refine ⟨fun cnt' rest' h l hl => .inl ?_, by simp [MainPc.allStopped]⟩
    cases h
    exact hl
  | exit stopped hmain =>
    refine ⟨by simp, fun h => ?_⟩
    have hstopped : stopped = true := by simpa [MainPc.allStopped] using h
    exact hrun.ended (by simp [hmain, hstopped, MainPc.allStopped])

/-- What is known of a running process is kept by every step. -/
theorem Running.step {e : LifeEvent} (hrun : Running P s) (hs : StatusInv P s)
    (h : Step P s e t) : Running P t := by
  have hworker := worker_of_step hs h
  have hstarted : ∀ l ∈ P.slaves, (t.worker l).started := fun l hl =>
    (hworker l).1 (hrun.started l hl)
  -- What holds before the step holds after it, as the main thread has not moved.
  have hstay : t.main = s.main → Running P t := fun hmain =>
    ⟨hmain ▸ hrun.early, hstarted, fun cnt rest h l hl => (hrun.seen cnt rest (hmain ▸ h) l hl).imp_right (hworker l).2,
      fun h l hl => (hworker l).2 (hrun.ended (hmain ▸ h) l hl)⟩
  cases h with
  | main h =>
    obtain ⟨hseen, hended⟩ := hrun.mainStep hs h
    exact ⟨early_of_mainStep hrun.early h, hstarted, fun cnt rest h l hl => (hseen cnt rest h l hl).imp_right (hworker l).2,
      fun h l hl => (hworker l).2 (hended h l hl)⟩
  | worker h => cases h <;> exact hstay rfl
  | signal => exact hstay rfl
  | handler => exact hstay rfl

/-- A process in which no worker is let forward stays so, or all workers have started. -/
theorem Quiet.mainStep (hquiet : Quiet P s) (hs : StatusInv P s) (h : MainStep P s t) :
    t.main.serving ∧ Running P t ∨ Quiet P t := by
  have hserving := hquiet.serving
  cases h with
  | launch l rest hmain =>
    refine .inr ⟨hquiet.status, rfl, by simp, fun hforward l' hl' => ?_⟩
    change Function.update s.worker l .launched l' ≠ .pass
    rw [Function.update_apply]
    split
    · simp
    · exact hquiet.pass hforward l' hl'
  | launched | stopRequested | exit =>
    exact .inr ⟨hquiet.status, rfl, by simp, hquiet.pass⟩
  | setIdle =>
    refine .inr ⟨fun l hl => ?_, rfl, fun _ _ h l hl => .inl ?_, hquiet.pass⟩
    · simpa [Function.update_of_ne (ne_of_mem_of_not_mem hl P.main_notMem)] using hquiet.status l hl
    · cases h
      exact hl
  | check status cnt l rest hmain hstatus =>
    refine .inr ⟨hquiet.status, rfl, fun _ _ h l' hl' => ?_, hquiet.pass⟩
    cases h
    obtain hmem | hstarted := hquiet.seen _ _ hmain l' hl'
    · obtain rfl | hmem := List.mem_cons.mp hmem
      · exact .inr (hs.idle l' hl' hstatus)
      · exact .inl hmem
    · exact .inr hstarted
  | mismatch status cnt rest hmain =>
    obtain h | ⟨-, h⟩ | ⟨-, h⟩ := afterMismatch_cases P status cnt <;> rw [h]
    · refine .inr ⟨hquiet.status, rfl, fun _ _ h' l hl => .inl ?_, hquiet.pass⟩
      cases h'
      exact hl
    · exact .inr ⟨hquiet.status, rfl, by simp, hquiet.pass⟩
    · exact .inr ⟨hquiet.status, rfl, by simp, hquiet.pass⟩
  | checked status cnt hmain =>
    have hwait := hs.main
    rw [hmain] at hwait
    obtain rfl | rfl := hwait
    · exact .inl ⟨rfl, rfl, fun l hl => (hquiet.seen _ _ hmain l hl).resolve_left List.not_mem_nil,
        by simp [afterWait], by simp [afterWait, MainPc.allStopped]⟩
    · exact .inr ⟨hquiet.status, rfl, by simp [afterWait], hquiet.pass⟩
  | setAll _ _ _ hmain | asked hmain | serving _ hmain | proceed hmain | commandOk hmain
  | commandNg hmain =>
    simp [hmain, MainPc.serving] at hserving
  | setStop =>
    refine .inr ⟨fun l hl => ?_, rfl, by simp, hquiet.pass⟩
    simpa [Function.update_of_ne (ne_of_mem_of_not_mem hl P.main_notMem)] using hquiet.status l hl

/-- The step of a worker in such a process. -/
theorem Quiet.workerStep {l : ℕ} {captureIdle : Bool} (hquiet : Quiet P s) (hs : StatusInv P s)
    (h : WorkerStep P l captureIdle s t) : Quiet P t := by
  have hworker := worker_of_step hs (Step.worker h : Step P s (.worker l captureIdle .ok) t)
  have hseen : ∀ cnt rest, s.main = .checkWait .idle cnt rest →
      ∀ l ∈ P.slaves, l ∈ rest ∨ (t.worker l).started := fun cnt rest h l hl =>
    (hquiet.seen cnt rest h l hl).imp_right (hworker l).1
  have hstatus : ∀ x, x ≠ .forward → ∀ l' ∈ P.slaves, Function.update s.status l x l' ≠ .forward := by
    intro x hx l' hl'
    rw [Function.update_apply]
    split
    · exact hx
    · exact hquiet.status l' hl'
  have hpass : ∀ pc, pc ≠ .pass → P.ForwardOnly → ∀ l' ∈ P.slaves,
      Function.update s.worker l pc l' ≠ .pass := by
    intro pc hpc hforward l' hl'
    rw [Function.update_apply]
    split
    · exact hpc
    · exact hquiet.pass hforward l' hl'
  cases h with
  | start => exact ⟨hstatus _ (by simp), hquiet.serving, hseen, hpass _ (by simp)⟩
  | stop => exact ⟨hquiet.status, hquiet.serving, hseen, hpass _ (by simp)⟩
  | pass hpc hreact =>
    refine ⟨hquiet.status, hquiet.serving, hseen, fun hforward => ?_⟩
    exact absurd (hforward _ _ hreact) (hquiet.status l (hs.mem_of_worker (by simp [hpc])))
  | spin => exact hquiet
  | passed => exact ⟨hquiet.status, hquiet.serving, hseen, hpass _ (by simp)⟩
  | failed => exact ⟨hquiet.status, hquiet.serving, hseen, hpass _ (by simp)⟩
  | finish => exact ⟨hstatus _ (by simp), hquiet.serving, hseen, hpass _ (by simp)⟩

/-- A process in which no worker is let forward stays so, or all workers have started. -/
theorem Quiet.step {e : LifeEvent} (hquiet : Quiet P s) (hs : StatusInv P s)
    (h : Step P s e t) : t.main.serving ∧ Running P t ∨ Quiet P t := by
  cases h with
  | main h => exact hquiet.mainStep hs h
  | worker h => exact .inr (hquiet.workerStep hs h)
  | signal => exact .inr ⟨hquiet.status, hquiet.serving, hquiet.seen, hquiet.pass⟩
  | handler l rest h =>
    refine .inr ⟨fun l' hl' => ?_, hquiet.serving, hquiet.seen, hquiet.pass⟩
    change Function.update s.status l .stopRequest l' ≠ .forward
    rw [Function.update_apply]
    split
    · simp
    · exact hquiet.status l' hl'

/-- At the start no worker is let forward. -/
theorem quiet_start : Quiet P (start P) where
  status l hl := by simp [start, hl]
  serving := rfl
  seen _ _ h := by cases h
  pass _ _ _ h := by cases h

/-- What is known of every state: the workers are running, or none of them is let forward. -/
def Inv (P : LifeProcess) (s : Life) : Prop := StatusInv P s ∧ (Running P s ∨ Quiet P s)

/-- It is kept by every step. -/
theorem Inv.step {e : LifeEvent} (hs : Inv P s) (h : Life.step P e s = some t) : Inv P t := by
  have hstep := step_cases h
  refine ⟨hs.1.step hstep, ?_⟩
  obtain hrun | hquiet := hs.2
  · exact .inl (hrun.step hs.1 hstep)
  · exact (hquiet.step hs.1 hstep).imp_left And.right

/-- Any order of the steps. -/
abbrev Run (P : LifeProcess) (s t : Life) : Prop :=
  Reaches (Life.step P) (fun _ _ => True) s t

/-- It holds in every state of a run. -/
theorem inv_of_run (h : Run P (start P) s) : Inv P s :=
  h.invariant ⟨statusInv_start, .inr quiet_start⟩ fun _ _ _ hs _ hstep => hs.step hstep

/-- A process that has let its workers forward keeps on running. -/
theorem running_of_serving (hs : Inv P s) (hserving : s.main.serving) : Running P s := by
  refine hs.2.resolve_right fun hquiet => ?_
  rw [hquiet.serving] at hserving
  cases hserving

/-- A running process stays so. -/
theorem Running.run (hrun : Running P s) (hs : StatusInv P s) (h : Run P s t) :
    Running P t ∧ StatusInv P t := by
  refine @Reaches.invariant _ _ _ _ (fun s => Running P s ∧ StatusInv P s) _ _ h ⟨hrun, hs⟩ ?_
  rintro e u v ⟨hu, hus⟩ - hstep
  exact ⟨hu.step hus (step_cases hstep), hus.step (step_cases hstep)⟩

/-- `slave_main` of spp_vf and spp_mirror runs its components on `SPP_CORE_FORWARD` only. -/
theorem forwardOnly_of_slaveMain (hreact : P.react = slaveMain) : P.ForwardOnly := by
  intro status captureIdle h
  rw [hreact, slaveMain] at h
  split at h
  · cases h
  · split at h
    · assumption
    · cases h

/-- In every order of the steps of spp_vf or spp_mirror, and for any signals, a worker runs
its components only after every worker has started, and no worker does once the main
thread has seen all of them stopped. Where a process has served commands, as well one of
spp_pcap, all its workers have ended by then. -/
theorem life_barriers (h : Run P (start P) s) :
    (P.react = slaveMain →
      (∀ l, s.worker l = .pass → ∀ l' ∈ P.slaves, (s.worker l').started) ∧
        (s.main.allStopped → ∀ l, s.worker l ≠ .pass)) ∧
      (s.main.serving → ∀ t, Run P s t → t.main.allStopped → ∀ l ∈ P.slaves, t.worker l = .ended) := by
  obtain ⟨hs, hmode⟩ := inv_of_run h
  have hmem : ∀ l, s.worker l = .pass → l ∈ P.slaves := fun l hpass =>
    hs.mem_of_worker (by simp [hpass])
  refine ⟨fun hreact => ⟨fun l hpass => ?_, fun hstopped l hpass => ?_⟩,
    fun hserving t ht hstopped => ?_⟩
  · obtain hrun | hquiet := hmode
    · exact hrun.started
    · exact absurd hpass (hquiet.pass (forwardOnly_of_slaveMain hreact) l (hmem l hpass))
  · obtain hrun | hquiet := hmode
    · have hended := hrun.ended hstopped l (hmem l hpass)
      rw [hended] at hpass
      cases hpass
    · exact hquiet.pass (forwardOnly_of_slaveMain hreact) l (hmem l hpass) hpass
  · obtain ⟨hrun, -⟩ := (running_of_serving ⟨hs, hmode⟩ hserving).run hs ht
    exact hrun.ended hstopped

/-- A process of spp_vf with one worker. -/
def oneWorker : LifeProcess :=
  { slaves := [1], mainLcore := 0, react := slaveMain
    nodup := by decide, main_notMem := by decide }

/-- The steps after which the worker runs its components. -/
def startEvents : List LifeEvent :=
  [.main .ok, .main .ok, .main .ok, .worker 1 true .ok, .main .ok, .main .ok, .main .ok,
    .worker 1 true .ok]

/-- The worker of such a process runs its components when it has started. -/
theorem life_barriers_oneWorker :
    ∃ s, Run oneWorker (start oneWorker) s ∧ s.worker 1 = .pass ∧
      ((oneWorker.react = slaveMain →
        (∀ l, s.worker l = .pass → ∀ l' ∈ oneWorker.slaves, (s.worker l').started) ∧
          (s.main.allStopped → ∀ l, s.worker l ≠ .pass)) ∧
        (s.main.serving → ∀ t, Run oneWorker s t → t.main.allStopped →
          ∀ l ∈ oneWorker.slaves, t.worker l = .ended)) := by
  obtain ⟨s, hs, hpass⟩ : ∃ s, runAll (Life.step oneWorker) startEvents (start oneWorker) = some s ∧
      s.worker 1 = .pass := exists_of_runAll (by decide)
  have hrun : Run oneWorker (start oneWorker) s := reaches_of_runAll hs fun _ _ _ => trivial
  exact ⟨s, hrun, hpass, life_barriers hrun⟩

end Barriers

end Life

end Spp.Vf
