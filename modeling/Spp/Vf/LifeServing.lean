import Spp.Vf.LifeBarriers

/-!
# The state in which a process serves

Where no signal comes and no component fails, spp_vf and spp_mirror serve
commands in the statuses from which every run of requests starts: the slaves
forward, the main lcore is idle, and all others are unused.
-/

namespace Spp.Vf

open GuardedRun

/-- The main thread waits for the start, lets the workers forward, or serves commands. -/
def MainPc.onDuty : MainPc → Bool
  | .setAll status _ => status = .forward
  | pc => !pc.leaving

/-- The status of the main lcore while its thread is on duty. -/
def MainPc.ownStatus : MainPc → CoreStatus
  | .launch _ | .setIdle => .unuse
  | _ => .idle

namespace Life

section Serving

variable {P : LifeProcess} {s t : Life}

/-- A step without a signal and without the failure of a component. -/
def Undisturbed (e : LifeEvent) (_ : Life) : Prop :=
  e ≠ .signal ∧ ∀ l captureIdle ret, e = .worker l captureIdle ret → ret = .ok

/-- How far the workers have been let forward. -/
def ForwardSet (P : LifeProcess) (s : Life) : MainPc → Prop
  | .setAll _ rest => ∀ l ∈ P.slaves, l ∈ rest ∨ s.status l = .forward
  | .test | .command => ∀ l ∈ P.slaves, s.status l = .forward
  | _ => True

/-- The statuses of a process that is on duty: each worker has yet to start, or it is in its
loop and waits or forwards. -/
structure OnDuty (P : LifeProcess) (s : Life) : Prop where
  main : s.main.onDuty
  mainStatus : s.status P.mainLcore = s.main.ownStatus
  other : ∀ l ∉ P.slaves, l ≠ P.mainLcore → s.status l = .unuse
  worker : ∀ l ∈ P.slaves, (s.worker l).started = false ∧ s.status l = .stop ∨
    (s.worker l = .loop ∨ s.worker l = .pass) ∧ (s.status l = .idle ∨ s.status l = .forward)
  forward : ForwardSet P s s.main

/-- No handler runs, and the process is on duty or it has left its loop for good. -/
def Duty (P : LifeProcess) (s : Life) : Prop :=
  s.handlers = [] ∧ (OnDuty P s ∨ s.main.onDuty = false)

/-- The start is on duty. -/
theorem onDuty_start : OnDuty P (start P) where
  main := rfl
  mainStatus := by simp [start, P.main_notMem, MainPc.ownStatus]
  other l hl _ := by simp [start, hl]
  worker l hl := .inl ⟨rfl, by simp [start, hl]⟩
  forward := trivial

/-- The main thread keeps the process on duty, or leaves. -/
theorem OnDuty.mainStep (hd : OnDuty P s) (hinv : Inv P s) (h : MainStep P s t) :
    OnDuty P t ∨ t.main.onDuty = false := by
  have hmainInv := hinv.1.main
  have hforward := hd.forward
  have hmainStatus := hd.mainStatus
  have hduty := hd.main
  cases h with
  | launch l rest hmain =>
    rw [hmain] at hmainInv
    obtain ⟨hl, hwaiting⟩ := hmainInv.2 l List.mem_cons_self
    refine .inl ⟨rfl, by simpa [hmain, MainPc.ownStatus] using hmainStatus, hd.other, fun l' hl' => ?_, trivial⟩
    by_cases heq : l' = l
    · subst heq
      obtain ⟨-, hstop⟩ | ⟨hpc, -⟩ := hd.worker l' hl'
      · exact .inl ⟨by simp [WorkerPc.started], hstop⟩
      · simp [hwaiting] at hpc
    · simpa [Function.update_of_ne heq] using hd.worker l' hl'
  | launched hmain =>
    exact .inl ⟨rfl, by simpa [hmain, MainPc.ownStatus] using hmainStatus, hd.other, hd.worker, trivial⟩
  | setIdle hmain =>
    have hother : ∀ l, l ≠ P.mainLcore → Function.update s.status P.mainLcore .idle l = s.status l :=
      fun l hne => Function.update_of_ne hne ..
    refine .inl ⟨rfl, by simp [MainPc.ownStatus], fun l hl hne => (hother l hne).trans (hd.other l hl hne), fun l hl => ?_,
      trivial⟩
    have hstatus := hother l (ne_of_mem_of_not_mem hl P.main_notMem)
    change _ ∧ Function.update s.status P.mainLcore .idle l = .stop ∨
      _ ∧ (Function.update s.status P.mainLcore .idle l = .idle ∨
        Function.update s.status P.mainLcore .idle l = .forward)
    rw [hstatus]
    exact hd.worker l hl
  | check status cnt l rest hmain =>
    exact .inl ⟨by simpa [hmain, MainPc.onDuty, MainPc.leaving] using hduty,
      by simpa [hmain, MainPc.ownStatus] using hmainStatus, hd.other, hd.worker, trivial⟩
  | mismatch status cnt rest hmain =>
    obtain h | ⟨-, h⟩ | ⟨-, h⟩ := afterMismatch_cases P status cnt <;> rw [h]
    · exact .inl ⟨by simpa [hmain, MainPc.onDuty, MainPc.leaving] using hduty,
        by simpa [hmain, MainPc.ownStatus] using hmainStatus, hd.other, hd.worker, trivial⟩
    · exact .inr rfl
    · exact .inr rfl
  | checked status cnt hmain =>
    obtain rfl : status = .idle := by simpa [hmain, MainPc.onDuty, MainPc.leaving] using hduty
    exact .inl ⟨rfl, by simpa [hmain, afterWait, MainPc.ownStatus] using hmainStatus, hd.other, hd.worker,
      fun l hl => .inl hl⟩
  | setAll status l rest hmain =>
    obtain rfl : status = .forward := by simpa [hmain, MainPc.onDuty] using hduty
    rw [hmain] at hmainInv hforward
    have hl := hmainInv.2 l List.mem_cons_self
    have hrun := running_of_serving hinv (by simp [hmain, MainPc.serving])
    have hne : P.mainLcore ≠ l := (ne_of_mem_of_not_mem hl P.main_notMem).symm
    refine .inl ⟨rfl, ?_, fun l' hl' hne' => ?_, fun l' hl' => ?_, fun l' hl' => ?_⟩
    · simpa [hmain, Function.update_of_ne hne, MainPc.ownStatus] using hmainStatus
    · exact (Function.update_of_ne (ne_of_mem_of_not_mem hl hl').symm ..).trans (hd.other l' hl' hne')
    · by_cases heq : l' = l
      · subst heq
        obtain ⟨hstarted, -⟩ | ⟨hpc, -⟩ := hd.worker l' hl'
        · rw [hrun.started l' hl'] at hstarted
          cases hstarted
        · exact .inr ⟨hpc, .inr (Function.update_self ..)⟩
      · simpa [Function.update_of_ne heq] using hd.worker l' hl'
    · by_cases heq : l' = l
      · subst heq
        exact .inr (Function.update_self ..)
      · obtain hmem | hstatus := hforward l' hl'
        · exact .inl ((List.mem_cons.mp hmem).resolve_left heq)
        · exact .inr ((Function.update_of_ne heq ..).trans hstatus)
  | serving status hmain =>
    rw [hmain] at hforward
    exact .inl ⟨rfl, by simpa [hmain, MainPc.ownStatus] using hmainStatus, hd.other, hd.worker,
      fun l hl => (hforward l hl).resolve_left List.not_mem_nil⟩
  | asked | stopRequested | commandNg | setStop | exit => exact .inr rfl
  | proceed hmain =>
    rw [hmain] at hforward
    exact .inl ⟨rfl, by simpa [hmain, MainPc.ownStatus] using hmainStatus, hd.other, hd.worker, hforward⟩
  | commandOk hmain =>
    rw [hmain] at hforward
    exact .inl ⟨rfl, by simpa [hmain, MainPc.ownStatus] using hmainStatus, hd.other, hd.worker, hforward⟩

/-- A worker that does not fail keeps the process on duty. -/
theorem OnDuty.workerStep {l : ℕ} {captureIdle : Bool} (hreact : P.react = slaveMain)
    (hd : OnDuty P s) (hinv : Inv P s) (h : WorkerStep P l captureIdle s t)
    (hfail : s.worker l = .pass → t.worker l = .loop) : OnDuty P t := by
  obtain ⟨hpc, hmain, -, hstatus⟩ := h.frame
  have hl := hinv.1.mem_of_worker hpc
  have hne : P.mainLcore ≠ l := (ne_of_mem_of_not_mem hl P.main_notMem).symm
  -- Only the worker itself changes, and its status only where it starts.
  have hkeep : (∀ l' ≠ l, t.worker l' = s.worker l') → (t.status l = s.status l ∨ ForwardSet P t s.main) →
      ((t.worker l).started = false ∧ t.status l = .stop ∨
        (t.worker l = .loop ∨ t.worker l = .pass) ∧ (t.status l = .idle ∨ t.status l = .forward)) →
      OnDuty P t := by
    intro hother hforward hworker
    refine ⟨hmain ▸ hd.main, ?_, fun l' hl' hne' => ?_, fun l' hl' => ?_, ?_⟩
    · rw [hstatus _ hne, hmain, hd.mainStatus]
    · rw [hstatus _ (ne_of_mem_of_not_mem hl hl').symm, hd.other l' hl' hne']
    · by_cases heq : l' = l
      · exact heq ▸ hworker
      · rw [hother l' heq, hstatus l' heq]
        exact hd.worker l' hl'
    · rw [hmain]
      obtain hsame | hforward := hforward
      · have hall : t.status = s.status := funext fun l' => by
          by_cases heq : l' = l
          · exact heq ▸ hsame
          · exact hstatus l' heq
        have hset := hd.forward
        unfold ForwardSet at hset ⊢
        rwa [hall]
      · exact hforward
  have hpass : (s.worker l = .loop ∨ s.worker l = .pass) →
      s.status l = .idle ∨ s.status l = .forward := fun h => by
    obtain ⟨hstarted, -⟩ | ⟨-, hstatus⟩ := hd.worker l hl
    · obtain h | h := h <;> simp [h, WorkerPc.started] at hstarted
    · exact hstatus
  cases h with
  | start hpc =>
    refine hkeep (fun l' h => Function.update_of_ne h ..) (.inr ?_)
      (.inr ⟨.inl (Function.update_self ..), .inl (Function.update_self ..)⟩)
    have hserving : s.main.serving = false := by
      by_contra h
      have hstarted := (running_of_serving hinv (by simpa using h)).started l hl
      simp [hpc, WorkerPc.started] at hstarted
    cases hpc' : s.main <;> first | trivial | simp [hpc', MainPc.serving] at hserving
  | stop hpc hstop =>
    rw [hreact, slaveMain] at hstop
    obtain h | h := hpass (.inl hpc) <;> simp [h] at hstop
  | pass hpc =>
    exact hkeep (fun l' h => Function.update_of_ne h ..) (.inl rfl)
      (.inr ⟨.inr (Function.update_self ..), hpass (.inl hpc)⟩)
  | spin => exact hd
  | passed hpc =>
    exact hkeep (fun l' h => Function.update_of_ne h ..) (.inl rfl)
      (.inr ⟨.inl (Function.update_self ..), hpass (.inr hpc)⟩)
  | failed hpc =>
    have hloop := hfail hpc
    simp at hloop
  | finish hpc =>
    obtain ⟨hstarted, -⟩ | ⟨h | h, -⟩ := hd.worker l hl
    · simp [hpc, WorkerPc.started] at hstarted
    · simp [hpc] at h
    · simp [hpc] at h

/-- A pass that succeeds leads back to the loop. -/
theorem loop_of_step {l : ℕ} {captureIdle : Bool} (hpc : s.worker l = .pass)
    (h : Life.step P (.worker l captureIdle .ok) s = some t) : t.worker l = .loop := by
  have hworker : s.workerStep P l captureIdle .ok = some t := by
    unfold Life.step at h
    split at h <;> simp_all
  simp only [Life.workerStep, hpc, if_pos, Option.some.injEq] at hworker
  rw [← hworker]
  exact Function.update_self ..

/-- The main thread that has left does not come back on duty. -/
theorem offDuty_of_mainStep (hs : StatusInv P s) (hduty : s.main.onDuty = false) (h : MainStep P s t) :
    t.main.onDuty = false := by
  cases h with
  | launch _ _ hmain | launched hmain | setIdle hmain | stopRequested hmain | proceed hmain
  | commandOk hmain | commandNg hmain => simp [hmain, MainPc.onDuty, MainPc.leaving] at hduty
  | check status cnt l rest hmain => simpa [hmain, MainPc.onDuty, MainPc.leaving] using hduty
  | mismatch status cnt rest hmain =>
    obtain h | ⟨-, h⟩ | ⟨-, h⟩ := afterMismatch_cases P status cnt <;> rw [h]
    · simpa [hmain, MainPc.onDuty, MainPc.leaving] using hduty
    · rfl
    · rfl
  | checked status cnt hmain =>
    have hne : status ≠ .idle := by simpa [hmain, MainPc.onDuty, MainPc.leaving] using hduty
    simp [afterWait, hne, MainPc.onDuty, MainPc.leaving]
  | setAll status l rest hmain => simpa [hmain, MainPc.onDuty] using hduty
  | serving status hmain hne =>
    have hmainInv := hs.main
    rw [hmain] at hmainInv
    have hforward := hmainInv.1.resolve_right hne
    simp [hmain, hforward, MainPc.onDuty] at hduty
  | asked | setStop | exit => rfl

/-- A step without disturbance keeps the process on duty, or the main thread leaves. -/
theorem Duty.step {e : LifeEvent} (hreact : P.react = slaveMain) (hd : Duty P s) (hinv : Inv P s)
    (he : Undisturbed e s) (h : Life.step P e s = some t) : Duty P t := by
  obtain ⟨hhandlers, hmode⟩ := hd
  cases step_cases h with
  | main h =>
    refine ⟨?_, ?_⟩
    · cases h <;> exact hhandlers
    · obtain hduty | hoff := hmode
      · exact hduty.mainStep hinv h
      · exact .inr (offDuty_of_mainStep hinv.1 hoff h)
  | @worker l captureIdle ret _ hworker =>
    obtain ⟨-, hmain, hhandlers', -⟩ := hworker.frame
    refine ⟨hhandlers' ▸ hhandlers, ?_⟩
    obtain hduty | hoff := hmode
    · refine .inl (hduty.workerStep hreact hinv hworker fun hpass => ?_)
      obtain rfl := he.2 l captureIdle ret rfl
      exact loop_of_step hpass h
    · exact .inr (hmain ▸ hoff)
  | signal => exact absurd rfl he.1
  | handler l rest hhandler => simp [hhandlers] at hhandler

/-- A run without a signal and without the failure of a component. -/
abbrev UndisturbedRun (P : LifeProcess) (s t : Life) : Prop :=
  Reaches (Life.step P) Undisturbed s t

/-- Where spp_vf or spp_mirror serves commands after an undisturbed run, the statuses are
those of `startForwarding`, and every worker is in its loop. -/
theorem serving_of_undisturbedRun (L : Limits) (numNic : ℕ) (hreact : P.react = slaveMain)
    (h : UndisturbedRun P (start P) s) (hserving : s.main = .test ∨ s.main = .command) :
    (∀ l, s.status l = ((startForwarding (fun l => l ∈ P.slaves) P.mainLcore
      (initMngData L (fun l => l ∈ P.slaves) numNic)).core l).status) ∧
      ∀ l ∈ P.slaves, s.worker l = .loop ∨ s.worker l = .pass := by
  have hrun := @Reaches.invariant _ _ _ _ (fun s => Inv P s ∧ Duty P s) _ _ h
    ⟨⟨statusInv_start, .inr quiet_start⟩, rfl, .inl onDuty_start⟩ (by
      rintro e u v ⟨hinv, hduty⟩ hguard hstep
      exact ⟨hinv.step hstep, hduty.step hreact hinv hguard hstep⟩)
  obtain ⟨hinv, -, hmode⟩ := hrun
  have hduty : OnDuty P s := by
    refine hmode.resolve_right fun hoff => ?_
    obtain hmain | hmain := hserving <;> simp [hmain, MainPc.onDuty, MainPc.leaving] at hoff
  have hmain : s.status P.mainLcore = .idle := by
    have hmain := hduty.mainStatus
    obtain h | h := hserving <;> rwa [h] at hmain
  have hforward : ∀ l ∈ P.slaves, s.status l = .forward := by
    have hforward := hduty.forward
    obtain h | h := hserving <;> rwa [h] at hforward
  refine ⟨fun l => ?_, fun l hl => ?_⟩
  · by_cases hl : l ∈ P.slaves
    · simpa [startForwarding, hl] using hforward l hl
    · by_cases heq : l = P.mainLcore
      · subst heq
        simpa [startForwarding, hl] using hmain
      · simpa [startForwarding, initMngData, initCoreInfo, hl, heq] using hduty.other l hl heq
  · obtain ⟨-, hstop⟩ | ⟨hpc, -⟩ := hduty.worker l hl
    · rw [hforward l hl] at hstop
      cases hstop
    · exact hpc

/-- The worker of a process with one worker is let forward. -/
theorem serving_of_undisturbedRun_oneWorker :
    ∃ s, UndisturbedRun oneWorker (start oneWorker) s ∧ s.main = .test ∧
      (∀ l, s.status l = ((startForwarding (fun l => l ∈ oneWorker.slaves) oneWorker.mainLcore
        (initMngData .default (fun l => l ∈ oneWorker.slaves) 1)).core l).status) ∧
        ∀ l ∈ oneWorker.slaves, s.worker l = .loop ∨ s.worker l = .pass := by
  obtain ⟨s, hs, hmain⟩ : ∃ s, runAll (Life.step oneWorker) (startEvents ++ [.main .ok])
      (start oneWorker) = some s ∧ s.main = .test := exists_of_runAll (by decide)
  have hrun : UndisturbedRun oneWorker (start oneWorker) s := by
    refine reaches_of_runAll hs fun e he _ => ⟨?_, ?_⟩
    · rintro rfl
      simp [startEvents] at he
    · rintro l captureIdle ret rfl
      simp [startEvents] at he
      exact he.2.2
  exact ⟨s, hrun, hmain, serving_of_undisturbedRun .default 1 rfl hrun (.inl hmain)⟩

end Serving

end Life

end Spp.Vf
