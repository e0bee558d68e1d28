import Spp.Vf.LifeBarriers

/-!
# A stop request reaches the workers

A signal, or a command that ends the main loop, asks every worker to stop by its
status. From the moment the workers are let forward nothing overwrites such a
request: a worker answers it within three steps of its own. A signal that comes
earlier can be lost, because the workers and the main thread still write to the
statuses then.
-/

namespace Spp.Vf

open GuardedRun

/-- The main thread has let the workers forward, or has given up. -/
def MainPc.past : MainPc → Bool
  | .launch _ | .setIdle => false
  | .checkWait status _ _ => status ≠ .idle
  | .setAll status _ => status ≠ .forward
  | _ => true

/-- The steps of a worker between here and its end once it is asked to stop. -/
def WorkerPc.stepsLeft : WorkerPc → ℕ
  | .ended => 0
  | .leaving => 1
  | .loop => 2
  | _ => 3

/-- A step of the worker on an lcore. -/
def LifeEvent.isWorker (l : ℕ) : LifeEvent → Bool
  | .worker lcoreId _ _ => lcoreId = l
  | _ => false

namespace Life

/-- The worker of an lcore is asked to stop, or says that it has. -/
def Asked (s : Life) (l : ℕ) : Prop := s.status l = .stopRequest ∨ s.status l = .stop

/-- A signal comes only after the workers have been let forward. -/
def LateSignal (e : LifeEvent) (s : Life) : Prop := e = .signal → s.main.past

section Asked

variable {P : LifeProcess} {s t : Life}

/-- A running process whose main thread writes no status but a request to stop. -/
structure Settled (P : LifeProcess) (s : Life) : Prop where
  status : StatusInv P s
  running : Running P s
  past : s.main.past

/-- A write of a request leaves a request. -/
theorem Asked.write {l : ℕ} (h : Asked s l) (l' : ℕ) {x : CoreStatus}
    (hx : x = .stopRequest ∨ x = .stop) : Asked (s.setStatus l' x) l := by
  unfold Asked
  rw [setStatus_status, Function.update_apply]
  split
  · exact hx
  · exact h

/-- The main thread stays past the start, and its writes leave the requests. -/
theorem Settled.mainStep (hs : Settled P s) (h : MainStep P s t) :
    t.main.past ∧ ∀ l ∈ P.slaves, Asked s l → Asked t l := by
  have hpast := hs.past
  have hmainInv := hs.status.main
  cases h with
  | launch _ _ hmain | launched hmain | setIdle hmain => simp [hmain, MainPc.past] at hpast
  | check status cnt l rest hmain => exact ⟨by simpa [hmain, MainPc.past] using hpast, fun _ _ => id⟩
  | mismatch status cnt rest hmain =>
    refine ⟨?_, fun _ _ => id⟩
    obtain h | ⟨-, h⟩ | ⟨-, h⟩ := afterMismatch_cases P status cnt <;> rw [h]
    · simpa [hmain, MainPc.past] using hpast
    · rfl
    · rfl
  | checked status cnt hmain =>
    have hne : status ≠ .idle := by simpa [hmain, MainPc.past] using hpast
    exact ⟨by simp [afterWait, hne, MainPc.past], fun _ _ => id⟩
  | setAll status l rest hmain =>
    rw [hmain] at hmainInv
    have hne : status ≠ .forward := by simpa [hmain, MainPc.past] using hpast
    exact ⟨by simpa [MainPc.past] using hne,
      fun _ _ hasked => hasked.write l (.inl (hmainInv.1.resolve_left hne))⟩
  | asked | serving | stopRequested | proceed | commandOk | commandNg | exit =>
    exact ⟨rfl, fun _ _ => id⟩
  | setStop => exact ⟨rfl, fun _ _ hasked => hasked.write _ (.inr rfl)⟩

/-- A worker leaves the requests. -/
theorem Settled.workerStep {l : ℕ} {captureIdle : Bool} (hs : Settled P s)
    (h : WorkerStep P l captureIdle s t) {l' : ℕ} (hasked : Asked s l') : Asked t l' := by
  cases h with
  | start hpc =>
    -- All workers have started.
    have hstarted := hs.running.started l (hs.status.mem_of_worker (by simp [hpc]))
    rw [hpc] at hstarted
    cases hstarted
  | stop | pass | spin | passed | failed => exact hasked
  | finish => exact hasked.write l (.inr rfl)

/-- A request to stop stays. -/
theorem Settled.step {e : LifeEvent} (hs : Settled P s) (h : Step P s e t) :
    Settled P t ∧ ∀ l ∈ P.slaves, Asked s l → Asked t l := by
  have hstatus := hs.status.step h
  have hrunning := hs.running.step hs.status h
  cases h with
  | main h =>
    obtain ⟨hpast, hasked⟩ := hs.mainStep h
    exact ⟨⟨hstatus, hrunning, hpast⟩, hasked⟩
  | worker h =>
    refine ⟨⟨hstatus, hrunning, ?_⟩, fun l _ => hs.workerStep h⟩
    cases h <;> exact hs.past
  | signal => exact ⟨⟨hstatus, hrunning, hs.past⟩, fun _ _ => id⟩
  | handler l rest h =>
    exact ⟨⟨hstatus, hrunning, hs.past⟩, fun _ _ hasked => hasked.write l (.inl rfl)⟩

/-- A worker that is asked to stop comes closer to its end with each step. -/
theorem Settled.stepsLeft {e : LifeEvent} {l : ℕ} (hreact : P.react = slaveMain) (hs : Settled P s)
    (hl : l ∈ P.slaves) (hasked : Asked s l) (h : Step P s e t) :
    (t.worker l).stepsLeft ≤ (s.worker l).stepsLeft ∧
      (e.isWorker l → (t.worker l).stepsLeft < (s.worker l).stepsLeft) := by
  have hstarted := hs.running.started l hl
  have hend : s.status l = .stop → s.worker l = .ended := fun h => hs.status.stop l hl h hstarted
  cases h with
  | signal => exact ⟨le_rfl, by simp [LifeEvent.isWorker]⟩
  | handler => exact ⟨le_rfl, by simp [LifeEvent.isWorker]⟩
  | main h =>
    refine ⟨?_, by simp [LifeEvent.isWorker]⟩
    cases h with
    | launch l' rest hmain =>
      have hpast := hs.past
      simp [hmain, MainPc.past] at hpast
    | _ => exact le_rfl
  | @worker l' _ _ _ h =>
    -- Of its own steps, those that follow a request to stop lead to the end.
    have hmove : ∀ pc, (l' = l → pc.stepsLeft < (s.worker l).stepsLeft) →
        (Function.update s.worker l' pc l).stepsLeft ≤ (s.worker l).stepsLeft ∧
          (decide (l' = l) = true → (Function.update s.worker l' pc l).stepsLeft <
            (s.worker l).stepsLeft) := by
      intro pc hlt
      by_cases heq : l' = l
      · subst heq
        rw [Function.update_self]
        exact ⟨(hlt rfl).le, fun _ => hlt rfl⟩
      · rw [Function.update_of_ne (Ne.symm heq)]
        exact ⟨le_rfl, fun h => absurd (of_decide_eq_true h) heq⟩
    have hreactStop : l' = l → s.worker l' = .loop → ∀ captureIdle,
        P.react (s.status l') captureIdle = .stop := by
      rintro rfl hpc captureIdle
      obtain hreq | hstop := hasked
      · rw [hreact, hreq]
        rfl
      · rw [hend hstop] at hpc
        cases hpc
    cases h with
    | start hpc => exact hmove _ fun heq => by simp [← heq, hpc, WorkerPc.stepsLeft]
    | stop hpc => exact hmove _ fun heq => by simp [← heq, hpc, WorkerPc.stepsLeft]
    | pass hpc hpass =>
      refine hmove _ fun heq => ?_
      rw [hreactStop heq hpc] at hpass
      cases hpass
    | spin hpc hspin =>
      refine ⟨le_rfl, fun heq => ?_⟩
      rw [hreactStop (of_decide_eq_true heq) hpc] at hspin
      cases hspin
    | passed hpc => exact hmove _ fun heq => by simp [← heq, hpc, WorkerPc.stepsLeft]
    | failed hpc => exact hmove _ fun heq => by simp [← heq, hpc, WorkerPc.stepsLeft]
    | finish hpc => exact hmove _ fun heq => by simp [← heq, hpc, WorkerPc.stepsLeft]

/-- A worker that is asked to stop is asked from then on, and has ended after three steps. -/
theorem Settled.run {l : ℕ} {events : List LifeEvent} (hreact : P.react = slaveMain)
    (hs : Settled P s) (hl : l ∈ P.slaves) (hasked : Asked s l)
    (h : runAll (Life.step P) events s = some t) :
    Asked t l ∧ (t.worker l).stepsLeft + events.countP (LifeEvent.isWorker l) ≤ 3 := by
  obtain ⟨⟨-, hasked'⟩, hcount⟩ := runAll_countP
    (fun s => Settled P s ∧ Asked s l) (fun s => (s.worker l).stepsLeft) (LifeEvent.isWorker l)
    (fun e u v ⟨hu, hasked⟩ huv => by
      have hstep := step_cases huv
      obtain ⟨hv, hkeep⟩ := hu.step hstep
      exact ⟨⟨hv, hkeep l hl hasked⟩, hu.stepsLeft hreact hl hasked hstep⟩)
    ⟨hs, hasked⟩ h
  refine ⟨hasked', hcount.trans ?_⟩
  cases s.worker l <;> simp [WorkerPc.stepsLeft]

end Asked

section Delivery

variable {P : LifeProcess} {s t : Life}

/-- A handler has written the status of the main lcore. -/
def HandlerActs (P : LifeProcess) (s : Life) : Prop := ∃ h ∈ s.handlers, P.mainLcore ∉ h

/-- Who asks the workers to stop: a handler, which writes all their statuses, or the
main thread. -/
structure Delivery (P : LifeProcess) (s : Life) : Prop where
  handler : ∀ h ∈ s.handlers, h = P.mainLcore :: P.slaves ∨
    P.mainLcore ∉ h ∧ ∀ l ∈ P.slaves, l ∈ h ∨ Asked s l
  main : s.status P.mainLcore = .stopRequest → HandlerActs P s
  setAll : ∀ rest, s.main = .setAll .stopRequest rest → ∀ l ∈ P.slaves, l ∈ rest ∨ Asked s l
  leaving : s.main.leaving → HandlerActs P s ∨ ∀ l ∈ P.slaves, Asked s l

/-- The main thread leaves its loop on a request, or when it has asked all workers. -/
theorem Delivery.mainStep (hd : Delivery P s) (hs : Settled P s) (h : MainStep P s t) :
    Delivery P t := by
  obtain ⟨-, hasked⟩ := hs.mainStep h
  have hpast := hs.past
  have hmainInv := hs.status.main
  have hkeep : ∀ {p : List ℕ}, (∀ l ∈ P.slaves, l ∈ p ∨ Asked s l) → ∀ l ∈ P.slaves, l ∈ p ∨ Asked t l :=
    fun h l hl => (h l hl).imp_right (hasked l hl)
  have hhandler : ∀ h ∈ s.handlers, h = P.mainLcore :: P.slaves ∨
      P.mainLcore ∉ h ∧ ∀ l ∈ P.slaves, l ∈ h ∨ Asked t l :=
    fun h hmem => (hd.handler h hmem).imp_right (And.imp_right hkeep)
  cases h with
  | launch _ _ hmain | launched hmain | setIdle hmain => simp [hmain, MainPc.past] at hpast
  | check status cnt l rest hmain =>
    exact ⟨hhandler, hd.main, by simp, fun h => hd.leaving (by simpa [hmain, MainPc.leaving] using h)⟩
  | mismatch status cnt rest hmain =>
    have hne : status ≠ .idle := by simpa [hmain, MainPc.past] using hpast
    have hleaving := hd.leaving (by simpa [hmain, MainPc.leaving] using hne)
    refine ⟨hhandler, hd.main, fun rest' h => ?_, fun _ => hleaving⟩
    obtain h' | ⟨-, h'⟩ | ⟨-, h'⟩ := afterMismatch_cases P status cnt <;> rw [h'] at h <;> cases h
  | checked status cnt hmain =>
    have hne : status ≠ .idle := by simpa [hmain, MainPc.past] using hpast
    have hleaving := hd.leaving (by simpa [hmain, MainPc.leaving] using hne)
    refine ⟨hhandler, hd.main, fun rest' h => ?_, fun _ => hleaving⟩
    simp [afterWait, hne] at h
  | setAll status l rest hmain =>
    rw [hmain] at hmainInv
    have hne : status ≠ .forward := by simpa [hmain, MainPc.past] using hpast
    obtain rfl : status = .stopRequest := hmainInv.1.resolve_left hne
    refine ⟨hhandler, fun h => ?_, fun rest' h l' hl' => ?_, by simp [MainPc.leaving]⟩
    · have hl : P.mainLcore ≠ l :=
        (ne_of_mem_of_not_mem (hmainInv.2 l List.mem_cons_self) P.main_notMem).symm
      exact hd.main (by simpa [Function.update_of_ne hl] using h)
    · cases h
      obtain hmem | hasked' := hd.setAll _ hmain l' hl'
      · obtain rfl | hmem := List.mem_cons.mp hmem
        · exact .inr (.inl (Function.update_self ..))
        · exact .inl hmem
      · exact .inr (hasked l' hl' hasked')
  | asked hmain =>
    refine ⟨hhandler, hd.main, by simp, fun _ => .inr fun l hl => ?_⟩
    exact (hd.setAll _ hmain l hl).resolve_left List.not_mem_nil
  | serving | proceed | commandOk => exact ⟨hhandler, hd.main, by simp, by simp [MainPc.leaving]⟩
  | stopRequested hmain hstatus => exact ⟨hhandler, hd.main, by simp, fun _ => .inl (hd.main hstatus)⟩
  | commandNg =>
    refine ⟨hhandler, hd.main, fun rest h l hl => .inl ?_, by simp [MainPc.leaving]⟩
    cases h
    exact hl
  | setStop hmain =>
    refine ⟨hhandler, fun h => ?_, by simp, fun _ => ?_⟩
    · simp at h
    · obtain hacts | hall := hd.leaving (by simp [hmain, MainPc.leaving])
      · exact .inl hacts
      · exact .inr fun l hl => hasked l hl (hall l hl)
  | exit stopped hmain =>
    exact ⟨hhandler, hd.main, by simp, fun _ => hd.leaving (by simp [hmain, MainPc.leaving])⟩

/-- A handler that has written the status of the main lcore stays so. -/
theorem HandlerActs.set {i l : ℕ} {rest : List ℕ} (h : HandlerActs P s)
    (hi : s.handlers[i]? = some (l :: rest)) (x : CoreStatus) :
    HandlerActs P { s.setStatus l x with handlers := s.handlers.set i rest } := by
  obtain ⟨h', hmem, hmain⟩ := h
  obtain ⟨j, hj, rfl⟩ := List.getElem_of_mem hmem
  by_cases heq : i = j
  · subst heq
    have hcons : s.handlers[i] = l :: rest := by
      rw [List.getElem?_eq_getElem hj] at hi
      exact Option.some.inj hi
    refine ⟨rest, List.mem_set hj rest, fun hmem' => hmain ?_⟩
    rw [hcons]
    exact List.mem_cons_of_mem l hmem'
  · exact ⟨s.handlers[j], List.mem_of_getElem? (i := j) (by simp [heq, hj]), hmain⟩

/-- The writes of a handler reach every worker, and its first one the main thread. -/
theorem Delivery.handlerStep {i l : ℕ} {rest : List ℕ} (hd : Delivery P s)
    (hi : s.handlers[i]? = some (l :: rest)) :
    Delivery P { s.setStatus l .stopRequest with handlers := s.handlers.set i rest } := by
  have hwrite : ∀ l', Asked s l' → Asked (s.setStatus l .stopRequest) l' := fun _ h =>
    h.write l (.inl rfl)
  have hself : Asked (s.setStatus l .stopRequest) l := .inl (Function.update_self ..)
  have hthis := hd.handler _ (List.mem_of_getElem? hi)
  refine ⟨fun h hmem => ?_, fun hstop => ?_, fun rest' h l' hl' => ?_, fun h => ?_⟩
  · obtain hmem | rfl := List.mem_or_eq_of_mem_set hmem
    · exact (hd.handler h hmem).imp_right (And.imp_right fun h l' hl' => (h l' hl').imp_right (hwrite l'))
    · obtain heq | ⟨hmain, hleft⟩ := hthis
      · obtain ⟨-, rfl⟩ := List.cons.inj heq
        exact .inr ⟨P.main_notMem, fun l' hl' => .inl hl'⟩
      · refine .inr ⟨fun hmem' => hmain (List.mem_cons_of_mem l hmem'), fun l' hl' => ?_⟩
        obtain hmem' | hasked := hleft l' hl'
        · obtain rfl | hmem' := List.mem_cons.mp hmem'
          · exact .inr hself
          · exact .inl hmem'
        · exact .inr (hwrite l' hasked)
  · by_cases heq : P.mainLcore = l
    · obtain hfull | ⟨hmain, -⟩ := hthis
      · obtain ⟨-, rfl⟩ := List.cons.inj hfull
        obtain ⟨hlt, -⟩ := List.getElem?_eq_some_iff.mp hi
        exact ⟨P.slaves, List.mem_set hlt _, P.main_notMem⟩
      · exact absurd (heq ▸ List.mem_cons_self) hmain
    · refine (hd.main ?_).set hi _
      simpa [Function.update_of_ne heq] using hstop
  · exact (hd.setAll rest' h l' hl').imp_right (hwrite l')
  · exact (hd.leaving h).imp (fun hacts => hacts.set hi _) fun hall l' hl' => hwrite l' (hall l' hl')

/-- Somebody still asks the workers to stop, or has asked them. -/
theorem Delivery.step {e : LifeEvent} (hd : Delivery P s) (hs : Settled P s) (h : Step P s e t) :
    Delivery P t := by
  obtain ⟨-, hasked⟩ := hs.step h
  cases h with
  | main h => exact hd.mainStep hs h
  | worker h =>
    obtain ⟨hpc, hmain, hhandlers, hstatus⟩ := h.frame
    have hl := hs.status.mem_of_worker hpc
    have hmainStatus := hstatus _ (ne_of_mem_of_not_mem hl P.main_notMem).symm
    have hacts : HandlerActs P s → HandlerActs P t := fun h => by rwa [HandlerActs, hhandlers]
    refine ⟨fun h hmem => ?_, fun h => hacts (hd.main (hmainStatus ▸ h)), fun rest h l' hl' => ?_,
      fun h => ?_⟩
    · exact (hd.handler h (hhandlers ▸ hmem)).imp_right
        (And.imp_right fun h l' hl' => (h l' hl').imp_right (hasked l' hl'))
    · exact (hd.setAll rest (hmain ▸ h) l' hl').imp_right (hasked l' hl')
    · exact (hd.leaving (hmain ▸ h)).imp hacts fun hall l' hl' => hasked l' hl' (hall l' hl')
  | signal =>
    refine ⟨fun h hmem => ?_, fun h => ?_, hd.setAll, fun h => ?_⟩
    · obtain hmem | hmem := List.mem_append.mp hmem
      · exact hd.handler h hmem
      · exact .inl (List.mem_singleton.mp hmem)
    · obtain ⟨h', hmem, hmain⟩ := hd.main h
      exact ⟨h', List.mem_append_left _ hmem, hmain⟩
    · obtain ⟨h', hmem, hmain⟩ | hall := hd.leaving h
      · exact .inl ⟨h', List.mem_append_left _ hmem, hmain⟩
      · exact .inr hall
  | handler l rest h => exact hd.handlerStep h

/-- The main thread has not let the workers forward and no signal has come, or it has and
the requests to stop are delivered, or it has given up and no worker forwards. -/
inductive Mode (P : LifeProcess) (s : Life) : Prop
  | early (past : s.main.past = false) (handlers : s.handlers = [])
    (status : s.status P.mainLcore ≠ .stopRequest)
  | served (settled : Settled P s) (delivery : Delivery P s)
  | givenUp (leaving : s.main.leaving) (quiet : Quiet P s)

/-- The main thread does not come back. -/
theorem leaving_of_mainStep (hleaving : s.main.leaving) (h : MainStep P s t) : t.main.leaving := by
  cases h with
  | launch _ _ hmain | launched hmain | setIdle hmain | setAll _ _ _ hmain | asked hmain
  | serving _ hmain | stopRequested hmain | proceed hmain | commandOk hmain | commandNg hmain =>
    simp [hmain, MainPc.leaving] at hleaving
  | check status cnt l rest hmain => simpa [hmain, MainPc.leaving] using hleaving
  | mismatch status cnt rest hmain =>
    obtain h | ⟨-, h⟩ | ⟨-, h⟩ := afterMismatch_cases P status cnt <;> rw [h]
    · simpa [hmain, MainPc.leaving] using hleaving
    · rfl
    · rfl
  | checked status cnt hmain =>
    have hne : status ≠ .idle := by simpa [hmain, MainPc.leaving] using hleaving
    simp [afterWait, hne, MainPc.leaving]
  | setStop => rfl
  | exit => rfl

/-- A process that has given up before its workers forward stays so. -/
theorem Mode.givenUp_step {e : LifeEvent} (hleaving : s.main.leaving) (hquiet : Quiet P s)
    (hs : StatusInv P s) (h : Step P s e t) : t.main.leaving ∧ Quiet P t := by
  have hleaving' : t.main.leaving := by
    cases h with
    | main h => exact leaving_of_mainStep hleaving h
    | worker h =>
      obtain ⟨-, hmain, -⟩ := h.frame
      rwa [hmain]
    | signal => exact hleaving
    | handler => exact hleaving
  refine ⟨hleaving', (hquiet.step hs h).resolve_left fun hrun => ?_⟩
  have hserving := hrun.1
  cases hmain : t.main <;> rw [hmain] at hserving hleaving' <;> cases hserving <;> cases hleaving'

/-- The main thread gets past the start by letting the workers forward, or by giving up. -/
theorem Mode.early_mainStep (hinv : Inv P s) (hpast : s.main.past = false) (hhandlers : s.handlers = [])
    (hstatus : s.status P.mainLcore ≠ .stopRequest) (h : MainStep P s t) : Mode P t := by
  have hmainInv := hinv.1.main
  have hs' := hinv.1.mainStep h
  cases h with
  | launch | launched => exact .early rfl hhandlers hstatus
  | setIdle => exact .early rfl hhandlers (by simp)
  | check status cnt l rest hmain =>
    exact .early (by simpa [hmain, MainPc.past] using hpast) hhandlers hstatus
  | mismatch status cnt rest hmain =>
    obtain rfl : status = .idle := by simpa [hmain, MainPc.past] using hpast
    obtain h | ⟨-, h⟩ | ⟨hne, -⟩ := afterMismatch_cases P .idle cnt
    · rw [h]
      exact .early rfl hhandlers hstatus
    · have hquiet : Quiet P s := hinv.2.resolve_left fun hrun => by
        have hearly := hrun.early
        simp [hmain, MainPc.early] at hearly
      rw [h]
      exact .givenUp rfl ⟨hquiet.status, rfl, by simp, hquiet.pass⟩
    · cases hne rfl
  | checked status cnt hmain =>
    obtain rfl : status = .idle := by simpa [hmain, MainPc.past] using hpast
    exact .early rfl hhandlers hstatus
  | setAll status l rest hmain =>
    rw [hmain] at hmainInv
    have hne : P.mainLcore ≠ l :=
      (ne_of_mem_of_not_mem (hmainInv.2 l List.mem_cons_self) P.main_notMem).symm
    refine .early (by simpa [hmain, MainPc.past] using hpast) hhandlers ?_
    simpa [Function.update_of_ne hne] using hstatus
  | asked hmain | stopRequested hmain | proceed hmain | commandOk hmain | commandNg hmain
  | setStop hmain | exit _ hmain => simp [hmain, MainPc.past] at hpast
  | serving status hmain =>
    have hrun := running_of_serving hinv (by simp [hmain, MainPc.serving])
    refine .served ⟨hs', ⟨rfl, hrun.started, by simp, by simp [MainPc.allStopped]⟩, rfl⟩
      ⟨?_, fun h => absurd h hstatus, by simp, by simp [MainPc.leaving]⟩
    rintro h (hmem : h ∈ s.handlers)
    rw [hhandlers] at hmem
    cases hmem

/-- A run with late signals only stays in these modes. -/
theorem Mode.step {e : LifeEvent} (hmode : Mode P s) (hinv : Inv P s) (hlate : LateSignal e s)
    (h : Step P s e t) : Mode P t := by
  cases hmode with
  | early hpast hhandlers hstatus =>
    cases h with
    | main h => exact Mode.early_mainStep hinv hpast hhandlers hstatus h
    | worker h =>
      obtain ⟨hpc, hmain, hhandlers', hother⟩ := h.frame
      have hl := hinv.1.mem_of_worker hpc
      refine .early (by rwa [hmain]) (by rwa [hhandlers']) ?_
      rwa [hother _ (ne_of_mem_of_not_mem hl P.main_notMem).symm]
    | signal =>
      rw [hlate rfl] at hpast
      cases hpast
    | handler l rest h => simp [hhandlers] at h
  | served hsettled hdelivery => exact .served (hsettled.step h).1 (hdelivery.step hsettled h)
  | givenUp hleaving hquiet =>
    obtain ⟨hleaving', hquiet'⟩ := Mode.givenUp_step hleaving hquiet hinv.1 h
    exact .givenUp hleaving' hquiet'

/-- A run in which signals come late. -/
abbrev LateRun (P : LifeProcess) (s t : Life) : Prop := Reaches (Life.step P) LateSignal s t

/-- Every state of such a run is in one of the modes. -/
theorem mode_of_lateRun (h : LateRun P (start P) s) : Inv P s ∧ Mode P s := by
  refine @Reaches.invariant _ _ _ _ (fun s => Inv P s ∧ Mode P s) _ _ h
    ⟨⟨statusInv_start, .inr quiet_start⟩, .early rfl rfl ?_⟩ ?_
  · simp [start, P.main_notMem]
  · rintro e u v ⟨hinv, hmode⟩ hlate hstep
    exact ⟨hinv.step hstep, hmode.step hinv hlate (step_cases hstep)⟩

/-- In a run of spp_vf or spp_mirror whose signals come after the workers have been let
forward, the main thread leaves without a request to stop only where no worker ever runs
its components. Otherwise every worker has been asked to stop, or a handler has yet to ask
it, and one that has been asked is asked from then on and ends with its third step. -/
theorem stop_reaches_workers (hreact : P.react = slaveMain) (h : LateRun P (start P) s)
    (hleaving : s.main.leaving) :
    (∀ events t, runAll (Life.step P) events s = some t → ∀ l ∈ P.slaves, t.worker l ≠ .pass) ∨
      ∀ l ∈ P.slaves, (Asked s l ∨ ∃ h ∈ s.handlers, l ∈ h) ∧
        (Asked s l → ∀ events t, runAll (Life.step P) events s = some t → Asked t l ∧
          (3 ≤ events.countP (LifeEvent.isWorker l) → t.worker l = .ended)) := by
  obtain ⟨hinv, hmode⟩ := mode_of_lateRun h
  cases hmode with
  | early hpast =>
    cases hmain : s.main <;> simp_all [MainPc.past, MainPc.leaving]
  | givenUp _ hquiet =>
    refine .inl fun events t ht => ?_
    have hrun : Run P s t := reaches_of_runAll ht fun _ _ _ => trivial
    have hquiet' := @Reaches.invariant _ _ _ _
      (fun s => StatusInv P s ∧ s.main.leaving ∧ Quiet P s) _ _ hrun ⟨hinv.1, hleaving, hquiet⟩ (by
        rintro e u v ⟨hu, hleaving, hquiet⟩ - hstep
        have hstep := step_cases hstep
        exact ⟨hu.step hstep, Mode.givenUp_step hleaving hquiet hu hstep⟩)
    exact hquiet'.2.2.pass (forwardOnly_of_slaveMain hreact)
  | served hsettled hdelivery =>
    refine .inr fun l hl => ⟨?_, fun hasked events t ht => ?_⟩
    · obtain ⟨h, hmem, hmain⟩ | hall := hdelivery.leaving hleaving
      · obtain rfl | ⟨-, hleft⟩ := hdelivery.handler h hmem
        · exact absurd List.mem_cons_self hmain
        · exact (hleft l hl).symm.imp_right fun hmem' => ⟨h, hmem, hmem'⟩
      · exact .inl (hall l hl)
    · obtain ⟨hasked', hcount⟩ := hsettled.run hreact hl hasked ht
      refine ⟨hasked', fun hsteps => ?_⟩
      have hleft : (t.worker l).stepsLeft = 0 := by omega
      cases hpc : t.worker l <;> simp_all [WorkerPc.stepsLeft]

/-- A check that begins when all workers have stopped ends the final wait. -/
theorem finalWait_ends {cnt : ℕ} {rest : List ℕ} (hmain : s.main = .checkWait .stop cnt rest)
    (hstop : ∀ l ∈ rest, s.status l = .stop) :
    runAll (Life.step P) (List.replicate (rest.length + 1) (.main .ok)) s =
      some { s with main := .cleanUp true } := by
  induction rest generalizing s with
  | nil =>
    have hstep : Life.step P (.main .ok) s = some { s with main := .cleanUp true } := by
      simp [Life.step, Life.mainStep, hmain, afterWait]
    simp [runAll, hstep]
  | cons l rest ih =>
    have hstep : Life.step P (.main .ok) s = some { s with main := .checkWait .stop cnt rest } := by
      simp [Life.step, Life.mainStep, hmain, hstop l List.mem_cons_self]
    rw [List.length_cons, List.replicate_succ, runAll, hstep, Option.bind_some]
    exact ih rfl fun l' hl' => hstop l' (List.mem_cons_of_mem l hl')

/-- The steps of a process that is asked to stop by a signal while its worker runs. -/
def stopEvents : List LifeEvent :=
  startEvents ++ [.main .ok, .main .ok, .signal, .handler 0, .handler 0, .main .ok, .main .ok]

/-- A worker that a signal asks to stop ends. -/
theorem stop_reaches_workers_oneWorker :
    ∃ s, LateRun oneWorker (start oneWorker) s ∧ s.main.leaving ∧ Asked s 1 ∧
      ((∀ events t, runAll (Life.step oneWorker) events s = some t →
          ∀ l ∈ oneWorker.slaves, t.worker l ≠ .pass) ∨
        ∀ l ∈ oneWorker.slaves, (Asked s l ∨ ∃ h ∈ s.handlers, l ∈ h) ∧
          (Asked s l → ∀ events t, runAll (Life.step oneWorker) events s = some t → Asked t l ∧
            (3 ≤ events.countP (LifeEvent.isWorker l) → t.worker l = .ended))) := by
  obtain ⟨s, hs, hleaving, hstatus⟩ : ∃ s,
      runAll (tested (Life.step oneWorker) fun e s => e != .signal || s.main.past) stopEvents
        (start oneWorker) = some s ∧ s.main.leaving = true ∧ s.status 1 = .stopRequest :=
    exists_of_runAll (by decide)
  have hrun : LateRun oneWorker (start oneWorker) s :=
    reaches_of_runAll_tested hs fun e _ s htest hsignal => by simpa [hsignal] using htest
  exact ⟨s, hrun, hleaving, .inl hstatus, stop_reaches_workers rfl hrun hleaving⟩

-- A signal between the wait for the start and the writes that let the workers forward is lost.
example : ∃ s, runAll (Life.step oneWorker) [.main .ok, .main .ok, .main .ok, .worker 1 true .ok,
      .main .ok, .main .ok, .signal, .handler 0, .handler 0, .main .ok, .main .ok, .main .ok]
      (start oneWorker) = some s ∧ s.main.leaving = true ∧ s.handlers = [[]] ∧ s.status 1 = .forward :=
  exists_of_runAll (by decide)

end Delivery

end Life

end Spp.Vf
