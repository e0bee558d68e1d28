import Spp.Vf.FlushWait
import Spp.Vf.WorkerPath

/-!
# Lists, paths and workers

The invariant of the process of the previous module. An id is in the lists of
one lcore only, from its start to the end of its stop. While it is listed and
not a classifier, the path its worker uses, and the one it will take next, have
ports that its component has held. The steps of the workers keep it.
-/

namespace Spp.Vf

open CLib GuardedRun

variable {L : Limits} {w w' : World}

section Definitions

/-- The ids a worker still has to run, with the one it is running. -/
def LcorePc.ids : LcorePc → List ℕ
  | .top => []
  | .running ids => ids
  | .calling id ids | .forwarding id _ ids => id :: ids

/-- The id with which `spp_forward` is about to be called, or runs. -/
def LcorePc.called : LcorePc → Option ℕ
  | .calling id _ | .forwarding id _ _ => some id
  | _ => none

/-- The component that a command starts or stops, while its slot is in change. -/
def CommandPc.busy : CommandPc → Option ℕ
  | .idle => none
  | .filling id _ _ | .delisting id _ => some id
  | .flushing stopped | .publishing stopped _ | .awaiting stopped _ | .updating stopped _
  | .handing stopped _ _ | .waiting stopped _ _ => stopped

/-- The worker of an id uses a path with ports of its component, and so is the
one that it takes next. -/
def World.Fine (w : World) (id : ℕ) : Prop :=
  w.PathHeld id ((w.forward id).path (w.forward id).refIndex) ∧
    ((w.forward id).refIndex = (w.forward id).updIndex →
      w.PathHeld id ((w.forward id).path ((w.forward id).updIndex + 1)))

/-- A slot that `get_free_component` may return. -/
structure World.FreeSlot (w : World) (id : ℕ) : Prop where
  name : (w.s.component id).name = []
  type : (w.s.component id).type = .unuse
  home : w.home id = none
  flag : w.s.changeComponent id = false

/-- A slot in use. -/
structure World.SeatedSlot (w : World) (id : ℕ) : Prop where
  name : (w.s.component id).name ≠ []
  componentId : (w.s.component id).componentId = id
  home : w.home id = some (w.s.component id).lcoreId

/-- No list waits for its worker. -/
def World.CoresApart (w : World) : Prop :=
  ∀ l, (w.s.core l).refIndex ≠ (w.s.core l).updIndex

/-- No path waits for its worker. -/
def World.PathsApart (w : World) : Prop :=
  ∀ id, (w.forward id).refIndex ≠ (w.forward id).updIndex

/-- The list that the worker of a core takes next, or has taken, is without the id. -/
def CoreMngInfo.Handed (core : CoreMngInfo) (id : ℕ) : Prop :=
  if core.refIndex = core.updIndex then id ∉ core.core (core.updIndex + 1)
  else id ∉ core.refList

/-- Both lists of a core are without the id. -/
def CoreMngInfo.Gone (core : CoreMngInfo) (id : ℕ) : Prop := ∀ a, id ∉ core.core a

/-- The component that a command stops has an empty slot, is not flagged, and
its lists are as far as `P` says. -/
def World.Stopped (w : World) (stopped : Option ℕ) (P : ℕ → ℕ → Prop) : Prop :=
  ∀ id, stopped = some id →
    w.s.component id = {} ∧ w.s.changeComponent id = false ∧ ∀ l, w.home id = some l → P id l

/-- A slot that is being filled belongs to no list yet, and its path is not run
unless it becomes a classifier. -/
structure World.Filling (L : Limits) (w : World) (id : ℕ) (c : CommandComponent)
    (fields : List SlotField) : Prop where
  home : w.home id = none
  flag : w.s.changeComponent id = false
  slot : fields.foldl (SlotField.store id c) (w.s.component id) =
    { name := c.name, type := c.type, lcoreId := c.core, componentId := id }
  core_lt : c.core < L.maxLcore
  name_ne : c.name ≠ []
  path : c.type ≠ .classifierMac →
    ((w.forward id).path (w.forward id).refIndex).forwardable = false

/-- The manager's part of the invariant. -/
def World.ManagerOk (L : Limits) (w : World) : Prop :=
  match w.manager with
  | .idle => w.CoresApart ∧ w.PathsApart
  | .filling id c fields => w.CoresApart ∧ w.PathsApart ∧ w.Filling L id c fields
  | .delisting id l =>
    w.CoresApart ∧ w.PathsApart ∧ w.s.component id = {} ∧ w.home id = some l
  | .flushing stopped =>
    w.CoresApart ∧ w.PathsApart ∧
      w.Stopped stopped fun id l => w.s.changeCore l = true ∧ id ∉ (w.s.core l).updList
  | .publishing stopped ls =>
    w.PathsApart ∧ ls.Nodup ∧ (∀ l ∈ ls, l < L.maxLcore ∧ w.s.changeCore l = true) ∧
      (∀ l, (w.s.core l).refIndex ≠ (w.s.core l).updIndex ∨
        l < L.maxLcore ∧ w.s.changeCore l = true) ∧
      w.Stopped stopped fun id l => w.s.changeCore l = true ∧
        (l ∈ ls → (w.s.core l).refIndex ≠ (w.s.core l).updIndex ∧ id ∉ (w.s.core l).updList) ∧
        (l ∉ ls → (w.s.core l).Handed id)
  | .awaiting stopped ls =>
    w.PathsApart ∧ (∀ l, (w.s.core l).refIndex ≠ (w.s.core l).updIndex ∨ l ∈ ls) ∧
      w.Stopped stopped fun id l => l ∈ ls ∧ (w.s.core l).Handed id ∨ (w.s.core l).Gone id
  | .updating stopped ids =>
    w.CoresApart ∧ w.PathsApart ∧ (∀ id ∈ ids, w.s.changeComponent id = true) ∧
      w.Stopped stopped fun id l => (w.s.core l).Gone id
  | .handing stopped id ids =>
    w.CoresApart ∧ w.PathsApart ∧ (∀ id ∈ ids, w.s.changeComponent id = true) ∧
      (w.Stopped stopped fun id l => (w.s.core l).Gone id) ∧
      w.PathHeld id ((w.forward id).path (w.forward id).updIndex)
  | .waiting stopped id ids =>
    w.CoresApart ∧
      (∀ i, (w.forward i).refIndex ≠ (w.forward i).updIndex ∨ i = id) ∧
      (∀ id ∈ ids, w.s.changeComponent id = true) ∧
      w.Stopped stopped fun id l => (w.s.core l).Gone id

/-- How lists, workers and paths belong together. -/
structure WorldTables (L : Limits) (w : World) : Prop where
  /-- An id is in the lists of its own lcore only. -/
  lists : ∀ l a id, id ∈ (w.s.core l).core a → w.home id = some l
  nodup : ∀ l a, ((w.s.core l).core a).Nodup
  home_lt : ∀ id l, w.home id = some l → l < L.maxLcore
  held : ∀ id, (∀ p ∈ (w.s.component id).rxPorts, p ∈ w.held id .rx) ∧
    ∀ p ∈ (w.s.component id).txPorts, p ∈ w.held id .tx
  /-- What a worker still has to run is in the list that it has taken. -/
  workers : ∀ l, ∀ id ∈ (w.worker l).ids, id ∈ (w.s.core l).refList
  called : ∀ l id, (w.worker l).called = some id → (w.s.component id).type ≠ .classifierMac
  area : ∀ l id a ids, w.worker l = .forwarding id a ids → a = (w.forward id).refIndex
  /-- A listed component that is not a classifier has a path of its own. -/
  fine : ∀ l a id, id ∈ (w.s.core l).core a → (w.s.component id).type ≠ .classifierMac → w.Fine id

/-- What holds in every reachable state. -/
structure WorldInv (L : Limits) (w : World) : Prop extends WorldTables L w where
  slots : ∀ id, w.manager.busy ≠ some id → w.FreeSlot id ∨ w.SeatedSlot id
  manager : w.ManagerOk L

end Definitions

section Consequences

/-- The invariant implies the property. -/
theorem WorldInv.forwardsOwnPorts (h : WorldInv L w) : w.ForwardsOwnPorts := by
  intro l id area ids hworker iface path hpath hrun cnt hcnt
  have hlisted : id ∈ (w.s.core l).refList := h.workers l id (by simp [hworker, LcorePc.ids])
  have hcalled := h.called l id (by rw [hworker]; rfl)
  obtain ⟨hrunnable, hports⟩ := runnable_of_sppForwardUpdate hpath
  rw [h.area l id area ids hworker] at hrunnable hports
  obtain ⟨hrx, htx⟩ := (h.fine l _ id hlisted hcalled).1 (hrunnable.symm.trans hrun)
  obtain ⟨⟨p, hp, heqp⟩, q, hq, heqq⟩ := hports hrun cnt hcnt
  exact ⟨⟨p, hrx p hp, heqp⟩, q, htx q hq, heqq⟩

/-- No worker runs an id that is in no list. -/
theorem WorldTables.unlisted (h : WorldTables L w) {id : ℕ} (hhome : w.home id = none) (l : ℕ)
    (a : Fin 2) : id ∉ (w.s.core l).core a := by
  intro hmem
  rw [h.lists l a id hmem] at hhome
  cases hhome

/-- The worker of another lcore does not run the id. -/
theorem WorldTables.worker_home (h : WorldTables L w) {l id : ℕ} (hid : id ∈ (w.worker l).ids) :
    w.home id = some l :=
  h.lists l _ id (h.workers l id hid)

theorem LcorePc.mem_ids_of_called {pc : LcorePc} {id : ℕ} (h : pc.called = some id) :
    id ∈ pc.ids := by
  cases pc with
  | top => cases h
  | running ids => cases h
  | calling id' ids =>
    obtain rfl := Option.some.inj h
    exact List.mem_cons_self
  | forwarding id' a ids =>
    obtain rfl := Option.some.inj h
    exact List.mem_cons_self

/-- More ports held. -/
theorem World.PathHeld.mono {id : ℕ} {path : ComponentInfo} (h : w.PathHeld id path)
    (hheld : ∀ rxtx p, p ∈ w.held id rxtx → p ∈ w'.held id rxtx) : w'.PathHeld id path :=
  fun hrun => ⟨fun p hp => hheld .rx p ((h hrun).1 p hp), fun p hp => hheld .tx p ((h hrun).2 p hp)⟩

theorem World.Fine.mono {id : ℕ} (h : w.Fine id) (hforward : w'.forward id = w.forward id)
    (hheld : ∀ rxtx p, p ∈ w.held id rxtx → p ∈ w'.held id rxtx) : w'.Fine id := by
  unfold World.Fine
  rw [hforward]
  exact ⟨h.1.mono hheld, fun heq => (h.2 heq).mono hheld⟩

/-- The initial state. -/
theorem worldInv_initial (L : Limits) (slave : ℕ → Bool) (numNic mainLcore : ℕ) :
    WorldInv L (World.initial L slave numNic mainLcore) :=
  { lists := fun _ _ _ hmem => by cases hmem
    nodup := fun _ _ => List.nodup_nil
    home_lt := fun _ _ hhome => by cases hhome
    slots := fun _ _ => .inl ⟨rfl, rfl, rfl, rfl⟩
    held := fun _ => ⟨nofun, nofun⟩
    workers := fun _ _ hmem => by cases hmem
    called := fun _ _ hcalled => by cases hcalled
    area := fun _ _ _ _ hworker => by cases hworker
    fine := fun _ _ _ hmem => by cases hmem
    manager := ⟨fun _ => Fin.zero_ne_one, fun _ => Fin.zero_ne_one⟩ }

end Consequences

section Taking

variable {core core' : CoreMngInfo}

/-- What the worker of a core may do to it. -/
def CoreMngInfo.Taken (core core' : CoreMngInfo) : Prop :=
  core' = core ∨ core' = core.takeUpdate

theorem takeUpdate_core (core : CoreMngInfo) : core.takeUpdate.core = core.core := by
  unfold CoreMngInfo.takeUpdate
  split <;> rfl

theorem CoreMngInfo.Taken.areas (h : core.Taken core') : core'.core = core.core := by
  rcases h with rfl | rfl
  · rfl
  · exact takeUpdate_core core

/-- There is nothing to take when the indices differ. -/
theorem CoreMngInfo.Taken.eq_of_ne (h : core.Taken core') (hne : core.refIndex ≠ core.updIndex) :
    core' = core := by
  rcases h with rfl | rfl
  · rfl
  · exact takeUpdate_of_ne hne

theorem CoreMngInfo.Taken.handed {id : ℕ} (h : core.Taken core') (hid : core.Handed id) :
    core'.Handed id := by
  by_cases hne : core.refIndex = core.updIndex
  · rcases h with rfl | rfl
    · exact hid
    · have hnext : id ∉ core.core (core.updIndex + 1) := by
        simpa only [CoreMngInfo.Handed, if_pos hne] using hid
      have hapart : core.updIndex + 1 ≠ core.updIndex := by omega
      simpa only [CoreMngInfo.Handed, CoreMngInfo.takeUpdate, if_pos hne, CoreMngInfo.refList,
        if_neg hapart] using hnext
  · rwa [h.eq_of_ne hne]

theorem CoreMngInfo.Taken.gone {id : ℕ} (h : core.Taken core') (hid : core.Gone id) :
    core'.Gone id := by
  intro a
  rw [h.areas]
  exact hid a

/-- What the worker of an id may do to its path. -/
def ForwardInfo.Taken (info info' : ForwardInfo) : Prop := info' = info ∨ info' = info.take

variable {info info' : ForwardInfo}

theorem ForwardInfo.Taken.eq_of_ne (h : info.Taken info') (hne : info.refIndex ≠ info.updIndex) :
    info' = info := by
  rcases h with rfl | rfl
  · rfl
  · exact if_neg hne

theorem ForwardInfo.take_ne (info : ForwardInfo) : info.take.refIndex ≠ info.take.updIndex := by
  unfold ForwardInfo.take
  split
  · dsimp only
    omega
  · assumption

/-- A path that is taken is one of the component. -/
theorem World.Fine.taken {id : ℕ} (h : w.Fine id) (htaken : (w.forward id).Taken (w'.forward id))
    (hheld : w'.held = w.held) : w'.Fine id := by
  rcases htaken with heq | heq
  · exact h.mono heq fun rxtx p hp => by rwa [hheld]
  · by_cases hwait : (w.forward id).refIndex = (w.forward id).updIndex
    · have hpath : (w'.forward id).path (w'.forward id).refIndex =
          (w.forward id).path ((w.forward id).updIndex + 1) := by
        rw [heq, ForwardInfo.take, if_pos hwait]
      refine ⟨?_, fun heq' => ?_⟩
      · rw [hpath]
        exact (h.2 hwait).mono fun rxtx p hp => by rwa [hheld]
      · rw [heq] at heq'
        exact absurd heq' (ForwardInfo.take_ne _)
    · exact h.mono (ForwardInfo.Taken.eq_of_ne (.inr heq) hwait) fun rxtx p hp => by rwa [hheld]

/-- Two states between which only workers have made steps. -/
structure World.Takes (w w' : World) : Prop where
  component : w'.s.component = w.s.component
  changeCore : w'.s.changeCore = w.s.changeCore
  changeComponent : w'.s.changeComponent = w.s.changeComponent
  core : ∀ l, (w.s.core l).Taken (w'.s.core l)
  forward : ∀ id, (w.forward id).Taken (w'.forward id)
  manager : w'.manager = w.manager
  home : w'.home = w.home
  held : w'.held = w.held

variable (hw : w.Takes w')
include hw

theorem World.Takes.core_eq {l : ℕ} (hne : (w.s.core l).refIndex ≠ (w.s.core l).updIndex) :
    w'.s.core l = w.s.core l :=
  (hw.core l).eq_of_ne hne

theorem World.Takes.coresApart (h : w.CoresApart) : w'.CoresApart := by
  intro l
  rw [hw.core_eq (h l)]
  exact h l

theorem World.Takes.pathsApart (h : w.PathsApart) : w'.PathsApart := by
  intro id
  rw [(hw.forward id).eq_of_ne (h id)]
  exact h id

theorem World.Takes.stopped {stopped : Option ℕ} {P P' : ℕ → ℕ → Prop} (h : w.Stopped stopped P)
    (hP : ∀ id l, P id l → P' id l) : w'.Stopped stopped P' := by
  intro id hid
  obtain ⟨hslot, hflag, hlist⟩ := h id hid
  rw [hw.component, hw.changeComponent, hw.home]
  exact ⟨hslot, hflag, fun l hl => hP id l (hlist l hl)⟩

/-- The workers leave the manager's part of the invariant alone. -/
theorem World.ManagerOk.takes (h : w.ManagerOk L) : w'.ManagerOk L := by
  have hapart_or : ∀ {l : ℕ} {Q : Prop}, (w.s.core l).refIndex ≠ (w.s.core l).updIndex ∨ Q →
      (w'.s.core l).refIndex ≠ (w'.s.core l).updIndex ∨ Q := by
    intro l Q hor
    refine hor.imp_left fun hne => ?_
    rwa [hw.core_eq hne]
  unfold World.ManagerOk at h ⊢
  rw [hw.manager]
  cases hm : w.manager <;> simp only [hm] at h ⊢
  case idle => exact ⟨hw.coresApart h.1, hw.pathsApart h.2⟩
  case filling id c fields =>
    obtain ⟨hcores, hpaths, hfill⟩ := h
    refine ⟨hw.coresApart hcores, hw.pathsApart hpaths, ?_⟩
    refine ⟨?_, ?_, ?_, hfill.core_lt, hfill.name_ne, ?_⟩
    · rw [hw.home]
      exact hfill.home
    · rw [hw.changeComponent]
      exact hfill.flag
    · rw [hw.component]
      exact hfill.slot
    · rw [(hw.forward id).eq_of_ne (hpaths id)]
      exact hfill.path
  case delisting id l =>
    obtain ⟨hcores, hpaths, hslot, hhome⟩ := h
    refine ⟨hw.coresApart hcores, hw.pathsApart hpaths, ?_, ?_⟩
    · rwa [hw.component]
    · rwa [hw.home]
  case flushing stopped =>
    obtain ⟨hcores, hpaths, hstop⟩ := h
    refine ⟨hw.coresApart hcores, hw.pathsApart hpaths, hw.stopped hstop fun id l hl => ?_⟩
    rwa [hw.changeCore, hw.core_eq (hcores l)]
  case publishing stopped ls =>
    obtain ⟨hpaths, hnodup, hls, hcores, hstop⟩ := h
    rw [hw.changeCore]
    refine ⟨hw.pathsApart hpaths, hnodup, hls, fun l => hapart_or (hcores l),
      hw.stopped hstop fun id l ⟨hl, hpending, hhanded⟩ => ⟨hl, fun hmem => ?_, fun hmem => ?_⟩⟩
    · rw [hw.core_eq (hpending hmem).1]
      exact hpending hmem
    · exact (hw.core l).handed (hhanded hmem)
  case awaiting stopped ls =>
    obtain ⟨hpaths, hcores, hstop⟩ := h
    exact ⟨hw.pathsApart hpaths, fun l => hapart_or (hcores l), hw.stopped hstop fun id l hl =>
      hl.imp (And.imp_right (hw.core l).handed) (hw.core l).gone⟩
  case updating stopped ids =>
    obtain ⟨hcores, hpaths, hflags, hstop⟩ := h
    rw [hw.changeComponent]
    exact ⟨hw.coresApart hcores, hw.pathsApart hpaths, hflags,
      hw.stopped hstop fun id l => (hw.core l).gone⟩
  case handing stopped id ids =>
    obtain ⟨hcores, hpaths, hflags, hstop, hpath⟩ := h
    rw [hw.changeComponent, (hw.forward id).eq_of_ne (hpaths id)]
    refine ⟨hw.coresApart hcores, hw.pathsApart hpaths, hflags,
      hw.stopped hstop fun id l => (hw.core l).gone, ?_⟩
    exact hpath.mono fun rxtx p hp => by rwa [hw.held]
  case waiting stopped id ids =>
    obtain ⟨hcores, hpaths, hflags, hstop⟩ := h
    rw [hw.changeComponent]
    refine ⟨hw.coresApart hcores, fun i => (hpaths i).imp_left fun hne => ?_, hflags,
      hw.stopped hstop fun id l => (hw.core l).gone⟩
    rwa [(hw.forward i).eq_of_ne hne]

/-- A worker step keeps the invariant if it keeps what is said of the workers. -/
theorem WorldInv.takes (h : WorldInv L w)
    (hworkers : ∀ l, ∀ id ∈ (w'.worker l).ids, id ∈ (w'.s.core l).refList)
    (hcalled : ∀ l id, (w'.worker l).called = some id →
      (w'.s.component id).type ≠ .classifierMac)
    (harea : ∀ l id a ids, w'.worker l = .forwarding id a ids → a = (w'.forward id).refIndex) :
    WorldInv L w' where
  lists l a id hmem := by
    rw [(hw.core l).areas] at hmem
    rw [hw.home]
    exact h.lists l a id hmem
  nodup l a := by
    rw [(hw.core l).areas]
    exact h.nodup l a
  home_lt id l := by
    rw [hw.home]
    exact h.home_lt id l
  slots id hbusy := by
    rw [hw.manager] at hbusy
    refine (h.slots id hbusy).imp (fun hfree => ?_) fun hseated => ?_
    · refine ⟨?_, ?_, ?_, ?_⟩
      · simpa only [hw.component] using hfree.name
      · simpa only [hw.component] using hfree.type
      · simpa only [hw.home] using hfree.home
      · simpa only [hw.changeComponent] using hfree.flag
    · refine ⟨?_, ?_, ?_⟩
      · simpa only [hw.component] using hseated.name
      · simpa only [hw.component] using hseated.componentId
      · simpa only [hw.component, hw.home] using hseated.home
  held id := by
    rw [hw.component, hw.held]
    exact h.held id
  workers := hworkers
  called := hcalled
  area := harea
  fine l a id hmem htype := by
    rw [(hw.core l).areas] at hmem
    rw [hw.component] at htype
    exact (h.fine l a id hmem htype).taken (hw.forward id) hw.held
  manager := World.ManagerOk.takes hw h.manager

end Taking

section WorkerSteps

variable {l : ℕ}

theorem World.setCore_core (w : World) (l : ℕ) (core : CoreMngInfo) (l' : ℕ) :
    (w.setCore l core).s.core l' = if l' = l then core else w.s.core l' := by
  by_cases hl : l' = l
  · subst hl
    simp [World.setCore]
  · simp [World.setCore, hl]

theorem World.setForward_forward (w : World) (id : ℕ) (info : ForwardInfo) (i : ℕ) :
    (w.setForward id info).forward i = if i = id then info else w.forward i := by
  by_cases hi : i = id
  · subst hi
    simp [World.setForward]
  · simp [World.setForward, hi]

/-- A worker moves on to a place from which it runs components of its list. -/
theorem WorldInv.moveWorker (h : WorldInv L w) {pc : LcorePc}
    (hids : ∀ id ∈ pc.ids, id ∈ (w.s.core l).refList)
    (hcalled : ∀ id, pc.called = some id → (w.s.component id).type ≠ .classifierMac)
    (harea : ∀ id a ids, pc = .forwarding id a ids → a = (w.forward id).refIndex) :
    WorldInv L { w with worker := Function.update w.worker l pc } := by
  have hw : w.Takes { w with worker := Function.update w.worker l pc } :=
    ⟨rfl, rfl, rfl, fun _ => .inl rfl, fun _ => .inl rfl, rfl, rfl, rfl⟩
  refine h.takes hw (fun l' id hid => ?_) (fun l' id hid => ?_) (fun l' id a ids hpc => ?_) <;>
    by_cases hl : l' = l
  · subst hl
    simp only [Function.update_self] at hid
    exact hids id hid
  · simp only [Function.update_of_ne hl] at hid
    exact h.workers l' id hid
  · subst hl
    simp only [Function.update_self] at hid
    exact hcalled id hid
  · simp only [Function.update_of_ne hl] at hid
    exact h.called l' id hid
  · subst hl
    simp only [Function.update_self] at hpc
    exact harea id a ids hpc
  · simp only [Function.update_of_ne hl] at hpc
    exact h.area l' id a ids hpc

/-- At the top of its pass a worker takes the list that was handed over. -/
theorem WorldInv.takeList (h : WorldInv L w) (htop : w.worker l = .top) :
    WorldInv L (w.setCore l (w.s.core l).takeUpdate) := by
  have hw : w.Takes (w.setCore l (w.s.core l).takeUpdate) := by
    refine ⟨rfl, rfl, rfl, fun l' => ?_, fun _ => .inl rfl, rfl, rfl, rfl⟩
    rw [World.setCore_core]
    split
    · rename_i heq
      rw [heq]
      exact .inr rfl
    · exact .inl rfl
  refine h.takes hw (fun l' id hid => ?_) h.called h.area
  rw [World.setCore_core]
  change id ∈ (w.worker l').ids at hid
  split
  · rename_i heq
    rw [heq, htop] at hid
    cases hid
  · exact h.workers l' id hid

/-- At the start of `spp_forward` a worker takes the path that was handed over. -/
theorem WorldInv.takePath (h : WorldInv L w) {id : ℕ} {ids : List ℕ}
    (hcalling : w.worker l = .calling id ids) :
    WorldInv L (w.setForward id (w.forward id).take) := by
  have hw : w.Takes (w.setForward id (w.forward id).take) := by
    refine ⟨rfl, rfl, rfl, fun _ => .inl rfl, fun i => ?_, rfl, rfl, rfl⟩
    rw [World.setForward_forward]
    split
    · rename_i heq
      rw [heq]
      exact .inr rfl
    · exact .inl rfl
  refine h.takes hw h.workers h.called fun l' i a is hpc => ?_
  change w.worker l' = .forwarding i a is at hpc
  rw [World.setForward_forward]
  split
  · -- no second worker is in `spp_forward` for the id
    rename_i heq
    have hhere : w.home id = some l := h.worker_home (by rw [hcalling]; exact List.mem_cons_self)
    have hthere : w.home i = some l' := h.worker_home (by rw [hpc]; exact List.mem_cons_self)
    rw [heq, hhere] at hthere
    rw [← Option.some.inj hthere, hcalling] at hpc
    cases hpc
  · exact h.area l' i a is hpc

/-- A step of a worker keeps the invariant. -/
theorem WorldInv.lcoreStep (h : WorldInv L w) (hstep : Vf.lcoreStep l w = some w') :
    WorldInv L w' := by
  unfold Vf.lcoreStep at hstep
  dsimp only at hstep
  split at hstep
  case h_1 htop =>
    split at hstep
    · obtain rfl := Option.some.inj hstep
      exact (h.takeList htop).moveWorker (fun _ hid => hid) (fun _ hid => by cases hid) nofun
    · cases hstep
  case h_2 hrunning =>
    obtain rfl := Option.some.inj hstep
    exact h.moveWorker (fun _ hid => by cases hid) (fun _ hid => by cases hid) nofun
  case h_3 id ids hrunning =>
    split at hstep
    · obtain rfl := Option.some.inj hstep
      refine h.moveWorker (fun i hi => ?_) (fun _ hid => by cases hid) nofun
      refine h.workers l i ?_
      rw [hrunning]
      exact List.mem_cons_of_mem id hi
    · rename_i htype
      obtain rfl := Option.some.inj hstep
      refine h.moveWorker (fun i hi => ?_) (fun i hi => ?_) nofun
      · refine h.workers l i ?_
        rw [hrunning]
        exact hi
      · obtain rfl := Option.some.inj hi
        exact htype
  case h_4 id ids hcalling =>
    obtain rfl := Option.some.inj hstep
    refine (h.takePath hcalling).moveWorker (fun i hi => ?_) (fun i hi => ?_) fun i a is hpc => ?_
    · refine h.workers l i ?_
      rw [hcalling]
      exact hi
    · refine h.called l i ?_
      rw [hcalling]
      exact hi
    · cases hpc
      rw [World.setForward_forward, if_pos rfl]
  case h_5 id a ids hforwarding =>
    obtain rfl := Option.some.inj hstep
    refine h.moveWorker (fun i hi => ?_) (fun _ hid => by cases hid) nofun
    refine h.workers l i ?_
    rw [hforwarding]
    exact List.mem_cons_of_mem id hi

end WorkerSteps

end Spp.Vf
