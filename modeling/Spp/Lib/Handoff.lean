import Mathlib.Algebra.Ring.Nat
import Mathlib.Data.Fin.Basic
import Mathlib.Logic.Function.Basic
import Spp.Lib.GuardedRun

/-!
# Handing an area over by two indices

A manager and a worker share two areas. The worker reads the area of the
reference index. The manager stores to the area of the update index, hands it
over by moving the update index onto the reference index, and waits until the
worker has moved the reference index away. Every access to an index, to a
piece of an area and every read by the worker is a step of its own.
-/

namespace Handoff

/-- There are two areas, so there are index literals. -/
instance neZero_two : NeZero 2 := ⟨Nat.succ_ne_zero 1⟩

/-- The reference index of the worker and the update index of the manager. -/
structure Indices where
  ref : Fin 2
  upd : Fin 2
  deriving DecidableEq

/-- The manager hands the update area over. -/
def Indices.publish (ix : Indices) : Indices := { ix with upd := ix.ref }

/-- The worker takes an area that was handed over. -/
def Indices.take (ix : Indices) : Indices :=
  if ix.ref = ix.upd then { ix with ref := ix.upd + 1 } else ix

/-- A worker that looked has an area of its own. -/
theorem Indices.take_ne (ix : Indices) : ix.take.ref ≠ ix.take.upd := by
  unfold take
  split
  · dsimp only
    omega
  · assumption

variable {α : Type*}

/-- A call of the manager: stores to the update area, which is then handed over
or kept for a later call. -/
structure Call (α : Type*) where
  stores : List (α → α)
  publishes : Bool

/-- What a list of stores makes of an area. -/
def runStores (stores : List (α → α)) (a : α) : α := stores.foldl (fun a g => g a) a

@[simp] theorem runStores_nil (a : α) : runStores [] a = a := rfl

@[simp] theorem runStores_cons (g : α → α) (stores : List (α → α)) (a : α) :
    runStores (g :: stores) a = runStores stores (g a) := rfl

/-- What a list of pieces makes of an area, given the other one. -/
def runPieces (pieces : List (α → α → α)) (src dst : α) : α :=
  pieces.foldl (fun d p => p src d) dst

@[simp] theorem runPieces_nil (src dst : α) : runPieces [] src dst = dst := rfl

@[simp] theorem runPieces_cons (p : α → α → α) (pieces : List (α → α → α)) (src dst : α) :
    runPieces (p :: pieces) src dst = runPieces pieces src (p src dst) := rfl

/-- The two ways in which protocols of this kind differ. -/
structure Protocol (α : Type*) where
  /-- Stores to the update area that end a call after its wait, piece by piece.
  Each may look at the reference area. -/
  after : List (α → α → α)
  /-- The worker keeps its pointer from pass to pass and reads the reference
  index again only when it takes an area. -/
  cached : Bool

/-- Where the manager is, with the values it has read. -/
inductive ManagerPc (α : Type*)
  /-- Between two calls. -/
  | idle
  /-- About to read the update index. -/
  | opening (c : Call α)
  /-- The stores that are left to an area. -/
  | storing (area : Fin 2) (rest : List (α → α)) (publishes : Bool)
  /-- About to write the reference index it has read to the update index. -/
  | publishing (ref : Fin 2)
  /-- About to read the reference index in the wait. -/
  | polling
  /-- About to compare it with the update index. -/
  | polled (ref : Fin 2)
  /-- The wait is over; about to read the update index. -/
  | closing
  /-- About to read the reference index. -/
  | loading (dst : Fin 2)
  /-- The pieces that are left. -/
  | finishing (dst src : Fin 2) (rest : List (α → α → α))

/-- Where the worker is in its pass, with the values it has read. -/
inductive WorkerPc
  /-- About to read the reference index. -/
  | starting
  /-- About to compare it with the update index. -/
  | compared (ref : Fin 2)
  /-- The indices were equal; about to read the update index. -/
  | swapping
  /-- About to write the other index to the reference index. -/
  | storing (upd : Fin 2)
  /-- About to read the reference index for its pointer. -/
  | opening
  /-- Reading the area of its pointer. -/
  | reading

/-- The indices, the areas and the two processes. The last two fields are
history: what the stores of the current call amount to, and what was handed
over last. -/
structure St (α : Type*) where
  ref : Fin 2
  upd : Fin 2
  area : Fin 2 → α
  manager : ManagerPc α
  worker : WorkerPc
  pointer : Fin 2
  written : α
  content : α

/-- One access by the manager. -/
def managerStep (P : Protocol α) (st : St α) : Option (St α) :=
  match st.manager with
  | .idle => none
  | .opening c =>
    some { st with
      manager := .storing st.upd c.stores c.publishes
      written := runStores c.stores (st.area st.upd) }
  | .storing a (g :: rest) publishes =>
    some { st with
      area := Function.update st.area a (g (st.area a))
      manager := .storing a rest publishes }
  | .storing _ [] true => some { st with manager := .publishing st.ref }
  | .storing _ [] false => some { st with manager := .idle }
  | .publishing ref =>
    some { st with upd := ref, manager := .polling, content := st.written }
  | .polling => some { st with manager := .polled st.ref }
  | .polled ref =>
    if ref = st.upd then some { st with manager := .polling }
    else if P.after.isEmpty then some { st with manager := .idle }
    else some { st with manager := .closing }
  | .closing => some { st with manager := .loading st.upd }
  | .loading dst => some { st with manager := .finishing dst st.ref P.after }
  | .finishing dst src (p :: rest) =>
    some { st with
      area := Function.update st.area dst (p (st.area src) (st.area dst))
      manager := .finishing dst src rest }
  | .finishing _ _ [] => some { st with manager := .idle }

/-- One access by the worker. -/
def workerStep (P : Protocol α) (st : St α) : St α :=
  match st.worker with
  | .starting => { st with worker := .compared st.ref }
  | .compared ref =>
    if ref = st.upd then { st with worker := .swapping }
    else if P.cached then { st with worker := .reading }
    else { st with worker := .opening }
  | .swapping => { st with worker := .storing st.upd }
  | .storing upd => { st with ref := upd + 1, worker := .opening }
  | .opening => { st with pointer := st.ref, worker := .reading }
  | .reading => st

/-- What happens next: a call begins, or one of the processes makes an access,
or the worker ends its pass. -/
inductive Act (α : Type*)
  | call (c : Call α)
  | manager
  | worker
  | endPass

/-- One step of the two processes. -/
def step (P : Protocol α) : Act α → St α → Option (St α)
  | .call c, st =>
    match st.manager with
    | .idle => some { st with manager := .opening c }
    | _ => none
  | .manager, st => managerStep P st
  | .worker, st => some (workerStep P st)
  | .endPass, st =>
    match st.worker with
    | .reading => some { st with worker := .starting }
    | _ => none

/-- Both processes at rest. -/
def St.initial (ref upd : Fin 2) (area : Fin 2 → α) : St α :=
  { ref := ref, upd := upd, area := area, manager := .idle, worker := .starting, pointer := ref
    written := area upd, content := area (upd + 1) }

section Invariant

/-- The worker has yet to take an area in this pass. -/
def WorkerPc.Fresh : WorkerPc → Prop
  | .opening | .reading => False
  | _ => True

/-- The indices differ, or they were equal from the start and the worker has
not read anything yet. -/
def St.Apart (st : St α) : Prop := st.ref ≠ st.upd ∨ st.worker.Fresh

/-- The manager's part of the invariant. -/
def ManagerOk (P : Protocol α) (st : St α) : Prop :=
  match st.manager with
  | .idle | .opening _ => st.Apart
  | .storing a rest _ => st.Apart ∧ a = st.upd ∧ runStores rest (st.area a) = st.written
  | .publishing ref => st.ref ≠ st.upd ∧ ref = st.ref ∧ st.area st.upd = st.written
  | .polling => True
  | .polled ref => ref ≠ st.upd → st.ref ≠ st.upd
  | .closing => st.ref ≠ st.upd
  | .loading dst => st.ref ≠ st.upd ∧ dst = st.upd
  | .finishing dst src rest => st.ref ≠ st.upd ∧ dst = st.upd ∧ src = st.ref ∧
      ∃ d, runPieces rest (st.area src) (st.area dst) = runPieces P.after (st.area src) d

/-- The worker's part of the invariant. -/
def WorkerOk (st : St α) : Prop :=
  match st.worker with
  | .starting | .reading => st.pointer = st.ref
  | .compared ref => ref = st.ref ∧ st.pointer = st.ref
  | .swapping => st.ref = st.upd
  | .storing upd => st.ref = st.upd ∧ upd = st.upd
  | .opening => True

/-- What holds in every reachable state: both processes are where the values
they have read allow, and the area beside the update index holds what was
handed over last. -/
structure Inv (P : Protocol α) (st : St α) : Prop where
  manager : ManagerOk P st
  worker : WorkerOk st
  content : st.area (st.upd + 1) = st.content

/-- The condition on a step: a hand-over begins with the indices apart. -/
def PublishApart (i : Act α) (st : St α) : Prop :=
  match i, st.manager with
  | .manager, .storing _ [] true => st.ref ≠ st.upd
  | _, _ => True

variable {P : Protocol α} {st st' : St α}

/-- Indices that differ name the two areas. -/
theorem ref_eq_of_ne {i j : Fin 2} (h : i ≠ j) : j = i + 1 := by
  omega

theorem inv_initial (P : Protocol α) (ref upd : Fin 2) (area : Fin 2 → α) :
    Inv P (St.initial ref upd area) :=
  ⟨.inr trivial, rfl, rfl⟩

/-- A step of the worker that moves no index. -/
theorem ManagerOk.of_worker (h : ManagerOk P st) {w : WorkerPc} {p : Fin 2}
    (hapart : st.Apart → St.Apart { st with worker := w, pointer := p }) :
    ManagerOk P { st with worker := w, pointer := p } := by
  unfold ManagerOk at h ⊢
  dsimp only
  split at h
  · exact hapart h
  · exact hapart h
  · exact ⟨hapart h.1, h.2⟩
  all_goals exact h

/-- The worker moves the reference index only while the manager waits for it,
or before anything was handed over. -/
theorem ManagerOk.swap (h : ManagerOk P st) (heq : st.ref = st.upd) :
    ManagerOk P { st with ref := st.upd + 1, worker := .opening } := by
  have hne : st.upd + 1 ≠ st.upd := by omega
  unfold ManagerOk at h ⊢
  dsimp only
  split at h
  · exact .inl hne
  · exact .inl hne
  · exact ⟨.inl hne, h.2⟩
  · exact absurd heq h.1
  · trivial
  · exact fun _ => hne
  · exact absurd heq h
  · exact absurd heq h.1
  · exact absurd heq h.1

/-- An access by the worker keeps the invariant. -/
theorem Inv.workerStep (h : Inv P st) : Inv P (workerStep P st) := by
  have hworker := h.worker
  unfold WorkerOk at hworker
  unfold Handoff.workerStep
  split at hworker
  · rename_i hw
    rw [hw]
    exact ⟨h.manager.of_worker (p := st.pointer) fun _ => .inr trivial, ⟨rfl, hworker⟩, h.content⟩
  · rename_i hw
    rw [hw]
    exact ⟨h.manager, by simpa [WorkerOk, hw] using hworker, h.content⟩
  · rename_i ref hw
    obtain ⟨rfl, hpointer⟩ := hworker
    rw [hw]
    dsimp only
    split
    · rename_i heq
      exact ⟨h.manager.of_worker (p := st.pointer) fun _ => .inr trivial, heq, h.content⟩
    · rename_i hne
      split
      · exact ⟨h.manager.of_worker (p := st.pointer) fun _ => .inl hne, hpointer, h.content⟩
      · exact ⟨h.manager.of_worker (p := st.pointer) fun _ => .inl hne, trivial, h.content⟩
  · rename_i hw
    rw [hw]
    exact ⟨h.manager.of_worker (p := st.pointer) fun _ => .inr trivial, ⟨hworker, rfl⟩, h.content⟩
  · rename_i upd hw
    obtain ⟨heq, rfl⟩ := hworker
    rw [hw]
    exact ⟨h.manager.swap heq, trivial, h.content⟩
  · rename_i hw
    rw [hw]
    refine ⟨h.manager.of_worker (p := st.ref) fun hapart => ?_, rfl, h.content⟩
    rcases hapart with hne | hfresh
    · exact .inl hne
    · simp [WorkerPc.Fresh, hw] at hfresh

/-- The end of a pass keeps the invariant. -/
theorem Inv.endPass (h : Inv P st) (hw : st.worker = .reading) :
    Inv P { st with worker := .starting } := by
  have hworker := h.worker
  simp only [WorkerOk, hw] at hworker
  exact ⟨h.manager.of_worker (p := st.pointer) fun _ => .inr trivial, hworker, h.content⟩

/-- A store to the update area leaves the other area. -/
theorem update_upd_content {β : Type*} {area : Fin 2 → β} {upd a : Fin 2} (ha : a = upd) (x : β) :
    Function.update area a x (upd + 1) = area (upd + 1) := by
  subst ha
  exact Function.update_of_ne (by omega) ..

/-- An access by the manager keeps the invariant. -/
theorem Inv.managerStep (h : Inv P st) (hapart : PublishApart .manager st)
    (hs : managerStep P st = some st') : Inv P st' := by
  have hmanager := h.manager
  unfold ManagerOk at hmanager
  unfold Handoff.managerStep at hs
  split at hmanager
  · rename_i hm
    simp [hm] at hs
  · rename_i c hm
    simp only [hm, Option.some.injEq] at hs
    subst hs
    exact ⟨⟨hmanager, rfl, rfl⟩, h.worker, h.content⟩
  · rename_i a rest publishes hm
    obtain ⟨hap, ha, hwritten⟩ := hmanager
    match rest, publishes with
    | g :: rest, publishes =>
      simp only [hm, Option.some.injEq] at hs
      subst hs
      refine ⟨⟨hap, ha, ?_⟩, h.worker, ?_⟩
      · simpa using hwritten
      · exact (update_upd_content ha _).trans h.content
    | [], true =>
      simp only [PublishApart, hm] at hapart
      simp only [hm, Option.some.injEq] at hs
      subst hs
      exact ⟨⟨hapart, rfl, by simpa [ha] using hwritten⟩, h.worker, h.content⟩
    | [], false =>
      simp only [hm, Option.some.injEq] at hs
      subst hs
      exact ⟨hap, h.worker, h.content⟩
  · rename_i ref hm
    obtain ⟨hne, rfl, hwritten⟩ := hmanager
    simp only [hm, Option.some.injEq] at hs
    subst hs
    refine ⟨trivial, ?_, ?_⟩
    · have hworker := h.worker
      unfold WorkerOk at hworker ⊢
      dsimp only
      split at hworker
      · exact hworker
      · exact hworker
      · exact hworker
      · exact absurd hworker hne
      · exact absurd hworker.1 hne
      · trivial
    · rw [← hwritten]
      dsimp only
      rw [← ref_eq_of_ne hne]
  · rename_i hm
    simp only [hm, Option.some.injEq] at hs
    subst hs
    exact ⟨fun hne => hne, h.worker, h.content⟩
  · rename_i ref hm
    simp only [hm] at hs
    split at hs
    · obtain rfl := Option.some.inj hs
      exact ⟨trivial, h.worker, h.content⟩
    · rename_i hne
      split at hs
      · obtain rfl := Option.some.inj hs
        exact ⟨.inl (hmanager hne), h.worker, h.content⟩
      · obtain rfl := Option.some.inj hs
        exact ⟨hmanager hne, h.worker, h.content⟩
  · rename_i hm
    simp only [hm, Option.some.injEq] at hs
    subst hs
    exact ⟨⟨hmanager, rfl⟩, h.worker, h.content⟩
  · rename_i dst hm
    obtain ⟨hne, hdst⟩ := hmanager
    simp only [hm, Option.some.injEq] at hs
    subst hs
    exact ⟨⟨hne, hdst, rfl, _, rfl⟩, h.worker, h.content⟩
  · rename_i dst src rest hm
    obtain ⟨hne, hdst, hsrc, d, hrest⟩ := hmanager
    match rest with
    | p :: rest =>
      simp only [hm, Option.some.injEq] at hs
      subst hs
      have hother : src ≠ dst := by rw [hsrc, hdst]; exact hne
      refine ⟨⟨hne, hdst, hsrc, d, ?_⟩, h.worker, ?_⟩
      · simpa [Function.update_of_ne hother] using hrest
      · exact (update_upd_content hdst _).trans h.content
    | [] =>
      simp only [hm, Option.some.injEq] at hs
      subst hs
      exact ⟨.inl hne, h.worker, h.content⟩

/-- A step keeps the invariant if a hand-over begins with the indices apart. -/
theorem Inv.step (h : Inv P st) (i : Act α) (hapart : PublishApart i st)
    (hs : step P i st = some st') : Inv P st' := by
  cases i with
  | call c =>
    simp only [Handoff.step] at hs
    split at hs
    · rename_i hm
      obtain rfl := Option.some.inj hs
      have hmanager := h.manager
      simp only [ManagerOk, hm] at hmanager
      exact ⟨hmanager, h.worker, h.content⟩
    · cases hs
  | manager => exact h.managerStep hapart hs
  | worker =>
    obtain rfl := Option.some.inj hs
    exact h.workerStep
  | endPass =>
    simp only [Handoff.step] at hs
    split at hs
    · rename_i hw
      obtain rfl := Option.some.inj hs
      exact h.endPass hw
    · cases hs

end Invariant

section Safety

variable {P : Protocol α} {st st' : St α} {guard : Act α → St α → Prop}

/-- The area that the next access of the manager stores to. -/
def ManagerPc.writes : ManagerPc α → Option (Fin 2)
  | .storing a (_ :: _) _ => some a
  | .finishing dst _ (_ :: _) => some dst
  | _ => none

/-- The last call that handed an area over has returned, and the next one has
not handed over yet. -/
def ManagerPc.Returned : ManagerPc α → Prop
  | .idle | .opening _ | .storing .. | .publishing _ => True
  | _ => False

/-- Before a hand-over the indices are apart. -/
def St.Parted (st : St α) : Prop := st.manager.Returned → st.ref ≠ st.upd

/-- What the two indices are for: the manager stores to no area that the worker
reads, and once a call has returned the worker reads what was handed over. -/
structure Safe (st : St α) : Prop where
  writes_ne : ∀ a, st.manager.writes = some a → st.worker = .reading → st.pointer ≠ a
  reads_content : st.manager.Returned → st.worker = .reading → st.area st.pointer = st.content

/-- A worker that reads while the indices are apart reads the other area. -/
theorem Inv.pointer_eq (h : Inv P st) (hr : st.worker = .reading) : st.pointer = st.ref := by
  simpa [WorkerOk, hr] using h.worker

/-- Before a hand-over the indices are apart, as far as the worker can tell. -/
theorem Inv.apart_of_returned (h : Inv P st) (hm : st.manager.Returned) : st.Apart := by
  have hmanager := h.manager
  unfold ManagerOk at hmanager
  split at hmanager
  · exact hmanager
  · exact hmanager
  · exact hmanager.1
  · exact .inl hmanager.1
  all_goals simp_all [ManagerPc.Returned]

/-- The invariant makes the two processes safe. -/
theorem Inv.safe (h : Inv P st) : Safe st := by
  have hapart : st.manager.Returned → st.worker = .reading → st.ref ≠ st.upd := by
    intro hm hr
    rcases h.apart_of_returned hm with hne | hfresh
    · exact hne
    · simp [WorkerPc.Fresh, hr] at hfresh
  refine ⟨fun a hw hr => ?_, fun hm hr => ?_⟩
  · have hmanager := h.manager
    rw [h.pointer_eq hr]
    cases hm : st.manager with
    | storing area rest publishes =>
      simp only [ManagerOk, hm] at hmanager
      have hne := hapart (by simp [hm, ManagerPc.Returned]) hr
      cases rest with
      | nil => simp [hm, ManagerPc.writes] at hw
      | cons g rest =>
        obtain rfl : area = a := by simpa [hm, ManagerPc.writes] using hw
        rwa [hmanager.2.1]
    | finishing dst src rest =>
      simp only [ManagerOk, hm] at hmanager
      cases rest with
      | nil => simp [hm, ManagerPc.writes] at hw
      | cons p rest =>
        obtain rfl : dst = a := by simpa [hm, ManagerPc.writes] using hw
        rw [hmanager.2.1]
        exact hmanager.1
    | _ => simp [hm, ManagerPc.writes] at hw
  · rw [h.pointer_eq hr, ← h.content, ← ref_eq_of_ne (hapart hm hr).symm]

/-- When the update area has been filled from the reference area, the two are equal. -/
theorem Inv.areas_eq (h : Inv P st) (hcopy : ∀ src dst, runPieces P.after src dst = src)
    {dst src : Fin 2} (hm : st.manager = .finishing dst src []) (i j : Fin 2) :
    st.area i = st.area j := by
  have hmanager := h.manager
  simp only [ManagerOk, hm, runPieces_nil] at hmanager
  obtain ⟨hne, rfl, rfl, d, hd⟩ := hmanager
  rw [hcopy] at hd
  have hall : ∀ k, st.area k = st.area st.ref := by
    intro k
    obtain rfl | rfl : k = st.ref ∨ k = st.upd := by omega
    · rfl
    · exact hd
  rw [hall i, hall j]

/-- A worker moves the reference index only away from the update index. -/
theorem Inv.workerStep_ref (h : Inv P st) :
    (Handoff.workerStep P st).manager = st.manager ∧ (Handoff.workerStep P st).upd = st.upd ∧
      ((Handoff.workerStep P st).ref = st.ref ∨ (Handoff.workerStep P st).ref = st.upd + 1) := by
  have hworker := h.worker
  cases hw : st.worker with
  | storing upd =>
    simp only [WorkerOk, hw] at hworker
    simp [Handoff.workerStep, hw, hworker.2]
  | compared ref =>
    simp only [Handoff.workerStep, hw]
    split
    · exact ⟨rfl, rfl, .inl rfl⟩
    · split <;> exact ⟨rfl, rfl, .inl rfl⟩
  | _ => simp [Handoff.workerStep, hw]

/-- Indices that are apart are left alone by the worker. -/
theorem Inv.workerStep_ref_of_ne (h : Inv P st) (hne : st.ref ≠ st.upd) :
    (Handoff.workerStep P st).ref = st.ref := by
  rcases h.workerStep_ref.2.2 with href | href
  · exact href
  · rw [href]
    exact (ref_eq_of_ne hne.symm).symm

/-- With the indices apart, the reference area holds what was handed over last. -/
theorem Inv.area_ref (h : Inv P st) (hne : st.ref ≠ st.upd) : st.area st.ref = st.content := by
  rw [← h.content, ← ref_eq_of_ne hne.symm]

/-- An access by the manager that leads to a state before a hand-over leaves
the indices apart. -/
theorem St.Parted.managerStep (hp : st.Parted) (h : Inv P st)
    (hs : Handoff.managerStep P st = some st') : st'.Parted := by
  have hmanager := h.manager
  unfold St.Parted at hp
  cases hm : st.manager with
  | idle => simp [Handoff.managerStep, hm] at hs
  | opening c =>
    simp only [Handoff.managerStep, hm, Option.some.injEq] at hs
    subst hs
    exact fun _ => hp (by simp [hm, ManagerPc.Returned])
  | storing a rest publishes =>
    have hne := hp (by simp [hm, ManagerPc.Returned])
    match rest, publishes with
    | g :: rest, publishes =>
      simp only [Handoff.managerStep, hm, Option.some.injEq] at hs
      subst hs
      exact fun _ => hne
    | [], true =>
      simp only [Handoff.managerStep, hm, Option.some.injEq] at hs
      subst hs
      exact fun _ => hne
    | [], false =>
      simp only [Handoff.managerStep, hm, Option.some.injEq] at hs
      subst hs
      exact fun _ => hne
  | publishing ref =>
    simp only [Handoff.managerStep, hm, Option.some.injEq] at hs
    subst hs
    exact fun hret => hret.elim
  | polling =>
    simp only [Handoff.managerStep, hm, Option.some.injEq] at hs
    subst hs
    exact fun hret => hret.elim
  | polled ref =>
    simp only [Handoff.managerStep, hm] at hs
    split at hs
    · obtain rfl := Option.some.inj hs
      exact fun hret => hret.elim
    · rename_i hne
      simp only [ManagerOk, hm] at hmanager
      split at hs
      · obtain rfl := Option.some.inj hs
        exact fun _ => hmanager hne
      · obtain rfl := Option.some.inj hs
        exact fun hret => hret.elim
  | closing =>
    simp only [Handoff.managerStep, hm, Option.some.injEq] at hs
    subst hs
    exact fun hret => hret.elim
  | loading dst =>
    simp only [Handoff.managerStep, hm, Option.some.injEq] at hs
    subst hs
    exact fun hret => hret.elim
  | finishing dst src rest =>
    simp only [ManagerOk, hm] at hmanager
    match rest with
    | p :: rest =>
      simp only [Handoff.managerStep, hm, Option.some.injEq] at hs
      subst hs
      exact fun hret => hret.elim
    | [] =>
      simp only [Handoff.managerStep, hm, Option.some.injEq] at hs
      subst hs
      exact fun _ => hmanager.1

/-- Indices that are apart before a hand-over stay so. -/
theorem St.Parted.step (hp : st.Parted) (h : Inv P st) (i : Act α) (hs : Handoff.step P i st = some st') :
    st'.Parted := by
  cases i with
  | call c =>
    simp only [Handoff.step] at hs
    split at hs
    · rename_i hm
      obtain rfl := Option.some.inj hs
      exact fun _ => hp (by simp [hm, ManagerPc.Returned])
    · cases hs
  | manager => exact hp.managerStep h hs
  | worker =>
    obtain rfl := Option.some.inj hs
    obtain ⟨hm, hupd, href⟩ := h.workerStep_ref
    intro hret
    rw [hm] at hret
    have hne := hp hret
    rcases href with href | href
    · rw [href, hupd]
      exact hne
    · rw [href, hupd]
      omega
  | endPass =>
    simp only [Handoff.step] at hs
    split at hs
    · obtain rfl := Option.some.inj hs
      exact hp
    · cases hs

/-- Indices that are apart satisfy the condition on hand-overs. -/
theorem St.Parted.publishApart (hp : st.Parted) (i : Act α) : PublishApart i st := by
  unfold PublishApart
  split
  · rename_i hm
    exact hp (by simp [hm, ManagerPc.Returned])
  · trivial

/-- In a run whose hand-overs begin with the indices apart, the invariant holds. -/
theorem inv_of_reaches {ref upd : Fin 2} {area : Fin 2 → α}
    (hguard : ∀ i u, guard i u → PublishApart i u)
    (h : GuardedRun.Reaches (step P) guard (St.initial ref upd area) st) : Inv P st :=
  h.invariant (inv_initial P ref upd area)
    fun i u _ hinv hg hs => hinv.step i (hguard i u hg) hs

/-- In a run that starts with the indices apart, the invariant holds and the
indices are apart before every hand-over. -/
theorem inv_of_reaches_of_ne {ref upd : Fin 2} (hne : ref ≠ upd) {area : Fin 2 → α}
    (h : GuardedRun.Reaches (step P) guard (St.initial ref upd area) st) :
    Inv P st ∧ st.Parted := by
  refine @GuardedRun.Reaches.invariant _ _ _ _ (fun u => Inv P u ∧ u.Parted) _ _ h
    ⟨inv_initial P ref upd area, fun _ => hne⟩ fun i u v hu _ hs => ?_
  exact ⟨hu.1.step i (hu.2.publishApart i) hs, hu.2.step hu.1 i hs⟩

end Safety

section Calls

variable {P : Protocol α} {st st' st₀ : St α} {c : Call α}

/-- The pieces that follow a wait make the update area a copy of the other one. -/
def Protocol.Copies (P : Protocol α) : Prop := ∀ src dst, runPieces P.after src dst = src

/-- The step begins no call. -/
def NoCall (i : Act α) (_ : St α) : Prop := ∀ c, i ≠ .call c

/-- The step hands nothing over. -/
def NoPublish (i : Act α) (st : St α) : Prop := i = .manager → ∀ ref, st.manager ≠ .publishing ref

/-- How far a publishing call has come that began in `st₀`. -/
def InCall (P : Protocol α) (c : Call α) (st₀ st : St α) : Prop :=
  match st.manager with
  | .idle => st.content = runStores c.stores (st₀.area st₀.upd) ∧ st.ref ≠ st.upd ∧
      (P.Copies → ∀ i j, st.area i = st.area j)
  | .opening c' => c' = c ∧ st.area = st₀.area ∧ st.upd = st₀.upd
  | .storing _ _ publishes =>
    publishes = true ∧ st.written = runStores c.stores (st₀.area st₀.upd)
  | .publishing _ => st.written = runStores c.stores (st₀.area st₀.upd)
  | _ => st.content = runStores c.stores (st₀.area st₀.upd)

/-- An access by the worker leaves what the manager works on. -/
theorem workerStep_frame (P : Protocol α) (st : St α) :
    (workerStep P st).manager = st.manager ∧ (workerStep P st).upd = st.upd ∧
      (workerStep P st).area = st.area ∧ (workerStep P st).written = st.written ∧
      (workerStep P st).content = st.content := by
  cases hw : st.worker with
  | compared ref =>
    simp only [workerStep, hw]
    split
    · exact ⟨rfl, rfl, rfl, rfl, rfl⟩
    · split <;> exact ⟨rfl, rfl, rfl, rfl, rfl⟩
  | _ => simp [workerStep, hw]

/-- The manager goes on with the call. -/
theorem InCall.managerStep (hc : InCall P c st₀ st) (h : Inv P st)
    (hpublishes : c.publishes = true) (hs : managerStep P st = some st') :
    InCall P c st₀ st' := by
  unfold InCall at hc
  cases hm : st.manager with
  | idle => simp [Handoff.managerStep, hm] at hs
  | opening c' =>
    simp only [hm] at hc
    obtain ⟨rfl, harea, hupd⟩ := hc
    simp only [Handoff.managerStep, hm, Option.some.injEq] at hs
    subst hs
    exact ⟨hpublishes, by rw [harea, hupd]⟩
  | storing a rest publishes =>
    simp only [hm] at hc
    obtain ⟨rfl, hwritten⟩ := hc
    cases rest with
    | cons g rest =>
      simp only [Handoff.managerStep, hm, Option.some.injEq] at hs
      subst hs
      exact ⟨rfl, hwritten⟩
    | nil =>
      simp only [Handoff.managerStep, hm, Option.some.injEq] at hs
      subst hs
      exact hwritten
  | publishing ref =>
    simp only [hm] at hc
    simp only [Handoff.managerStep, hm, Option.some.injEq] at hs
    subst hs
    exact hc
  | polling =>
    simp only [hm] at hc
    simp only [Handoff.managerStep, hm, Option.some.injEq] at hs
    subst hs
    exact hc
  | polled ref =>
    simp only [hm] at hc
    simp only [Handoff.managerStep, hm] at hs
    have hmanager := h.manager
    simp only [ManagerOk, hm] at hmanager
    split at hs
    · obtain rfl := Option.some.inj hs
      exact hc
    · rename_i hne
      split at hs
      · rename_i hafter
        obtain rfl := Option.some.inj hs
        refine ⟨hc, hmanager hne, fun hcopy i j => ?_⟩
        have hany := hcopy (st.area j) (st.area i)
        rwa [List.isEmpty_iff.mp hafter, runPieces_nil] at hany
      · obtain rfl := Option.some.inj hs
        exact hc
  | closing =>
    simp only [hm] at hc
    simp only [Handoff.managerStep, hm, Option.some.injEq] at hs
    subst hs
    exact hc
  | loading dst =>
    simp only [hm] at hc
    simp only [Handoff.managerStep, hm, Option.some.injEq] at hs
    subst hs
    exact hc
  | finishing dst src rest =>
    simp only [hm] at hc
    cases rest with
    | cons p rest =>
      simp only [Handoff.managerStep, hm, Option.some.injEq] at hs
      subst hs
      exact hc
    | nil =>
      simp only [Handoff.managerStep, hm, Option.some.injEq] at hs
      subst hs
      have hmanager := h.manager
      simp only [ManagerOk, hm] at hmanager
      exact ⟨hc, hmanager.1, fun hcopy i j => h.areas_eq hcopy hm i j⟩

/-- A step that begins no call goes on with the call. -/
theorem InCall.step (hc : InCall P c st₀ st) (h : Inv P st) (hpublishes : c.publishes = true)
    {i : Act α} (hi : NoCall i st) (hs : step P i st = some st') : InCall P c st₀ st' := by
  cases i with
  | call c' => exact absurd rfl (hi c')
  | manager => exact hc.managerStep h hpublishes hs
  | worker =>
    obtain rfl := Option.some.inj hs
    obtain ⟨hm, hupd, harea, hwritten, hcontent⟩ := workerStep_frame P st
    unfold InCall at hc ⊢
    simp only [hm, hupd, harea, hwritten, hcontent]
    cases hpc : st.manager with
    | idle =>
      simp only [hpc] at hc ⊢
      exact ⟨hc.1, by rw [h.workerStep_ref_of_ne hc.2.1]; exact hc.2.1, hc.2.2⟩
    | _ => simpa only [hpc] using hc
  | endPass =>
    simp only [Handoff.step] at hs
    split at hs
    · obtain rfl := Option.some.inj hs
      exact hc
    · cases hs

/-- What stays as it is from the return of a call to the next hand-over. -/
structure Quiet (st st' : St α) : Prop where
  returned : st'.manager.Returned
  content : st'.content = st.content
  ref : st'.ref = st.ref
  upd : st'.upd = st.upd

/-- A step that hands nothing over leaves it. -/
theorem Quiet.step (hq : Quiet st₀ st) (h : Inv P st) (hne : st₀.ref ≠ st₀.upd) {i : Act α}
    (hi : NoPublish i st) (hs : step P i st = some st') : Quiet st₀ st' := by
  have hm := hq.returned
  cases i with
  | call c =>
    simp only [Handoff.step] at hs
    split at hs
    · obtain rfl := Option.some.inj hs
      exact ⟨trivial, hq.content, hq.ref, hq.upd⟩
    · cases hs
  | manager =>
    simp only [Handoff.step, managerStep] at hs
    cases hpc : st.manager with
    | idle => simp [hpc] at hs
    | opening c =>
      simp only [hpc, Option.some.injEq] at hs
      subst hs
      exact ⟨trivial, hq.content, hq.ref, hq.upd⟩
    | storing a rest publishes =>
      match rest, publishes with
      | g :: rest, publishes | [], true | [], false =>
        simp only [hpc, Option.some.injEq] at hs
        subst hs
        exact ⟨trivial, hq.content, hq.ref, hq.upd⟩
    | publishing ref => exact absurd hpc (hi rfl ref)
    | _ => simp [hpc, ManagerPc.Returned] at hm
  | worker =>
    obtain rfl := Option.some.inj hs
    obtain ⟨hpc, hupd, -, -, hcontent⟩ := workerStep_frame P st
    have hapart : st.ref ≠ st.upd := by rw [hq.ref, hq.upd]; exact hne
    exact ⟨by rwa [hpc], hcontent.trans hq.content,
      (h.workerStep_ref_of_ne hapart).trans hq.ref, hupd.trans hq.upd⟩
  | endPass =>
    simp only [Handoff.step] at hs
    split at hs
    · obtain rfl := Option.some.inj hs
      exact ⟨hm, hq.content, hq.ref, hq.upd⟩
    · cases hs

/-- A run from a state with the indices apart meets the condition on hand-overs. -/
theorem reaches_publishApart {guard : Act α → St α → Prop} (h₀ : Inv P st₀) (hp₀ : st₀.Parted)
    (h : GuardedRun.Reaches (step P) guard st₀ st) :
    GuardedRun.Reaches (step P) (fun i u => guard i u ∧ PublishApart i u) st₀ st ∧
      Inv P st ∧ st.Parted := by
  induction h with
  | refl => exact ⟨.refl, h₀, hp₀⟩
  | tail _ hlast ih =>
    obtain ⟨hrun, hinv, hparted⟩ := ih
    obtain ⟨i, hguard, hs⟩ := hlast
    exact ⟨hrun.tail ⟨i, ⟨hguard, hparted.publishApart i⟩, hs⟩,
      hinv.step i (hparted.publishApart i) hs, hparted.step hinv i hs⟩

/-- A publishing call goes on until the next call begins. -/
theorem inCall_of_reaches {st₁ : St α} (h₀ : Inv P st₀) (hpublishes : c.publishes = true)
    (hcall : step P (.call c) st₀ = some st₁)
    (hrun : GuardedRun.Reaches (step P) (fun i u => NoCall i u ∧ PublishApart i u) st₁ st) :
    Inv P st ∧ InCall P c st₀ st := by
  have h₁ : Inv P st₁ := h₀.step (.call c) trivial hcall
  have hc₁ : InCall P c st₀ st₁ := by
    simp only [step] at hcall
    split at hcall
    · obtain rfl := Option.some.inj hcall
      exact ⟨rfl, rfl, rfl⟩
    · cases hcall
  refine @GuardedRun.Reaches.invariant _ _ _ _ (fun u => Inv P u ∧ InCall P c st₀ u) _ _ hrun
    ⟨h₁, hc₁⟩ fun i u v hu hguard hs => ?_
  exact ⟨hu.1.step i hguard.2 hs, hu.2.step hu.1 hpublishes hguard.1 hs⟩

/-- Until the next hand-over everything stays. -/
theorem quiet_of_reaches {st₂ : St α} (h₂ : Inv P st₂) (hm : st₂.manager.Returned)
    (hne : st₂.ref ≠ st₂.upd)
    (hrun : GuardedRun.Reaches (step P) (fun i u => NoPublish i u ∧ PublishApart i u) st₂ st) :
    Inv P st ∧ Quiet st₂ st := by
  refine @GuardedRun.Reaches.invariant _ _ _ _ (fun u => Inv P u ∧ Quiet st₂ u) _ _ hrun
    ⟨h₂, hm, rfl, rfl, rfl⟩ fun i u v hu hguard hs => ?_
  exact ⟨hu.1.step i hguard.2 hs, hu.2.step hu.1 hne hguard.1 hs⟩

/-- Once a publishing call has returned, the reference area holds what its
stores have made. Until the next hand-over the worker reads that area. -/
theorem reads_last_call {st₁ st₂ : St α} (h₀ : Inv P st₀) (hpublishes : c.publishes = true)
    (hcall : step P (.call c) st₀ = some st₁)
    (hrun : GuardedRun.Reaches (step P) (fun i u => NoCall i u ∧ PublishApart i u) st₁ st₂)
    (hidle : st₂.manager = .idle) :
    st₂.ref ≠ st₂.upd ∧ st₂.area st₂.ref = runStores c.stores (st₀.area st₀.upd) ∧
      ∀ st, GuardedRun.Reaches (step P) (fun i u => NoPublish i u ∧ PublishApart i u) st₂ st →
        st.worker = .reading → st.pointer = st₂.ref ∧
          st.area st.pointer = runStores c.stores (st₀.area st₀.upd) := by
  obtain ⟨h₂, hc₂⟩ := inCall_of_reaches h₀ hpublishes hcall hrun
  simp only [InCall, hidle] at hc₂
  obtain ⟨hcontent, hne, -⟩ := hc₂
  refine ⟨hne, (h₂.area_ref hne).trans hcontent, fun st hlater hr => ?_⟩
  obtain ⟨h, hquiet⟩ := quiet_of_reaches h₂ (by simp [hidle, ManagerPc.Returned]) hne hlater
  have hapart : st.ref ≠ st.upd := by rw [hquiet.ref, hquiet.upd]; exact hne
  refine ⟨(h.pointer_eq hr).trans hquiet.ref, ?_⟩
  rw [h.pointer_eq hr, h.area_ref hapart, hquiet.content, hcontent]

end Calls

end Handoff
