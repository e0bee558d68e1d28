import Mathlib.Data.List.Nodup
import Spp.Lib.GuardedRun
import Spp.Vf.CommandProc
import Spp.Vf.PortAbility

/-!
# Publishing abilities together with a component

`flush_component` publishes the abilities of a component's ports and then the
component itself. The worker that takes the component over takes all pending
abilities with it. An update that fails has published abilities that no worker
was asked to take, and they are still pending when the next flush begins.
-/

namespace Spp.Vf

open CLib GuardedRun

section Model

/-- The double buffers whose `ref_index` and `upd_index` an update function
moves: `g_mng_infos` of the classifiers and the paths of the other components. -/
inductive UpdateTarget
  | classifier (id : ℕ)
  | path (id : ℕ)
  deriving DecidableEq

/-- The buffer that `flush_component` updates for a component. -/
def updateTarget (M : SppModule) (s : MngData) (id : ℕ) : UpdateTarget :=
  if M = .vf ∧ (s.component id).type = .classifierMac then .classifier id else .path id

/-- The indices of a double buffer. -/
structure AreaIndex where
  refIndex : Fin 2
  updIndex : Fin 2

/-- Where the manager is in `flush_component`, with the flagged components that
are left. -/
inductive FlushPc
  | idle
  /-- At the head of the loop. -/
  | loop (rest : List ℕ)
  /-- In `spp_port_ability_update`, with the ports that are left. -/
  | setting (id : ℕ) (ports : List (PortRef × PortRxtx)) (rest : List ℕ)
  /-- The update function has built its area; about to read `ref_index`. -/
  | publish (id : ℕ) (rest : List ℕ)
  /-- About to store the value read to `upd_index`. -/
  | store (id : ℕ) (ref : Fin 2) (rest : List ℕ)
  /-- Waiting for the worker. -/
  | wait (id : ℕ) (rest : List ℕ)
  /-- The update function has returned `SPP_RET_OK`. -/
  | updated (id : ℕ) (rest : List ℕ)
  deriving DecidableEq

/-- The tables and devices of the flush that is running, the published
abilities, the indices of every buffer, the buffers whose worker has called
`spp_port_ability_change_index` and not moved its index yet, and the manager. -/
structure FlushWorld where
  s : MngData
  dev : Devices
  table : PortAbilityTable
  index : UpdateTarget → AreaIndex
  swapping : UpdateTarget → Bool
  manager : FlushPc

/-- A call of `flush_component` with any tables, a step of the manager, and the
two steps of a worker that takes an update over. -/
inductive FlushEvent
  | flush (s : MngData) (dev : Devices)
  | manager
  | take (target : UpdateTarget)
  | swap (target : UpdateTarget)

/-- The state after `spp_port_ability_init`, `spp_forward_init` and
`spp_classifier_mac_init`; the last leaves both indices zero. -/
def FlushWorld.initial (s : MngData) (dev : Devices) : FlushWorld :=
  { s := s
    dev := dev
    table := sppPortAbilityInit
    index := fun target =>
      match target with
      | .classifier _ => ⟨0, 0⟩
      | .path _ => ⟨0, 1⟩
    swapping := fun _ => false
    manager := .idle }

variable (L : Limits) (M : SppModule)

/-- A step of `flush_component`. -/
def flushManagerStep (w : FlushWorld) : Option FlushWorld :=
  match w.manager with
  | .idle => none
  | .loop [] => some { w with manager := .idle }
  | .loop (id :: rest) =>
    some { w with manager := .setting id (w.s.component id).portDirections rest }
  | .setting id (p :: todo) rest =>
    (portAbilitySetAbility L w.table (w.s.iface p.1) p.2).map fun table =>
      { w with table := table, manager := .setting id todo rest }
  | .setting id [] rest =>
    if componentUpdateRet M w.dev w.s id = .ok then some { w with manager := .publish id rest }
    else some { w with manager := .idle }
  | .publish id rest =>
    some { w with manager := .store id (w.index (updateTarget M w.s id)).refIndex rest }
  | .store id ref rest =>
    let target := updateTarget M w.s id
    some { w with
      index := Function.update w.index target { w.index target with updIndex := ref }
      manager := .wait id rest }
  | .wait id rest =>
    let index := w.index (updateTarget M w.s id)
    if index.refIndex = index.updIndex then some w
    else some { w with manager := .updated id rest }
  | .updated _ rest => some { w with manager := .loop rest }

/-- A step of the manager or of a worker; `none` if it is not its turn. -/
def flushStep (e : FlushEvent) (w : FlushWorld) : Option FlushWorld :=
  match e with
  | .flush s dev =>
    match w.manager with
    | .idle =>
      some { w with
        s := s, dev := dev, manager := .loop ((List.range L.maxLcore).filter s.changeComponent) }
    | _ => none
  | .manager => flushManagerStep L M w
  | .take target =>
    if w.swapping target = false ∧ (w.index target).refIndex = (w.index target).updIndex then
      some { w with
        table := changeIndexRef w.table, swapping := Function.update w.swapping target true }
    else none
  | .swap target =>
    if w.swapping target = true then
      some { w with
        index := Function.update w.index target
          { w.index target with refIndex := (w.index target).updIndex + 1 }
        swapping := Function.update w.swapping target false }
    else none

end Model

section Order

variable (L : Limits) (M : SppModule)

/-- The ports of a component have different devices in each direction. -/
def DistinctDevices (s : MngData) (id : ℕ) : Prop :=
  ((s.component id).portDirections.map fun p => (portMngIndex L (s.iface p.1), p.2)).Nodup

/-- What a step of `flush_component` has to meet. -/
structure FlushInOrder (e : FlushEvent) (w : FlushWorld) : Prop where
  /-- The component that is updated next has different devices. -/
  distinct : e = .manager → ∀ id rest, w.manager = .loop (id :: rest) → DistinctDevices L w.s id
  /-- A worker has called `spp_port_ability_change_index` since the abilities
  of this port and direction were set last. -/
  taken : e = .manager → ∀ id p todo rest, w.manager = .setting id (p :: todo) rest →
    ∀ portId, portMngIndex L (w.s.iface p.1) = some portId → portId ∉ w.table.pending p.2
  /-- The indices differ when the update function reads `ref_index`. -/
  handover : e = .manager → ∀ id rest, w.manager = .publish id rest →
    (w.index (updateTarget M w.s id)).refIndex ≠ (w.index (updateTarget M w.s id)).updIndex

/-- The abilities of a port and direction are set on the side that no worker
reads. -/
def SetsUpdateSide (w : FlushWorld) : Prop :=
  ∀ id p todo rest, w.manager = .setting id (p :: todo) rest →
    ∀ portId, portMngIndex L (w.s.iface p.1) = some portId →
      (w.table.mng portId p.2).updIndex ≠ (w.table.mng portId p.2).refIndex

/-- The lists of pending devices hold no device twice and are not outgrown. -/
def PendingOk (w : FlushWorld) : Prop :=
  ∀ d : PortRxtx, d = .rx ∨ d = .tx →
    (w.table.pending d).Nodup ∧ (w.table.pending d).length ≤ L.maxEthports

/-- After an update that has succeeded the workers read the abilities that are
configured for the ports of the component. -/
def UpdatedPublished (w : FlushWorld) : Prop :=
  ∀ id rest, w.manager = .updated id rest → ∀ p ∈ (w.s.component id).portDirections,
    ∀ portId, portMngIndex L (w.s.iface p.1) = some portId →
      sppPortAbilityGetInfo w.table portId p.2 = (w.s.iface p.1).configured p.2

end Order

section Invariant

variable {L : Limits} {M : SppModule} {w w' : FlushWorld}

variable (L) in
/-- The configured abilities of a port are on the side that is, or is about to
become, the reference side. -/
def FlushWorld.Stored (w : FlushWorld) (p : PortRef × PortRxtx) : Prop :=
  ∀ portId, portMngIndex L (w.s.iface p.1) = some portId →
    (w.table.mng portId p.2).ability ((w.table.mng portId p.2).updIndex + 1) =
      (w.s.iface p.1).configured p.2

variable (L) in
/-- The abilities of a port have been taken over. -/
def FlushWorld.Taken (w : FlushWorld) (p : PortRef × PortRxtx) : Prop :=
  ∀ portId, portMngIndex L (w.s.iface p.1) = some portId → portId ∉ w.table.pending p.2

variable (L M) in
/-- What the manager has done for the component it is at. -/
def FlushWorld.ManagerOk (w : FlushWorld) : Prop :=
  match w.manager with
  | .idle | .loop _ => True
  | .setting id todo _ => DistinctDevices L w.s id ∧
      ∃ done, (w.s.component id).portDirections = done ++ todo ∧ ∀ p ∈ done, w.Stored L p
  | .publish id _ => ∀ p ∈ (w.s.component id).portDirections, w.Stored L p
  | .store id ref _ => (∀ p ∈ (w.s.component id).portDirections, w.Stored L p) ∧
      (w.index (updateTarget M w.s id)).refIndex = ref ∧
      (w.index (updateTarget M w.s id)).updIndex ≠ ref
  | .wait id _ => ∀ p ∈ (w.s.component id).portDirections, w.Stored L p ∧
      (w.swapping (updateTarget M w.s id) = false ∧
        (w.index (updateTarget M w.s id)).refIndex = (w.index (updateTarget M w.s id)).updIndex ∨
          w.Taken L p)
  | .updated id _ => ∀ p ∈ (w.s.component id).portDirections, w.Stored L p ∧ w.Taken L p

variable (L M) in
/-- The invariant of the flush: the update side of a device is the reference
side while it is pending, and the other one otherwise. -/
structure FlushInv (w : FlushWorld) : Prop where
  nodup : ∀ d : PortRxtx, d = .rx ∨ d = .tx → (w.table.pending d).Nodup
  lt : ∀ d : PortRxtx, d = .rx ∨ d = .tx → ∀ p ∈ w.table.pending d, p < L.maxEthports
  index_eq : ∀ p (d : PortRxtx), d = .rx ∨ d = .tx →
    ((w.table.mng p d).updIndex = (w.table.mng p d).refIndex ↔ p ∈ w.table.pending d)
  swapping : ∀ target, w.swapping target = true →
    (w.index target).refIndex = (w.index target).updIndex
  manager : w.ManagerOk L M

/-- Every port of a component is listed with the direction rx or tx. -/
theorem direction_of_mem {component : ComponentInfo} {p : PortRef × PortRxtx}
    (h : p ∈ component.portDirections) : p.2 = .rx ∨ p.2 = .tx := by
  rcases List.mem_append.mp h with h | h
  · obtain ⟨port, -, rfl⟩ := List.mem_map.mp h
    exact .inl rfl
  · obtain ⟨port, -, rfl⟩ := List.mem_map.mp h
    exact .inr rfl

/-- The lists of different devices below the limit are not outgrown. -/
theorem FlushInv.pendingOk (h : FlushInv L M w) : PendingOk L w := by
  intro d hd
  refine ⟨h.nodup d hd, ?_⟩
  have hsub : w.table.pending d ⊆ List.range L.maxEthports := by
    intro p hp
    exact List.mem_range.mpr (h.lt d hd p hp)
  have hle := (List.subperm_of_subset (h.nodup d hd) hsub).length_le
  rwa [List.length_range] at hle

/-- Where the update and the reference side differ they are neighbours. -/
theorem updIndex_add_one {ref upd : Fin 2} (h : upd ≠ ref) : upd + 1 = ref := by
  omega

/-- Abilities that are stored and taken over are the ones the workers read. -/
theorem FlushInv.updatedPublished (h : FlushInv L M w) : UpdatedPublished L w := by
  intro id rest hpc p hp portId hindex
  have hmanager := h.manager
  simp only [FlushWorld.ManagerOk, hpc] at hmanager
  obtain ⟨hstored, htaken⟩ := hmanager p hp
  have hne : (w.table.mng portId p.2).updIndex ≠ (w.table.mng portId p.2).refIndex := by
    intro heq
    exact htaken portId hindex ((h.index_eq portId p.2 (direction_of_mem hp)).mp heq)
  unfold sppPortAbilityGetInfo
  rw [← hstored portId hindex, updIndex_add_one hne]

/-- A port that is not pending is set on the side that no worker reads. -/
theorem FlushInv.setsUpdateSide (h : FlushInv L M w) (horder : FlushInOrder L M .manager w) :
    SetsUpdateSide L w := by
  intro id p todo rest hpc portId hindex heq
  have hmanager := h.manager
  simp only [FlushWorld.ManagerOk, hpc] at hmanager
  obtain ⟨-, done, hports, -⟩ := hmanager
  have hp : p ∈ (w.s.component id).portDirections := by
    rw [hports]
    exact List.mem_append_right done List.mem_cons_self
  exact horder.taken rfl id p todo rest hpc portId hindex
    ((h.index_eq portId p.2 (direction_of_mem hp)).mp heq)

/-- The manager's obligations speak of the tables, the buffer of its component
and the pending lists only. -/
theorem FlushWorld.ManagerOk.congr (h : w.ManagerOk L M) (hs : w'.s = w.s)
    (hmanager : w'.manager = w.manager)
    (hstored : ∀ p : PortRef × PortRxtx, p.2 = .rx ∨ p.2 = .tx → w.Stored L p → w'.Stored L p)
    (htaken : ∀ p : PortRef × PortRxtx, w.Taken L p → w'.Taken L p)
    (hstore : ∀ target ref, (w.index target).refIndex = ref → (w.index target).updIndex ≠ ref →
      (w'.index target).refIndex = ref ∧ (w'.index target).updIndex ≠ ref)
    (hwait : ∀ target, w.swapping target = false →
      (w.index target).refIndex = (w.index target).updIndex →
      (w'.swapping target = false ∧
        (w'.index target).refIndex = (w'.index target).updIndex ∨ ∀ p, w'.Taken L p)) :
    w'.ManagerOk L M := by
  unfold FlushWorld.ManagerOk at h ⊢
  rw [hmanager, hs]
  have hall : ∀ id, ∀ p ∈ (w.s.component id).portDirections, w.Stored L p → w'.Stored L p :=
    fun id p hp => hstored p (direction_of_mem hp)
  split at h
  · trivial
  · trivial
  · rename_i id todo rest hpc
    obtain ⟨hdistinct, done, hports, hdone⟩ := h
    refine ⟨hdistinct, done, hports, fun p hp => hall id p ?_ (hdone p hp)⟩
    rw [hports]
    exact List.mem_append_left todo hp
  · exact fun p hp => hall _ p hp (h p hp)
  · obtain ⟨hall', href, hupd⟩ := h
    exact ⟨fun p hp => hall _ p hp (hall' p hp), hstore _ _ href hupd⟩
  · intro p hp
    obtain ⟨hst, hcase⟩ := h p hp
    refine ⟨hall _ p hp hst, ?_⟩
    rcases hcase with ⟨hswap, heq⟩ | htk
    · rcases hwait _ hswap heq with hsame | hdone
      · exact .inl hsame
      · exact .inr (hdone p)
    · exact .inr (htaken p htk)
  · intro p hp
    obtain ⟨hst, htk⟩ := h p hp
    exact ⟨hall _ p hp hst, htaken p htk⟩

/-- A worker that takes all pending abilities keeps the invariant. -/
theorem FlushInv.take (h : FlushInv L M w) {target : UpdateTarget}
    (hstep : flushStep L M (.take target) w = some w') : FlushInv L M w' := by
  simp only [flushStep] at hstep
  split at hstep
  · rename_i hidle
    cases hstep
    have hmng := fun p (d : PortRxtx) (hd : d = .rx ∨ d = .tx) => changeIndexRef_mng w.table p hd
    constructor
    · intro d _
      simp
    · intro d _ p hp
      simp at hp
    · intro p d hd
      dsimp only
      rw [hmng p d hd]
      simp only [changeIndexRef_pending, List.not_mem_nil, iff_false]
      split
      · dsimp only
        omega
      · rename_i hnot
        exact fun heq => hnot ((h.index_eq p d hd).mp heq)
    · intro target' hswap
      dsimp only at hswap ⊢
      by_cases ht : target' = target
      · subst ht
        exact hidle.2
      · rw [Function.update_of_ne ht] at hswap
        exact h.swapping target' hswap
    · refine h.manager.congr rfl rfl ?_ ?_ ?_ ?_
      · intro p hd hst portId hindex
        dsimp only at hindex ⊢
        rw [hmng portId p.2 hd]
        split <;> exact hst portId hindex
      · intro p _ portId _
        simp
      · exact fun target ref href hupd => ⟨href, hupd⟩
      · intro target' _ _
        refine .inr fun p portId _ => ?_
        simp
  · cases hstep

/-- A worker that moves its own index keeps the invariant. -/
theorem FlushInv.swap (h : FlushInv L M w) {target : UpdateTarget}
    (hstep : flushStep L M (.swap target) w = some w') : FlushInv L M w' := by
  simp only [flushStep] at hstep
  split at hstep
  · rename_i hbusy
    cases hstep
    have hsame := h.swapping target hbusy
    refine ⟨h.nodup, h.lt, h.index_eq, ?_, ?_⟩
    · intro target' hswap
      dsimp only at hswap ⊢
      by_cases ht : target' = target
      · subst ht
        simp at hswap
      · rw [Function.update_of_ne ht] at hswap ⊢
        exact h.swapping target' hswap
    · refine h.manager.congr rfl rfl (fun p _ hst => hst) (fun p htk => htk) ?_ ?_
      · intro target' ref href hupd
        have ht : target' ≠ target := by
          rintro rfl
          exact hupd (hsame.symm.trans href)
        dsimp only
        rw [Function.update_of_ne ht]
        exact ⟨href, hupd⟩
      · intro target' hswap heq
        have ht : target' ≠ target := by
          rintro rfl
          rw [hbusy] at hswap
          cases hswap
        dsimp only
        rw [Function.update_of_ne ht, Function.update_of_ne ht]
        exact .inl ⟨hswap, heq⟩
  · cases hstep

/-- A call of `flush_component` begins without any obligation. -/
theorem FlushInv.flush (h : FlushInv L M w) {s : MngData} {dev : Devices}
    (hstep : flushStep L M (.flush s dev) w = some w') : FlushInv L M w' := by
  simp only [flushStep] at hstep
  split at hstep
  · cases hstep
    exact ⟨h.nodup, h.lt, h.index_eq, h.swapping, trivial⟩
  · cases hstep

/-- The abilities of one port are set in order. -/
theorem FlushInv.set (h : FlushInv L M w) {id : ℕ} {p : PortRef × PortRxtx}
    {todo : List (PortRef × PortRxtx)} {rest : List ℕ}
    (hpc : w.manager = .setting id (p :: todo) rest) (horder : FlushInOrder L M .manager w)
    {table : PortAbilityTable}
    (hset : portAbilitySetAbility L w.table (w.s.iface p.1) p.2 = some table) :
    FlushInv L M { w with table := table, manager := .setting id todo rest } := by
  obtain ⟨portId, hlt, hindex, hpending, hmng⟩ := portAbilitySetAbility_eq_some hset
  have hfresh := horder.taken rfl id p todo rest hpc portId hindex
  have hmanager := h.manager
  simp only [FlushWorld.ManagerOk, hpc] at hmanager
  obtain ⟨hdistinct, done, hports, hdone⟩ := hmanager
  have hp : p ∈ (w.s.component id).portDirections := by
    rw [hports]
    exact List.mem_append_right done List.mem_cons_self
  have hlist : ∀ d, table.pending d =
      if d = p.2 then w.table.pending p.2 ++ [portId] else w.table.pending d := by
    intro d
    rw [hpending]
    by_cases hd : d = p.2
    · subst hd
      simp
    · simp [hd]
  constructor
  · intro d hd
    dsimp only
    rw [hlist d]
    split
    · rw [List.nodup_append]
      refine ⟨h.nodup p.2 (direction_of_mem hp), List.nodup_singleton portId, ?_⟩
      rintro a ha b hb rfl
      rw [List.mem_singleton.mp hb] at ha
      exact hfresh ha
    · exact h.nodup d hd
  · intro d hd q hq
    dsimp only at hq
    rw [hlist d] at hq
    split at hq
    · rcases List.mem_append.mp hq with hq | hq
      · exact h.lt p.2 (direction_of_mem hp) q hq
      · rw [List.mem_singleton.mp hq]
        exact hlt
    · exact h.lt d hd q hq
  · intro q d hd
    dsimp only
    rw [hmng q d, hlist d]
    by_cases hqd : q = portId ∧ d = p.2
    · obtain ⟨rfl, rfl⟩ := hqd
      simp
    · rw [if_neg hqd, h.index_eq q d hd]
      split
      · rename_i hdir
        subst hdir
        have hq : q ≠ portId := fun hq => hqd ⟨hq, rfl⟩
        simp [hq]
      · rfl
  · exact h.swapping
  · refine ⟨hdistinct, done ++ [p], by simp [hports], fun q hq portId' hindex' => ?_⟩
    dsimp only at hindex' ⊢
    rw [hmng portId' q.2]
    rcases List.mem_append.mp hq with hq | hq
    · -- A port that was set before has another device or the other direction.
      have hne : ¬ (portId' = portId ∧ q.2 = p.2) := by
        rintro ⟨rfl, hdir⟩
        unfold DistinctDevices at hdistinct
        rw [hports, List.map_append, List.nodup_append] at hdistinct
        refine hdistinct.2.2 _ (List.mem_map_of_mem hq) _ (List.mem_map_of_mem List.mem_cons_self) ?_
        rw [hindex', hindex, hdir]
      rw [if_neg hne]
      exact hdone q hq portId' hindex'
    · obtain rfl := List.mem_singleton.mp hq
      rw [hindex] at hindex'
      obtain rfl := Option.some.inj hindex'
      have hne : (w.table.mng portId q.2).updIndex ≠ (w.table.mng portId q.2).refIndex := by
        intro heq
        exact hfresh ((h.index_eq portId q.2 (direction_of_mem hp)).mp heq)
      have hside : (w.table.mng portId q.2).refIndex + 1 = (w.table.mng portId q.2).updIndex :=
        updIndex_add_one hne.symm
      simp [hside]

/-- A step of the manager in order keeps the invariant. -/
theorem FlushInv.managerStep (h : FlushInv L M w) (horder : FlushInOrder L M .manager w)
    (hstep : flushManagerStep L M w = some w') : FlushInv L M w' := by
  have hmanager := h.manager
  unfold flushManagerStep at hstep
  unfold FlushWorld.ManagerOk at hmanager
  split at hstep
  · cases hstep
  · cases hstep
    exact ⟨h.nodup, h.lt, h.index_eq, h.swapping, trivial⟩
  · rename_i id rest hpc
    cases hstep
    refine ⟨h.nodup, h.lt, h.index_eq, h.swapping, ?_⟩
    exact ⟨horder.distinct rfl id rest hpc, [], rfl, fun p hp => absurd hp List.not_mem_nil⟩
  · rename_i id p todo rest hpc
    obtain ⟨table, hset, rfl⟩ := Option.map_eq_some_iff.mp hstep
    exact h.set hpc horder hset
  · rename_i id rest hpc
    rw [hpc] at hmanager
    obtain ⟨-, done, hports, hdone⟩ := hmanager
    split at hstep
    · cases hstep
      refine ⟨h.nodup, h.lt, h.index_eq, h.swapping, fun p hp => hdone p ?_⟩
      rwa [hports, List.append_nil] at hp
    · cases hstep
      exact ⟨h.nodup, h.lt, h.index_eq, h.swapping, trivial⟩
  · rename_i id rest hpc
    rw [hpc] at hmanager
    cases hstep
    refine ⟨h.nodup, h.lt, h.index_eq, h.swapping, hmanager, rfl, ?_⟩
    exact (horder.handover rfl id rest hpc).symm
  · rename_i id ref rest hpc
    rw [hpc] at hmanager
    obtain ⟨hstored, href, hupd⟩ := hmanager
    cases hstep
    refine ⟨h.nodup, h.lt, h.index_eq, ?_, fun p hp => ⟨hstored p hp, .inl ?_⟩⟩
    · intro target hswap
      dsimp only at hswap ⊢
      by_cases ht : target = updateTarget M w.s id
      · subst ht
        rw [← href] at hupd
        exact absurd (h.swapping _ hswap).symm hupd
      · rw [Function.update_of_ne ht]
        exact h.swapping target hswap
    · dsimp only
      rw [Function.update_self]
      refine ⟨?_, href⟩
      by_contra hswap
      rw [Bool.not_eq_false] at hswap
      rw [← href] at hupd
      exact hupd (h.swapping _ hswap).symm
  · rename_i id rest hpc
    rw [hpc] at hmanager
    dsimp only at hstep
    split at hstep
    · cases hstep
      exact h
    · rename_i hne
      cases hstep
      refine ⟨h.nodup, h.lt, h.index_eq, h.swapping, fun p hp => ?_⟩
      obtain ⟨hst, ⟨-, heq⟩ | htk⟩ := hmanager p hp
      · exact absurd heq hne
      · exact ⟨hst, htk⟩
  · cases hstep
    exact ⟨h.nodup, h.lt, h.index_eq, h.swapping, trivial⟩

/-- Every step in order keeps the invariant. -/
theorem FlushInv.step (h : FlushInv L M w) {e : FlushEvent} (horder : FlushInOrder L M e w)
    (hstep : flushStep L M e w = some w') : FlushInv L M w' := by
  cases e with
  | flush s dev => exact h.flush hstep
  | manager => exact h.managerStep horder hstep
  | take target => exact h.take hstep
  | swap target => exact h.swap hstep

/-- The invariant holds after the initialisation. -/
theorem flushInv_initial (s : MngData) (dev : Devices) :
    FlushInv L M (FlushWorld.initial s dev) := by
  constructor
  · intro d _
    exact List.nodup_nil
  · intro d _ p hp
    cases hp
  · intro p d _
    simp [FlushWorld.initial, sppPortAbilityInit]
  · intro target hswap
    cases hswap
  · trivial

end Invariant

section Run

variable {L : Limits} {M : SppModule} {w : FlushWorld}

/-- A test that decides whether a step is in order. -/
def flushInOrderTest (L : Limits) (M : SppModule) (e : FlushEvent) (w : FlushWorld) : Bool :=
  match e, w.manager with
  | .manager, .loop (id :: _) =>
    ((w.s.component id).portDirections.map fun p => (portMngIndex L (w.s.iface p.1), p.2)).Nodup
  | .manager, .setting _ (p :: _) _ =>
    (portMngIndex L (w.s.iface p.1)).all fun portId => portId ∉ w.table.pending p.2
  | .manager, .publish id _ =>
    (w.index (updateTarget M w.s id)).refIndex ≠ (w.index (updateTarget M w.s id)).updIndex
  | _, _ => true

theorem flushInOrder_of_test {e : FlushEvent} (h : flushInOrderTest L M e w = true) :
    FlushInOrder L M e w := by
  unfold flushInOrderTest at h
  constructor
  · rintro rfl id rest hpc
    simpa [hpc, DistinctDevices] using h
  · rintro rfl id p todo rest hpc portId hindex
    simpa [hpc, hindex] using h
  · rintro rfl id rest hpc
    simpa [hpc] using h

/-- Tables with one flagged component that receives on a port with a tag. -/
def taggedTables (type : ComponentType) (vid : ℤ) : MngData :=
  let s := initMngData .default (fun l => l = 1) 1
  let port := s.iface ⟨.nic, 0⟩
  let s := s.setIface ⟨.nic, 0⟩
    (port.setAbility 0 { ope := .addVlantag, rxtx := .rx, vlantag := { vid := vid, pcp := 3 } })
  (s.setComponent 0 { name := ['c'], type := type, lcoreId := 1, rxPorts := [⟨.nic, 0⟩] }
    ).setChangeComponent 0 true

/-- Devices on which the update of a classifier returns the given value. -/
def flushDevices (ret : Ret) : Devices := ⟨fun _ => 0, fun _ => 0, fun _ => ret⟩

/-- One flush of a forwarder, taken over by its worker. -/
def flushForwarder : List FlushEvent :=
  [.flush (taggedTables .forward 10) (flushDevices .ok), .manager, .manager, .manager, .manager,
    .manager, .take (.path 0), .swap (.path 0), .manager]

/-- The update of a classifier fails, and the next flush comes with another tag. -/
def flushAgain : List FlushEvent :=
  [.take (.classifier 0), .swap (.classifier 0),
    .flush (taggedTables .classifierMac 10) (flushDevices .ng), .manager, .manager, .manager,
    .flush (taggedTables .classifierMac 20) (flushDevices .ok), .manager, .manager]

/-- The second flush is completed. -/
def flushCompleted : List FlushEvent :=
  flushAgain ++ [.manager, .manager, .manager, .take (.classifier 0), .swap (.classifier 0),
    .manager]

end Run

end Spp.Vf
