import Spp.Vf.FlushWait
import Spp.Vf.PublishedState

/-!
# Every component is published unless it is flagged

The invariant of the running process. At each place of a flush it says which components
are published, what the area that is being handed over shows, and whose abilities are
pending. A worker that takes an area over takes all pending abilities with it, and these
belong to the component that is updated, so it changes what is read of no other.
-/

namespace Spp.Vf

open CLib GuardedRun

variable {τ ρ : Type} {P : SppProcess} {rt rt' : Runtime τ ρ}

section Places

/-- The flagged components that are not published yet. -/
def FlushPc.todo : FlushPc → List ℕ
  | .idle => []
  | .loop rest => rest
  | .setting id _ rest => id :: rest
  | .publish id rest => id :: rest
  | .store id _ rest => id :: rest
  | .wait id rest => id :: rest
  | .updated _ rest => rest

/-- The component whose area is built and that is not published yet. -/
def FlushPc.handing : FlushPc → Option ℕ
  | .publish id _ => some id
  | .store id _ _ => some id
  | .wait id _ => some id
  | _ => none

/-- The ports of the component that is updated whose abilities have been set. -/
def FlushPc.handled (component : ℕ → ComponentInfo) : FlushPc → List (PortRef × PortRxtx)
  | .setting id todo _ => (component id).portDirections.filter fun p => p ∉ todo
  | .publish id _ => (component id).portDirections
  | .store id _ _ => (component id).portDirections
  | .wait id _ => (component id).portDirections
  | _ => []

/-- A component is still to be published. -/
def Runtime.Due (rt : Runtime τ ρ) (id : ℕ) : Prop :=
  if rt.pc = .component then id ∈ rt.flush.manager.todo
  else rt.flush.s.changeComponent id = true

/-- Every attached port has a device, and no device belongs to two ports. -/
structure DevicesGiven (L : Limits) (s : MngData) : Prop where
  given : ∀ id d port, s.Holds L id d port → ∃ portId, portMngIndex L (s.iface port) = some portId
  apart : ∀ p q portId, portMngIndex L (s.iface p) = some portId →
    portMngIndex L (s.iface q) = some portId → p = q

end Places

section Invariant

variable (P) (hash : RteHash τ)

/-- The areas and abilities are in step with the tables. -/
structure InStep (rt : Runtime τ ρ) : Prop where
  flush : FlushInv P.L P.M rt.flush
  swapping : ∀ target, rt.flush.swapping target = false
  idle : rt.pc ≠ .component → rt.flush.manager = .idle
  devices : rt.pc = .core ∨ rt.pc = .component → DevicesGiven P.L rt.flush.s
  named : ∀ id < P.L.maxLcore, rt.flush.s.changeComponent id = true →
    (rt.flush.s.component id).name ≠ []
  nodup : rt.flush.manager.todo.Nodup
  todo : ∀ id ∈ rt.flush.manager.todo, id < P.L.maxLcore ∧
    rt.flush.s.changeComponent id = true
  /-- Pending abilities belong to the component that is updated. -/
  pending : ∀ d, ∀ portId ∈ rt.flush.table.pending d,
    ∃ p ∈ rt.flush.manager.handled rt.flush.s.component,
      p.2 = d ∧ portMngIndex P.L (rt.flush.s.iface p.1) = some portId
  /-- Before it is stored the area is built on the update side. -/
  built : ∀ id rest, (rt.flush.manager = .publish id rest ∨
    ∃ ref, rt.flush.manager = .store id ref rest) →
      AreaBuilt P hash rt id (rt.flush.index (updateTarget P.M rt.flush.s id)).updIndex
  /-- While the manager waits it is on the side that the worker takes. -/
  waiting : ∀ id rest, rt.flush.manager = .wait id rest →
    AreaBuilt P hash rt id ((rt.flush.index (updateTarget P.M rt.flush.s id)).updIndex + 1) ∧
      (updateTarget P.M rt.flush.s id = .classifier id → (rt.mngInfos id).isUsed = true)
  /-- Otherwise the update side of a classifier has no tables. -/
  fresh : ∀ id, (rt.flush.manager.handing = some id →
    updateTarget P.M rt.flush.s id ≠ .classifier id) → ∀ vid,
      ((rt.mngInfos id).cmpInfos (rt.flush.index (.classifier id)).updIndex).macClassifications
        vid = none
  published : ∀ id < P.L.maxLcore, (rt.flush.s.component id).type ≠ .unuse → ¬ rt.Due id →
    Published P hash rt id

variable {P hash}

/-- The slots as the configuration has them. -/
structure SlotsInOrder (L : Limits) (st : AbilityState) : Prop where
  owned : PortsOwned L st.s
  typed : PortsTyped L st.s
  follow : AbilitiesFollow L st
  named : ∀ id < L.maxLcore, (st.s.component id).name ≠ [] ↔ (st.s.component id).type ≠ .unuse

/-- The slots are in order wherever the flush has got to. -/
theorem InConfiguration.slots {cfg : Configuration} (h : InConfiguration P cfg rt) :
    SlotsInOrder P.L ⟨rt.flush.s, rt.given⟩ := by
  have hc := h.configured
  have hholds : ∀ id d port, rt.flush.s.Holds P.L id d port ↔
      (rt.tables P).Holds P.L id d port := fun id d port => by
    unfold MngData.Holds
    rw [tables_component]
  refine ⟨hc.owned.congr (tables_component rt).symm, ⟨fun port => ?_, fun id d port hin => ?_⟩,
    hc.follow.congr hholds (fun port => by simp) rfl, fun id hlt => ?_⟩
  · simpa using hc.typed.ifaceNo port
  · simpa using hc.typed.placed id d port ((hholds id d port).mp hin)
  · simpa using hc.table.named_iff id hlt

/-- A port of a used component is one that it holds. -/
theorem holds_of_portDirections {L : Limits} {s : MngData} {id : ℕ} (hlt : id < L.maxLcore)
    (hused : (s.component id).type ≠ .unuse) {p : PortRef × PortRxtx}
    (hp : p ∈ (s.component id).portDirections) : s.Holds L id p.2 p.1 ∧ p.2.Directed := by
  rcases List.mem_append.mp hp with hp | hp
  · obtain ⟨port, hport, rfl⟩ := List.mem_map.mp hp
    exact ⟨⟨hlt, hused, by simpa [ComponentInfo.ports] using hport⟩, .inl rfl⟩
  · obtain ⟨port, hport, rfl⟩ := List.mem_map.mp hp
    exact ⟨⟨hlt, hused, by simpa [ComponentInfo.ports] using hport⟩, .inr rfl⟩

/-- The ports of the component that is updated. -/
theorem handled_subset {component : ℕ → ComponentInfo} {pc : FlushPc} {p : PortRef × PortRxtx}
    (h : p ∈ pc.handled component) :
    ∃ id ∈ pc.todo, p ∈ (component id).portDirections := by
  cases pc with
  | idle | loop | updated => cases h
  | setting id => exact ⟨id, List.mem_cons_self, (List.mem_filter.mp h).1⟩
  | publish id | store id | wait id => exact ⟨id, List.mem_cons_self, h⟩

end Invariant

section Worker

variable {hash : RteHash τ}

/-- A worker that takes over keeps the invariant of the flush. -/
theorem FlushInv.takeOver {L : Limits} {M : SppModule} {w : FlushWorld} (h : FlushInv L M w)
    (hswapping : ∀ target, w.swapping target = false) {target : UpdateTarget}
    (hindex : (w.index target).refIndex = (w.index target).updIndex) :
    FlushInv L M (w.takeOver target) := by
  have htake : flushStep L M (.take target) w = some { w with
      table := changeIndexRef w.table, swapping := Function.update w.swapping target true } :=
    if_pos ⟨hswapping target, hindex⟩
  have hback : Function.update (Function.update w.swapping target true) target false =
      w.swapping := by
    rw [Function.update_idem]
    exact Function.update_eq_self_iff.mpr (hswapping target).symm
  have hswap : flushStep L M (.swap target) { w with
      table := changeIndexRef w.table, swapping := Function.update w.swapping target true } =
        some (w.takeOver target) := by
    simp only [flushStep, Function.update_self, if_true, hback]
    rfl
  exact (h.take htake).swap hswap

/-- A call of a classifier leaves what the manager has built. -/
theorem classify_kept (hash : RteHash τ) (call : WorkerCall ρ) (area : Fin 2)
    (m : ManagementInfo τ ρ) :
    (m.classify hash call area).cmpInfos = m.cmpInfos ∧
      (m.classify hash call area).isUsed = m.isUsed := by
  unfold ManagementInfo.classify
  dsimp only
  split <;> exact ⟨rfl, rfl⟩

/-- Replacing the packet buffers of a component leaves what the manager has built. -/
theorem buffersKept_setMngInfo {m : ManagementInfo τ ρ} {id : ℕ}
    (hcmp : m.cmpInfos = (rt.mngInfos id).cmpInfos) (hused : m.isUsed = (rt.mngInfos id).isUsed)
    (j : ℕ) : BuffersKept rt (rt.setMngInfo id m) j := by
  by_cases hj : j = id
  · subst hj
    exact ⟨by simpa [Runtime.setMngInfo] using hcmp,
      fun h => by simpa [Runtime.setMngInfo, hused] using h, rfl⟩
  · exact ⟨by simp [Runtime.setMngInfo, hj], by simp [Runtime.setMngInfo, hj], rfl⟩

/-- A worker takes an update over or leaves all that the manager has built. -/
theorem run_effect {l cnt : ℕ} {call : WorkerCall ρ}
    (h : rt.runComponent hash P l cnt call = some rt') :
    rt'.pc = rt.pc ∧ rt'.given = rt.given ∧ (∀ id, BuffersKept rt rt' id) ∧
      (rt'.flush = rt.flush ∨ ∃ target,
        (rt.flush.index target).refIndex = (rt.flush.index target).updIndex ∧
          rt'.flush = rt.flush.takeOver target) := by
  obtain ⟨id, -, -, ⟨-, rfl⟩ | ⟨-, rfl⟩⟩ := runComponent_cases h
  · rcases sppClassifierMacDo_cases rt hash call id rfl with ⟨-, hrun⟩ | ⟨hindex, hrun⟩
    · obtain ⟨hcmp, hused⟩ := classify_kept hash call
        (rt.flush.index (.classifier id)).refIndex (rt.mngInfos id)
      rw [hrun]
      exact ⟨rfl, rfl, buffersKept_setMngInfo hcmp hused, .inl rfl⟩
    · rw [hrun]
      refine ⟨rfl, rfl, fun j => ?_, .inr ⟨_, hindex, rfl⟩⟩
      have hkept := classify_kept hash call
        ((rt.flush.index (.classifier id)).updIndex + 1)
        ((rt.mngInfos id).setTx (rt.flush.index (.classifier id)).refIndex
          (((rt.mngInfos id).tx (rt.flush.index (.classifier id)).refIndex).transmitAll call.room
            ((rt.mngInfos id).cmpInfos
              (rt.flush.index (.classifier id)).refIndex).nClassifiedDataTx))
      have hset : BuffersKept rt (rt.setMngInfo id _) j :=
        buffersKept_setMngInfo hkept.1 hkept.2 j
      exact ⟨hset.cmpInfos, hset.isUsed, rfl⟩
  · unfold Runtime.changeForwardIndex
    dsimp only
    split
    · rename_i hindex
      exact ⟨rfl, rfl, fun _ => buffersKept_of_eq rfl rfl, .inr ⟨_, hindex, rfl⟩⟩
    · exact ⟨rfl, rfl, fun _ => buffersKept_of_eq rfl rfl, .inl rfl⟩

/-- A device that is not pending is read as before after a worker has taken over. -/
theorem getInfo_changeIndexRef {t : PortAbilityTable} {portId : ℕ} {d : PortRxtx}
    (hd : d.Directed) (h : portId ∉ t.pending d) :
    sppPortAbilityGetInfo (changeIndexRef t) portId d = sppPortAbilityGetInfo t portId d := by
  unfold sppPortAbilityGetInfo
  rw [changeIndexRef_mng t portId hd, if_neg h]

/-- What is due does not change when neither the manager nor the flags do. -/
theorem due_congr (hpc : rt'.pc = rt.pc) (hmanager : rt'.flush.manager = rt.flush.manager)
    (hflags : rt'.flush.s.changeComponent = rt.flush.s.changeComponent) (id : ℕ) :
    rt'.Due id ↔ rt.Due id := by
  unfold Runtime.Due
  rw [hpc, hmanager, hflags]

/-- No pending ability is of a component that is published. -/
theorem InStep.not_pending (h : InStep P hash rt) (hslots : SlotsInOrder P.L ⟨rt.flush.s, rt.given⟩)
    {id : ℕ} (hlt : id < P.L.maxLcore) (hused : (rt.flush.s.component id).type ≠ .unuse)
    (hdue : ¬ rt.Due id) {p : PortRef × PortRxtx}
    (hp : p ∈ (rt.flush.s.component id).portDirections) {portId : ℕ}
    (hport : portMngIndex P.L (rt.flush.s.iface p.1) = some portId) :
    portId ∉ rt.flush.table.pending p.2 := by
  intro hpending
  obtain ⟨q, hq, hd, hqport⟩ := h.pending p.2 portId hpending
  obtain ⟨id', hid', hq⟩ := handled_subset hq
  have hpc : rt.pc = .component := by
    by_contra hpc
    rw [h.idle hpc] at hid'
    cases hid'
  have hsame := (h.devices (.inr hpc)).apart p.1 q.1 portId hport hqport
  obtain ⟨hlt', hflag⟩ := h.todo id' hid'
  have hused' : (rt.flush.s.component id').type ≠ .unuse :=
    (hslots.named id' hlt').mp (h.named id' hlt' hflag)
  obtain ⟨hin, -⟩ := holds_of_portDirections hlt hused hp
  obtain ⟨hin', -⟩ := holds_of_portDirections hlt' hused' hq
  rw [← hsame, hd] at hin'
  obtain rfl := hslots.owned.owner_unique id hlt id' hlt' hused hused' p.2 p.1 hin.2.2 hin'.2.2
  exact hdue (by rwa [Runtime.Due, if_pos hpc])

/-- Slots and ports that stay. -/
structure TablesKept (s s' : MngData) : Prop where
  component : s'.component = s.component
  iface : s'.iface = s.iface
  changeComponent : s'.changeComponent = s.changeComponent

theorem TablesKept.refl (s : MngData) : TablesKept s s := ⟨rfl, rfl, rfl⟩

theorem TablesKept.slot {s s' : MngData} (h : TablesKept s s') (id : ℕ) : SlotKept s s' id :=
  ⟨by rw [h.component], fun _ _ => by rw [h.iface]⟩

theorem TablesKept.target {s s' : MngData} (h : TablesKept s s') (M : SppModule) (id : ℕ) :
    updateTarget M s' id = updateTarget M s id :=
  (h.slot id).target M

/-- Devices belong to attached ports. -/
theorem DevicesGiven.congr {L : Limits} {s s' : MngData} (h : DevicesGiven L s)
    (hcomponent : s'.component = s.component) (hiface : s'.iface = s.iface) :
    DevicesGiven L s' := by
  refine ⟨fun id d port hin => ?_, fun p q portId => ?_⟩
  · unfold MngData.Holds at hin
    rw [hcomponent] at hin
    rw [hiface]
    exact h.given id d port hin
  · rw [hiface]
    exact h.apart p q portId

/-- A step that leaves slots, ports, buffers, update sides and the place of the manager. -/
theorem InStep.quiet (h : InStep P hash rt) (hpc : rt'.pc = rt.pc)
    (hmanager : rt'.flush.manager = rt.flush.manager) (htables : TablesKept rt.flush.s rt'.flush.s)
    (hbuffers : ∀ id, BuffersKept rt rt' id)
    (hupd : ∀ target, (rt'.flush.index target).updIndex = (rt.flush.index target).updIndex)
    (hflush : FlushInv P.L P.M rt'.flush)
    (hswapping : rt'.flush.swapping = rt.flush.swapping)
    (hpending : ∀ d, ∀ q ∈ rt'.flush.table.pending d, q ∈ rt.flush.table.pending d)
    (hpublished : ∀ id < P.L.maxLcore, (rt.flush.s.component id).type ≠ .unuse → ¬ rt.Due id →
      Published P hash rt' id) : InStep P hash rt' := by
  refine ⟨hflush, fun target => ?_, fun hne => ?_, fun hpc' => ?_, fun id hlt hflag => ?_, ?_,
    fun id hid => ?_, fun d portId hport => ?_, fun id rest hplace => ?_, fun id rest hplace => ?_,
    fun id hhanding vid => ?_, fun id hlt hused hdue => ?_⟩
  · rw [hswapping]
    exact h.swapping target
  · rw [hmanager]
    exact h.idle (by rwa [hpc] at hne)
  · exact (h.devices (by rwa [hpc] at hpc')).congr htables.component htables.iface
  · rw [htables.component]
    exact h.named id hlt (by rwa [htables.changeComponent] at hflag)
  · rw [hmanager]
    exact h.nodup
  · rw [htables.changeComponent]
    exact h.todo id (by rwa [hmanager] at hid)
  · rw [hmanager, htables.component, htables.iface]
    exact h.pending d portId (hpending d portId hport)
  · rw [htables.target, hupd]
    exact (h.built id rest (by rwa [hmanager] at hplace)).congr (htables.slot id) (hbuffers id)
  · obtain ⟨hbuilt, hused⟩ := h.waiting id rest (by rwa [hmanager] at hplace)
    rw [htables.target, hupd]
    exact ⟨hbuilt.congr (htables.slot id) (hbuffers id), fun ht => (hbuffers id).isUsed (hused ht)⟩
  · rw [(hbuffers id).cmpInfos, hupd]
    refine h.fresh id (fun hid => ?_) vid
    rw [← htables.target P.M]
    exact hhanding (by rwa [hmanager])
  · rw [htables.component] at hused
    exact hpublished id hlt hused ((due_congr hpc hmanager htables.changeComponent id).not.mp hdue)

/-- A worker keeps areas and abilities in step. -/
theorem InStep.run (h : InStep P hash rt) (hslots : SlotsInOrder P.L ⟨rt.flush.s, rt.given⟩)
    {l cnt : ℕ} {call : WorkerCall ρ} (hstep : rt.runComponent hash P l cnt call = some rt') :
    InStep P hash rt' := by
  obtain ⟨hpc, hgiven, hbuffers, hflush | ⟨target, hindex, hflush⟩⟩ := run_effect hstep
  · refine h.quiet hpc (by rw [hflush]) (by rw [hflush]; exact .refl _) hbuffers
      (fun _ => by rw [hflush]) (by rw [hflush]; exact h.flush) (by rw [hflush])
      (fun d q hq => by rwa [hflush] at hq) fun id hlt hused hdue => ?_
    refine (h.published id hlt hused hdue).congr (by rw [hflush]; exact .refl _ _) (hbuffers id)
      (by rw [hflush]) (fun _ _ => by rw [hgiven]) fun p _ portId hport => ?_
    rw [hflush]
    exact ⟨hport, rfl⟩
  · have htables : TablesKept rt.flush.s rt'.flush.s := by
      rw [hflush]
      exact .refl _
    refine h.quiet hpc (by rw [hflush]; rfl) htables hbuffers (fun t => ?_) ?_ (by rw [hflush]; rfl)
      (fun d q hq => ?_) fun id hlt hused hdue => ?_
    · rw [hflush]
      by_cases ht : t = target
      · simp [FlushWorld.takeOver, ht]
      · simp [FlushWorld.takeOver, ht]
    · rw [hflush]
      exact h.flush.takeOver h.swapping hindex
    · simp [hflush, FlushWorld.takeOver] at hq
    · have hpublished := h.published id hlt hused hdue
      -- The buffer of a published component has been taken already.
      have hne : updateTarget P.M rt.flush.s id ≠ target := by
        rintro rfl
        exact hpublished.taken hindex
      refine hpublished.congr (htables.slot id) (hbuffers id) ?_ (fun _ _ => by rw [hgiven])
        fun p hp portId hport => ?_
      · simp [hflush, FlushWorld.takeOver, hne]
      · rw [htables.iface, hflush]
        refine ⟨hport, getInfo_changeIndexRef (holds_of_portDirections hlt hused hp).2 ?_⟩
        exact h.not_pending hslots hlt hused hdue hp hport

/-- An lcore that takes its list leaves everything. -/
theorem InStep.takeCore (h : InStep P hash rt) {l : ℕ} (hstep : rt.takeCore l = some rt') :
    InStep P hash rt' := by
  obtain ⟨-, rfl⟩ := takeCore_cases hstep
  have htables : TablesKept rt.flush.s { rt.flush.s with
      core := Function.update rt.flush.s.core l (rt.flush.s.core l).takeUpdate } := ⟨rfl, rfl, rfl⟩
  refine h.quiet rfl rfl htables (fun _ => buffersKept_of_eq rfl rfl) (fun _ => rfl) ?_ rfl
    (fun _ _ hq => hq) fun id hlt hused hdue => ?_
  · exact ⟨h.flush.nodup, h.flush.lt, h.flush.index_eq, h.flush.swapping, h.flush.manager⟩
  · exact (h.published id hlt hused hdue).congr (htables.slot id) (buffersKept_of_eq rfl rfl) rfl
      (fun _ _ => rfl) fun _ _ _ hport => ⟨hport, rfl⟩

end Worker

section Between

variable {hash : RteHash τ}

/-- A step to a place outside `flush_component`, from outside or from its last iteration,
that leaves buffers, abilities and indices. -/
theorem InStep.outside (h : InStep P hash rt)
    (hplace : rt.flush.manager = .idle ∨ rt.flush.manager = .loop [])
    (hpc : rt'.pc ≠ .component) (hmanager : rt'.flush.manager = .idle)
    (htable : rt'.flush.table = rt.flush.table) (hindex : rt'.flush.index = rt.flush.index)
    (hswapping : rt'.flush.swapping = rt.flush.swapping)
    (hbuffers : ∀ id, BuffersKept rt rt' id)
    (hdevices : rt'.pc = .core → DevicesGiven P.L rt'.flush.s)
    (hnamed : ∀ id < P.L.maxLcore, rt'.flush.s.changeComponent id = true →
      (rt'.flush.s.component id).name ≠ [])
    (hpublished : ∀ id < P.L.maxLcore, (rt'.flush.s.component id).type ≠ .unuse →
      rt'.flush.s.changeComponent id = false → Published P hash rt' id) : InStep P hash rt' := by
  have hflush := h.flush
  have hempty : ∀ d portId, portId ∉ rt.flush.table.pending d := by
    intro d portId hmem
    obtain ⟨p, hp, -⟩ := h.pending d portId hmem
    rcases hplace with hm | hm <;> rw [hm] at hp <;> cases hp
  refine ⟨⟨?_, ?_, ?_, ?_, ?_⟩, fun target => ?_, fun _ => hmanager, fun hpc' => ?_, hnamed, ?_,
    fun id hid => ?_, fun d portId hport => ?_, fun id rest hm => ?_, fun id rest hm => ?_,
    fun id _ vid => ?_, fun id hlt hused hdue => ?_⟩
  · rw [htable]
    exact hflush.nodup
  · rw [htable]
    exact hflush.lt
  · rw [htable]
    exact hflush.index_eq
  · rw [hindex, hswapping]
    exact hflush.swapping
  · simp only [FlushWorld.ManagerOk, hmanager]
  · rw [hswapping]
    exact h.swapping target
  · exact hdevices (hpc'.resolve_right hpc)
  · rw [hmanager]
    exact List.nodup_nil
  · rw [hmanager] at hid
    cases hid
  · rw [htable] at hport
    exact absurd hport (hempty d portId)
  · rcases hm with hm | ⟨ref, hm⟩ <;> simp [hmanager] at hm
  · simp [hmanager] at hm
  · rw [(hbuffers id).cmpInfos, hindex]
    refine h.fresh id (fun hid => ?_) vid
    rcases hplace with hm | hm <;> rw [hm] at hid <;> cases hid
  · rw [Runtime.Due, if_neg hpc, Bool.not_eq_true] at hdue
    exact hpublished id hlt hused hdue

/-- An accepted request keeps the devices. -/
theorem updateCommand_dpdkPort {L : Limits} {s s' : MngData} {command : SppCommand}
    (h : updateCommand L s command = some (.ok s')) (port : PortRef) :
    (s'.iface port).dpdkPort = (s.iface port).dpdkPort := by
  have hset : ∀ {iface : PortRef → PortInfo} {p : PortRef} {info : PortInfo},
      iface = Function.update s.iface p info → info.dpdkPort = (s.iface p).dpdkPort →
      (iface port).dpdkPort = (s.iface port).dpdkPort := by
    rintro iface p info rfl hinfo
    by_cases hp : port = p
    · rw [hp, Function.update_self, hinfo]
    · rw [Function.update_of_ne hp]
  rcases updateCommand_cases h with ⟨c, rfl, hc⟩ | ⟨c, rfl, hc⟩ | ⟨c, -, hc⟩
  · cases haction : c.action with
    | start =>
      obtain ⟨-, -, id, -, rfl⟩ := sppUpdateComponent_start c haction hc
      rfl
    | stop =>
      obtain ⟨-, rfl⟩ | ⟨id, -, rfl⟩ := sppUpdateComponent_stop c haction hc <;> rfl
    | none | add | del => simp [sppUpdateComponent, haction] at hc
  · obtain ⟨id, p, -, -, ⟨-, hadd⟩ | ⟨-, rfl⟩⟩ := sppUpdatePort_cases hc
    · obtain ⟨-, ⟨-, -, cnt, -, rfl⟩ | ⟨-, -, rfl⟩ | ⟨-, -, info, rfl, hinfo⟩⟩ :=
        sppUpdatePortAdd_cases hadd
      · exact hset rfl rfl
      · rfl
      · refine hset rfl ?_
        rcases hinfo with ⟨-, rfl⟩ | ⟨-, cnt, -, rfl⟩ <;> rfl
    · exact hset (sppUpdatePortDel_iface ..) rfl
  · obtain ⟨p, classId, t, ht, hs⟩ := sppUpdateClassifierTable_cases hc
    have hiface : s'.iface = t.iface := by
      rcases hs with rfl | ⟨id, -, -, rfl⟩ <;> rfl
    rw [hiface]
    rcases ht with rfl | rfl
    · rfl
    · exact hset rfl rfl

/-- The device of a port decides its entry of `g_port_mng_info`. -/
theorem portMngIndex_congr {L : Limits} {info info' : PortInfo}
    (h : info'.dpdkPort = info.dpdkPort) : portMngIndex L info' = portMngIndex L info := by
  unfold portMngIndex
  rw [h]

/-- An accepted request flags named components only. -/
theorem named_of_updateCommand {L : Limits} {M : SppModule} {s s' : MngData} {r : Request}
    {command : SppCommand} (hdecode : sppCommandDecodeRequest L M s r.text = .ok command)
    (hupdate : updateCommand L s command = some (.ok s'))
    (hused : ∀ id < L.maxLcore, (s.component id).type ≠ .unuse → (s.component id).name ≠ [])
    (h : ∀ id < L.maxLcore, s.changeComponent id = true → (s.component id).name ≠ []) :
    ∀ id < L.maxLcore, s'.changeComponent id = true → (s'.component id).name ≠ [] := by
  intro id hlt hflag
  rcases updateCommand_cases hupdate with ⟨c, rfl, hc⟩ | ⟨c, rfl, hc⟩ | ⟨c, -, hc⟩
  · cases haction : c.action with
    | start =>
      obtain ⟨-, -, id', -, rfl⟩ := sppUpdateComponent_start c haction hc
      obtain ⟨args, hargs, hmin, hmax, hparams⟩ := decodeRequest_component hdecode
      have hname := (componentRequest_of_decode hmin hmax hparams).name_ne_nil hargs
      rw [startEdit_component]
      split
      · exact hname
      · rename_i hne
        exact h id hlt (by simpa [startEdit, hne] using hflag)
    | stop =>
      obtain ⟨-, rfl⟩ | ⟨id', -, rfl⟩ := sppUpdateComponent_stop c haction hc
      · exact h id hlt hflag
      · have hne : id ≠ id' := by
          rintro rfl
          simp [stopEdit] at hflag
        rw [stopEdit_component, if_neg hne]
        exact h id hlt (by simpa [stopEdit, hne] using hflag)
    | none | add | del => simp [sppUpdateComponent, haction] at hc
  · rw [(slotsKept_sppUpdatePort hc).name]
    exact (sppUpdatePort_flags hc id hflag).elim (h id hlt) fun hname => hname
  · rw [(slotsKept_sppUpdateClassifierTable hc).name]
    exact (sppUpdateClassifierTable_flags hc id hflag).elim (h id hlt) (hused id hlt)

/-- Between two requests a component is due iff it is flagged. -/
theorem not_due_of_flag {id : ℕ} (hpc : rt.pc ≠ .component)
    (hflag : rt.flush.s.changeComponent id = false) : ¬ rt.Due id := by
  rw [Runtime.Due, if_neg hpc, hflag]
  exact Bool.false_ne_true

/-- A request keeps areas and abilities in step: what it changes it flags. -/
theorem InStep.request {table : RteHashTable τ} (h : InStep P table.toRteHash rt)
    {cfg : Configuration} (hcfg : InConfiguration P cfg rt) {r : Request}
    (horder : ConfigOrder P.L P.M r ⟨rt.flush.s, rt.given⟩)
    (hstep : rt.processRequest P table r = some rt') : InStep P table.toRteHash rt' := by
  obtain ⟨ret, hpc, ⟨ret', replies, rfl⟩ | ⟨command, s', hdecode, hupdate, rfl⟩⟩ :=
    processRequest_step hstep
  · have hidle : rt.pc ≠ .component := by simp [hpc]
    refine h.outside (.inl (h.idle hidle)) (by simp) (h.idle hidle) rfl rfl rfl
      (fun _ => buffersKept_of_eq rfl rfl) (by simp) h.named fun id hlt hused hflag => ?_
    exact (h.published id hlt hused (not_due_of_flag hidle hflag)).congr (.refl _ _)
      (buffersKept_of_eq rfl rfl) rfl (fun _ _ => rfl) fun _ _ _ hport => ⟨hport, rfl⟩
  · have hidle : rt.pc ≠ .component := by simp [hpc]
    have hconfigured := hcfg.configured
    rw [tables_of_ne (by simp [hpc])] at hconfigured
    refine h.outside (.inl (h.idle hidle)) (by simp) (h.idle hidle) rfl rfl rfl
      (fun _ => buffersKept_of_eq rfl rfl) (by simp) ?_ fun id hlt hused hflag => ?_
    · exact named_of_updateCommand hdecode hupdate
        (fun id hlt => (hcfg.slots.named id hlt).mpr) h.named
    · obtain ⟨hold, hslot, hgiven⟩ :=
        requestFrame hconfigured hdecode horder hupdate hlt hused hflag
      have hused' : (rt.flush.s.component id).type ≠ .unuse := by
        have hcomponent := hslot.component
        dsimp only at hcomponent hused
        rwa [hcomponent] at hused
      refine (h.published id hlt hused' (not_due_of_flag hidle hold)).congr hslot
        (buffersKept_of_eq rfl rfl) rfl hgiven fun p _ portId hport => ⟨?_, rfl⟩
      exact (portMngIndex_congr (updateCommand_dpdkPort hupdate p.1)).trans hport

/-- A port that has a device keeps it. -/
theorem DeviceUpdate.portMngIndex {L : Limits} {iface iface' : PortRef → PortInfo}
    (h : DeviceUpdate iface iface') {port : PortRef} {portId : ℕ}
    (hport : portMngIndex L (iface port) = some portId) :
    portMngIndex L (iface' port) = some portId := by
  rcases h port with hsame | ⟨-, hneg, -⟩
  · rwa [hsame]
  · unfold Vf.portMngIndex at hport
    split at hport
    · rename_i hrange
      omega
    · cases hport

/-- `flush_port` creates devices and publishes nothing. -/
theorem Published.flushPort {id : ℕ} (h : Published P hash rt id)
    (hcomponent : rt'.flush.s.component = rt.flush.s.component)
    (hdevice : DeviceUpdate rt.flush.s.iface rt'.flush.s.iface)
    (htable : rt'.flush.table = rt.flush.table) (hindex : rt'.flush.index = rt.flush.index)
    (hgiven : rt'.given = rt.given) (hbuffers : BuffersKept rt rt' id) :
    Published P hash rt' id := by
  refine h.congr ⟨by rw [hcomponent], fun port _ => (hdevice.same port).1⟩ hbuffers (by rw [hindex])
    (fun _ _ => by rw [hgiven]) fun p _ portId hport => ?_
  rw [htable]
  exact ⟨hdevice.portMngIndex hport, rfl⟩

/-- `flush_port` and the publication of the lists keep areas and abilities in step. -/
theorem InStep.update (h : InStep P hash rt) (hpc : rt.pc = .update) {memory : ℕ → Bool}
    (hdevices : ∀ s, Vf.flushPort P.L rt.flush.dev rt.flush.s = (.ok, s) → DevicesGiven P.L s)
    (hstep : rt.managerStep P hash memory = some rt') : InStep P hash rt' := by
  have hidle : rt.pc ≠ .component := by simp [hpc]
  obtain ⟨iface', hdevice, hsnd⟩ := flushPort_snd P.L rt.flush.dev rt.flush.s
  cases managerStep_cases hstep with
  | @failPort s _ hport =>
    rw [hport] at hsnd
    dsimp only at hsnd
    subst hsnd
    refine h.outside (.inl (h.idle hidle)) (by simp [Runtime.finish]) (h.idle hidle) rfl rfl rfl
      (fun _ => buffersKept_of_eq rfl rfl) (by simp [Runtime.finish]) h.named
      fun id hlt hused hflag => ?_
    refine (h.published id hlt hused (not_due_of_flag hidle hflag)).flushPort ?_ ?_ ?_ ?_ ?_ ?_
    exacts [rfl, hdevice, rfl, rfl, rfl, buffersKept_of_eq rfl rfl]
  | @publishCores s _ hport =>
    have hgiven := hdevices s hport
    rw [hport] at hsnd
    dsimp only at hsnd
    subst hsnd
    refine h.outside (.inl (h.idle hidle)) (by simp) (h.idle hidle) rfl rfl rfl
      (fun _ => buffersKept_of_eq rfl rfl) (fun _ => hgiven.congr rfl rfl) h.named
      fun id hlt hused hflag => ?_
    refine (h.published id hlt hused (not_due_of_flag hidle hflag)).flushPort ?_ ?_ ?_ ?_ ?_ ?_
    exacts [rfl, hdevice, rfl, rfl, rfl, buffersKept_of_eq rfl rfl]
  | copyBack h' | component h' => simp [hpc] at h'
  | spin => exact h

/-- The copies at the end of `flush_core` begin `flush_component` with all flagged components. -/
theorem InStep.core (h : InStep P hash rt) (hpc : rt.pc = .core) {memory : ℕ → Bool}
    (hstep : rt.managerStep P hash memory = some rt') : InStep P hash rt' := by
  have hidle : rt.flush.manager = .idle := h.idle (by simp [hpc])
  cases managerStep_cases hstep with
  | failPort h' | publishCores h' | component h' => simp [hpc] at h'
  | spin => exact h
  | copyBack =>
    have htables : TablesKept rt.flush.s (copyBackCores P.L rt.flush.s) := ⟨rfl, rfl, rfl⟩
    have hflush := h.flush
    refine ⟨⟨hflush.nodup, hflush.lt, hflush.index_eq, hflush.swapping, trivial⟩, h.swapping,
      fun hne => absurd rfl hne, fun _ => (h.devices (.inl hpc)).congr rfl rfl, h.named,
      List.nodup_range.filter _, fun id hid => ?_, fun d portId hport => ?_,
      fun id rest hm => ?_, fun id rest hm => (by cases hm), fun id _ vid => ?_,
      fun id hlt hused hdue => ?_⟩
    · obtain ⟨hlt, hflag⟩ := List.mem_filter.mp hid
      exact ⟨List.mem_range.mp hlt, hflag⟩
    · obtain ⟨p, hp, -⟩ := h.pending d portId hport
      rw [hidle] at hp
      cases hp
    · rcases hm with hm | ⟨ref, hm⟩ <;> cases hm
    · exact h.fresh id (fun hid => by rw [hidle] at hid; cases hid) vid
    · have hold : ¬ rt.Due id := by
        rw [Runtime.Due, if_neg (by simp [hpc])]
        intro hflag
        refine hdue ?_
        rw [Runtime.Due, if_pos rfl]
        exact List.mem_filter.mpr ⟨List.mem_range.mpr hlt, hflag⟩
      exact (h.published id hlt hused hold).congr (htables.slot id) (buffersKept_of_eq rfl rfl) rfl
        (fun _ _ => rfl) fun _ _ _ hport => ⟨hport, rfl⟩

end Between

section Component

variable {hash : RteHash τ}

variable (P hash) in
/-- What a step of `flush_component` asks for: update functions that succeed, class ids in
range, and a worker that does not refer to the update side when an area is handed over. -/
structure UpdatesInOrder (memory : ℕ → Bool) (rt : Runtime τ ρ) : Prop where
  succeeds : ∀ id rest, rt.flush.manager = .setting id [] rest →
    componentUpdateRet P.M (rt.flushWorld hash memory).dev rt.flush.s id = .ok
  classIds : ∀ id rest, rt.flush.manager = .setting id [] rest →
    updateTarget P.M rt.flush.s id = .classifier id →
      ∀ port ∈ (rt.flush.s.component id).txPorts, ClassIdOk (rt.flush.s.iface port)
  handover : ∀ id rest, rt.flush.manager = .publish id rest →
    (rt.flush.index (updateTarget P.M rt.flush.s id)).refIndex ≠
      (rt.flush.index (updateTarget P.M rt.flush.s id)).updIndex

/-- A component holds every port once in a direction. -/
theorem nodup_portDirections {L : Limits} {s : MngData} (h : PortsOwned L s) {id : ℕ}
    (hlt : id < L.maxLcore) (hused : (s.component id).type ≠ .unuse) :
    (s.component id).portDirections.Nodup := by
  have hrx : (s.component id).rxPorts.Nodup := h.nodup id hlt hused .rx
  have htx : (s.component id).txPorts.Nodup := h.nodup id hlt hused .tx
  refine List.nodup_append.mpr ⟨hrx.map fun _ _ heq => (Prod.mk.inj heq).1,
    htx.map fun _ _ heq => (Prod.mk.inj heq).1, fun a ha b hb hab => ?_⟩
  obtain ⟨p, -, rfl⟩ := List.mem_map.mp ha
  obtain ⟨q, -, rfl⟩ := List.mem_map.mp hb
  cases (Prod.mk.inj hab).2

/-- A component that is still to be published is used. -/
theorem InStep.used_of_todo (h : InStep P hash rt)
    (hslots : SlotsInOrder P.L ⟨rt.flush.s, rt.given⟩) {id : ℕ}
    (hid : id ∈ rt.flush.manager.todo) :
    id < P.L.maxLcore ∧ (rt.flush.s.component id).type ≠ .unuse := by
  obtain ⟨hlt, hflag⟩ := h.todo id hid
  exact ⟨hlt, (hslots.named id hlt).mp (h.named id hlt hflag)⟩

/-- The abilities are set in order. -/
theorem InStep.inOrder (h : InStep P hash rt) (hslots : SlotsInOrder P.L ⟨rt.flush.s, rt.given⟩)
    (hpc : rt.pc = .component) {memory : ℕ → Bool} (horder : UpdatesInOrder P hash memory rt) :
    FlushInOrder P.L P.M .manager rt.flush := by
  have hdevices := h.devices (.inr hpc)
  refine ⟨fun _ id rest hm => ?_, fun _ id p todo rest hm portId hport hpending => ?_,
    fun _ id rest hm => horder.handover id rest hm⟩
  · obtain ⟨hlt, hused⟩ := h.used_of_todo hslots (by rw [hm]; exact List.mem_cons_self)
    refine (nodup_portDirections hslots.owned hlt hused).map_on fun p hp q hq heq => ?_
    obtain ⟨hindex, hd⟩ := Prod.mk.inj heq
    obtain ⟨portId, hportId⟩ :=
      hdevices.given id p.2 p.1 (holds_of_portDirections hlt hused hp).1
    exact Prod.ext (hdevices.apart p.1 q.1 portId hportId (hindex ▸ hportId)) hd
  · obtain ⟨q, hq, hd, hqport⟩ := h.pending p.2 portId hpending
    rw [hm] at hq
    have hnot : q ∉ p :: todo := of_decide_eq_true (List.mem_filter.mp hq).2
    refine hnot (List.mem_cons.mpr (.inl ?_))
    exact Prod.ext (hdevices.apart q.1 p.1 portId hqport hport) hd

/-- A step of `flush_component` keeps the invariant of the flush. -/
theorem FlushInv.componentStep (h : FlushInv P.L P.M rt.flush)
    (horder : FlushInOrder P.L P.M .manager rt.flush) {memory : ℕ → Bool}
    (hstep : rt.componentStep P hash memory = some rt') : FlushInv P.L P.M rt'.flush := by
  obtain ⟨w, hw, rfl⟩ := Option.map_eq_some_iff.mp hstep
  have hworld : FlushInv P.L P.M (rt.flushWorld hash memory) :=
    ⟨h.nodup, h.lt, h.index_eq, h.swapping, h.manager⟩
  have hinv := hworld.managerStep ⟨horder.distinct, horder.taken, horder.handover⟩ hw
  dsimp only
  split
  · rename_i hidle
    refine ⟨hinv.nodup, hinv.lt, hinv.index_eq, hinv.swapping, ?_⟩
    simp only [Runtime.finishFlush, Runtime.finish, FlushWorld.ManagerOk, hidle]
  · exact ⟨hinv.nodup, hinv.lt, hinv.index_eq, hinv.swapping, hinv.manager⟩

/-- A step within `flush_component`: what has to be seen of the component it is at. -/
theorem InStep.inside (h : InStep P hash rt) (hpc : rt.pc = .component)
    (hpc' : rt'.pc = .component) (hflush : FlushInv P.L P.M rt'.flush)
    (hswapping : rt'.flush.swapping = rt.flush.swapping)
    (htables : TablesKept rt.flush.s rt'.flush.s)
    (htodo : rt'.flush.manager.todo.Sublist rt.flush.manager.todo)
    (hpending : ∀ d, ∀ portId ∈ rt'.flush.table.pending d,
      ∃ p ∈ rt'.flush.manager.handled rt.flush.s.component,
        p.2 = d ∧ portMngIndex P.L (rt.flush.s.iface p.1) = some portId)
    (hbuilt : ∀ id rest, (rt'.flush.manager = .publish id rest ∨
      ∃ ref, rt'.flush.manager = .store id ref rest) →
        AreaBuilt P hash rt' id (rt'.flush.index (updateTarget P.M rt.flush.s id)).updIndex)
    (hwaiting : ∀ id rest, rt'.flush.manager = .wait id rest →
      AreaBuilt P hash rt' id ((rt'.flush.index (updateTarget P.M rt.flush.s id)).updIndex + 1) ∧
        (updateTarget P.M rt.flush.s id = .classifier id → (rt'.mngInfos id).isUsed = true))
    (hfresh : ∀ id, (rt'.flush.manager.handing = some id →
      updateTarget P.M rt.flush.s id ≠ .classifier id) → ∀ vid,
        ((rt'.mngInfos id).cmpInfos (rt'.flush.index (.classifier id)).updIndex).macClassifications
          vid = none)
    (hpublished : ∀ id < P.L.maxLcore, (rt.flush.s.component id).type ≠ .unuse →
      id ∉ rt'.flush.manager.todo → Published P hash rt' id) : InStep P hash rt' := by
  refine ⟨hflush, fun target => ?_, fun hne => absurd hpc' hne, fun _ => ?_,
    fun id hlt hflag => ?_, h.nodup.sublist htodo, fun id hid => ?_, fun d portId hport => ?_,
    fun id rest hm => ?_, fun id rest hm => ?_, fun id hhanding vid => ?_,
    fun id hlt hused hdue => ?_⟩
  · rw [hswapping]
    exact h.swapping target
  · exact (h.devices (.inr hpc)).congr htables.component htables.iface
  · rw [htables.component]
    exact h.named id hlt (by rwa [htables.changeComponent] at hflag)
  · rw [htables.changeComponent]
    exact h.todo id (htodo.subset hid)
  · rw [htables.component, htables.iface]
    exact hpending d portId hport
  · rw [htables.target]
    exact hbuilt id rest hm
  · rw [htables.target]
    exact hwaiting id rest hm
  · refine hfresh id (fun hid => ?_) vid
    rw [← htables.target P.M]
    exact hhanding hid
  · rw [htables.component] at hused
    rw [Runtime.Due, if_pos hpc'] at hdue
    exact hpublished id hlt hused hdue

/-- A component that is not to be published has been published. -/
theorem InStep.published_of_not_todo (h : InStep P hash rt) (hpc : rt.pc = .component) {id : ℕ}
    (hlt : id < P.L.maxLcore) (hused : (rt.flush.s.component id).type ≠ .unuse)
    (hnot : id ∉ rt.flush.manager.todo) : Published P hash rt id :=
  h.published id hlt hused (by rwa [Runtime.Due, if_pos hpc])

/-- A component stays published while tables, abilities and its own buffer stay. -/
theorem Published.keep {id : ℕ} (h : Published P hash rt id) (hs : rt'.flush.s = rt.flush.s)
    (htable : rt'.flush.table = rt.flush.table) (hgiven : rt'.given = rt.given)
    (hindex : rt'.flush.index (updateTarget P.M rt.flush.s id) =
      rt.flush.index (updateTarget P.M rt.flush.s id))
    (hbuffers : BuffersKept rt rt' id) : Published P hash rt' id := by
  refine h.congr (by rw [hs]; exact .refl _ _) hbuffers hindex (fun _ _ => by rw [hgiven])
    fun p _ portId hport => ?_
  rw [hs, htable]
  exact ⟨hport, rfl⟩

/-- Attached ports stand in the interface table under their own index. -/
theorem SlotsInOrder.portsShown {L : Limits} {st : AbilityState} (h : SlotsInOrder L st) {id : ℕ}
    (hlt : id < L.maxLcore) (hused : (st.s.component id).type ≠ .unuse) :
    PortsShown st.s.iface (st.s.component id) := by
  intro p hp
  have hplaced := h.typed.placed id p.2 p.1 (holds_of_portDirections hlt hused hp).1
  simp only [PortInfo.portIndex, PortRef.index, h.typed.ifaceNo, hplaced.2]

/-- An area without tables holds no entries. -/
theorem holds_nil {cmpInfo : CmpInfo τ} (h : ∀ vid, cmpInfo.macClassifications vid = none) :
    cmpInfo.Holds hash [] :=
  ⟨fun vid => iff_of_true (h vid) rfl, fun vid macCls hcls => by simp [h vid] at hcls⟩

/-- The area of a classifier that is built holds the entries of its transmit ports. -/
theorem holds_initComponentInfo {memory : ℕ → Bool} {iface : PortRef → PortInfo}
    {component : ComponentInfo} {cmpInfo : CmpInfo τ}
    (hclean : ∀ vid, cmpInfo.macClassifications vid = none)
    (hids : ∀ port ∈ component.txPorts, ClassIdOk (iface port))
    (hok : (initComponentInfo hash memory iface component cmpInfo).1 = .ok) :
    (initComponentInfo hash memory iface component cmpInfo).2.Holds hash
      (component.txPorts.map iface) := by
  have hids' : ∀ port ∈ component.txPorts.map iface, ClassIdOk port := by
    intro port hport
    obtain ⟨ref, href, rfl⟩ := List.mem_map.mp hport
    exact hids ref href
  refine CmpInfo.Holds.initTxPorts [] ?_ hids' hok
  exact holds_nil hclean

/-- A classifier whose tables are made has a built area on the update side. -/
theorem InStep.buildClassifier (h : InStep P hash rt)
    (hslots : SlotsInOrder P.L ⟨rt.flush.s, rt.given⟩) {id : ℕ} {rest : List ℕ}
    (hm : rt.flush.manager = .setting id [] rest)
    (htarget : updateTarget P.M rt.flush.s id = .classifier id) {memory : ℕ → Bool}
    (hids : ∀ port ∈ (rt.flush.s.component id).txPorts, ClassIdOk (rt.flush.s.iface port))
    (hok : (rt.initArea hash memory id).1 = .ok) (manager : FlushPc) :
    AreaBuilt P hash { rt.buildClassifier hash memory id with flush.manager := manager } id
      (rt.flush.index (.classifier id)).updIndex := by
  have hid : id ∈ rt.flush.manager.todo := by
    rw [hm]
    exact List.mem_cons_self
  obtain ⟨hlt, hused⟩ := h.used_of_todo hslots hid
  have htype : (rt.flush.s.component id).type = .classifierMac := by
    rcases updateTarget_cases P.M rt.flush.s id with ⟨-, -, htype⟩ | ⟨hpath, -⟩
    · exact htype
    · rw [htarget] at hpath
      cases hpath
  have hone : (rt.flush.s.component id).rxPorts.length ≤ 1 := by
    have hlimits := hslots.owned.limits id hlt
    simpa only [PortLimits, htype] using hlimits
  have harea : ((rt.buildClassifier hash memory id).mngInfos id).cmpInfos
      (rt.flush.index (.classifier id)).updIndex =
        { (rt.initArea hash memory id).2 with name := (rt.flush.s.component id).name } := by
    simp [Runtime.buildClassifier, Runtime.setMngInfo, hok]
  have htarget' : updateTarget P.M (rt.buildClassifier hash memory id).flush.s id =
      .classifier id := htarget
  refine ⟨?_, fun _ => ?_⟩
  · dsimp only
    rw [htarget']
    simp only [Runtime.shown, harea]
    exact shown_initComponentInfo hok htype hone (hslots.portsShown hlt hused)
  · dsimp only
    rw [harea]
    refine (holds_initComponentInfo (fun vid => h.fresh id (fun hhanding => ?_) vid) hids
      hok).congr rfl
    rw [hm] at hhanding
    cases hhanding

/-- A path that is made is the built area of its component. -/
theorem areaBuilt_madePath (hslots : SlotsInOrder P.L ⟨rt.flush.s, rt.given⟩) {id : ℕ}
    (hlt : id < P.L.maxLcore) (hused : (rt.flush.s.component id).type ≠ .unuse)
    (htarget : updateTarget P.M rt.flush.s id = .path id) {path : DataPath}
    (hmade : rt.madePath P id = some path) {area : Fin 2} (hs : rt'.flush.s = rt.flush.s)
    (hpath : rt'.paths id area = path) : AreaBuilt P hash rt' id area := by
  refine ⟨?_, fun hclassifier => ?_⟩
  · rw [hs, htarget]
    simp only [Runtime.shown, hpath]
    exact shown_madePath hmade (hslots.portsShown hlt hused)
  · rw [hs, htarget] at hclassifier
    cases hclassifier

/-- After the wait the component is published: the worker reads its area and its abilities. -/
theorem published_of_waiting (hslots : SlotsInOrder P.L ⟨rt.flush.s, rt.given⟩)
    (hdevices : DevicesGiven P.L rt.flush.s) {id : ℕ} {rest : List ℕ} (hlt : id < P.L.maxLcore)
    (hused : (rt.flush.s.component id).type ≠ .unuse)
    (hne : (rt.flush.index (updateTarget P.M rt.flush.s id)).refIndex ≠
      (rt.flush.index (updateTarget P.M rt.flush.s id)).updIndex)
    (harea : AreaBuilt P hash rt' id
      ((rt.flush.index (updateTarget P.M rt.flush.s id)).updIndex + 1))
    (hmark : updateTarget P.M rt.flush.s id = .classifier id → (rt'.mngInfos id).isUsed = true)
    (hflush : FlushInv P.L P.M rt'.flush) (hm : rt'.flush.manager = .updated id rest)
    (hs : rt'.flush.s = rt.flush.s) (hindex : rt'.flush.index = rt.flush.index)
    (hgiven : rt'.given = rt.given) : Published P hash rt' id := by
  refine ⟨?_, ?_, fun htarget => ?_, fun p hp => ?_⟩
  · rw [hs, hindex]
    exact hne
  · rw [hs, hindex]
    rwa [updIndex_add_one hne.symm] at harea
  · rw [hs] at htarget
    exact hmark htarget
  · have hinfo := hflush.updatedPublished id rest hm p hp
    rw [hs] at hp hinfo ⊢
    obtain ⟨hin, hd⟩ := holds_of_portDirections hlt hused hp
    obtain ⟨portId, hport⟩ := hdevices.given id p.2 p.1 hin
    refine ⟨portId, hport, ?_⟩
    rw [hinfo portId hport, hgiven]
    exact hslots.follow.block_configured hd hin

/-- The port whose abilities are set next is one of the component, and not set yet. -/
theorem InStep.setting_mem (h : InStep P hash rt)
    (hslots : SlotsInOrder P.L ⟨rt.flush.s, rt.given⟩) {id : ℕ} {p : PortRef × PortRxtx}
    {todo : List (PortRef × PortRxtx)} {rest : List ℕ}
    (hm : rt.flush.manager = .setting id (p :: todo) rest) :
    p ∈ (rt.flush.s.component id).portDirections ∧ p ∉ todo := by
  obtain ⟨hlt, hused⟩ := h.used_of_todo hslots (by rw [hm]; exact List.mem_cons_self)
  have hmanager := h.flush.manager
  simp only [FlushWorld.ManagerOk, hm] at hmanager
  obtain ⟨-, done, hports, -⟩ := hmanager
  have hnodup := nodup_portDirections hslots.owned hlt hused
  dsimp only at hnodup
  rw [hports, List.nodup_append] at hnodup
  rw [hports]
  exact ⟨List.mem_append_right done List.mem_cons_self, (List.nodup_cons.mp hnodup.2.1).1⟩

/-- Setting the abilities of a port makes its device pending. -/
theorem pending_set {L : Limits} {t t' : PortAbilityTable} {port : PortInfo} {rxtx : PortRxtx}
    (hset : portAbilitySetAbility L t port rxtx = some t') {d : PortRxtx} {portId : ℕ}
    (h : portId ∈ t'.pending d) :
    portId ∈ t.pending d ∨ d = rxtx ∧ portMngIndex L port = some portId := by
  obtain ⟨set, -, hindex, hpending, -⟩ := portAbilitySetAbility_eq_some hset
  rw [hpending] at h
  by_cases hd : d = rxtx
  · subst hd
    rw [Function.update_self] at h
    rcases List.mem_append.mp h with hold | hnew
    · exact .inl hold
    · exact .inr ⟨rfl, by rw [List.mem_singleton.mp hnew, hindex]⟩
  · rw [Function.update_of_ne hd] at h
    exact .inl h

/-- Setting abilities on the update side changes nothing that is read. -/
theorem getInfo_set {L : Limits} {t t' : PortAbilityTable} {port : PortInfo} {rxtx : PortRxtx}
    (hset : portAbilitySetAbility L t port rxtx = some t')
    (hside : ∀ portId, portMngIndex L port = some portId →
      (t.mng portId rxtx).updIndex ≠ (t.mng portId rxtx).refIndex) (portId : ℕ) (d : PortRxtx) :
    sppPortAbilityGetInfo t' portId d = sppPortAbilityGetInfo t portId d := by
  obtain ⟨set, -, hindex, -, hmng⟩ := portAbilitySetAbility_eq_some hset
  unfold sppPortAbilityGetInfo
  rw [hmng]
  split
  · rename_i hthis
    obtain ⟨rfl, rfl⟩ := hthis
    dsimp only
    rw [Function.update_of_ne (hside portId hindex).symm]
  · rfl

/-- When all abilities are set the pending ones are of the ports of the component. -/
theorem InStep.pending_ports (h : InStep P hash rt) {id : ℕ} {rest : List ℕ}
    (hm : rt.flush.manager = .setting id [] rest) {d : PortRxtx} {portId : ℕ}
    (hport : portId ∈ rt.flush.table.pending d) :
    ∃ p ∈ (rt.flush.s.component id).portDirections,
      p.2 = d ∧ portMngIndex P.L (rt.flush.s.iface p.1) = some portId := by
  obtain ⟨p, hp, hpd⟩ := h.pending d portId hport
  rw [hm] at hp
  exact ⟨p, (List.mem_filter.mp hp).1, hpd⟩

/-- While an area is handed over the pending abilities are of the ports of its component. -/
theorem InStep.pending_handed (h : InStep P hash rt) {id : ℕ} {rest : List ℕ}
    (hm : rt.flush.manager = .publish id rest ∨ (∃ ref, rt.flush.manager = .store id ref rest) ∨
      rt.flush.manager = .wait id rest) {d : PortRxtx} {portId : ℕ}
    (hport : portId ∈ rt.flush.table.pending d) :
    ∃ p ∈ (rt.flush.s.component id).portDirections,
      p.2 = d ∧ portMngIndex P.L (rt.flush.s.iface p.1) = some portId := by
  obtain ⟨p, hp, hpd⟩ := h.pending d portId hport
  rcases hm with hm | ⟨ref, hm⟩ | hm <;> rw [hm] at hp <;> exact ⟨p, hp, hpd⟩

/-- After the wait nothing is pending. -/
theorem InStep.pending_waited (h : InStep P hash rt) {id : ℕ} {rest : List ℕ}
    (hm : rt.flush.manager = .wait id rest) (hflush : FlushInv P.L P.M rt'.flush)
    (hm' : rt'.flush.manager = .updated id rest) (hs : rt'.flush.s = rt.flush.s)
    (htable : rt'.flush.table = rt.flush.table) (d : PortRxtx) (portId : ℕ) :
    portId ∉ rt.flush.table.pending d := by
  intro hport
  obtain ⟨p, hp, rfl, hindex⟩ := h.pending_handed (.inr (.inr hm)) hport
  have hmanager := hflush.manager
  simp only [FlushWorld.ManagerOk, hm', hs] at hmanager
  have htaken := (hmanager p hp).2 portId (by rwa [hs])
  rw [htable] at htaken
  exact htaken hport

/-- The area that was built is the one that the worker takes next. -/
theorem InStep.stored_add_one (h : InStep P hash rt) {id : ℕ} {ref : Fin 2} {rest : List ℕ}
    (hm : rt.flush.manager = .store id ref rest) :
    ref + 1 = (rt.flush.index (updateTarget P.M rt.flush.s id)).updIndex := by
  have hmanager := h.flush.manager
  simp only [FlushWorld.ManagerOk, hm] at hmanager
  exact updIndex_add_one hmanager.2.2.symm

/-- A step of `flush_component` in order keeps areas and abilities in step. -/
theorem InStep.component (h : InStep P hash rt) (hslots : SlotsInOrder P.L ⟨rt.flush.s, rt.given⟩)
    (hpc : rt.pc = .component) {memory : ℕ → Bool} (horder : UpdatesInOrder P hash memory rt)
    (hstep : rt.componentStep P hash memory = some rt') : InStep P hash rt' := by
  have hflush := h.flush.componentStep (h.inOrder hslots hpc horder) hstep
  have hret := componentUpdateRet_flushWorld P hash rt memory
  have hpublished : ∀ id < P.L.maxLcore, (rt.flush.s.component id).type ≠ .unuse →
      id ∉ rt.flush.manager.todo → Published P hash rt id :=
    fun id hlt hused hnot => h.published_of_not_todo hpc hlt hused hnot
  cases componentStep_cases hstep with
  | finish hm =>
    refine h.outside (.inr hm) (by simp [Runtime.finishFlush, Runtime.finish]) rfl rfl rfl rfl
      (fun _ => buffersKept_of_eq rfl rfl) (by simp [Runtime.finishFlush, Runtime.finish])
      (fun id hlt hflag => ?_) fun id hlt hused _ => ?_
    · simp [Runtime.finishFlush, Runtime.finish, backupMngInfo, hlt] at hflag
    · have hnot : id ∉ rt.flush.manager.todo := by
        rw [hm]
        exact List.not_mem_nil
      exact (hpublished id hlt hused hnot).congr ⟨rfl, fun _ _ => rfl⟩
        (buffersKept_of_eq rfl rfl) rfl (fun _ _ => rfl) fun _ _ _ hport => ⟨hport, rfl⟩
  | @next id rest hm =>
    refine h.inside hpc hpc hflush rfl (.refl _) (by rw [hm]; exact .refl _)
      (fun d portId hport => ?_) (fun _ _ hplace => ?_) (fun _ _ hplace => (by cases hplace))
      (fun id' _ vid => h.fresh id' (fun hid => by rw [hm] at hid; cases hid) vid)
      fun id' hlt hused hnot => ?_
    · obtain ⟨p, hp, -⟩ := h.pending d portId hport
      rw [hm] at hp
      cases hp
    · rcases hplace with hplace | ⟨ref, hplace⟩ <;> cases hplace
    · exact (hpublished id' hlt hused (by rwa [hm])).keep rfl rfl rfl rfl
        (buffersKept_of_eq rfl rfl)
  | @set id p todo rest table hm hset =>
    obtain ⟨hports, hnot⟩ := h.setting_mem hslots hm
    refine h.inside hpc hpc hflush rfl (.refl _) (by rw [hm]; exact .refl _)
      (fun d portId hport => ?_) (fun _ _ hplace => ?_) (fun _ _ hplace => (by cases hplace))
      (fun id' _ vid => h.fresh id' (fun hid => by rw [hm] at hid; cases hid) vid)
      fun id' hlt hused hnot' => ?_
    · rcases pending_set hset hport with hold | ⟨rfl, hthis⟩
      · obtain ⟨q, hq, hqd⟩ := h.pending d portId hold
        rw [hm] at hq
        obtain ⟨hq, hqnot⟩ := List.mem_filter.mp hq
        refine ⟨q, List.mem_filter.mpr ⟨hq, decide_eq_true fun hmem => ?_⟩, hqd⟩
        exact of_decide_eq_true hqnot (List.mem_cons_of_mem p hmem)
      · exact ⟨p, List.mem_filter.mpr ⟨hports, decide_eq_true hnot⟩, rfl, hthis⟩
    · rcases hplace with hplace | ⟨ref, hplace⟩ <;> cases hplace
    · refine (hpublished id' hlt hused (by rwa [hm])).congr (.refl _ _) (buffersKept_of_eq rfl rfl)
        rfl (fun _ _ => rfl) fun q hq portId hport => ⟨hport, ?_⟩
      have hside := h.flush.setsUpdateSide (h.inOrder hslots hpc horder)
      exact getInfo_set hset (fun portId hindex => hside id p todo rest hm portId hindex) _ _
  | @buildClassifier id rest hm htarget hok =>
    have hmng : ∀ id', id' ≠ id →
        (rt.buildClassifier hash memory id).mngInfos id' = rt.mngInfos id' := fun id' hne => by
      simp [Runtime.buildClassifier, Runtime.setMngInfo, hne]
    refine h.inside hpc hpc hflush rfl (.refl _) (by rw [hm]; exact .refl _)
      (fun d portId hport => ?_) (fun id' rest' hplace => ?_) (fun _ _ hplace => (by cases hplace))
      (fun id' hhanding vid => ?_) fun id' hlt hused hnot => ?_
    · exact h.pending_ports hm hport
    · obtain hplace | ⟨ref, hplace⟩ := hplace
      · cases hplace
        dsimp only
        rw [htarget]
        exact h.buildClassifier hslots hm htarget (horder.classIds id rest hm htarget) hok _
      · cases hplace
    · have hne : id' ≠ id := by
        rintro rfl
        exact hhanding rfl htarget
      dsimp only
      rw [hmng id' hne]
      exact h.fresh id' (fun hid => by rw [hm] at hid; cases hid) vid
    · have hne : id' ≠ id := fun heq => hnot (heq ▸ List.mem_cons_self)
      exact (hpublished id' hlt hused (by rwa [hm])).keep rfl rfl rfl rfl
        (buffersKept_of_eq (hmng id' hne) rfl)
  | @failClassifier id rest hm htarget hng =>
    have hok := (hret id).symm.trans (horder.succeeds id rest hm)
    simp [htarget, hng] at hok
  | @buildPath id rest path hm htarget hmade =>
    obtain ⟨hlt', hused'⟩ := h.used_of_todo hslots (by rw [hm]; exact List.mem_cons_self)
    refine h.inside hpc hpc hflush rfl (.refl _) (by rw [hm]; exact .refl _)
      (fun d portId hport => ?_) (fun id' rest' hplace => ?_) (fun _ _ hplace => (by cases hplace))
      (fun id' _ vid => h.fresh id' (fun hid => by rw [hm] at hid; cases hid) vid)
      fun id' hlt hused hnot => ?_
    · exact h.pending_ports hm hport
    · obtain hplace | ⟨ref, hplace⟩ := hplace
      · cases hplace
        refine areaBuilt_madePath hslots hlt' hused' htarget hmade rfl ?_
        simp [htarget]
      · cases hplace
    · have hne : id' ≠ id := fun heq => hnot (heq ▸ List.mem_cons_self)
      refine (hpublished id' hlt hused (by rwa [hm])).keep rfl rfl rfl rfl
        (buffersKept_of_eq rfl ?_)
      exact Function.update_of_ne hne _ _
  | @failPath id rest hm htarget hnone =>
    have hok := (hret id).symm.trans (horder.succeeds id rest hm)
    simp [htarget, hnone] at hok
  | @publish id rest hm =>
    refine h.inside hpc hpc hflush rfl (.refl _) (by rw [hm]; exact .refl _)
      (fun d portId hport => h.pending_handed (.inl hm) hport) (fun id' rest' hplace => ?_)
      (fun _ _ hplace => (by cases hplace))
      (fun id' hhanding vid => h.fresh id' (by rw [hm]; exact hhanding) vid)
      fun id' hlt hused hnot => ?_
    · obtain hplace | ⟨ref, hplace⟩ := hplace
      · cases hplace
      · cases hplace
        exact (h.built id rest (.inl hm)).congr (.refl _ _) (buffersKept_of_eq rfl rfl)
    · exact (hpublished id' hlt hused (by rwa [hm])).keep rfl rfl rfl rfl
        (buffersKept_of_eq rfl rfl)
  | @storeClassifier id ref rest hm htarget =>
    have hside := h.stored_add_one hm
    have hmng : ∀ id', id' ≠ id →
        (rt.setMngInfo id { rt.mngInfos id with isUsed := true }).mngInfos id' =
          rt.mngInfos id' := fun id' hne => by simp [Runtime.setMngInfo, hne]
    have hmark : BuffersKept rt (rt.setMngInfo id { rt.mngInfos id with isUsed := true }) id :=
      ⟨by simp [Runtime.setMngInfo], fun _ => by simp [Runtime.setMngInfo], rfl⟩
    refine h.inside hpc hpc hflush rfl (.refl _) (by rw [hm]; exact .refl _)
      (fun d portId hport => h.pending_handed (.inr (.inl ⟨ref, hm⟩)) hport)
      (fun id' rest' hplace => ?_) (fun id' rest' hplace => ?_) (fun id' hhanding vid => ?_)
      fun id' hlt hused hnot => ?_
    · rcases hplace with hplace | ⟨ref, hplace⟩ <;> cases hplace
    · cases hplace
      refine ⟨?_, fun _ => by simp [Runtime.setMngInfo]⟩
      dsimp only
      rw [htarget] at hside ⊢
      rw [Function.update_self, hside]
      have hbuilt := h.built id rest (.inr ⟨ref, hm⟩)
      rw [htarget] at hbuilt
      exact hbuilt.congr (.refl _ _) ⟨hmark.cmpInfos, hmark.isUsed, rfl⟩
    · have hne : id' ≠ id := by
        rintro rfl
        exact hhanding rfl htarget
      dsimp only
      rw [hmng id' hne, Function.update_of_ne (by simp [hne])]
      exact h.fresh id' (by rw [hm]; exact hhanding) vid
    · have hne : id' ≠ id := fun heq => hnot (heq ▸ List.mem_cons_self)
      refine (hpublished id' hlt hused (by rwa [hm])).keep rfl rfl rfl ?_
        (buffersKept_of_eq (hmng id' hne) rfl)
      refine Function.update_of_ne ?_ _ _
      rcases updateTarget_own P.M rt.flush.s id' with ht | ht <;> simp [ht, hne]
  | @storePath id ref rest hm htarget =>
    have hside := h.stored_add_one hm
    refine h.inside hpc hpc hflush rfl (.refl _) (by rw [hm]; exact .refl _)
      (fun d portId hport => h.pending_handed (.inr (.inl ⟨ref, hm⟩)) hport)
      (fun id' rest' hplace => ?_) (fun id' rest' hplace => ?_) (fun id' hhanding vid => ?_)
      fun id' hlt hused hnot => ?_
    · rcases hplace with hplace | ⟨ref, hplace⟩ <;> cases hplace
    · cases hplace
      refine ⟨?_, fun hclassifier => by simp [htarget] at hclassifier⟩
      dsimp only
      rw [htarget] at hside ⊢
      rw [Function.update_self, hside]
      have hbuilt := h.built id rest (.inr ⟨ref, hm⟩)
      rw [htarget] at hbuilt
      exact hbuilt.congr (.refl _ _) (buffersKept_of_eq rfl rfl)
    · dsimp only
      rw [Function.update_of_ne (by simp)]
      exact h.fresh id' (by rw [hm]; exact hhanding) vid
    · have hne : id' ≠ id := fun heq => hnot (heq ▸ List.mem_cons_self)
      refine (hpublished id' hlt hused (by rwa [hm])).keep rfl rfl rfl ?_
        (buffersKept_of_eq rfl rfl)
      refine Function.update_of_ne ?_ _ _
      rcases updateTarget_own P.M rt.flush.s id' with ht | ht <;> simp [ht, hne]
  | spin => exact h
  | @uninit id rest hm htarget hindex =>
    obtain ⟨hlt', hused'⟩ := h.used_of_todo hslots (by rw [hm]; exact List.mem_cons_self)
    obtain ⟨harea, hmark⟩ := h.waiting id rest hm
    refine h.inside hpc hpc hflush rfl (.refl _) (by rw [hm]; exact List.sublist_cons_self ..)
      (fun d portId hport => absurd hport (h.pending_waited hm hflush rfl rfl rfl d portId))
      (fun _ _ hplace => ?_) (fun _ _ hplace => (by cases hplace)) (fun id' _ vid => ?_)
      fun id' hlt hused hnot => ?_
    · rcases hplace with hplace | ⟨ref, hplace⟩ <;> cases hplace
    · by_cases hne : id' = id
      · subst hne
        simp [Runtime.setMngInfo]
      · simp only [Runtime.setMngInfo, Function.update_of_ne hne]
        exact h.fresh id' (fun hid => absurd (by rw [hm] at hid; exact Option.some.inj hid)
          (Ne.symm hne)) vid
    · by_cases hne : id' = id
      · subst hne
        refine published_of_waiting hslots (h.devices (.inr hpc)) hlt' hused' (by rwa [htarget]) ?_
          (fun ht => ?_) hflush rfl rfl rfl rfl
        · rw [htarget] at harea ⊢
          refine harea.of_area rfl ?_ rfl
          simp only [Runtime.setMngInfo, Function.update_self]
          exact Function.update_of_ne (fun heq => by omega) _ _
        · simpa [Runtime.setMngInfo] using hmark ht
      · have hnot' : id' ∉ rt.flush.manager.todo := by
          rw [hm]
          exact fun hmem => (List.mem_cons.mp hmem).elim hne hnot
        refine (hpublished id' hlt hused hnot').keep rfl rfl rfl rfl (buffersKept_of_eq ?_ rfl)
        simp [Runtime.setMngInfo, hne]
  | @taken id rest hm htarget hindex =>
    obtain ⟨hlt', hused'⟩ := h.used_of_todo hslots (by rw [hm]; exact List.mem_cons_self)
    obtain ⟨harea, hmark⟩ := h.waiting id rest hm
    refine h.inside hpc hpc hflush rfl (.refl _) (by rw [hm]; exact List.sublist_cons_self ..)
      (fun d portId hport => absurd hport (h.pending_waited hm hflush rfl rfl rfl d portId))
      (fun _ _ hplace => ?_) (fun _ _ hplace => (by cases hplace)) (fun id' _ vid => ?_)
      fun id' hlt hused hnot => ?_
    · rcases hplace with hplace | ⟨ref, hplace⟩ <;> cases hplace
    · refine h.fresh id' (fun hid => ?_) vid
      rw [hm] at hid
      obtain rfl := Option.some.inj hid
      simp [htarget]
    · by_cases hne : id' = id
      · subst hne
        exact published_of_waiting hslots (h.devices (.inr hpc)) hlt' hused' (by rwa [htarget])
          (harea.congr (.refl _ _) (buffersKept_of_eq rfl rfl)) hmark hflush rfl rfl rfl rfl
      · have hnot' : id' ∉ rt.flush.manager.todo := by
          rw [hm]
          exact fun hmem => (List.mem_cons.mp hmem).elim hne hnot
        exact (hpublished id' hlt hused hnot').keep rfl rfl rfl rfl (buffersKept_of_eq rfl rfl)
  | @updated id rest hm =>
    refine h.inside hpc hpc hflush rfl (.refl _) (by rw [hm]; exact .refl _)
      (fun d portId hport => ?_) (fun _ _ hplace => ?_) (fun _ _ hplace => (by cases hplace))
      (fun id' _ vid => h.fresh id' (fun hid => by rw [hm] at hid; cases hid) vid)
      fun id' hlt hused hnot => ?_
    · obtain ⟨p, hp, -⟩ := h.pending d portId hport
      rw [hm] at hp
      cases hp
    · rcases hplace with hplace | ⟨ref, hplace⟩ <;> cases hplace
    · exact (hpublished id' hlt hused (by rwa [hm])).keep rfl rfl rfl rfl
        (buffersKept_of_eq rfl rfl)

end Component

end Spp.Vf
