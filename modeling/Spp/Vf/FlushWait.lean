import Spp.Lib.Handoff
import Spp.Vf.ComponentTable

/-!
# The waits of a flush

A flush waits for each flagged core, and then for each flagged component, until
a worker has looked at the index pair it moved. Such a wait ends as soon as
each slave lcore has made one more pass, provided that the cores are slave
lcores and the components are in their lists. `component start` asks only for a
core that is not `SPP_CORE_UNUSE`, and so admits the main lcore.
-/

namespace Spp.Vf

open CLib GuardedRun Handoff

variable {L : Limits} {M : SppModule} {s s' : MngData} {slave : ℕ → Bool}

section Passes

/-- What the worker threads look at and move while the manager waits: the core
table and the index pairs of `g_forward_info` and of `g_mng_infos`. -/
structure Workers where
  core : ℕ → CoreMngInfo
  forward : ℕ → Indices
  classifier : ℕ → Indices

/-- The index pair that is used for a component of the given type. -/
def Workers.indices (w : Workers) (type : ComponentType) (id : ℕ) : Indices :=
  if type = .classifierMac then w.classifier id else w.forward id

/-- Replacement of that index pair. -/
def Workers.setIndices (w : Workers) (type : ComponentType) (id : ℕ) (ix : Indices) : Workers :=
  if type = .classifierMac then { w with classifier := Function.update w.classifier id ix }
  else { w with forward := Function.update w.forward id ix }

/-- The start of `spp_classifier_mac_do` or `spp_forward` for a component. -/
def changeIndex (component : ℕ → ComponentInfo) (w : Workers) (id : ℕ) : Workers :=
  let type := (component id).type
  w.setIndices type id (w.indices type id).take

/-- One pass of the loop of `slave_main` on an lcore, as far as indices go. -/
def slaveMainPass (component : ℕ → ComponentInfo) (w : Workers) (lcoreId : ℕ) : Workers :=
  if (w.core lcoreId).status = .forward then
    let w := { w with core := Function.update w.core lcoreId (w.core lcoreId).takeUpdate }
    (w.core lcoreId).refList.foldl (changeIndex component) w
  else w

/-- Passes of several lcores, in the order of the list. -/
def slaveMainPasses (component : ℕ → ComponentInfo) (w : Workers) (lcores : List ℕ) : Workers :=
  lcores.foldl (slaveMainPass component) w

variable {component : ℕ → ComponentInfo} {w : Workers}

@[simp] theorem setIndices_core (w : Workers) (type : ComponentType) (id : ℕ) (ix : Indices) :
    (w.setIndices type id ix).core = w.core := by
  unfold Workers.setIndices
  split <;> rfl

/-- An index pair after one of its kind is replaced. -/
theorem indices_setIndices (w : Workers) (type : ComponentType) (id : ℕ) (ix : Indices)
    (type' : ComponentType) (id' : ℕ) :
    (w.setIndices type id ix).indices type' id' =
      if (type = .classifierMac ↔ type' = .classifierMac) ∧ id' = id then ix
      else w.indices type' id' := by
  by_cases ht : type = .classifierMac <;> by_cases ht' : type' = .classifierMac <;>
    by_cases hid : id' = id <;> simp [Workers.setIndices, Workers.indices, ht, ht', hid]

/-- A core that looked has a list of its own. -/
theorem takeUpdate_ne (c : CoreMngInfo) : c.takeUpdate.refIndex ≠ c.takeUpdate.updIndex := by
  unfold CoreMngInfo.takeUpdate
  split
  · dsimp only
    omega
  · assumption

/-- A core whose indices differ is left alone. -/
theorem takeUpdate_of_ne {c : CoreMngInfo} (h : c.refIndex ≠ c.updIndex) : c.takeUpdate = c :=
  if_neg h

/-- Running components moves no core index. -/
@[simp] theorem foldl_changeIndex_core (ids : List ℕ) (w : Workers) :
    (ids.foldl (changeIndex component) w).core = w.core := by
  induction ids generalizing w with
  | nil => rfl
  | cons id ids ih => rw [List.foldl_cons, ih, changeIndex, setIndices_core]

/-- A pass takes the list of its own core. -/
theorem slaveMainPass_core (w : Workers) (lcoreId l : ℕ) :
    (slaveMainPass component w lcoreId).core l =
      if l = lcoreId ∧ (w.core l).status = .forward then (w.core l).takeUpdate else w.core l := by
  unfold slaveMainPass
  by_cases hl : l = lcoreId
  · subst hl
    split <;> simp_all
  · split <;> simp [hl]

/-- Indices of a component that differ still differ after any component has run. -/
theorem changeIndex_ne {type : ComponentType} {id : ℕ}
    (h : (w.indices type id).ref ≠ (w.indices type id).upd) (i : ℕ) :
    ((changeIndex component w i).indices type id).ref ≠
      ((changeIndex component w i).indices type id).upd := by
  unfold changeIndex
  rw [indices_setIndices]
  split
  · exact Indices.take_ne _
  · exact h

/-- After a pass over a list that contains a component its indices differ. -/
theorem foldl_changeIndex_ne {id : ℕ} {ids : List ℕ} (w : Workers)
    (h : id ∈ ids ∨ (w.indices (component id).type id).ref ≠
      (w.indices (component id).type id).upd) :
    ((ids.foldl (changeIndex component) w).indices (component id).type id).ref ≠
      ((ids.foldl (changeIndex component) w).indices (component id).type id).upd := by
  induction ids generalizing w with
  | nil => simpa using h
  | cons i ids ih =>
    refine ih _ ?_
    rcases h with hmem | hne
    · rcases List.mem_cons.mp hmem with rfl | hmem
      · refine .inr ?_
        rw [changeIndex, indices_setIndices, if_pos ⟨Iff.rfl, rfl⟩]
        exact Indices.take_ne _
      · exact .inl hmem
    · exact .inr (changeIndex_ne hne i)

/-- Indices of a component that differ still differ after any pass. -/
theorem slaveMainPass_ne {id : ℕ}
    (h : (w.indices (component id).type id).ref ≠ (w.indices (component id).type id).upd)
    (l : ℕ) :
    ((slaveMainPass component w l).indices (component id).type id).ref ≠
      ((slaveMainPass component w l).indices (component id).type id).upd := by
  unfold slaveMainPass
  split
  · exact foldl_changeIndex_ne _ (.inr h)
  · exact h

/-- Passes that include a core take its list. -/
theorem slaveMainPasses_core {l : ℕ} (lcores : List ℕ) (w : Workers) :
    (slaveMainPasses component w lcores).core l =
      if l ∈ lcores ∧ (w.core l).status = .forward then (w.core l).takeUpdate else w.core l := by
  induction lcores generalizing w with
  | nil => simp [slaveMainPasses]
  | cons a lcores ih =>
    have hstep := ih (slaveMainPass component w a)
    rw [slaveMainPass_core] at hstep
    have hstatus : (w.core l).takeUpdate.status = (w.core l).status := by
      unfold CoreMngInfo.takeUpdate
      split <;> rfl
    change (slaveMainPasses component (slaveMainPass component w a) lcores).core l = _
    rw [hstep]
    by_cases hfwd : (w.core l).status = .forward
    · by_cases hla : l = a
      · subst hla
        simp [hfwd, hstatus, takeUpdate_of_ne (takeUpdate_ne (w.core l))]
      · simp [hla, hfwd]
    · simp [hfwd]

/-- Passes that include a core whose list contains a component, and whose own
indices differ, make the indices of the component differ. -/
theorem slaveMainPasses_ne {id l : ℕ} {lcores : List ℕ} (w : Workers)
    (h : l ∈ lcores ∧ (w.core l).status = .forward ∧
        (w.core l).refIndex ≠ (w.core l).updIndex ∧ id ∈ (w.core l).refList ∨
      (w.indices (component id).type id).ref ≠ (w.indices (component id).type id).upd) :
    ((slaveMainPasses component w lcores).indices (component id).type id).ref ≠
      ((slaveMainPasses component w lcores).indices (component id).type id).upd := by
  induction lcores generalizing w with
  | nil => simpa [slaveMainPasses] using h
  | cons a lcores ih =>
    refine ih (slaveMainPass component w a) ?_
    rcases h with ⟨hmem, hstatus, hne, hid⟩ | hne
    · by_cases hla : l = a
      · subst hla
        refine .inr ?_
        unfold slaveMainPass
        rw [if_pos hstatus]
        refine foldl_changeIndex_ne _ (.inl ?_)
        simpa [takeUpdate_of_ne hne] using hid
      · refine .inl ⟨(List.mem_cons.mp hmem).resolve_left hla, ?_⟩
        rw [slaveMainPass_core, if_neg (fun h => hla h.1)]
        exact ⟨hstatus, hne, hid⟩
    · exact .inr (slaveMainPass_ne hne a)

end Passes

section Invariant

/-- A start that is not refused names a slave lcore, and the id array of that
lcore has room. -/
def StartOnSlave (L : Limits) (M : SppModule) (slave : ℕ → Bool) (r : Request) (s : MngData) :
    Prop :=
  ∀ c, sppCommandDecodeRequest L M s r.text = .ok (.component c) → c.action = .start →
    (s.core c.core).status = .unuse ∨ getFreeComponent L s = none ∨
      slave c.core = true ∧ (s.core c.core).updList.length < L.maxLcore

/-- Why the flagged cores and components are served: named components are in
the lists of slave lcores, and only those cores and components are flagged. -/
structure Served (L : Limits) (slave : ℕ → Bool) (s : MngData) : Prop where
  synced : CoreListsSynced s
  status : ∀ l, slave l = true → (s.core l).status = .forward
  used_named : ∀ i < L.maxLcore, (s.component i).type ≠ .unuse → (s.component i).name ≠ []
  named_lcore : ∀ i < L.maxLcore, (s.component i).name ≠ [] →
    slave (s.component i).lcoreId = true ∧ (s.component i).lcoreId < L.maxLcore
  named_listed : ∀ i < L.maxLcore, (s.component i).name ≠ [] →
    i ∈ (s.core (s.component i).lcoreId).updList
  named_id : ∀ i < L.maxLcore, (s.component i).name ≠ [] → (s.component i).componentId = i
  core_flagged : ∀ l, s.changeCore l = true → slave l = true
  component_flagged : ∀ i < L.maxLcore, s.changeComponent i = true → (s.component i).name ≠ []

/-- Before the first request nothing is flagged. -/
theorem served_initMngData (L : Limits) (slave : ℕ → Bool) (numNic mainLcore : ℕ) :
    Served L slave (startForwarding slave mainLcore (initMngData L slave numNic)) := by
  refine ⟨coreListsSynced_initMngData L slave numNic mainLcore, fun l hl => ?_, ?_, ?_, ?_, ?_,
    ?_, ?_⟩
  · simp [startForwarding, hl]
  all_goals simp [startForwarding, initMngData]

/-- A command that keeps all components on their cores may flag named components. -/
theorem Served.of_slotsKept (h : Served L slave s) (hk : SlotsKept s s')
    (hflag : ∀ i < L.maxLcore, s'.changeComponent i = true →
      s.changeComponent i = true ∨ (s.component i).name ≠ []) : Served L slave s' := by
  refine ⟨h.synced.of_slotsKept hk, ?_, ?_, ?_, ?_, ?_, ?_, ?_⟩ <;>
    simp only [hk.name, hk.type, hk.lcoreId, hk.componentId, hk.core, hk.changeCore]
  · exact h.status
  · exact h.used_named
  · exact h.named_lcore
  · exact h.named_listed
  · exact h.named_id
  · exact h.core_flagged
  · intro i hi hf
    rcases hflag i hi hf with hold | hnamed
    · exact h.component_flagged i hi hold
    · exact hnamed

/-- A flag of a component after it is set or cleared. -/
theorem changeComponent_setChangeComponent (s : MngData) (id i : ℕ) (flag : Bool) :
    (s.setChangeComponent id flag).changeComponent i =
      if i = id then flag else s.changeComponent i := by
  by_cases hi : i = id
  · subst hi
    simp
  · simp [hi]

/-- A `port` command flags the component it names. -/
theorem sppUpdatePort_flags {c : CommandPort} (hc : sppUpdatePort L s c = .ok s') (i : ℕ)
    (hi : s'.changeComponent i = true) :
    s.changeComponent i = true ∨ (s.component i).name ≠ [] := by
  obtain ⟨id, port, hid, -, hcases⟩ := sppUpdatePort_cases hc
  obtain ⟨-, hname, hne⟩ := sppGetComponentId_eq_some hid
  have hflag : ∀ t : MngData, t.changeComponent = s.changeComponent →
      (t.setChangeComponent id true).changeComponent i = true →
      s.changeComponent i = true ∨ (s.component i).name ≠ [] := by
    intro t ht hset
    rw [changeComponent_setChangeComponent] at hset
    split at hset
    · rename_i heq
      exact .inr (by rw [heq, hname]; exact hne)
    · exact .inl (by rwa [ht] at hset)
  rcases hcases with ⟨-, hadd⟩ | ⟨-, rfl⟩
  · obtain ⟨-, ⟨-, -, cnt, -, rfl⟩ | ⟨-, -, rfl⟩ | ⟨-, -, info, rfl, -⟩⟩ :=
      sppUpdatePortAdd_cases hadd
    · exact hflag _ rfl hi
    · exact .inl hi
    · exact hflag _ rfl hi
  · unfold sppUpdatePortDel at hi
    dsimp only at hi
    split at hi
    · exact hflag _ rfl hi
    · exact hflag _ rfl hi

/-- A `classifier_table` command flags a used component. -/
theorem sppUpdateClassifierTable_flags {table : CommandClassifierTable}
    (hc : sppUpdateClassifierTable L s table = .ok s') (i : ℕ)
    (hi : s'.changeComponent i = true) :
    s.changeComponent i = true ∨ (s.component i).type ≠ .unuse := by
  obtain ⟨port, classId, t, ht, hs⟩ := sppUpdateClassifierTable_cases hc
  have hkept : t.changeComponent = s.changeComponent := by
    rcases ht with rfl | rfl <;> rfl
  rcases hs with rfl | ⟨id, -, htype, rfl⟩
  · exact .inl (by rwa [hkept] at hi)
  · rw [changeComponent_setChangeComponent] at hi
    split at hi
    · rename_i heq
      subst heq
      refine .inr ?_
      rcases ht with rfl | rfl
      · exact htype
      · exact htype
    · exact .inl (by rwa [hkept] at hi)

/-- A start on a slave lcore keeps everything served. -/
theorem Served.startEdit (h : Served L slave s) {id : ℕ} {c : CommandComponent}
    (hname : c.name ≠ []) (hslave : slave c.core = true) (hcore : c.core < L.maxLcore) :
    Served L slave (startEdit s id c) := by
  refine ⟨h.synced.edit _ _ _ _ _, fun l hl => ?_, fun i hi => ?_, fun i hi => ?_,
    fun i hi => ?_, fun i hi => ?_, fun l hl => ?_, fun i hi hflag => ?_⟩
  · have hindices := core_setUpdList_indices (s.setComponent id
      { name := c.name, type := c.type, lcoreId := c.core, componentId := id }) c.core l
        ((s.core c.core).updList ++ [id])
    exact hindices.2.2.trans (h.status l hl)
  · rw [startEdit_component]
    split
    · exact fun _ => hname
    · exact h.used_named i hi
  · rw [startEdit_component]
    split
    · exact fun _ => ⟨hslave, hcore⟩
    · exact h.named_lcore i hi
  · rw [startEdit_component]
    split
    · rename_i heq
      intro _
      rw [startEdit_updList]
      simp [heq]
    · intro hne
      rw [startEdit_updList]
      split
      · rename_i heq
        rw [← heq]
        exact List.mem_append_left _ (h.named_listed i hi hne)
      · exact h.named_listed i hi hne
  · rw [startEdit_component]
    split
    · rename_i heq
      exact fun _ => heq.symm
    · exact h.named_id i hi
  · by_cases heq : l = c.core
    · rwa [heq]
    · exact h.core_flagged l (by simpa [Spp.Vf.startEdit, heq] using hl)
  · rw [startEdit_component]
    split
    · exact hname
    · rename_i heq
      exact h.component_flagged i hi (by simpa [Spp.Vf.startEdit, heq] using hflag)

/-- A stop keeps everything served. -/
theorem Served.stopEdit (h : Served L slave s) {id : ℕ} (hid : id < L.maxLcore)
    (hused : (s.component id).name ≠ []) : Served L slave (stopEdit s id) := by
  refine ⟨h.synced.edit _ _ _ _ _, fun l hl => ?_, fun i hi => ?_, fun i hi => ?_,
    fun i hi => ?_, fun i hi => ?_, fun l hl => ?_, fun i hi hflag => ?_⟩
  · have hindices := core_setUpdList_indices (s.setComponent id {}) (s.component id).lcoreId l
      ((delComponentInfo id (s.core (s.component id).lcoreId).updList).getD
        (s.core (s.component id).lcoreId).updList)
    exact hindices.2.2.trans (h.status l hl)
  · rw [stopEdit_component]
    split
    · simp
    · exact h.used_named i hi
  · rw [stopEdit_component]
    split
    · simp
    · exact h.named_lcore i hi
  · rw [stopEdit_component]
    split
    · simp
    · rename_i heq
      intro hne
      rw [(stopEdit_updList s id _).mem_iff]
      have hmem := h.named_listed i hi hne
      split
      · exact (List.mem_erase_of_ne heq).mpr hmem
      · exact hmem
  · rw [stopEdit_component]
    split
    · simp
    · exact h.named_id i hi
  · by_cases heq : l = (s.component id).lcoreId
    · rw [heq]
      exact (h.named_lcore id hid hused).1
    · exact h.core_flagged l (by simpa [Spp.Vf.stopEdit, heq] using hl)
  · have heq : i ≠ id := by
      rintro rfl
      simp [Spp.Vf.stopEdit] at hflag
    rw [stopEdit_component, if_neg heq]
    exact h.component_flagged i hi (by simpa [Spp.Vf.stopEdit, heq] using hflag)

/-- A `component` command keeps everything served if it starts on slave lcores only. -/
theorem Served.sppUpdateComponent (h : Served L slave s) {r : Request} {c : CommandComponent}
    (hdecode : sppCommandDecodeRequest L M s r.text = .ok (.component c))
    (hstart : StartOnSlave L M slave r s) (hc : sppUpdateComponent L s c = .ok s') :
    Served L slave s' := by
  obtain ⟨args, hargs, hmin, hmax, hparams⟩ := decodeRequest_component hdecode
  have hreq := componentRequest_of_decode hmin hmax hparams
  have hname := hreq.name_ne_nil hargs
  rcases hreq.action with ⟨-, haction⟩ | ⟨-, haction⟩
  · obtain ⟨hstatus, -, id, hfree, rfl⟩ := sppUpdateComponent_start c haction hc
    have hid := (getFreeComponent_eq_some hfree).1
    have hcore := hreq.core_le
    rcases hstart c hdecode haction with hunuse | hnone | ⟨hslave, -⟩
    · exact absurd hunuse hstatus
    · rw [hfree] at hnone
      cases hnone
    · exact h.startEdit hname hslave (by omega)
  · obtain ⟨-, rfl⟩ | ⟨id, hid, rfl⟩ := sppUpdateComponent_stop c haction hc
    · exact h
    · obtain ⟨hlt, hnameId, -⟩ := sppGetComponentId_eq_some hid
      exact h.stopEdit hlt (by rw [hnameId]; exact hname)

/-- The update function of a request keeps everything served. -/
theorem Served.updateCommand (h : Served L slave s) {r : Request} {command : SppCommand}
    (hdecode : sppCommandDecodeRequest L M s r.text = .ok command)
    (hstart : StartOnSlave L M slave r s)
    (hupdate : updateCommand L s command = some (.ok s')) : Served L slave s' := by
  rcases updateCommand_cases hupdate with ⟨c, rfl, hc⟩ | ⟨c, -, hc⟩ | ⟨c, -, hc⟩
  · exact h.sppUpdateComponent hdecode hstart hc
  · exact h.of_slotsKept (slotsKept_sppUpdatePort hc) fun i _ hi => sppUpdatePort_flags hc i hi
  · refine h.of_slotsKept (slotsKept_sppUpdateClassifierTable hc) fun i hlt hi => ?_
    exact (sppUpdateClassifierTable_flags hc i hi).imp_right (h.used_named i hlt)

/-- New devices keep everything served. -/
theorem Served.setDevices (h : Served L slave s) (iface' : PortRef → PortInfo) :
    Served L slave { s with iface := iface' } :=
  ⟨⟨h.synced.indices_ne, h.synced.synced⟩, h.status, h.used_named, h.named_lcore, h.named_listed,
    h.named_id, h.core_flagged, h.component_flagged⟩

/-- A core keeps its status in a flush. -/
theorem flushCore_status (L : Limits) (s : MngData) (l : ℕ) :
    ((flushCore L s).core l).status = (s.core l).status := by
  simp only [flushCore]
  split
  · unfold CoreMngInfo.publish CoreMngInfo.takeUpdate CoreMngInfo.copyBack
    dsimp only
    split <;> rfl
  · rfl

/-- The publication of the core lists keeps everything served. -/
theorem Served.flushCore (h : Served L slave s) :
    Served L slave (backupMngInfo L (flushCore L s)) := by
  refine ⟨h.synced.flushCore, fun l hl => ?_, h.used_named, h.named_lcore, fun i hi hne => ?_,
    h.named_id, fun l hl => ?_, fun i hi hflag => ?_⟩
  · exact (flushCore_status L s l).trans (h.status l hl)
  · exact (updList_flushCore (h.synced.indices_ne _)).symm ▸ h.named_listed i hi hne
  · by_cases hlt : l < L.maxLcore
    · simp [backupMngInfo, hlt] at hl
    · exact h.core_flagged l (by simpa [backupMngInfo, Spp.Vf.flushCore, hlt] using hl)
  · simp [backupMngInfo, hi] at hflag

/-- One request that starts on slave lcores only keeps everything served. -/
theorem Served.serve (h : Served L slave s) {r : Request} (hstart : StartOnSlave L M slave r s)
    (hr : serve L M r s = some s') : Served L slave s' := by
  obtain ⟨ret, hr⟩ := serve_eq_some.mp hr
  obtain rfl | ⟨command, s₁, hdecode, hupdate, hflush⟩ := processRequest_cases hr
  · exact h
  · have hmid := h.updateCommand hdecode hstart hupdate
    obtain ⟨iface', -, ⟨-, -, rfl⟩ | ⟨-, -, rfl⟩⟩ := sppFlush_cases hflush
    · exact hmid.setDevices iface'
    · exact (hmid.setDevices iface').flushCore

end Invariant

section Waits

/-- The core table once `flush_core` has moved the update index of every
flagged core. -/
def publishCores (L : Limits) (s : MngData) : ℕ → CoreMngInfo := fun l =>
  if l < L.maxLcore ∧ s.changeCore l = true then (s.core l).publish else s.core l

/-- The workers once the update function of component `i` has moved the update
index of its pair. -/
def publishComponent (s : MngData) (i : ℕ) (w : Workers) : Workers :=
  let component := s.component i
  w.setIndices component.type component.componentId
    (w.indices component.type component.componentId).publish

/-- Everything a flush waits for answers: `s` are the tables when `flush_core`
begins, and `flushCore L s` those when `flush_component` begins. -/
structure FlushAnswered (L : Limits) (slave : ℕ → Bool) (s : MngData) : Prop where
  /-- A flagged core is a slave lcore that forwards. -/
  core_slave : ∀ l < L.maxLcore, s.changeCore l = true →
    slave l = true ∧ (s.core l).status = .forward
  /-- A flagged component is in the list that such an lcore runs. -/
  component_listed : ∀ i < L.maxLcore, (flushCore L s).changeComponent i = true →
    ∃ l < L.maxLcore, slave l = true ∧ ((flushCore L s).core l).status = .forward ∧
      i ∈ ((flushCore L s).core l).refList
  /-- The wait for a core ends once every slave lcore has made a pass, and the
  copy that follows leaves the core as `flushCore` has it. -/
  core_wait : ∀ forward classifier lcores, (∀ l, slave l = true → l ∈ lcores) →
    ∀ l < L.maxLcore, s.changeCore l = true →
      let w := slaveMainPasses s.component ⟨publishCores L s, forward, classifier⟩ lcores
      (w.core l).refIndex ≠ (w.core l).updIndex ∧
        (w.core l).copyBack = (flushCore L s).core l
  /-- So does the wait for a component, whatever the index pairs are before it. -/
  component_wait : ∀ forward classifier lcores, (∀ l, slave l = true → l ∈ lcores) →
    ∀ i < L.maxLcore, (flushCore L s).changeComponent i = true →
      let w := slaveMainPasses s.component
        (publishComponent s i ⟨(flushCore L s).core, forward, classifier⟩) lcores
      let ix := w.indices (s.component i).type (s.component i).componentId
      ix.ref ≠ ix.upd

/-- Where everything is served, a flush is answered. -/
theorem Served.flushAnswered (h : Served L slave s) : FlushAnswered L slave s := by
  have hlisted : ∀ i < L.maxLcore, s.changeComponent i = true →
      slave (s.component i).lcoreId = true ∧ (s.component i).lcoreId < L.maxLcore ∧
        i ∈ ((Spp.Vf.flushCore L s).core (s.component i).lcoreId).refList := by
    intro i hi hflag
    have hnamed := h.component_flagged i hi hflag
    obtain ⟨hslave, hlt⟩ := h.named_lcore i hi hnamed
    refine ⟨hslave, hlt, ?_⟩
    have hmem := h.named_listed i hi hnamed
    by_cases hcore : s.changeCore (s.component i).lcoreId = true
    · rwa [refList_flushCore hlt hcore (h.synced.indices_ne _)]
    · have hsame : (Spp.Vf.flushCore L s).core (s.component i).lcoreId =
          s.core (s.component i).lcoreId := by
        simp [Spp.Vf.flushCore, hcore]
      rwa [hsame, h.synced.synced _ (by simpa using hcore)]
  refine ⟨fun l _ hflag => ?_, fun i hi hflag => ?_, ?_, ?_⟩
  · have hslave := h.core_flagged l hflag
    exact ⟨hslave, h.status l hslave⟩
  · obtain ⟨hslave, hlt, hmem⟩ := hlisted i hi hflag
    exact ⟨_, hlt, hslave, (flushCore_status L s _).trans (h.status _ hslave), hmem⟩
  · intro forward classifier lcores hall l hl hflag
    have hslave := h.core_flagged l hflag
    have hpub : publishCores L s l = (s.core l).publish := if_pos ⟨hl, hflag⟩
    have hcore : (slaveMainPasses s.component ⟨publishCores L s, forward, classifier⟩
        lcores).core l = (s.core l).publish.takeUpdate := by
      rw [slaveMainPasses_core, if_pos ⟨hall l hslave,
        (congrArg CoreMngInfo.status hpub).trans (h.status l hslave)⟩]
      exact congrArg CoreMngInfo.takeUpdate hpub
    dsimp only
    rw [hcore]
    exact ⟨takeUpdate_ne _, (if_pos ⟨hl, hflag⟩ : (Spp.Vf.flushCore L s).core l = _).symm⟩
  · intro forward classifier lcores hall i hi hflag
    obtain ⟨hslave, hlt, hmem⟩ := hlisted i hi hflag
    have hid := h.named_id i hi (h.component_flagged i hi hflag)
    dsimp only
    rw [hid]
    refine slaveMainPasses_ne _ (.inl ⟨hall _ hslave, ?_, ?_, ?_⟩)
    · simpa [publishComponent] using (flushCore_status L s _).trans (h.status _ hslave)
    · simpa [publishComponent] using flushCore_indices_ne (L := L) (h.synced.indices_ne _)
    · simpa [publishComponent] using hmem

/-- In every run whose accepted starts name slave lcores, every flush is answered. -/
theorem flushAnswered_of_reaches (slave : ℕ → Bool) (numNic mainLcore : ℕ)
    (h : Reaches (serve L M) (StartOnSlave L M slave)
      (startForwarding slave mainLcore (initMngData L slave numNic)) s)
    {r : Request} (hstart : StartOnSlave L M slave r s) {command : SppCommand} {s₁ s₂ : MngData}
    (hdecode : sppCommandDecodeRequest L M s r.text = .ok command)
    (hupdate : updateCommand L s command = some (.ok s₁))
    (hport : flushPort L r.dev s₁ = (.ok, s₂)) : FlushAnswered L slave s₂ := by
  have hserved : Served L slave s :=
    h.invariant (served_initMngData L slave numNic mainLcore)
      fun _ _ _ hinv hguard hstep => hinv.serve hguard hstep
  obtain ⟨iface', -, hsnd⟩ := flushPort_snd L r.dev s₁
  rw [hport] at hsnd
  dsimp only at hsnd
  subst hsnd
  exact ((hserved.updateCommand hdecode hstart hupdate).setDevices iface').flushAnswered

/-- A start that is not refused reaches the flush with its core flagged. -/
theorem start_reaches_flush {c : CommandComponent} {id : ℕ} {dev : Devices} (hdev : dev.Succeed)
    (haction : c.action = .start) (hstatus : (s.core c.core).status ≠ .unuse)
    (hname : sppGetComponentId L s c.name = none) (hfree : getFreeComponent L s = some id) :
    ∃ s₁ s₂, updateCommand L s (.component c) = some (.ok s₁) ∧
      flushPort L dev s₁ = (.ok, s₂) ∧ s₂.changeCore c.core = true ∧
      (s₂.core c.core).status = (s.core c.core).status := by
  obtain ⟨iface', -, hsnd⟩ := flushPort_snd L dev (startEdit s id c)
  refine ⟨startEdit s id c, _, ?_, Prod.ext (flushPort_ok hdev _) hsnd, ?_, ?_⟩
  · simp [updateCommand, sppUpdateComponent, haction, sppUpdateComponentStart, hstatus, hname,
      hfree, startEdit]
  · simp [startEdit]
  · simp [startEdit]

/-- A forwarder is started on lcore 1, a slave lcore. -/
def startOnSlave : Request := .ofString "component start f1 1 forward"

/-- A forwarder is started on lcore 0, where the manager runs. -/
def startOnMain : Request := .ofString "component start f1 0 forward"

/-- The start on the slave lcore is answered. -/
theorem flushAnswered_startOnSlave :
    ∃ command s₁ s₂, sppCommandDecodeRequest .default .vf bootState startOnSlave.text =
        .ok command ∧ updateCommand .default bootState command = some (.ok s₁) ∧
      flushPort .default startOnSlave.dev s₁ = (.ok, s₂) ∧ s₂.changeCore 1 = true ∧
      FlushAnswered .default (fun l => l = 1) s₂ := by
  have hdecode : sppCommandDecodeRequest .default .vf bootState startOnSlave.text =
      .ok (.component ⟨.start, "f1".toList, 1, .forward⟩) := by decide +kernel
  have hfree : getFreeComponent .default bootState = some 0 := by decide +kernel
  obtain ⟨s₁, s₂, hupdate, hport, hflag, -⟩ :=
    start_reaches_flush (c := ⟨.start, "f1".toList, 1, .forward⟩)
      (succeed_ofString "component start f1 1 forward") rfl (by decide) (by decide +kernel) hfree
  refine ⟨_, s₁, s₂, hdecode, hupdate, hport, hflag,
    flushAnswered_of_reaches _ _ _ .refl (fun c hc haction => ?_) hdecode hupdate hport⟩
  cases Except.ok.inj (hdecode.symm.trans hc)
  exact .inr (.inr ⟨rfl, by decide⟩)

/-- The start on the lcore of the manager is accepted, and the flush waits for
ever, whichever lcores make passes. -/
theorem not_flushAnswered_startOnMain :
    ∃ command s₁ s₂, sppCommandDecodeRequest .default .vf bootState startOnMain.text =
        .ok command ∧ updateCommand .default bootState command = some (.ok s₁) ∧
      flushPort .default startOnMain.dev s₁ = (.ok, s₂) ∧
      ¬ FlushAnswered .default (fun l => l = 1) s₂ ∧
      ∀ forward classifier lcores,
        let w := slaveMainPasses s₂.component ⟨publishCores .default s₂, forward, classifier⟩ lcores
        (w.core 0).refIndex = (w.core 0).updIndex := by
  have hdecode : sppCommandDecodeRequest .default .vf bootState startOnMain.text =
      .ok (.component ⟨.start, "f1".toList, 0, .forward⟩) := by decide +kernel
  have hfree : getFreeComponent .default bootState = some 0 := by decide +kernel
  obtain ⟨s₁, s₂, hupdate, hport, hflag, hstatus⟩ :=
    start_reaches_flush (c := ⟨.start, "f1".toList, 0, .forward⟩)
      (succeed_ofString "component start f1 0 forward") rfl (by decide) (by decide +kernel) hfree
  refine ⟨_, s₁, s₂, hdecode, hupdate, hport, fun hok => ?_, fun forward classifier lcores => ?_⟩
  · simpa using (hok.core_slave 0 (by decide) hflag).1
  · have hpub : publishCores .default s₂ 0 = (s₂.core 0).publish := if_pos ⟨by decide, hflag⟩
    have hidle : (publishCores .default s₂ 0).status = .idle := by
      rw [hpub]
      exact hstatus
    dsimp only
    rw [slaveMainPasses_core, if_neg (by simp [hidle])]
    dsimp only
    rw [hpub]
    rfl

end Waits

end Spp.Vf
