import Mathlib.Data.List.Nodup
import Mathlib.Data.List.Perm.Subperm
import Spp.Lib.GuardedRun
import Spp.Vf.CommandSpec

/-!
# The tables of components and cores

A component slot in use has a name and a type, and its id stands once in the
list of one core. `component start` keeps this only when the request carries a
type: without one the slot is named but still counts as free. Every other
request, and every flush, keeps it.
-/

namespace Spp.Vf

open CLib GuardedRun

variable {L : Limits} {M : SppModule} {s s' : MngData}

section SlotsKept

/-- Two states with the same components on the same cores. They may differ in
the ports, in the interface table and in the change flags of components. -/
structure SlotsKept (s s' : MngData) : Prop where
  name : ∀ i, (s'.component i).name = (s.component i).name
  type : ∀ i, (s'.component i).type = (s.component i).type
  lcoreId : ∀ i, (s'.component i).lcoreId = (s.component i).lcoreId
  componentId : ∀ i, (s'.component i).componentId = (s.component i).componentId
  core : s'.core = s.core
  changeCore : s'.changeCore = s.changeCore

theorem SlotsKept.refl (s : MngData) : SlotsKept s s :=
  ⟨fun _ => rfl, fun _ => rfl, fun _ => rfl, fun _ => rfl, rfl, rfl⟩

theorem SlotsKept.setChangeComponent (h : SlotsKept s s') (id : ℕ) (flag : Bool) :
    SlotsKept s (s'.setChangeComponent id flag) :=
  ⟨h.name, h.type, h.lcoreId, h.componentId, h.core, h.changeCore⟩

theorem SlotsKept.setIface (h : SlotsKept s s') (port : PortRef) (info : PortInfo) :
    SlotsKept s (s'.setIface port info) :=
  ⟨h.name, h.type, h.lcoreId, h.componentId, h.core, h.changeCore⟩

/-- New ports in a slot leave its name, its type and its core. -/
theorem SlotsKept.setPorts (h : SlotsKept s s') (id : ℕ) (rxtx : PortRxtx) (ports : List PortRef) :
    SlotsKept s (s'.setComponent id ((s.component id).setPorts rxtx ports)) := by
  have hslot : ∀ i, ∃ rx tx,
      (s'.setComponent id ((s.component id).setPorts rxtx ports)).component i =
        { (if i = id then s.component i else s'.component i) with rxPorts := rx, txPorts := tx } := by
    intro i
    by_cases hi : i = id
    · subst hi
      unfold ComponentInfo.setPorts
      split
      · exact ⟨ports, (s.component i).txPorts, by simp⟩
      · exact ⟨(s.component i).rxPorts, ports, by simp⟩
    · exact ⟨(s'.component i).rxPorts, (s'.component i).txPorts, by simp [hi]⟩
  refine ⟨fun i => ?_, fun i => ?_, fun i => ?_, fun i => ?_, h.core, h.changeCore⟩ <;>
    obtain ⟨rx, tx, heq⟩ := hslot i <;> rw [heq] <;> dsimp only <;> split
  · rfl
  · exact h.name i
  · rfl
  · exact h.type i
  · rfl
  · exact h.lcoreId i
  · rfl
  · exact h.componentId i

/-- A `port` command leaves all components on their cores. -/
theorem slotsKept_sppUpdatePort {c : CommandPort} (h : sppUpdatePort L s c = .ok s') :
    SlotsKept s s' := by
  obtain ⟨id, port, -, -, ⟨-, hadd⟩ | ⟨-, rfl⟩⟩ := sppUpdatePort_cases h
  · obtain ⟨-, ⟨-, -, cnt, -, rfl⟩ | ⟨-, -, rfl⟩ | ⟨-, -, info, rfl, -⟩⟩ :=
      sppUpdatePortAdd_cases hadd
    · exact ((SlotsKept.refl s).setIface _ _).setChangeComponent _ _
    · exact .refl _
    · exact (((SlotsKept.refl s).setIface _ _).setPorts _ _ _).setChangeComponent _ _
  · unfold sppUpdatePortDel
    dsimp only
    split
    · exact (((SlotsKept.refl s).setIface _ _).setPorts _ _ _).setChangeComponent _ _
    · exact ((SlotsKept.refl s).setIface _ _).setChangeComponent _ _

/-- A `classifier_table` command leaves all components on their cores. -/
theorem slotsKept_sppUpdateClassifierTable {table : CommandClassifierTable}
    (h : sppUpdateClassifierTable L s table = .ok s') : SlotsKept s s' := by
  obtain ⟨port, classId, t, ht, hs⟩ := sppUpdateClassifierTable_cases h
  have hkept : SlotsKept s t := by
    rcases ht with rfl | rfl
    · exact .refl t
    · exact (SlotsKept.refl s).setIface _ _
  rcases hs with rfl | ⟨id, -, -, rfl⟩
  · exact hkept
  · exact hkept.setChangeComponent _ _

/-- The four effects an update function can have on components and cores. -/
theorem updateCommand_slots {command : SppCommand} (h : updateCommand L s command = some (.ok s')) :
    SlotsKept s s' ∨
      ∃ c, command = .component c ∧ sppUpdateComponent L s c = .ok s' := by
  rcases updateCommand_cases h with ⟨c, rfl, hc⟩ | ⟨c, -, hc⟩ | ⟨c, -, hc⟩
  · exact .inr ⟨c, rfl, hc⟩
  · exact .inl (slotsKept_sppUpdatePort hc)
  · exact .inl (slotsKept_sppUpdateClassifierTable hc)

end SlotsKept

section Synced

/-- The two sides of every core's list: the indices differ, and the sides are
equal unless the core is flagged. -/
structure CoreListsSynced (s : MngData) : Prop where
  indices_ne : ∀ l, (s.core l).refIndex ≠ (s.core l).updIndex
  synced : ∀ l, s.changeCore l = false → (s.core l).refList = (s.core l).updList

theorem CoreListsSynced.of_slotsKept (h : CoreListsSynced s) (hk : SlotsKept s s') :
    CoreListsSynced s' :=
  ⟨by simpa only [hk.core] using h.indices_ne,
    by simpa only [hk.core, hk.changeCore] using h.synced⟩

/-- Editing an update side keeps the sides synced once the core is flagged. -/
theorem CoreListsSynced.edit (h : CoreListsSynced s) (id l : ℕ) (c : ComponentInfo) (flag : Bool)
    (ids : List ℕ) :
    CoreListsSynced ((((s.setComponent id c).setUpdList l ids).setChangeComponent id
      flag).setChangeCore l) := by
  refine ⟨fun l' => ?_, fun l' hflag => ?_⟩
  · have hindex := core_setUpdList_indices (s.setComponent id c) l l' ids
    simp only [MngData.setChangeCore_core, MngData.setChangeComponent_core, hindex.1, hindex.2.1]
    exact h.indices_ne l'
  · have hne : l' ≠ l := by
      rintro rfl
      simp at hflag
    have hold : s.changeCore l' = false := by simpa [hne] using hflag
    simpa [hne] using h.synced l' hold

/-- A `component` command keeps the sides synced. -/
theorem CoreListsSynced.sppUpdateComponent (h : CoreListsSynced s) {c : CommandComponent}
    (hc : sppUpdateComponent L s c = .ok s') : CoreListsSynced s' := by
  cases haction : c.action with
  | start =>
    obtain ⟨-, -, id, -, rfl⟩ := sppUpdateComponent_start c haction hc
    exact h.edit _ _ _ _ _
  | stop =>
    obtain ⟨-, rfl⟩ | ⟨id, -, rfl⟩ := sppUpdateComponent_stop c haction hc
    · exact h
    · exact h.edit _ _ _ _ _
  | none | add | del => simp [Spp.Vf.sppUpdateComponent, haction] at hc

/-- Publishing the flagged cores syncs them and leaves the others as they are. -/
theorem CoreListsSynced.flushCore (h : CoreListsSynced s) :
    CoreListsSynced (backupMngInfo L (flushCore L s)) := by
  refine ⟨fun l => flushCore_indices_ne (h.indices_ne l), fun l hflag => ?_⟩
  by_cases hl : l < L.maxLcore
  · by_cases hc : s.changeCore l = true
    · exact (refList_flushCore hl hc (h.indices_ne l)).trans
        (updList_flushCore (h.indices_ne l)).symm
    · simpa [Spp.Vf.flushCore, backupMngInfo, hc] using h.synced l (by simpa using hc)
  · have hold : s.changeCore l = false := by
      simpa [backupMngInfo, Spp.Vf.flushCore, hl] using hflag
    simpa [Spp.Vf.flushCore, backupMngInfo, hl] using h.synced l hold

/-- A flush keeps the sides synced, wherever it stops. -/
theorem CoreListsSynced.sppFlush (h : CoreListsSynced s) {dev : Devices} {ret : Ret}
    (hf : sppFlush L M dev s = (ret, s')) : CoreListsSynced s' := by
  obtain ⟨iface', -, ⟨-, -, rfl⟩ | ⟨-, -, rfl⟩⟩ := sppFlush_cases hf
  · exact ⟨h.indices_ne, h.synced⟩
  · exact CoreListsSynced.flushCore (s := { s with iface := iface' }) ⟨h.indices_ne, h.synced⟩

/-- Any request keeps the two sides of the core lists synced. -/
theorem CoreListsSynced.serve (h : CoreListsSynced s) {r : Request}
    (hr : serve L M r s = some s') : CoreListsSynced s' := by
  obtain ⟨ret, hr⟩ := serve_eq_some.mp hr
  obtain rfl | ⟨command, s₁, -, hupdate, hflush⟩ := processRequest_cases hr
  · exact h
  · refine CoreListsSynced.sppFlush ?_ hflush
    rcases updateCommand_slots hupdate with hk | ⟨c, -, hc⟩
    · exact h.of_slotsKept hk
    · exact h.sppUpdateComponent hc

/-- The two sides of every core's list are in order before the first request. -/
theorem coreListsSynced_initMngData (L : Limits) (slave : ℕ → Bool) (numNic mainLcore : ℕ) :
    CoreListsSynced (startForwarding slave mainLcore (initMngData L slave numNic)) :=
  ⟨fun _ => by simp [startForwarding, initMngData, initCoreInfo], fun _ _ => rfl⟩

/-- They are in order in every state between two requests. -/
theorem coreListsSynced_of_reaches {slave : ℕ → Bool} {numNic mainLcore : ℕ}
    {guard : Request → MngData → Prop}
    (h : Reaches (serve L M) guard
      (startForwarding slave mainLcore (initMngData L slave numNic)) s) : CoreListsSynced s :=
  h.invariant (coreListsSynced_initMngData L slave numNic mainLcore)
    fun _ _ _ hinv _ hstep => hinv.serve hstep

end Synced

section UpdateTable

/-- The slots and the update-side lists describe the same components. -/
structure UpdateTable (L : Limits) (s : MngData) : Prop where
  named_iff : ∀ i < L.maxLcore, (s.component i).name ≠ [] ↔ (s.component i).type ≠ .unuse
  names_distinct : ∀ i < L.maxLcore, ∀ j < L.maxLcore, (s.component i).name ≠ [] →
    (s.component i).name = (s.component j).name → i = j
  lcore_lt : ∀ i < L.maxLcore, (s.component i).name ≠ [] → (s.component i).lcoreId < L.maxLcore
  count_updList : ∀ i < L.maxLcore, (s.component i).name ≠ [] → ∀ l,
    (s.core l).updList.count i = if l = (s.component i).lcoreId then 1 else 0
  mem_updList : ∀ l, ∀ i ∈ (s.core l).updList, i < L.maxLcore ∧ (s.component i).name ≠ []

/-- The table speaks of names, types, cores and update-side lists only. -/
theorem UpdateTable.congr (h : UpdateTable L s)
    (hname : ∀ i, (s'.component i).name = (s.component i).name)
    (htype : ∀ i, (s'.component i).type = (s.component i).type)
    (hlcore : ∀ i, (s'.component i).lcoreId = (s.component i).lcoreId)
    (hupd : ∀ l, (s'.core l).updList = (s.core l).updList) : UpdateTable L s' := by
  constructor <;> simp only [hname, htype, hlcore, hupd]
  · exact h.named_iff
  · exact h.names_distinct
  · exact h.lcore_lt
  · exact h.count_updList
  · exact h.mem_updList

theorem UpdateTable.of_slotsKept (h : UpdateTable L s) (hk : SlotsKept s s') : UpdateTable L s' :=
  h.congr hk.name hk.type hk.lcoreId (fun l => by rw [hk.core])

/-- An unused slot is in no list. -/
theorem UpdateTable.not_mem_of_unuse (h : UpdateTable L s) {id : ℕ} (hid : id < L.maxLcore)
    (htype : (s.component id).type = .unuse) (l : ℕ) : id ∉ (s.core l).updList :=
  fun hmem => (h.named_iff id hid).mp (h.mem_updList l id hmem).2 htype

/-- The component slots after a start. -/
theorem startEdit_component (s : MngData) (id : ℕ) (c : CommandComponent) (i : ℕ) :
    (startEdit s id c).component i =
      if i = id then { name := c.name, type := c.type, lcoreId := c.core, componentId := id }
      else s.component i := by
  by_cases hi : i = id
  · subst hi
    simp [startEdit]
  · simp [startEdit, hi]

/-- The update-side lists after a start. -/
theorem startEdit_updList (s : MngData) (id : ℕ) (c : CommandComponent) (l : ℕ) :
    ((startEdit s id c).core l).updList =
      if l = c.core then (s.core c.core).updList ++ [id] else (s.core l).updList := by
  simp only [startEdit, MngData.setChangeCore_core, MngData.setChangeComponent_core,
    updList_setUpdList, MngData.setComponent_core]

/-- The component slots after a stop. -/
theorem stopEdit_component (s : MngData) (id i : ℕ) :
    (stopEdit s id).component i = if i = id then {} else s.component i := by
  by_cases hi : i = id
  · subst hi
    simp [stopEdit]
  · simp [stopEdit, hi]

/-- The update-side lists after a stop. -/
theorem stopEdit_updList (s : MngData) (id l : ℕ) :
    (((stopEdit s id).core l).updList).Perm
      (if l = (s.component id).lcoreId then (s.core l).updList.erase id
        else (s.core l).updList) := by
  by_cases hl : l = (s.component id).lcoreId
  · subst hl
    simp only [stopEdit, MngData.setChangeCore_core, MngData.setChangeComponent_core,
      updList_setUpdList, if_true]
    cases hidx : lastIdxOf? id (s.core (s.component id).lcoreId).updList with
    | none =>
      rw [List.erase_of_not_mem (lastIdxOf?_eq_none.mp hidx)]
      simp [delComponentInfo, hidx]
    | some k => simpa [delComponentInfo, hidx] using eraseIdx_lastIdxOf?_perm hidx
  · simp [stopEdit, hl]

/-- A start with a new name and a type in an unused slot keeps the table. -/
theorem UpdateTable.startEdit (h : UpdateTable L s) {id : ℕ} {c : CommandComponent}
    (hid : id < L.maxLcore) (hfree : (s.component id).type = .unuse) (hname : c.name ≠ [])
    (hnew : ∀ i < L.maxLcore, (s.component i).name ≠ c.name) (hcore : c.core < L.maxLcore)
    (htype : c.type ≠ .unuse) : UpdateTable L (startEdit s id c) := by
  have hnot := h.not_mem_of_unuse hid hfree
  refine ⟨fun i hi => ?_, fun i hi j hj => ?_, fun i hi => ?_, fun i hi => ?_, fun l i hmem => ?_⟩
  · rw [startEdit_component]
    split
    · simp [hname, htype]
    · exact h.named_iff i hi
  · rw [startEdit_component, startEdit_component]
    split <;> split
    · rename_i hi' hj'
      exact fun _ _ => hi'.trans hj'.symm
    · exact fun _ heq => absurd heq.symm (hnew j hj)
    · exact fun _ heq => absurd heq (hnew i hi)
    · exact h.names_distinct i hi j hj
  · rw [startEdit_component]
    split
    · exact fun _ => hcore
    · exact h.lcore_lt i hi
  · rw [startEdit_component]
    intro hused l
    rw [startEdit_updList]
    by_cases hi' : i = id
    · subst hi'
      simp only [if_true]
      by_cases hl : l = c.core
      · subst hl
        simp [List.count_eq_zero.mpr (hnot c.core)]
      · simp [hl, List.count_eq_zero.mpr (hnot l)]
    · rw [if_neg hi'] at hused ⊢
      rw [← h.count_updList i hi hused l]
      by_cases hl : l = c.core
      · subst hl
        simp [List.count_append, Ne.symm hi']
      · simp [hl]
  · rw [startEdit_component]
    rw [startEdit_updList] at hmem
    by_cases hi' : i = id
    · subst hi'
      simpa using ⟨hid, hname⟩
    · rw [if_neg hi']
      split at hmem
      · rename_i hl
        rcases List.mem_append.mp hmem with hold | hnew'
        · exact h.mem_updList _ i hold
        · exact absurd (List.mem_singleton.mp hnew') hi'
      · exact h.mem_updList l i hmem

/-- A stop of a component in use keeps the table. -/
theorem UpdateTable.stopEdit (h : UpdateTable L s) {id : ℕ} (hid : id < L.maxLcore)
    (hused : (s.component id).name ≠ []) : UpdateTable L (stopEdit s id) := by
  have hcount := h.count_updList id hid hused
  refine ⟨fun i hi => ?_, fun i hi j hj => ?_, fun i hi => ?_, fun i hi => ?_, fun l i hmem => ?_⟩
  · rw [stopEdit_component]
    split
    · simp
    · exact h.named_iff i hi
  · rw [stopEdit_component, stopEdit_component]
    split <;> split
    · simp
    · simp
    · exact fun hne heq => absurd heq hne
    · exact h.names_distinct i hi j hj
  · rw [stopEdit_component]
    split
    · simp
    · exact h.lcore_lt i hi
  · rw [stopEdit_component]
    intro hused' l
    have hi' : i ≠ id := by
      rintro rfl
      simp at hused'
    rw [if_neg hi'] at hused' ⊢
    rw [(stopEdit_updList s id l).count_eq, ← h.count_updList i hi hused' l]
    split
    · exact List.count_erase_of_ne (by simpa using hi')
    · rfl
  · rw [(stopEdit_updList s id l).mem_iff] at hmem
    have hold : i ∈ (s.core l).updList := by
      split at hmem
      · exact List.mem_of_mem_erase hmem
      · exact hmem
    -- The id of the stopped component occurred once, so it is gone from every list.
    have hi' : i ≠ id := by
      rintro rfl
      by_cases hl : l = (s.component i).lcoreId
      · rw [if_pos hl, ← List.count_pos_iff, List.count_erase_self, hcount l, if_pos hl] at hmem
        omega
      · have hzero := hcount l
        rw [if_neg hl] at hzero
        exact List.count_eq_zero.mp hzero hold
    rw [stopEdit_component, if_neg hi']
    exact h.mem_updList l i hold

end UpdateTable

section Run

/-- The slots, the names and the core lists between two requests. -/
structure ComponentTableOk (L : Limits) (s : MngData) : Prop where
  /-- The named slots are the used ones. -/
  named_iff : ∀ i < L.maxLcore, (s.component i).name ≠ [] ↔ (s.component i).type ≠ .unuse
  /-- No two slots share a name. -/
  names_distinct : ∀ i < L.maxLcore, ∀ j < L.maxLcore, (s.component i).name ≠ [] →
    (s.component i).name = (s.component j).name → i = j
  /-- The id of a named slot stands once in the list of its core and in no other. -/
  listed_once : ∀ i < L.maxLcore, (s.component i).name ≠ [] →
    (s.component i).lcoreId < L.maxLcore ∧
      ∀ l < L.maxLcore, (s.core l).updList.count i = if l = (s.component i).lcoreId then 1 else 0
  /-- Either side of a core list holds ids of named slots only. -/
  listed_named : ∀ l < L.maxLcore, ∀ area, ∀ i ∈ (s.core l).core area,
    i < L.maxLcore ∧ (s.component i).name ≠ []
  /-- No core list outgrows its array. -/
  num_le : ∀ l < L.maxLcore, ∀ area, ((s.core l).core area).length ≤ L.maxLcore

/-- Devices that can all be created. -/
structure Devices.Succeed (dev : Devices) : Prop where
  addVhostPmd : ∀ no, 0 ≤ dev.addVhostPmd no
  addRingPmd : ∀ no, 0 ≤ dev.addRingPmd no
  classifierMacUpdate : ∀ id, dev.classifierMacUpdate id = .ok

theorem succeed_ofString (text : String) : (Request.ofString text).dev.Succeed :=
  ⟨fun _ => Int.le_refl 0, fun _ => Int.le_refl 0, fun _ => rfl⟩

/-- A request that is no start, is refused, or carries all five tokens. -/
def TypedStart (L : Limits) (M : SppModule) (r : Request) (s : MngData) : Prop :=
  ∀ c, sppCommandDecodeRequest L M s r.text = .ok (.component c) → c.action = .start →
    (strtok ' ' r.text).length = 5 ∨ (s.core c.core).status = .unuse ∨ getFreeComponent L s = none

/-- The state with other core statuses: those of `init_mng_data` do not matter
here, and `main` and the workers change them before commands are served. -/
@[simps] def MngData.withStatus (s : MngData) (status : ℕ → CoreStatus) : MngData :=
  { s with core := fun l => { s.core l with status := status l } }

/-- What holds of the tables between two requests. -/
structure TableInv (L : Limits) (s : MngData) : Prop where
  table : UpdateTable L s
  synced : CoreListsSynced s
  flushed : ∀ l < L.maxLcore, s.changeCore l = false

/-- The tables before the first request. -/
theorem tableInv_initMngData (L : Limits) (slave : ℕ → Bool) (numNic : ℕ)
    (status : ℕ → CoreStatus) : TableInv L ((initMngData L slave numNic).withStatus status) := by
  refine ⟨⟨?_, ?_, ?_, ?_, ?_⟩, ⟨?_, ?_⟩, ?_⟩ <;>
    simp [initMngData, initCoreInfo, CoreMngInfo.updList, CoreMngInfo.refList]

/-- The device loop succeeds when each device can be created. -/
theorem flushPortArray_ok {addPmd : ℕ → ℤ} (h : ∀ no, 0 ≤ addPmd no) (ports : List PortRef)
    (s : MngData) : (flushPortArray addPmd ports s).1 = .ok := by
  induction ports generalizing s with
  | nil => rfl
  | cons port ports ih =>
    unfold flushPortArray
    split
    · rename_i t ht
      unfold flushPortEntry at ht
      have hno := h (s.iface port).ifaceNo
      dsimp only at ht
      split at ht
      · rw [if_neg (by omega)] at ht
        cases ht
      · cases ht
    · exact ih _

/-- `flush_port` succeeds when each device can be created. -/
theorem flushPort_ok {dev : Devices} (h : dev.Succeed) (s : MngData) :
    (flushPort L dev s).1 = .ok := by
  unfold flushPort
  split
  · rename_i t ht
    have hok := flushPortArray_ok h.addVhostPmd
      ((List.range L.maxEthports).map (PortRef.mk .vhost)) s
    rw [ht] at hok
    cases hok
  · exact flushPortArray_ok h.addRingPmd _ _

/-- A flush whose devices can all be created leaves no flag. -/
theorem sppFlush_flushed {dev : Devices} (hdev : dev.Succeed) {ret : Ret}
    (h : sppFlush L M dev s = (ret, s')) : ∀ l < L.maxLcore, s'.changeCore l = false := by
  obtain ⟨iface', -, ⟨hport, -, -⟩ | ⟨-, -, rfl⟩⟩ := sppFlush_cases h
  · have hok := flushPort_ok (L := L) hdev s
    rw [hport] at hok
    cases hok
  · intro l hl
    simp [backupMngInfo, hl]

/-- A flush leaves the slots and the update-side lists. -/
theorem UpdateTable.sppFlush (h : UpdateTable L s) (hs : CoreListsSynced s) {dev : Devices}
    {ret : Ret} (hf : sppFlush L M dev s = (ret, s')) : UpdateTable L s' := by
  obtain ⟨iface', -, ⟨-, -, rfl⟩ | ⟨-, -, rfl⟩⟩ := sppFlush_cases hf
  · exact h.congr (fun _ => rfl) (fun _ => rfl) (fun _ => rfl) (fun _ => rfl)
  · exact h.congr (fun _ => rfl) (fun _ => rfl) (fun _ => rfl)
      (fun l => updList_flushCore (s := { s with iface := iface' }) (hs.indices_ne l))

/-- The name of an accepted `component` request is a token, so it is not empty. -/
theorem ComponentRequest.name_ne_nil {args : List CStr} {c : CommandComponent} {text : CStr}
    {command : CStr} (h : ComponentRequest L s args c)
    (hargs : strtok ' ' text = command :: args) : c.name ≠ [] := by
  apply ne_nil_of_mem_strtok (d := ' ') (s := text)
  rw [hargs]
  exact List.mem_cons_of_mem _ (List.mem_of_getElem? h.name)

/-- A `component` command of a typed request keeps the table. -/
theorem UpdateTable.sppUpdateComponent (h : UpdateTable L s) {r : Request} {c : CommandComponent}
    (hdecode : sppCommandDecodeRequest L M s r.text = .ok (.component c))
    (htyped : TypedStart L M r s) (hc : sppUpdateComponent L s c = .ok s') :
    UpdateTable L s' := by
  obtain ⟨args, hargs, hmin, hmax, hparams⟩ := decodeRequest_component hdecode
  have hreq := componentRequest_of_decode hmin hmax hparams
  have hname := hreq.name_ne_nil hargs
  rcases hreq.action with ⟨-, haction⟩ | ⟨-, haction⟩
  · obtain ⟨hstatus, hnew, id, hfree, rfl⟩ := sppUpdateComponent_start c haction hc
    obtain ⟨hid, hunuse⟩ := getFreeComponent_eq_some hfree
    have hfive : args.length = 4 := by
      rcases htyped c hdecode haction with hlen | hstatus' | hnone
      · simpa [hargs] using hlen
      · exact absurd hstatus' hstatus
      · rw [hfree] at hnone
        cases hnone
    have hcore := hreq.core_le
    exact h.startEdit hid hunuse hname (fun i hi => sppGetComponentId_eq_none hnew hname hi)
      (by omega) (hreq.type_ne haction hfive)
  · obtain ⟨-, rfl⟩ | ⟨id, hid, rfl⟩ := sppUpdateComponent_stop c haction hc
    · exact h
    · obtain ⟨hlt, hnameId, -⟩ := sppGetComponentId_eq_some hid
      exact h.stopEdit hlt (by rw [hnameId]; exact hname)

/-- One request keeps the invariant. -/
theorem TableInv.serve (h : TableInv L s) {r : Request} (hdev : r.dev.Succeed)
    (htyped : TypedStart L M r s) (hr : serve L M r s = some s') : TableInv L s' := by
  have hsynced := h.synced.serve hr
  obtain ⟨ret, hr⟩ := serve_eq_some.mp hr
  obtain rfl | ⟨command, s₁, hdecode, hupdate, hflush⟩ := processRequest_cases hr
  · exact h
  · have hmid : UpdateTable L s₁ ∧ CoreListsSynced s₁ := by
      rcases updateCommand_slots hupdate with hk | ⟨c, rfl, hc⟩
      · exact ⟨h.table.of_slotsKept hk, h.synced.of_slotsKept hk⟩
      · exact ⟨h.table.sppUpdateComponent hdecode htyped hc, h.synced.sppUpdateComponent hc⟩
    exact ⟨hmid.1.sppFlush hmid.2 hflush, hsynced, sppFlush_flushed hdev hflush⟩

/-- The length of a list of distinct numbers below a bound. -/
theorem length_le_of_nodup {ids : List ℕ} {n : ℕ} (hnodup : ids.Nodup) (hlt : ∀ i ∈ ids, i < n) :
    ids.length ≤ n := by
  have hsub : ids.Subperm (List.range n) :=
    List.subperm_of_subset hnodup fun i hi => List.mem_range.mpr (hlt i hi)
  simpa using hsub.length_le

/-- The invariant says that the tables are in order. -/
theorem TableInv.componentTableOk (h : TableInv L s) : ComponentTableOk L s := by
  have harea : ∀ l < L.maxLcore, ∀ area, (s.core l).core area = (s.core l).updList := by
    intro l hl area
    have hne := h.synced.indices_ne l
    have heq := h.synced.synced l (h.flushed l hl)
    obtain rfl | rfl : area = (s.core l).refIndex ∨ area = (s.core l).updIndex := by omega
    · exact heq
    · rfl
  refine ⟨h.table.named_iff, h.table.names_distinct, fun i hi hused =>
    ⟨h.table.lcore_lt i hi hused, fun l _ => h.table.count_updList i hi hused l⟩,
    fun l hl area => ?_, fun l hl area => ?_⟩
  · rw [harea l hl area]
    exact h.table.mem_updList l
  · rw [harea l hl area]
    refine length_le_of_nodup (List.nodup_iff_count_le_one.mpr fun i => ?_)
      fun i hi => (h.table.mem_updList l i hi).1
    by_cases hmem : i ∈ (s.core l).updList
    · obtain ⟨hi, hused⟩ := h.table.mem_updList l i hmem
      rw [h.table.count_updList i hi hused l]
      split <;> omega
    · simp [List.count_eq_zero.mpr hmem]

/-- In every run of typed requests whose devices can be created, the tables of
components and cores are in order between any two requests. -/
theorem componentTableOk_of_reaches (slave : ℕ → Bool) (numNic : ℕ) (status : ℕ → CoreStatus)
    (h : Reaches (serve L M) (fun r s => r.dev.Succeed ∧ TypedStart L M r s)
      ((initMngData L slave numNic).withStatus status) s) : ComponentTableOk L s :=
  (h.invariant (tableInv_initMngData L slave numNic status)
    fun _ _ _ hinv hguard hstep => hinv.serve hguard.1 hguard.2 hstep).componentTableOk

/-- The condition is exact: a request that does not meet it is served, and
leaves a named slot without a type. -/
theorem typedStart_of_componentTableOk {r : Request} (hr : serve L M r s = some s')
    (hok : ComponentTableOk L s') : TypedStart L M r s := by
  intro c hdecode haction
  by_contra hnot
  obtain ⟨hlen, hstatus, hfree⟩ := not_or.mp hnot |>.imp_right not_or.mp
  obtain ⟨args, hargs, hmin, hmax, hparams⟩ := decodeRequest_component hdecode
  have hreq := componentRequest_of_decode hmin hmax hparams
  have hname := hreq.name_ne_nil hargs
  have hnew := hreq.name_free haction
  have htype : c.type = .unuse := hreq.type_eq (by simp [hargs] at hlen; omega)
  obtain ⟨id, hid⟩ := Option.ne_none_iff_exists'.mp hfree
  have hupdate : sppUpdateComponent L s c = .ok (startEdit s id c) := by
    simp [Spp.Vf.sppUpdateComponent, haction, sppUpdateComponentStart, hstatus, hnew, hid,
      Spp.Vf.startEdit]
  have hflush : (sppFlush L M r.dev (startEdit s id c)).2 = s' := by
    simpa [serve, processRequest, hdecode, executeCommand, updateCommand, hupdate] using hr
  have hslot : s'.component id = (startEdit s id c).component id := by
    have hcases : sppFlush L M r.dev (startEdit s id c) = (_, s') := Prod.ext rfl hflush
    obtain ⟨iface', -, ⟨-, -, rfl⟩ | ⟨-, -, rfl⟩⟩ := sppFlush_cases hcases <;> rfl
  have hlt := (getFreeComponent_eq_some hid).1
  refine (hok.named_iff id hlt).mp ?_ ?_
  · simpa [hslot, startEdit_component] using hname
  · simpa [hslot, startEdit_component] using htype

/-- A start on core 1 that carries its type. -/
def startForwarder : Request := .ofString "component start comp1 1 forward"

/-- The same start without its type. -/
def startUntyped : Request := .ofString "component start comp1 1"

/-- A typed start is served and leaves the tables in order. -/
theorem componentTableOk_startForwarder :
    ∃ s, serve .default .vf startForwarder bootState = some s ∧ ComponentTableOk .default s := by
  obtain ⟨s, hs⟩ := Option.isSome_iff_exists.mp
    (by decide +kernel : (serve .default .vf startForwarder bootState).isSome)
  exact ⟨s, hs, componentTableOk_of_reaches _ _ _
    (.single ⟨startForwarder, ⟨succeed_ofString _, fun _ _ _ => .inl (by decide)⟩, hs⟩)⟩

/-- A start without a type is served, and names a slot that counts as free. -/
theorem not_componentTableOk_startUntyped :
    ∃ s, Reaches (serve .default .vf) (fun r _ => r.dev.Succeed) bootState s ∧
      ¬ ComponentTableOk .default s := by
  obtain ⟨s, hs, hname, htype⟩ : ∃ s, serve .default .vf startUntyped bootState = some s ∧
      (s.component 0).name ≠ [] ∧ (s.component 0).type = .unuse := by
    simpa [Option.any_eq_true] using (by decide +kernel :
      (serve .default .vf startUntyped bootState).any fun s =>
        (s.component 0).name ≠ [] ∧ (s.component 0).type = .unuse)
  refine ⟨s, .single ⟨startUntyped, succeed_ofString _, hs⟩, ?_⟩
  exact fun hok => (hok.named_iff 0 (by decide)).mp hname htype

end Run

end Spp.Vf
