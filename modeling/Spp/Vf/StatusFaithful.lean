import Spp.Vf.OneReply
import Spp.Vf.PublishedProcess

/-!
# The status reply is the configuration

The array `core` of a status reply is put together from what the workers read: the lists
of the cores, the areas of the components and the ability table. Once no change is
pending it lists, core by core and in the order of their start, the components of the
configuration with their ports and operations, and nothing else.
-/

namespace Spp.Vf

open CLib GuardedRun

variable {τ ρ : Type} {P : SppProcess} {rt rt' : Runtime τ ρ}

section Types

variable {L : Limits} {M : SppModule} {s s' : MngData}

/-- The program runs components of this type. -/
def SppModule.Runs (M : SppModule) (type : ComponentType) : Prop :=
  M = .vf ∧ (type = .classifierMac ∨ type = .merge ∨ type = .forward) ∨
    M = .mirror ∧ type = .mirror

/-- A type that the program can be asked for is one that it runs. -/
theorem sppConvertComponentType_runs (M : SppModule) (typeStr : CStr) :
    sppConvertComponentType M typeStr = .unuse ∨ M.Runs (sppConvertComponentType M typeStr) := by
  unfold sppConvertComponentType
  cases M with
  | vf =>
    dsimp only
    split
    · exact .inr (.inl ⟨rfl, .inl rfl⟩)
    · split
      · exact .inr (.inl ⟨rfl, .inr (.inl rfl)⟩)
      · split
        · exact .inr (.inl ⟨rfl, .inr (.inr rfl)⟩)
        · exact .inl rfl
  | mirror =>
    dsimp only
    split
    · exact .inr (.inr ⟨rfl, rfl⟩)
    · exact .inl rfl

/-- A component that is decoded has no type or one that the program runs. -/
theorem decodeRequest_runs {text : CStr} {c : CommandComponent}
    (h : sppCommandDecodeRequest L M s text = .ok (.component c)) :
    c.type = .unuse ∨ M.Runs c.type := by
  obtain ⟨args, -, -, -, hparams⟩ := decodeRequest_component h
  refine decodeCommandParameter_keeps (P := fun c => c.type = .unuse ∨ M.Runs c.type) ?_ hparams
    (.inl rfl)
  intro p hp c arg c' hfunc hc
  simp only [parameterListComponent, List.mem_cons, List.not_mem_nil, or_false] at hp
  rcases hp with rfl | rfl | rfl | rfl
  · obtain ⟨-, rfl⟩ | ⟨-, rfl⟩ := decodeComponentActionValue_eq_ok hfunc <;> exact hc
  · obtain ⟨-, rfl, -⟩ := decodeComponentNameValue_eq_ok hfunc
    exact hc
  · obtain ⟨core, rfl, -⟩ := decodeComponentCoreValue_eq_ok hfunc
    exact hc
  · change decodeComponentTypeValue M c arg = .ok c' at hfunc
    unfold decodeComponentTypeValue at hfunc
    split at hfunc
    · cases hfunc
      exact hc
    · split at hfunc
      · cases hfunc
      · cases hfunc
        exact sppConvertComponentType_runs M arg

variable (P) in
/-- The slave lcores forward, and every slot is unused or runs. -/
structure CoresRun (s : MngData) : Prop where
  status : ∀ l, P.slave l = true → (s.core l).status = .forward
  runs : ∀ id, (s.component id).type = .unuse ∨ P.M.Runs (s.component id).type

/-- Statuses and types that stay. -/
theorem CoresRun.congr (h : CoresRun P s)
    (hstatus : ∀ l, (s'.core l).status = (s.core l).status)
    (htype : ∀ id, (s'.component id).type = (s.component id).type) : CoresRun P s' :=
  ⟨fun l hl => by rw [hstatus, h.status l hl], fun id => by rw [htype]; exact h.runs id⟩

/-- Editing the update side of a core keeps all statuses. -/
theorem setUpdList_status (s : MngData) (lcoreId : ℕ) (ids : List ℕ) (l : ℕ) :
    ((s.setUpdList lcoreId ids).core l).status = (s.core l).status := by
  by_cases hl : l = lcoreId
  · simp [hl]
  · simp [hl]

/-- An accepted request keeps statuses and runs what it starts. -/
theorem CoresRun.updateCommand (h : CoresRun P s) {r : Request} {command : SppCommand}
    (hdecode : sppCommandDecodeRequest P.L P.M s r.text = .ok command)
    (hupdate : updateCommand P.L s command = some (.ok s')) : CoresRun P s' := by
  rcases updateCommand_cases hupdate with ⟨c, rfl, hc⟩ | ⟨c, rfl, hc⟩ | ⟨c, -, hc⟩
  · cases haction : c.action with
    | start =>
      obtain ⟨-, -, id, -, rfl⟩ := sppUpdateComponent_start c haction hc
      refine ⟨fun l hl => ?_, fun i => ?_⟩
      · simp only [startEdit, MngData.setChangeCore_core, MngData.setChangeComponent_core,
          setUpdList_status, MngData.setComponent_core]
        exact h.status l hl
      · rw [startEdit_component]
        split
        · exact decodeRequest_runs hdecode
        · exact h.runs i
    | stop =>
      obtain ⟨-, rfl⟩ | ⟨id, -, rfl⟩ := sppUpdateComponent_stop c haction hc
      · exact h
      · refine ⟨fun l hl => ?_, fun i => ?_⟩
        · simp only [stopEdit, MngData.setChangeCore_core, MngData.setChangeComponent_core,
            setUpdList_status, MngData.setComponent_core]
          exact h.status l hl
        · rw [stopEdit_component]
          split
          · exact .inl rfl
          · exact h.runs i
    | none | add | del => simp [sppUpdateComponent, haction] at hc
  · have hk := slotsKept_sppUpdatePort hc
    exact h.congr (fun l => by rw [hk.core]) hk.type
  · have hk := slotsKept_sppUpdateClassifierTable hc
    exact h.congr (fun l => by rw [hk.core]) hk.type

/-- Manager and workers keep the statuses. -/
theorem status_of_inner {hash : RteHashTable τ} {e : RuntimeEvent ρ} (hinner : e.Inner)
    (h : runtimeStep P hash e rt = some rt') (l : ℕ) :
    (rt'.flush.s.core l).status = (rt.flush.s.core l).status := by
  have htake : ∀ c : CoreMngInfo, c.takeUpdate.status = c.status := fun c => by
    unfold CoreMngInfo.takeUpdate
    split <;> rfl
  cases e with
  | request r => exact absurd rfl (hinner r)
  | manager memory =>
    obtain ⟨iface', -, hsnd⟩ := flushPort_snd P.L rt.flush.dev rt.flush.s
    cases managerStep_cases h with
    | failPort hpc hport =>
      rw [hport] at hsnd
      obtain rfl := hsnd
      rfl
    | publishCores hpc hport =>
      rw [hport] at hsnd
      obtain rfl := hsnd
      simp only [publishCores]
      split <;> rfl
    | copyBack hpc =>
      simp only [copyBackCores]
      split <;> rfl
    | spin => rfl
    | component hpc hstep => cases hstep <;> rfl
  | takeCore j =>
    obtain ⟨-, rfl⟩ := takeCore_cases h
    by_cases hl : l = j
    · subst hl
      simp [htake]
    · simp [hl]
  | run j cnt call =>
    obtain ⟨-, -, -, hflush | ⟨target, -, hflush⟩⟩ := run_effect h
    · rw [hflush]
    · rw [hflush]
      rfl

/-- Every step of the process keeps statuses and types. -/
theorem CoresRun.step {hash : RteHashTable τ} (h : CoresRun P rt.flush.s) {e : RuntimeEvent ρ}
    (hstep : runtimeStep P hash e rt = some rt') : CoresRun P rt'.flush.s := by
  by_cases hinner : e.Inner
  · refine h.congr (status_of_inner hinner hstep) fun id => ?_
    rw [component_of_inner hinner hstep]
  · obtain ⟨r, rfl⟩ : ∃ r, e = .request r := not_forall_not.mp hinner
    obtain ⟨ret, hpc, ⟨ret', replies, rfl⟩ | ⟨command, s', hdecode, hupdate, rfl⟩⟩ :=
      processRequest_step hstep
    · exact h
    · exact h.updateCommand hdecode hupdate

/-- The slave lcores forward before the first request. -/
theorem coresRun_initial (P : SppProcess) (numNic mainLcore : ℕ) :
    CoresRun P (.initial P numNic mainLcore : Runtime τ ρ).flush.s := by
  refine ⟨fun l hl => ?_, fun id => .inl rfl⟩
  simp only [Runtime.initial, FlushWorld.initial, startForwarding, hl, if_true]

end Types

section Shown

/-- What the reply shows of a component. -/
def Member.element (m : Member) : CoreElement :=
  .component m.core m.name m.type m.rxPort m.txPort

/-- What the reply shows of a core. -/
def Configuration.coreElements (cfg : Configuration) (lcoreId : ℕ) : List CoreElement :=
  let members := cfg.filter fun m => m.core = lcoreId
  if members = [] then [.unuse lcoreId] else members.map Member.element

/-- The array `core` for a configuration. -/
def coreArray (P : SppProcess) (cfg : Configuration) : List CoreElement :=
  P.slaveLcores.flatMap cfg.coreElements

/-- A list whose elements can all be handled is handled. -/
theorem mapM_map_eq_ok {α β γ ε : Type} {f : β → Except ε γ} {g : α → γ} {i : α → β} {l : List α}
    (h : ∀ a ∈ l, f (i a) = .ok (g a)) : (l.map i).mapM f = .ok (l.map g) := by
  induction l with
  | nil => rfl
  | cons a l ih =>
    have hrest := ih fun b hb => h b (List.mem_cons_of_mem a hb)
    rw [List.map_cons, List.mapM_cons, h a List.mem_cons_self, hrest]
    rfl

/-- A port is shown with its own index and the operation that its device has. -/
theorem appendPortBlock_eq {port : PortRef} (hlt : port.no < P.L.maxEthports) {portId : ℕ}
    (hport : portMngIndex P.L (rt.flush.s.iface port) = some portId) (d : PortRxtx) :
    appendPortBlock P rt d port.index = .ok ⟨port.index,
      appendVlanBlock (sppPortAbilityGetInfo rt.flush.table portId d)⟩ := by
  have hformat : sppFormatPortString port.index = .ok port.index := by
    obtain ⟨array, no⟩ := port
    cases array <;> rfl
  have hentry : ifaceEntry P.L port.index.ifaceType port.index.ifaceNo = .ok port := by
    unfold ifaceEntry
    rw [show port.index = ⟨port.array.type, port.no⟩ from rfl]
    simp only [getIfaceInfo_index hlt]
  unfold appendPortBlock
  simp only [hformat, hentry, hport, bind, Except.bind]

variable {hash : RteHash τ} {id : ℕ}

/-- The ports of a published component are shown with the operations of their attachments. -/
theorem Published.ports (h : Published P hash rt id)
    (hslots : SlotsInOrder P.L ⟨rt.flush.s, rt.given⟩) (hlt : id < P.L.maxLcore)
    (hused : (rt.flush.s.component id).type ≠ .unuse) (d : PortRxtx) (ports : List PortRef)
    (hports : ∀ port ∈ ports, (port, d) ∈ (rt.flush.s.component id).portDirections) :
    (ports.map PortRef.index).mapM (appendPortBlock P rt d) =
      .ok (ports.map (AbilityState.block ⟨rt.flush.s, rt.given⟩ id d)) := by
  refine mapM_map_eq_ok fun port hport => ?_
  obtain ⟨portId, hindex, hblock⟩ := h.ability _ (hports port hport)
  have hin := (holds_of_portDirections hlt hused (hports port hport)).1
  rw [appendPortBlock_eq (hslots.typed.placed id d port hin).1 hindex, hblock]
  rfl

/-- The status of a path is that of its component. -/
theorem pathGetComponentStatus_eq (hruns : P.M.Runs (rt.refPath id).type)
    (hpath : ¬ (P.M = .vf ∧ (rt.refPath id).type = .classifierMac)) (lcoreId : ℕ) :
    let shown := (rt.refPath id).shown
    pathGetComponentStatus P rt lcoreId id =
      appendCoreElementValue P rt lcoreId shown.name shown.type shown.rxPort shown.txPort := by
  rcases hruns with ⟨hM, htype | htype | htype⟩ | ⟨hM, htype⟩
  · exact absurd ⟨hM, htype⟩ hpath
  all_goals simp [pathGetComponentStatus, hM, htype, DataPath.shown]

/-- The status of a classifier that is used is that of its area. -/
theorem sppClassifierGetComponentStatus_eq (hused : (rt.mngInfos id).isUsed = true)
    (lcoreId : ℕ) :
    let shown := (rt.refCmpInfo id).shown
    sppClassifierGetComponentStatus P rt lcoreId id =
      appendCoreElementValue P rt lcoreId shown.name shown.type shown.rxPort shown.txPort := by
  unfold sppClassifierGetComponentStatus
  rw [if_neg (by simp [hused])]
  rfl

/-- A published component is shown as its slot has it. -/
theorem Published.status (h : Published P hash rt id)
    (hslots : SlotsInOrder P.L ⟨rt.flush.s, rt.given⟩) (hlt : id < P.L.maxLcore)
    (hused : (rt.flush.s.component id).type ≠ .unuse)
    (hruns : P.M.Runs (rt.flush.s.component id).type) (lcoreId : ℕ) :
    let m := AbilityState.member ⟨rt.flush.s, rt.given⟩ id
    getComponentStatus P rt lcoreId id =
      .ok (.component lcoreId m.name m.type m.rxPort m.txPort) := by
  intro m
  have happend : appendCoreElementValue P rt lcoreId m.name m.type
      ((rt.flush.s.component id).rxPorts.map PortRef.index)
      ((rt.flush.s.component id).txPorts.map PortRef.index) =
        .ok (.component lcoreId m.name m.type m.rxPort m.txPort) := by
    have hrx := h.ports hslots hlt hused .rx (rt.flush.s.component id).rxPorts
      fun port hport => List.mem_append_left _ (List.mem_map_of_mem hport)
    have htx := h.ports hslots hlt hused .tx (rt.flush.s.component id).txPorts
      fun port hport => List.mem_append_right _ (List.mem_map_of_mem hport)
    unfold appendCoreElementValue
    simp only [hrx, htx, bind, Except.bind]
    rfl
  have hshown := h.area.shown
  unfold getComponentStatus
  rcases updateTarget_cases P.M rt.flush.s id with ⟨htarget, -, -⟩ | ⟨htarget, hpath⟩
  · rw [htarget] at hshown ⊢
    have harea : (rt.refCmpInfo id).shown = (rt.flush.s.component id).shown := hshown
    dsimp only
    rw [sppClassifierGetComponentStatus_eq (h.used htarget), harea]
    exact happend
  · rw [htarget] at hshown ⊢
    have harea : (rt.refPath id).shown = (rt.flush.s.component id).shown := hshown
    have htype : (rt.refPath id).type = (rt.flush.s.component id).type :=
      congrArg Vf.Shown.type harea
    dsimp only
    rw [pathGetComponentStatus_eq (by rwa [htype]) (by rwa [htype]), harea]
    exact happend

end Shown

section Reply

variable {hash : RteHashTable τ} {numNic : ℕ} {x y : ConfiguredProcess τ ρ}

variable (P) in
/-- No change is pending. -/
structure Quiet (rt : Runtime τ ρ) : Prop where
  idle : ∃ ret, rt.pc = .idle ret
  component : ∀ id < P.L.maxLcore, rt.flush.s.changeComponent id = false
  core : ∀ l < P.L.maxLcore, rt.flush.s.changeCore l = false

/-- A slave lcore is shown with the components that are configured for it. -/
theorem Publishing.iterateCore (h : Publishing P hash numNic x) (hrun : CoresRun P x.rt.flush.s)
    (hquiet : Quiet P x.rt) {l : ℕ} (hl : l ∈ P.slaveLcores) :
    iterateCore P x.rt l = .ok (x.cfg.coreElements l) := by
  obtain ⟨hlt, hslave⟩ := List.mem_filter.mp hl
  obtain ⟨ret, hpc⟩ := hquiet.idle
  have hconfigured := h.configuration.configured
  rw [tables_of_ne (by simp [hpc])] at hconfigured
  have hlist := hconfigured.synced.synced l (hquiet.core l (List.mem_range.mp hlt))
  have hshows := hconfigured.shows l
  dsimp only at hlist hshows
  have hstatus : (x.rt.flush.s.core l).status ≠ .unuse := by
    rw [hrun.status l hslave]
    decide
  have helement : ∀ id ∈ (x.rt.flush.s.core l).updList, getComponentStatus P x.rt l id =
      .ok (AbilityState.member ⟨x.rt.flush.s, x.rt.given⟩ id).element := by
    intro id hid
    obtain ⟨hidlt, hnamed⟩ := hconfigured.table.mem_updList l id hid
    have hused := (hconfigured.table.named_iff id hidlt).mp hnamed
    have hplace := hconfigured.shows.place_eq hid
    have hpublished := h.inStep.published id hidlt hused
      (not_due_of_flag (by simp [hpc]) (hquiet.component id hidlt))
    rw [hpublished.status h.configuration.slots hidlt hused ((hrun.runs id).resolve_left hused),
      Member.element, hplace]
  unfold Vf.iterateCore Configuration.coreElements
  dsimp only
  rw [if_neg hstatus, hlist, ← hshows]
  by_cases hempty : (x.rt.flush.s.core l).updList = []
  · simp [hempty]
  · have hmap := mapM_map_eq_ok (i := fun id => id) helement
    rw [List.map_id'] at hmap
    rw [if_neg (by simpa using hempty), if_neg (by simpa using hempty), hmap, List.map_map]
    rfl

/-- The array `core` is that of the configuration. -/
theorem Publishing.sppIterateCoreInfo (h : Publishing P hash numNic x)
    (hrun : CoresRun P x.rt.flush.s) (hquiet : Quiet P x.rt) :
    sppIterateCoreInfo P x.rt = .ok (coreArray P x.cfg) := by
  have hall := mapM_map_eq_ok (i := fun l => l) fun l hl => h.iterateCore hrun hquiet hl
  rw [List.map_id'] at hall
  unfold Vf.sppIterateCoreInfo coreArray
  rw [hall, List.flatMap_def]
  rfl

/-- The reply is not given up once the cores can be shown. -/
theorem appendInfoValue_of_core (hash : RteHashTable τ) {core : List CoreElement}
    (hcore : Vf.sppIterateCoreInfo P rt = .ok core) :
    appendInfoValue P hash rt = .error .undef ∨
      ∃ info, appendInfoValue P hash rt = .ok info ∧ info.core = core := by
  unfold appendInfoValue
  rw [hcore]
  cases P.M with
  | mirror => exact .inr ⟨_, rfl, rfl⟩
  | vf =>
    cases htable : sppClassifierMacIterateTable P hash rt with
    | ok table => exact .inr ⟨_, rfl, rfl⟩
    | error stop =>
      cases stop with
      | ng => exact absurd htable sppClassifierMacIterateTable_ne_ng
      | undef => exact .inl rfl

/-- A `status` request is replied to once with what is shown, and changes nothing. -/
theorem status_reply {core : List CoreElement} (hcore : Vf.sppIterateCoreInfo P x.rt = .ok core)
    {ret : Ret} (hpc : x.rt.pc = .idle ret) {r : Request}
    (hdecode : sppCommandDecodeRequest P.L P.M x.rt.flush.s r.text = .ok .status)
    (hstep : configStep P hash (.request r) x = some y) :
    y.cfg = x.cfg ∧ ∃ info : StatusInfo, appendInfoValue P hash x.rt = .ok info ∧
      info.core = core ∧
      y.rt.replies = x.rt.replies ++ [{ results := [.success], info := some info }] := by
  obtain ⟨rt', hrt, rfl⟩ := Option.map_eq_some_iff.mp hstep
  constructor
  · have hnone : acceptedCommand P.L P.M x.rt.flush.s r = none :=
      acceptedCommand_eq_none fun command s' hdecode' => by
        rw [hdecode] at hdecode'
        cases hdecode'
        simp [updateCommand]
    simp [RuntimeEvent.request?, hnone]
  · have hrt' : x.rt.reply (getterResponse P hash x.rt .status) = some rt' := by
      simpa [runtimeStep, Runtime.processRequest, hpc, hdecode, updateCommand] using hrt
    rcases appendInfoValue_of_core hash hcore with hundef | ⟨info, hinfo, hinfoCore⟩
    · simp [getterResponse, hundef, Except.map, Runtime.reply] at hrt'
    · simp only [getterResponse, hinfo, Except.map, Runtime.reply, Option.some.injEq] at hrt'
      subst hrt'
      exact ⟨info, hinfo, hinfoCore, rfl⟩

/-- Statuses and types are kept in every run. -/
theorem coresRun_of_reaches {mainLcore : ℕ} {guard : RuntimeEvent ρ → ConfiguredProcess τ ρ → Prop}
    (h : Reaches (configStep P hash) guard (.initial P numNic mainLcore) x) :
    CoresRun P x.rt.flush.s := by
  have hstep : ∀ (e : RuntimeEvent ρ) (x y : ConfiguredProcess τ ρ), CoresRun P x.rt.flush.s →
      guard e x → configStep P hash e x = some y → CoresRun P y.rt.flush.s := by
    intro e x y hinv _ hstep
    obtain ⟨rt', hrt, rfl⟩ := Option.map_eq_some_iff.mp hstep
    exact hinv.step hrt
  exact h.invariant (coresRun_initial P numNic mainLcore) hstep

/-- A run after which the forwarder can be asked for. -/
theorem reaches_startThenAttach :
    ∃ x y : ConfiguredProcess (List (ℕ × ℕ)) ℕ,
      Reaches (configStep oneSlave assocHashTable) (PublishesInOrder oneSlave assocHashTable 1)
        (.initial oneSlave 1 0) x ∧ Quiet oneSlave x.rt ∧
      sppCommandDecodeRequest oneSlave.L oneSlave.M x.rt.flush.s "status".toList = .ok .status ∧
      configStep oneSlave assocHashTable (.request (.ofString "status")) x = some y ∧
      coreArray oneSlave x.cfg = [.component 1 "f1".toList .forward
        [⟨⟨.phy, 0⟩, ⟨.addVlantag, 10, 3⟩⟩] []] := by
  obtain ⟨x, hrun, hpc, hcomponent, hcore, hdecode, harray, hsome⟩ : ∃ x, runAll
      (tested (configStep oneSlave assocHashTable) (publishesTest oneSlave assocHashTable 1))
      startThenAttach (.initial oneSlave 1 0) = some x ∧ x.rt.pc = .idle .ok ∧
        (∀ id < oneSlave.L.maxLcore, x.rt.flush.s.changeComponent id = false) ∧
        (∀ l < oneSlave.L.maxLcore, x.rt.flush.s.changeCore l = false) ∧
        sppCommandDecodeRequest oneSlave.L oneSlave.M x.rt.flush.s "status".toList = .ok .status ∧
        coreArray oneSlave x.cfg = [.component 1 "f1".toList .forward
          [⟨⟨.phy, 0⟩, ⟨.addVlantag, 10, 3⟩⟩] []] ∧
        (configStep oneSlave assocHashTable (.request (.ofString "status")) x).isSome = true :=
    exists_of_runAll (by decide +kernel)
  have hreaches := reaches_of_texts ["component start f1 1 forward",
    "port add phy:0 rx f1 add_vlantag 10 3"] hrun rfl
  obtain ⟨y, hstep⟩ := Option.isSome_iff_exists.mp hsome
  exact ⟨x, y, hreaches, ⟨⟨.ok, hpc⟩, hcomponent, hcore⟩, hdecode, hstep, harray⟩

end Reply

end Spp.Vf
