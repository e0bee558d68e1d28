import Spp.Vf.CommandGrammar
import Spp.Vf.ReplyJson

/-!
# Well-formed replies in runs

The names that a status shows have come with requests that started components.
So in a run in which these requests give plain names every reply is a JSON text
that says what it should, and the name of a component is the only text by which a
controller can spoil one.
-/

namespace Spp.Vf.ReplyText

open CLib GuardedRun Json

variable {τ ρ : Type} {P : SppProcess} {hash : RteHashTable τ} {rt rt' : Runtime τ ρ}

section Errors

/-- What the decoder reports is a bad format or a bad value of a parameter, and
the name of the parameter is plain. -/
structure PlainError (e : DecodeError) : Prop where
  code : e.code ≠ .unknownCommand
  valueName : e.valueName.all asciiChar = true

theorem plainError_set {value : CStr} {name : String} (hname : name.toList.all asciiChar = true)
    {e : DecodeError} (h : setStringValueDecodeError value name = .error e) : PlainError e := by
  unfold setStringValueDecodeError at h
  split at h
  · cases h
    exact ⟨fun hcode => (by cases hcode), hname⟩
  · cases h

/-- An error in the parameters is about one of them. -/
theorem plainError_decodeCommandParameter {γ : Type} {list : List (Parameter γ)}
    (hlist : ∀ parameter ∈ list, parameter.1.toList.all asciiChar = true) {args : List CStr}
    {command : γ} {e : DecodeError}
    (h : decodeCommandParameter list args command = .error (.error e)) : PlainError e := by
  induction list generalizing args command with
  | nil =>
    cases args with
    | nil => cases h
    | cons arg args => cases h
  | cons parameter list ih =>
    obtain ⟨name, func⟩ := parameter
    cases args with
    | nil => cases h
    | cons arg args =>
      unfold decodeCommandParameter at h
      cases hfunc : func command arg with
      | ok command' =>
        rw [hfunc] at h
        exact ih (fun q hq => hlist q (List.mem_cons_of_mem _ hq)) h
      | error stop =>
        rw [hfunc] at h
        cases stop with
        | ng => exact plainError_set (hlist _ List.mem_cons_self) (Except.error.inj h)
        | undef => cases h

/-- So is an error of the search in the list of commands. -/
theorem plainError_searchCommandList {rows : List DecodeCommandList}
    (hrows : ∀ row ∈ rows, ∀ args e, row.func args = .error (.error e) → PlainError e)
    {command : CStr} {args : List CStr} {nameCheck : Bool} {e : DecodeError}
    (h : searchCommandList command args nameCheck rows = .error (.error e)) : PlainError e := by
  induction rows generalizing nameCheck with
  | nil =>
    unfold searchCommandList at h
    cases nameCheck with
    | true =>
      cases h
      exact ⟨fun hcode => (by cases hcode), rfl⟩
    | false => exact plainError_set (by decide) (Except.error.inj h)
  | cons row rows ih =>
    have hrest := fun q hq => hrows q (List.mem_cons_of_mem row hq)
    unfold searchCommandList at h
    split at h
    · exact ih hrest h
    · split at h
      · exact ih hrest h
      · exact hrows row List.mem_cons_self args e h

/-- The handlers of a command report such errors. -/
theorem plainError_map {γ : Type} {list : List (Parameter γ)} {make : γ → SppCommand}
    (hlist : ∀ parameter ∈ list, parameter.1.toList.all asciiChar = true) {args : List CStr}
    {command : γ} {e : DecodeError}
    (h : (decodeCommandParameter list args command).map make = .error (.error e)) :
    PlainError e := by
  cases hdecode : decodeCommandParameter list args command with
  | ok command' =>
    rw [hdecode] at h
    cases h
  | error failure =>
    rw [hdecode] at h
    cases h
    exact plainError_decodeCommandParameter hlist hdecode

/-- So is every error that is reported. -/
theorem plainError_of_decode {L : Limits} {M : SppModule} {s : MngData} {text : CStr}
    {e : DecodeError} (h : sppCommandDecodeRequest L M s text = .error (.error e)) :
    PlainError e := by
  have hnames : ∀ {γ : Type} {list : List (Parameter γ)},
      (list.map fun parameter => parameter.1.toList.all asciiChar).all id = true →
        ∀ parameter ∈ list, parameter.1.toList.all asciiChar = true := by
    intro γ list hall parameter hmem
    exact List.all_eq_true.mp hall _ (List.mem_map_of_mem hmem)
  have hrows : ∀ row ∈ commandList L M s, ∀ args e, row.func args = .error (.error e) →
      PlainError e := by
    intro row hrow args e herror
    simp only [commandList, List.mem_cons, List.not_mem_nil, or_false] at hrow
    rcases hrow with rfl | rfl | rfl | rfl | rfl | rfl | rfl
    · refine plainError_map (hnames ?_) herror
      simp only [parameterListMac, List.map_cons, List.map_nil]
      decide
    · refine plainError_map (hnames ?_) herror
      simp only [parameterListVlan, List.map_cons, List.map_nil]
      decide
    · cases herror
    · cases herror
    · cases herror
    · refine plainError_map (hnames ?_) herror
      simp only [parameterListComponent, List.map_cons, List.map_nil]
      decide
    · refine plainError_map (hnames ?_) herror
      simp only [parameterListPort, List.map_cons, List.map_nil]
      decide
  unfold sppCommandDecodeRequest decodeCommandInList at h
  split at h
  · cases h
  · dsimp only at h
    split at h
    · cases h
      exact ⟨fun hcode => (by cases hcode), rfl⟩
    · split at h
      · cases h
      · exact plainError_searchCommandList hrows h

/-- The message of such an error is plain. -/
theorem plain_makeDecodeErrorMessage {e : DecodeError} (h : PlainError e) :
    Json.Plain (makeDecodeErrorMessage e) := by
  apply plain_of_ascii
  unfold makeDecodeErrorMessage
  obtain ⟨hcode, hname⟩ := h
  cases he : e.code with
  | unknownCommand => exact absurd he hcode
  | badFormat => rfl
  | noParam | badType | badValue =>
    dsimp only
    rw [List.all_append, List.all_append, hname]
    rfl

end Errors

section Names

variable {Q : CStr → Prop}

/-- Every name in the process has a property: those of the component table, of the
paths, and of the areas of the classifiers. -/
structure Named (Q : CStr → Prop) (rt : Runtime τ ρ) : Prop where
  component : ∀ id, Q (rt.flush.s.component id).name
  path : ∀ id area, Q (rt.paths id area).name
  area : ∀ id area, Q ((rt.mngInfos id).cmpInfos area).name

/-- A step that changes none of them. -/
theorem Named.of_eq (h : Named Q rt)
    (hcomponent : ∀ id, (rt'.flush.s.component id).name = (rt.flush.s.component id).name)
    (hpath : rt'.paths = rt.paths)
    (harea : ∀ id, (rt'.mngInfos id).cmpInfos = (rt.mngInfos id).cmpInfos) : Named Q rt' :=
  ⟨fun id => hcomponent id ▸ h.component id, fun id area => hpath ▸ h.path id area,
    fun id area => harea id ▸ h.area id area⟩

/-- `init_component_info` leaves the name. -/
theorem initTxPorts_name (hash : RteHash τ) (memory : ℕ → Bool) (txPorts : List PortInfo)
    (i : ℕ) (cmpInfo : CmpInfo τ) :
    (initTxPorts hash memory i txPorts cmpInfo).2.name = cmpInfo.name := by
  have hone : ∀ memory i txPort (cmpInfo : CmpInfo τ),
      (initTxPort hash memory i txPort cmpInfo).2.name = cmpInfo.name := by
    intro memory i txPort cmpInfo
    unfold initTxPort
    dsimp only
    split
    · rfl
    · split
      · rfl
      · split
        · rfl
        · split <;> rfl
  induction txPorts generalizing i cmpInfo with
  | nil => rfl
  | cons txPort txPorts ih =>
    have hname := hone (memory i) i txPort cmpInfo
    unfold initTxPorts
    cases hport : initTxPort hash (memory i) i txPort cmpInfo with
    | mk ret cmpInfo' =>
      rw [hport] at hname
      cases ret with
      | ng => exact hname
      | ok => exact (ih (i + 1) cmpInfo').trans hname

/-- A path has the name of its component. -/
theorem madePath_name {id : ℕ} {path : DataPath} (h : rt.madePath P id = some path) :
    path.name = (rt.flush.s.component id).name := by
  unfold Runtime.madePath sppForwardUpdate sppMirrorUpdate at h
  dsimp only at h
  split at h <;> split_ifs at h <;> · cases h; rfl

/-- An area that is built has the name of its component, or keeps the one it had. -/
theorem Named.buildClassifier (h : Named Q rt) (memory : ℕ → Bool) (id : ℕ) :
    Named Q (rt.buildClassifier hash.toRteHash memory id) := by
  refine ⟨h.component, h.path, fun id' area => ?_⟩
  unfold Runtime.buildClassifier Runtime.setMngInfo
  dsimp only
  by_cases hid : id' = id
  · subst hid
    rw [Function.update_self]
    by_cases harea : area = (rt.flush.index (.classifier id')).updIndex
    · subst harea
      dsimp only
      rw [Function.update_self]
      split
      · exact h.component id'
      · have hname : (rt.initArea hash.toRteHash memory id').2.name =
            ((rt.mngInfos id').cmpInfos (rt.flush.index (.classifier id')).updIndex).name :=
          initTxPorts_name _ _ _ _ _
        rw [hname]
        exact h.area id' _
    · dsimp only
      rw [Function.update_of_ne harea]
      exact h.area id' area
  · rw [Function.update_of_ne hid]
    exact h.area id' area

/-- A component step keeps the property. -/
theorem Named.componentStep (h : Named Q rt) (hnil : Q []) {memory : ℕ → Bool}
    (hstep : ComponentStep P hash.toRteHash memory rt rt') : Named Q rt' := by
  cases hstep with
  | finish | next | set | publish | storePath | taken | updated | spin | failPath =>
    exact h.of_eq (fun _ => rfl) rfl fun _ => rfl
  | buildClassifier | failClassifier =>
    exact (h.buildClassifier memory _).of_eq (fun _ => rfl) rfl fun _ => rfl
  | @buildPath id rest path hmanager htarget hmade =>
    refine ⟨h.component, fun id' area => ?_, h.area⟩
    dsimp only
    by_cases hid : id' = id
    · subst hid
      rw [Function.update_self]
      by_cases harea : area = (rt.flush.index (.path id')).updIndex
      · subst harea
        rw [Function.update_self, madePath_name hmade]
        exact h.component id'
      · rw [Function.update_of_ne harea]
        exact h.path id' area
    · rw [Function.update_of_ne hid]
      exact h.path id' area
  | @storeClassifier id ref rest hmanager htarget =>
    refine h.of_eq (fun _ => rfl) rfl fun id' => ?_
    dsimp only [Runtime.setMngInfo]
    by_cases hid : id' = id
    · subst hid
      rw [Function.update_self]
    · rw [Function.update_of_ne hid]
  | @uninit id rest hmanager htarget hindex =>
    refine ⟨h.component, h.path, fun id' area => ?_⟩
    dsimp only [Runtime.setMngInfo]
    by_cases hid : id' = id
    · subst hid
      rw [Function.update_self]
      by_cases harea : area = (rt.flush.index (.classifier id')).updIndex
      · subst harea
        dsimp only
        rw [Function.update_self]
        exact hnil
      · dsimp only
        rw [Function.update_of_ne harea]
        exact h.area id' area
    · rw [Function.update_of_ne hid]
      exact h.area id' area

/-- A worker changes no name. -/
theorem Named.run (h : Named Q rt) {l cnt : ℕ} {call : WorkerCall ρ}
    (hstep : rt.runComponent hash.toRteHash P l cnt call = some rt') : Named Q rt' := by
  have hclassify : ∀ (m : ManagementInfo τ ρ) area,
      (m.classify hash.toRteHash call area).cmpInfos = m.cmpInfos := by
    intro m area
    unfold ManagementInfo.classify
    dsimp only
    split <;> rfl
  have hset : ∀ (id : ℕ) (m : ManagementInfo τ ρ), m.cmpInfos = (rt.mngInfos id).cmpInfos →
      ∀ id', ((rt.setMngInfo id m).mngInfos id').cmpInfos = (rt.mngInfos id').cmpInfos := by
    intro id m hm id'
    dsimp only [Runtime.setMngInfo]
    by_cases hid : id' = id
    · subst hid
      rw [Function.update_self, hm]
    · rw [Function.update_of_ne hid]
  obtain ⟨id, -, -, ⟨-, rfl⟩ | ⟨-, rfl⟩⟩ := runComponent_cases hstep
  · rcases sppClassifierMacDo_cases rt hash.toRteHash call id rfl with ⟨-, hrun⟩ | ⟨-, hrun⟩
    · rw [hrun]
      exact h.of_eq (fun _ => rfl) rfl (hset id _ (hclassify _ _))
    · rw [hrun]
      exact h.of_eq (fun _ => rfl) rfl (hset id _ (hclassify _ _))
  · unfold Runtime.changeForwardIndex
    dsimp only
    split
    · exact h.of_eq (fun _ => rfl) rfl fun _ => rfl
    · exact h

/-- An update function takes a name from a command that starts a component. -/
theorem name_of_updateCommand {L : Limits} {s s' : MngData} {command : SppCommand}
    (h : updateCommand L s command = some (.ok s')) (id : ℕ) :
    (s'.component id).name = (s.component id).name ∨ (s'.component id).name = [] ∨
      ∃ c, command = .component c ∧ c.action = .start ∧ (s'.component id).name = c.name := by
  rcases updateCommand_slots h with hkept | ⟨c, rfl, hc⟩
  · exact .inl (hkept.name id)
  · cases haction : c.action with
    | start =>
      obtain ⟨-, -, id', -, rfl⟩ := sppUpdateComponent_start c haction hc
      by_cases hid : id = id'
      · subst hid
        exact .inr (.inr ⟨c, rfl, haction, by simp [startEdit]⟩)
      · exact .inl (by simp [startEdit, hid])
    | stop =>
      rcases sppUpdateComponent_stop c haction hc with ⟨-, rfl⟩ | ⟨id', -, rfl⟩
      · exact .inl rfl
      · by_cases hid : id = id'
        · subst hid
          exact .inr (.inl (by simp [stopEdit]))
        · exact .inl (by simp [stopEdit, hid])
    | none | add | del =>
      unfold sppUpdateComponent at hc
      rw [haction] at hc
      cases hc

/-- A step keeps the property if a component is only started with such a name. -/
theorem Named.step (h : Named Q rt) (hnil : Q []) {e : RuntimeEvent ρ}
    (hstart : ∀ r c, e = .request r →
      sppCommandDecodeRequest P.L P.M rt.flush.s r.text = .ok (.component c) →
        c.action = .start → Q c.name)
    (hstep : runtimeStep P hash e rt = some rt') : Named Q rt' := by
  cases e with
  | request r =>
    obtain ⟨ret, -, ⟨ret', replies, rfl⟩ | ⟨command, s, hdecode, hupdate, rfl⟩⟩ :=
      processRequest_step hstep
    · exact h.of_eq (fun _ => rfl) rfl fun _ => rfl
    · refine ⟨fun id => ?_, h.path, h.area⟩
      rcases name_of_updateCommand hupdate id with hname | hname | ⟨c, rfl, haction, hname⟩
      · exact hname ▸ h.component id
      · exact hname ▸ hnil
      · exact hname ▸ hstart r c rfl hdecode haction
  | manager memory =>
    cases managerStep_cases hstep with
    | failPort hpc hport =>
      obtain ⟨iface', -, hsnd⟩ := flushPort_snd P.L rt.flush.dev rt.flush.s
      rw [hport] at hsnd
      obtain rfl := hsnd
      exact h.of_eq (fun _ => rfl) rfl fun _ => rfl
    | publishCores hpc hport =>
      obtain ⟨iface', -, hsnd⟩ := flushPort_snd P.L rt.flush.dev rt.flush.s
      rw [hport] at hsnd
      obtain rfl := hsnd
      exact h.of_eq (fun _ => rfl) rfl fun _ => rfl
    | copyBack hpc htaken => exact h.of_eq (fun _ => rfl) rfl fun _ => rfl
    | spin => exact h
    | component hpc hcomponent => exact h.componentStep hnil hcomponent
  | takeCore l =>
    obtain ⟨-, rfl⟩ := takeCore_cases hstep
    exact h.of_eq (fun _ => rfl) rfl fun _ => rfl
  | run l cnt call => exact h.run hstep

end Names

section Shown

/-- What a list is made of element by element. -/
theorem exists_of_mem_mapM {α β ε : Type} {f : α → Except ε β} {l : List α} {out : List β}
    (h : l.mapM f = .ok out) : ∀ y ∈ out, ∃ x ∈ l, f x = .ok y := by
  induction l generalizing out with
  | nil =>
    cases h
    exact fun y hy => (by cases hy)
  | cons a l ih =>
    rw [List.mapM_cons] at h
    obtain ⟨b, hb, hrest⟩ := bind_eq_ok.mp h
    obtain ⟨bs, hbs, hout⟩ := bind_eq_ok.mp hrest
    cases hout
    intro y hy
    rcases List.mem_cons.mp hy with rfl | hy
    · exact ⟨a, List.mem_cons_self, hb⟩
    · obtain ⟨x, hx, hfx⟩ := ih hbs y hy
      exact ⟨x, List.mem_cons_of_mem a hx, hfx⟩

/-- An element shows the name that it is given. -/
theorem coreName_of_append {lcoreId : ℕ} {name : CStr} {type : ComponentType}
    {rxPorts txPorts : List PortIndex} {element : CoreElement}
    (h : Vf.appendCoreElementValue P rt lcoreId name type rxPorts txPorts = .ok element) :
    coreName element = some name := by
  unfold Vf.appendCoreElementValue at h
  obtain ⟨rx, -, hrest⟩ := bind_eq_ok.mp h
  obtain ⟨tx, -, hout⟩ := bind_eq_ok.mp hrest
  cases hout
  rfl

variable {Q : CStr → Prop}

/-- A status shows the names of paths and areas. -/
theorem Named.getComponentStatus (h : Named Q rt) {lcoreId id : ℕ} {element : CoreElement}
    (helement : getComponentStatus P rt lcoreId id = .ok element) :
    ∀ name ∈ coreName element, Q name := by
  unfold Vf.getComponentStatus at helement
  intro name hname
  cases htarget : updateTarget P.M rt.flush.s id with
  | classifier id =>
    rw [htarget] at helement
    dsimp only at helement
    unfold sppClassifierGetComponentStatus at helement
    split at helement
    · cases helement
    · rw [coreName_of_append helement] at hname
      cases hname
      exact h.area id _
  | path id =>
    rw [htarget] at helement
    dsimp only at helement
    unfold pathGetComponentStatus at helement
    dsimp only at helement
    split at helement
    · cases helement
    · rw [coreName_of_append helement] at hname
      cases hname
      exact h.path id _

/-- So do all elements of a status. -/
theorem Named.status (h : Named Q rt) {info : StatusInfo}
    (hinfo : Vf.appendInfoValue P hash rt = .ok info) : ∀ s ∈ statusNames (some info), Q s := by
  unfold Vf.appendInfoValue at hinfo
  obtain ⟨core, hcore, hrest⟩ := bind_eq_ok.mp hinfo
  have hshown : info.core = core := by
    cases hM : P.M with
    | vf =>
      rw [hM] at hrest
      obtain ⟨table, -, hout⟩ := bind_eq_ok.mp hrest
      cases hout
      rfl
    | mirror =>
      rw [hM] at hrest
      cases hrest
      rfl
  unfold sppIterateCoreInfo at hcore
  obtain ⟨lists, hlists, hflatten⟩ := bind_eq_ok.mp hcore
  cases hflatten
  intro s hs
  have hs : s ∈ info.core.filterMap coreName := hs
  rw [hshown] at hs
  obtain ⟨element, helement, hname⟩ := List.mem_filterMap.mp hs
  obtain ⟨list, hlist, hmem⟩ := List.mem_flatten.mp helement
  obtain ⟨lcoreId, -, hiterate⟩ := exists_of_mem_mapM hlists list hlist
  unfold iterateCore at hiterate
  dsimp only at hiterate
  split at hiterate
  · cases hiterate
    cases hmem
  · split at hiterate
    · cases hiterate
      obtain rfl := List.mem_singleton.mp hmem
      cases hname
    · obtain ⟨id, -, hstatus⟩ := exists_of_mem_mapM hiterate element hmem
      exact h.getComponentStatus hstatus s hname

end Shown

section Replies

/-- A step sends nothing, or the result of an execution, or what the request asks for. -/
theorem replies_step {e : RuntimeEvent ρ} (h : runtimeStep P hash e rt = some rt') :
    rt'.replies = rt.replies ∨
      ∃ response, rt'.replies = rt.replies ++ [response] ∧
        ((∃ ret, response = { results := [commandResult ret] }) ∨
          (∃ (r : Request) (error : DecodeError),
            sppCommandDecodeRequest P.L P.M rt.flush.s r.text = .error (.error error) ∧
            response = { results := [.error (makeDecodeErrorMessage error)] }) ∨
          ∃ command, getterResponse P hash rt command = .ok response) := by
  cases e with
  | request r =>
    unfold runtimeStep Runtime.processRequest at h
    dsimp only at h
    split at h
    · cases hdecode : sppCommandDecodeRequest P.L P.M rt.flush.s r.text with
      | error failure =>
        rw [hdecode] at h
        cases failure with
        | undef => cases h
        | error error =>
          cases h
          exact .inr ⟨_, rfl, .inr (.inl ⟨r, error, hdecode, rfl⟩)⟩
      | ok command =>
        simp only [hdecode] at h
        split at h
        · unfold Runtime.reply at h
          split at h
          · rename_i response hget
            cases h
            exact .inr ⟨response, rfl, .inr (.inr ⟨command, hget⟩)⟩
          · cases h
            exact .inl rfl
          · cases h
        · cases h
        · cases h
          exact .inr ⟨_, rfl, .inl ⟨.ng, rfl⟩⟩
        · cases h
          exact .inl rfl
    · cases h
  | manager memory =>
    cases managerStep_cases h with
    | failPort hpc hport => exact .inr ⟨_, rfl, .inl ⟨.ng, rfl⟩⟩
    | publishCores hpc hport | copyBack hpc htaken => exact .inl rfl
    | spin => exact .inl rfl
    | component hpc hcomponent =>
      cases hcomponent with
      | finish => exact .inr ⟨_, rfl, .inl ⟨.ok, rfl⟩⟩
      | failClassifier | failPath => exact .inr ⟨_, rfl, .inl ⟨.ng, rfl⟩⟩
      | next | set | buildClassifier | buildPath | publish | storeClassifier | storePath | spin
        | uninit | taken | updated => exact .inl rfl
  | takeCore l => exact .inl (takeCore_kept h).2
  | run l cnt call => exact .inl (runComponent_kept h).2

/-- The replies that were sent put plain texts in, and the names in the process
are plain. -/
structure Clean (rt : Runtime τ ρ) : Prop where
  named : Named Json.Plain rt
  replies : ∀ response ∈ rt.replies, ∀ s ∈ texts response, Json.Plain s

/-- What a status or the client id shows is plain if the names in the process are. -/
theorem Named.getterResponse (h : Named Json.Plain rt) {command : SppCommand} {response : Response}
    (hget : getterResponse P hash rt command = .ok response) : ∀ s ∈ texts response, Json.Plain s := by
  have hnil : Json.Plain [] := plain_of_ascii rfl
  have hsuccess : ∀ s ∈ [CommandResult.success].map fun result => (commandResultStrs result).2,
      Json.Plain s := by
    intro s hs
    obtain rfl := List.mem_singleton.mp hs
    exact hnil
  unfold texts
  cases command with
  | status =>
    unfold Vf.getterResponse at hget
    cases hinfo : Vf.appendInfoValue P hash rt with
    | error stop =>
      rw [hinfo] at hget
      cases hget
    | ok info =>
      rw [hinfo] at hget
      cases hget
      exact List.forall_mem_append.mpr ⟨hsuccess, h.status hinfo⟩
  | clientId | exit | classifierTableMac c | classifierTableVlan c | component c | port c =>
    cases hget
    exact List.forall_mem_append.mpr ⟨hsuccess, fun s hs => (by cases hs)⟩

variable (P) in
/-- A request that starts a component gives it a plain name. -/
def StartsPlain (e : RuntimeEvent ρ) (rt : Runtime τ ρ) : Prop :=
  ∀ r c, e = .request r →
    sppCommandDecodeRequest P.L P.M rt.flush.s r.text = .ok (.component c) →
      c.action = .start → Json.Plain c.name

/-- Every step of a run keeps replies plain as long as components get plain names. -/
theorem Clean.step (h : Clean rt) {e : RuntimeEvent ρ} (hstart : StartsPlain P e rt)
    (hstep : runtimeStep P hash e rt = some rt') : Clean rt' := by
  refine ⟨h.named.step (plain_of_ascii rfl) hstart hstep, ?_⟩
  rcases replies_step hstep with hsame | ⟨response, happend, hresponse⟩
  · rw [hsame]
    exact h.replies
  · rw [happend]
    refine List.forall_mem_append.mpr ⟨h.replies, fun response' hmem => ?_⟩
    obtain rfl := List.mem_singleton.mp hmem
    rcases hresponse with ⟨ret, rfl⟩ | ⟨r, error, hdecode, rfl⟩ | ⟨command, hget⟩
    · intro s hs
      obtain rfl := List.mem_singleton.mp hs
      apply plain_of_ascii
      cases ret <;> decide
    · intro s hs
      obtain rfl := List.mem_singleton.mp hs
      exact plain_makeDecodeErrorMessage (plainError_of_decode hdecode)
    · exact h.named.getterResponse hget

/-- In a run whose requests start components with plain names only, every reply
is well formed. -/
theorem wellFormed_of_reaches {numNic mainLcore : ℕ}
    (h : Reaches (runtimeStep P hash) (StartsPlain P) (Runtime.initial P numNic mainLcore) rt) :
    ∀ response ∈ rt.replies, WellFormed response := by
  have hnil : Json.Plain [] := plain_of_ascii rfl
  have hstart : Clean (Runtime.initial P numNic mainLcore : Runtime τ ρ) := by
    exact ⟨⟨fun _ => hnil, fun _ _ => hnil, fun _ _ => hnil⟩, fun response hmem => (by cases hmem)⟩
  have hclean := h.invariant hstart fun e u v hu hguard hstep => hu.step hguard hstep
  exact fun response hmem => (wellFormed_iff response).mpr (hclean.replies response hmem)

/-- A component is started with a name of ASCII characters that need no escape. -/
def startsAscii (e : RuntimeEvent ℕ) (rt : Runtime (List (ℕ × ℕ)) ℕ) : Bool :=
  match e with
  | .request r =>
    match sppCommandDecodeRequest oneSlave.L oneSlave.M rt.flush.s r.text with
    | .ok (.component c) => c.name.all asciiChar
    | _ => true
  | _ => true

/-- A component is started, and the status is asked for. -/
def startThenStatus (text : String) : List (RuntimeEvent ℕ) :=
  flushEvents text 0 0 ++ [.request statusRequest]

/-- Both replies are well formed when the component is called `comp1`. -/
theorem wellFormed_comp1 : ∃ rt : Runtime (List (ℕ × ℕ)) ℕ,
    rt.replies.length = 2 ∧ ∀ response ∈ rt.replies, WellFormed response := by
  obtain ⟨rt, hrun, hlength⟩ : ∃ rt, runAll
      (tested (runtimeStep oneSlave assocHashTable) startsAscii)
      (startThenStatus "component start comp1 1 forward") bootRuntime = some rt ∧
        rt.replies.length = 2 :=
    exists_of_runAll (by decide +kernel)
  refine ⟨rt, hlength, wellFormed_of_reaches (reaches_of_runAll_tested hrun ?_)⟩
  rintro e - s htest r c rfl hdecode -
  unfold startsAscii at htest
  dsimp only at htest
  rw [hdecode] at htest
  exact plain_of_ascii htest

/-- A quotation mark in the name of a component spoils the status. -/
theorem not_wellFormed_quote : ∃ rt : Runtime (List (ℕ × ℕ)) ℕ,
    Reaches (runtimeStep oneSlave assocHashTable) (fun _ _ => True) (.initial oneSlave 1 0) rt ∧
      ∃ response ∈ rt.replies, ¬ WellFormed response := by
  obtain ⟨rt, hrun, hquote⟩ : ∃ rt, runAll
      (tested (runtimeStep oneSlave assocHashTable) fun _ _ => true)
      (startThenStatus "component start a\"b 1 forward") bootRuntime = some rt ∧
        (rt.replies.any fun response => (texts response).any fun s => s.contains '"') = true :=
    exists_of_runAll (by decide +kernel)
  refine ⟨rt, reaches_of_runAll_tested hrun fun _ _ _ _ => trivial, ?_⟩
  obtain ⟨response, hmem, htexts⟩ := List.any_eq_true.mp hquote
  obtain ⟨s, hs, hcontains⟩ := List.any_eq_true.mp htexts
  refine ⟨response, hmem, fun hwell => ?_⟩
  have hplain := (wellFormed_iff response).mp hwell s hs
  exact (hplain.1 '"' (List.contains_iff_mem.mp hcontains)).1 rfl

end Replies

end Spp.Vf.ReplyText
