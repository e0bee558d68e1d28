import Spp.Vf.Runtime

/-!
# The reply to a request

The functions of `command_proc.c` that answer a request. The elements of a
status reply are read from what the workers run: the core lists, the paths, the
areas of the classifiers and the published abilities. JSON texts are kept as
the values they show. `Stop.ng` is a function that gives up, and no reply is
sent then.
-/

namespace Spp.Vf

open CLib GuardedRun

variable {τ ρ : Type}

section Hash

/-- `SPP_NUM_VLAN_VID`. -/
def sppNumVlanVid : ℕ := 4096

/-- `rte_hash` with its iteration, which visits every entry once in some order. -/
structure RteHashTable (τ : Type) extends RteHash τ where
  iterate : τ → List (ℕ × ℕ)
  iterate_create : iterate create = []
  iterate_add : ∀ {tab key data tab'}, addKeyData tab key data = some tab' →
    (iterate tab').Perm ((key, data) :: (iterate tab).filter fun entry => entry.1 ≠ key)

/-- The entries of an association list without those that later ones replace. -/
def assocEntries : List (ℕ × ℕ) → List (ℕ × ℕ)
  | [] => []
  | entry :: entries => entry :: (assocEntries entries).filter fun other => other.1 ≠ entry.1

/-- The association list as a hash table with an iteration. -/
def assocHashTable : RteHashTable (List (ℕ × ℕ)) where
  toRteHash := assocHash
  iterate := assocEntries
  iterate_create := rfl
  iterate_add {tab key data tab'} h := by
    have hadd : (if tab.length < 128 then some ((key, data) :: tab) else none) = some tab' := h
    split at hadd
    · obtain rfl := Option.some.inj hadd
      exact .refl _
    · cases hadd

end Hash

section Status

/-- The interface type and number of a port. -/
def PortInfo.portIndex (info : PortInfo) : PortIndex := ⟨info.ifaceType, info.ifaceNo⟩

/-- The interface type and number of a port of a classifier. -/
def ClassifiedData.portIndex (data : ClassifiedData) : PortIndex :=
  ⟨data.ifaceType, data.ifaceNoGlobal⟩

/-- `spp_format_port_string`. For any other type its callers read a buffer that
was never written. -/
def sppFormatPortString (port : PortIndex) : Except Stop PortIndex :=
  match port.ifaceType with
  | .phy | .ring | .vhost => .ok port
  | _ => .error (.undef)

/-- `append_vlan_block` for the abilities of a port: the first operation is shown. -/
def appendVlanBlock (info : List PortAbility) : VlanBlock :=
  match info.find? fun ability => ability.ope ≠ .none with
  | some ability => ⟨ability.ope, ability.vlantag.vid, ability.vlantag.pcp⟩
  | none => ⟨.none, 0, 0⟩

variable (P : SppProcess) (hash : RteHashTable τ) (rt : Runtime τ ρ)

/-- `append_port_block`. The entry of `g_port_mng_info` is looked up by the
device of the port, without a test. -/
def appendPortBlock (rxtx : PortRxtx) (port : PortIndex) : Except Stop PortBlock := do
  let shown ← sppFormatPortString port
  let entry ← ifaceEntry P.L port.ifaceType port.ifaceNo
  match portMngIndex P.L (rt.flush.s.iface entry) with
  | none => .error (.undef)
  | some portId => .ok ⟨shown, appendVlanBlock (sppPortAbilityGetInfo rt.flush.table portId rxtx)⟩

/-- `append_core_element_value` for a component. -/
def appendCoreElementValue (lcoreId : ℕ) (name : CStr) (type : ComponentType)
    (rxPorts txPorts : List PortIndex) : Except Stop CoreElement := do
  let rx ← rxPorts.mapM (appendPortBlock P rt .rx)
  let tx ← txPorts.mapM (appendPortBlock P rt .tx)
  .ok (.component lcoreId name type rx tx)

/-- The path on the reference side. -/
def Runtime.refPath (id : ℕ) : DataPath := rt.paths id (rt.flush.index (.path id)).refIndex

/-- The classifier's area on the reference side. -/
def Runtime.refCmpInfo (id : ℕ) : CmpInfo τ :=
  (rt.mngInfos id).cmpInfos (rt.flush.index (.classifier id)).refIndex

/-- `spp_forward_get_component_status` and `spp_mirror_get_component_status`,
which differ in the types they show. -/
def pathGetComponentStatus (lcoreId id : ℕ) : Except Stop CoreElement :=
  let path := rt.refPath id
  if path.type = .unuse then .error .ng
  else
    let type :=
      match P.M with
      | .vf => if path.type = .merge then .merge else .forward
      | .mirror => .mirror
    appendCoreElementValue P rt lcoreId path.name type
      ((List.range path.numRx).map fun cnt => (path.ports cnt).rx.portIndex)
      ((List.range path.numTx).map fun cnt => (path.ports cnt).tx.portIndex)

/-- `spp_classifier_get_component_status`. -/
def sppClassifierGetComponentStatus (lcoreId id : ℕ) : Except Stop CoreElement :=
  if (rt.mngInfos id).isUsed = false then .error .ng
  else
    let cmpInfo := rt.refCmpInfo id
    let rxPorts :=
      if cmpInfo.classifiedDataRx.ifaceType ≠ .undef then [cmpInfo.classifiedDataRx.portIndex]
      else []
    appendCoreElementValue P rt lcoreId cmpInfo.name .classifierMac rxPorts
      ((List.range cmpInfo.nClassifiedDataTx).map fun i => (cmpInfo.classifiedDataTx i).portIndex)

/-- The status function that `spp_iterate_core_info` calls for a component. -/
def getComponentStatus (lcoreId id : ℕ) : Except Stop CoreElement :=
  match updateTarget P.M rt.flush.s id with
  | .classifier id => sppClassifierGetComponentStatus P rt lcoreId id
  | .path id => pathGetComponentStatus P rt lcoreId id

/-- The elements of one lcore in `spp_iterate_core_info`. -/
def iterateCore (lcoreId : ℕ) : Except Stop (List CoreElement) :=
  let core := rt.flush.s.core lcoreId
  if core.status = .unuse then .ok []
  else if core.refList.length = 0 then .ok [.unuse lcoreId]
  else core.refList.mapM (getComponentStatus P rt lcoreId)

/-- The lcores of `RTE_LCORE_FOREACH_SLAVE`. -/
def SppProcess.slaveLcores : List ℕ := (List.range P.L.maxLcore).filter P.slave

/-- `spp_iterate_core_info`. -/
def sppIterateCoreInfo : Except Stop (List CoreElement) := do
  let elements ← P.slaveLcores.mapM (iterateCore P rt)
  .ok elements.flatten

/-- `mac_classification_iterate_table`. -/
def macClassificationIterateTable (clsdData : ℕ → ClassifiedData) (vid : ℕ)
    (macCls : MacClassification τ) : List ClassifierElement :=
  let type : ClassifierType := if vid = vlanUntaggedVid then .mac else .vlan
  let default : List ClassifierElement :=
    if 0 ≤ macCls.defaultClassified then
      [⟨type, vid, none, (clsdData macCls.defaultClassified.toNat).portIndex⟩]
    else []
  default ++ (hash.iterate macCls.classificationTab).map fun entry =>
    ⟨type, vid, some entry.1, (clsdData entry.2).portIndex⟩

/-- The elements of one classifier in `spp_classifier_mac_iterate_table`. -/
def iterateCmpInfo (cmpInfo : CmpInfo τ) : List ClassifierElement :=
  (List.range sppNumVlanVid).flatMap fun vid =>
    match cmpInfo.macClassifications vid with
    | none => []
    | some macCls => macClassificationIterateTable hash cmpInfo.classifiedDataTx vid macCls

/-- `append_classifier_element_value`. -/
def appendClassifierElementValue (element : ClassifierElement) : Except Stop ClassifierElement :=
  (sppFormatPortString element.port).map fun port => { element with port := port }

/-- `spp_classifier_mac_iterate_table`. -/
def sppClassifierMacIterateTable : Except Stop (List ClassifierElement) :=
  ((List.range P.L.maxLcore).flatMap fun i =>
    if (rt.mngInfos i).isUsed then iterateCmpInfo hash (rt.refCmpInfo i) else []).mapM
      appendClassifierElementValue

/-- `append_interface_array`: the numbers of the interfaces that have a device. -/
def appendInterfaceArray (array : IfaceArray) : List ℕ :=
  (List.range P.L.maxEthports).filter fun i => 0 ≤ (rt.flush.s.iface ⟨array, i⟩).dpdkPort

/-- `append_info_value`. -/
def appendInfoValue : Except Stop StatusInfo := do
  let core ← sppIterateCoreInfo P rt
  let classifierTable ←
    match P.M with
    | .vf => (sppClassifierMacIterateTable P hash rt).map some
    | .mirror => .ok none
  .ok
    { clientId := P.clientId
      phy := appendInterfaceArray P rt .nic
      vhost := appendInterfaceArray P rt .vhost
      ring := appendInterfaceArray P rt .ring
      core := core
      classifierTable := classifierTable }

end Status

section Reply

/-- `make_decode_error_message`. -/
def makeDecodeErrorMessage (e : DecodeError) : CStr :=
  match e.code with
  | .badFormat => "bad message format".toList
  | .unknownCommand => "unknown command(".toList ++ e.value ++ ")".toList
  | .noParam => "not enough parameter(".toList ++ e.valueName ++ ")".toList
  | .badType => "bad value type(".toList ++ e.valueName ++ ")".toList
  | .badValue => "bad value(".toList ++ e.valueName ++ ")".toList

variable (P : SppProcess) (hash : RteHashTable τ)

/-- What `send_command_result_response` sends for a command that has no update
function. -/
def getterResponse (rt : Runtime τ ρ) : SppCommand → Except Stop Response
  | .clientId => .ok { results := [.success], clientId := some (P.clientId, P.M) }
  | .status => (appendInfoValue P hash rt).map fun info => { results := [.success], info := some info }
  | _ => .ok { results := [.success] }

/-- A reply is sent, unless the functions that build it have given up. -/
def Runtime.reply (response : Except Stop Response) (rt : Runtime τ ρ) : Option (Runtime τ ρ) :=
  match response with
  | .ok response => some { rt with pc := .idle .ok, replies := rt.replies ++ [response] }
  | .error .ng => some { rt with pc := .idle .ok }
  | .error .undef => none

/-- `process_request`, up to `spp_flush` for a command that has an update
function; `none` if it runs into undefined behaviour. -/
def Runtime.processRequest (r : Request) (rt : Runtime τ ρ) : Option (Runtime τ ρ) :=
  match rt.pc with
  | .idle _ =>
    match sppCommandDecodeRequest P.L P.M rt.flush.s r.text with
    | .error .undef => none
    | .error (.error e) =>
      some { rt with
        pc := .idle .ng
        replies := rt.replies ++ [{ results := [.error (makeDecodeErrorMessage e)] }] }
    | .ok command =>
      match updateCommand P.L rt.flush.s command with
      | none => rt.reply (getterResponse P hash rt command)
      | some (.error .undef) => none
      | some (.error .ng) => some (rt.finish .ng)
      | some (.ok s) =>
        some { rt with
          flush.s := s
          flush.dev := r.dev
          given := recordGiven P.L P.M r.text ⟨rt.flush.s, rt.given⟩
          pc := .update }
  | _ => none

/-- What happens next: a request arrives, the manager makes a step, an lcore
takes its list, or an lcore calls the function of a component. -/
inductive RuntimeEvent (ρ : Type)
  | request (r : Request)
  | manager (memory : ℕ → Bool)
  | takeCore (lcoreId : ℕ)
  | run (lcoreId cnt : ℕ) (call : WorkerCall ρ)

/-- One step of the process. -/
def runtimeStep (e : RuntimeEvent ρ) (rt : Runtime τ ρ) : Option (Runtime τ ρ) :=
  match e with
  | .request r => rt.processRequest P hash r
  | .manager memory => rt.managerStep P hash.toRteHash memory
  | .takeCore lcoreId => rt.takeCore lcoreId
  | .run lcoreId cnt call => rt.runComponent hash.toRteHash P lcoreId cnt call

/-- No request arrives. -/
def RuntimeEvent.Inner (e : RuntimeEvent ρ) : Prop := ∀ r, e ≠ .request r

/-- A request is processed from `rt` until `process_request` has returned, while
the workers go on. -/
def Executes (r : Request) (rt rt' : Runtime τ ρ) : Prop :=
  ∃ rt₁, rt.processRequest P hash r = some rt₁ ∧
    Reaches (runtimeStep P hash) (fun e _ => e.Inner) rt₁ rt' ∧ ∃ ret, rt'.pc = .idle ret

end Reply

section Examples

/-- A process spp_vf with one slave lcore. -/
def oneSlave : SppProcess := ⟨.default, .vf, fun l => l = 1, 1⟩

/-- The process before its first request, with one physical port. -/
def bootRuntime : Runtime (List (ℕ × ℕ)) ℕ := .initial oneSlave 1 0

/-- A step of the manager that gets the memory it asks for. -/
def managerEvent : RuntimeEvent ℕ := .manager fun _ => true

/-- A call of the component at a position of the list of lcore 1 that receives
the given frames. -/
def runEvent (cnt : ℕ) (frames : List (Frame ℕ)) : RuntimeEvent ℕ :=
  .run 1 cnt ⟨false, frames, fun _ => 0⟩

/-- A request whose flush publishes the list of lcore 1 and then updates the
component at a position of that list, which has `ports` ports. -/
def flushEvents (text : String) (cnt ports : ℕ) : List (RuntimeEvent ℕ) :=
  [.request (.ofString text), managerEvent, .takeCore 1, managerEvent, managerEvent] ++
    List.replicate ports managerEvent ++
    [managerEvent, managerEvent, managerEvent, runEvent cnt [], managerEvent, managerEvent,
      managerEvent]

end Examples

end Spp.Vf
