import Spp.Vf.AbilityTable
import Spp.Vf.AbilityFlush
import Spp.Vf.ClassifierRun
import Spp.Vf.FlushWait

/-!
# The running process

The tables of the manager together with what the workers read: the published
abilities, the areas of `g_mng_infos` and the paths of the other components. A
worker calls the function of one component at a time, and the manager executes
a flush step by step between these calls. `FlushWorld` holds the tables, the
abilities, all index pairs and the place in `flush_component`.
-/

namespace Spp.Vf

open CLib

section Replies

/-- A VLAN operation as `append_vlan_value` shows it. -/
structure VlanBlock where
  operation : PortAbilityOpe
  id : ℤ
  pcp : ℤ
  deriving DecidableEq, Repr

/-- A port as `append_port_block` shows it. -/
structure PortBlock where
  port : PortIndex
  vlan : VlanBlock
  deriving DecidableEq, Repr

/-- An element of the array `core`. One of type `unuse` shows its core only. -/
inductive CoreElement
  | unuse (core : ℕ)
  | component (core : ℕ) (name : CStr) (type : ComponentType) (rxPort txPort : List PortBlock)
  deriving DecidableEq, Repr

/-- An element of the array `classifier_table`; `none` is the address `default`.
The VLAN id is part of the value of an element of type `vlan` only. -/
structure ClassifierElement where
  type : ClassifierType
  vid : ℕ
  mac : Option ℕ
  port : PortIndex
  deriving DecidableEq, Repr

/-- The block `info` of a reply; only spp_vf has a `classifier_table`. -/
structure StatusInfo where
  clientId : ℤ
  phy : List ℕ
  vhost : List ℕ
  ring : List ℕ
  core : List CoreElement
  classifierTable : Option (List ClassifierElement)

/-- `struct command_result`, with the message of an error. -/
inductive CommandResult
  | success
  | error (message : CStr)
  | invalid
  deriving DecidableEq, Repr

/-- A reply to the controller. The process type is shown beside the client id. -/
structure Response where
  results : List CommandResult
  clientId : Option (ℤ × SppModule) := none
  info : Option StatusInfo := none

/-- The result of a command that was executed. -/
def commandResult (ret : Ret) : CommandResult :=
  if ret = .ok then .success else .error "error occur".toList

end Replies

section State

/-- What is fixed for a process: the limits of its build, the program it is, its
slave lcores and its client id. -/
structure SppProcess where
  L : Limits
  M : SppModule
  slave : ℕ → Bool
  clientId : ℤ

/-- `struct management_info` beside its two indices: `is_used`, and the areas
with the packet buffers of their ports. The other fields are history: the
packets received for the component, those of them that it freed, and those that
were handed to `spp_eth_tx_burst` for each transmit port. -/
structure ManagementInfo (τ ρ : Type) where
  isUsed : Bool := false
  cmpInfos : Fin 2 → CmpInfo τ := fun _ => {}
  pkts : Fin 2 → ℕ → List ρ := fun _ _ => []
  arrived : List ρ := []
  freed : List ρ := []
  handed : ℕ → List ρ := fun _ => []

/-- Where the manager is: between two requests, with the value the last command
has returned; at the begin of `spp_flush`; in the waits of `flush_core`; in
`flush_component`. -/
inductive ProcPc
  | idle (ret : Ret)
  | update
  | core
  | component
  deriving DecidableEq

/-- The state of the process. The last three fields are history: the replies
that were sent, the ability that the last `port add` has given for an
attachment, and whether a call of `spp_classifier_mac_update` for a slot has
got past the creation of its first table. -/
structure Runtime (τ ρ : Type) where
  flush : FlushWorld
  mngInfos : ℕ → ManagementInfo τ ρ
  paths : ℕ → Fin 2 → DataPath
  pc : ProcPc
  replies : List Response
  given : ℕ × PortRxtx × PortRef → PortAbility
  built : ℕ → Bool

/-- The process before its first request. -/
def Runtime.initial {τ ρ : Type} (P : SppProcess) (numNic mainLcore : ℕ) : Runtime τ ρ :=
  { flush := FlushWorld.initial
      (startForwarding P.slave mainLcore (initMngData P.L P.slave numNic))
      ⟨fun _ => 0, fun _ => 0, fun _ => .ok⟩
    mngInfos := fun _ => {}
    paths := fun _ _ => {}
    pc := .idle .ng
    replies := []
    given := fun _ => {}
    built := fun _ => false }

end State

variable {τ ρ : Type}

section Worker

/-- A call of a component's function: whether the interval for draining is over,
what is received, and the room that the devices have. -/
structure WorkerCall (ρ : Type) where
  drain : Bool
  frames : List (Frame ρ)
  room : ℕ → ℕ

/-- The transmit side of an area. -/
def ManagementInfo.tx (m : ManagementInfo τ ρ) (area : Fin 2) : TxSide ρ :=
  ⟨m.pkts area, 0, m.handed, fun _ => []⟩

/-- The transmit side of an area is replaced. -/
def ManagementInfo.setTx (m : ManagementInfo τ ρ) (area : Fin 2) (tx : TxSide ρ) :
    ManagementInfo τ ρ :=
  { m with pkts := Function.update m.pkts area tx.pkts, handed := tx.handed }

/-- Replacement of the management information of one component. -/
def Runtime.setMngInfo (rt : Runtime τ ρ) (id : ℕ) (m : ManagementInfo τ ρ) : Runtime τ ρ :=
  { rt with mngInfos := Function.update rt.mngInfos id m }

/-- A worker takes the pending abilities and moves its index. -/
def FlushWorld.takeOver (w : FlushWorld) (target : UpdateTarget) : FlushWorld :=
  { w with
    table := changeIndexRef w.table
    index := Function.update w.index target
      { w.index target with refIndex := (w.index target).updIndex + 1 } }

/-- `change_classifier_index`. -/
def Runtime.changeClassifierIndex (room : ℕ → ℕ) (id : ℕ) (rt : Runtime τ ρ) : Runtime τ ρ :=
  let index := rt.flush.index (.classifier id)
  if index.refIndex = index.updIndex then
    let m := rt.mngInfos id
    let n := (m.cmpInfos index.refIndex).nClassifiedDataTx
    { rt.setMngInfo id (m.setTx index.refIndex ((m.tx index.refIndex).transmitAll room n)) with
      flush := rt.flush.takeOver (.classifier id) }
  else rt

/-- `change_forward_index` and `change_mirror_index`. -/
def Runtime.changeForwardIndex (id : ℕ) (rt : Runtime τ ρ) : Runtime τ ρ :=
  let index := rt.flush.index (.path id)
  if index.refIndex = index.updIndex then { rt with flush := rt.flush.takeOver (.path id) }
  else rt

variable (hash : RteHash τ)

/-- What `classify_packet` pushes for one frame of a burst. -/
def classifyFrame (room : ℕ → ℕ) (cmpInfo : CmpInfo τ) (tx : TxSide ρ) (frame : Frame ρ) :
    TxSide ρ :=
  (classifyPacket hash frame cmpInfo).pushes.foldl (fun tx i => tx.push room frame.mbuf i) tx

/-- `spp_classifier_mac_do` on the area of the reference side. -/
def ManagementInfo.classify (call : WorkerCall ρ) (area : Fin 2) (m : ManagementInfo τ ρ) :
    ManagementInfo τ ρ :=
  let cmpInfo := m.cmpInfos area
  if cmpInfo.classifiedDataRx.ifaceType ≠ .undef ∧ 1 ≤ cmpInfo.nClassifiedDataTx ∧
      cmpInfo.macAddrEntry = 1 then
    let tx :=
      if call.drain then (m.tx area).transmitAll call.room cmpInfo.nClassifiedDataTx
      else m.tx area
    let freed := call.frames.filter fun frame => (classifyPacket hash frame cmpInfo).freed
    { m.setTx area (call.frames.foldl (classifyFrame hash call.room cmpInfo) tx) with
      arrived := m.arrived ++ call.frames.map Frame.mbuf
      freed := m.freed ++ freed.map Frame.mbuf }
  else m

/-- `spp_classifier_mac_do`. -/
def Runtime.sppClassifierMacDo (call : WorkerCall ρ) (id : ℕ) (rt : Runtime τ ρ) : Runtime τ ρ :=
  let rt := rt.changeClassifierIndex call.room id
  rt.setMngInfo id
    ((rt.mngInfos id).classify hash call (rt.flush.index (.classifier id)).refIndex)

variable (P : SppProcess)

/-- `slave_main` calls the function of the component at a position of its list.
A forwarder, merger or mirror keeps no packet when its function returns, so of
these only the index is left to say. -/
def Runtime.runComponent (lcoreId cnt : ℕ) (call : WorkerCall ρ) (rt : Runtime τ ρ) :
    Option (Runtime τ ρ) :=
  let core := rt.flush.s.core lcoreId
  if core.status = .forward then
    core.refList[cnt]?.map fun id =>
      match updateTarget P.M rt.flush.s id with
      | .classifier id => rt.sppClassifierMacDo hash call id
      | .path id => rt.changeForwardIndex id
  else none

/-- `slave_main` takes a list that was handed over. -/
def Runtime.takeCore (lcoreId : ℕ) (rt : Runtime τ ρ) : Option (Runtime τ ρ) :=
  let core := rt.flush.s.core lcoreId
  if core.status = .forward then
    some { rt with
      flush.s.core := Function.update rt.flush.s.core lcoreId core.takeUpdate }
  else none

end Worker

section Flush

variable (P : SppProcess) (hash : RteHash τ)

/-- The reply to a command that was executed is sent. -/
def Runtime.finish (ret : Ret) (rt : Runtime τ ρ) : Runtime τ ρ :=
  { rt with pc := .idle ret, replies := rt.replies ++ [{ results := [commandResult ret] }] }

/-- The number of transmit ports whose information `init_component_info` has
stored when it returns. -/
def txPortsStored (memory : ℕ → Bool) : ℕ → List PortInfo → CmpInfo τ → ℕ
  | i, [], _ => i
  | i, txPort :: txPorts, cmpInfo =>
    match initTxPort hash (memory i) i txPort cmpInfo with
    | (.ng, _) => i + 1
    | (.ok, cmpInfo) => txPortsStored memory (i + 1) txPorts cmpInfo

/-- The loop of `init_component_info` fails at the first transmit port with an
address, because `create_mac_classification` fails. -/
def failsAtFirstTable (memory : ℕ → Bool) : ℕ → List PortInfo → Bool
  | _, [] => false
  | i, txPort :: txPorts =>
    if txPort.classId.macAddr = 0 then failsAtFirstTable memory (i + 1) txPorts else !memory i

/-- `init_component_info` in the update area of a classifier. -/
def Runtime.initArea (memory : ℕ → Bool) (id : ℕ) (rt : Runtime τ ρ) : Ret × CmpInfo τ :=
  initComponentInfo hash memory rt.flush.s.iface (rt.flush.s.component id)
    ((rt.mngInfos id).cmpInfos (rt.flush.index (.classifier id)).updIndex)

/-- `spp_classifier_mac_update` up to the publication of the area. -/
def Runtime.buildClassifier (memory : ℕ → Bool) (id : ℕ) (rt : Runtime τ ρ) : Runtime τ ρ :=
  let component := rt.flush.s.component id
  let txPorts := component.txPorts.map rt.flush.s.iface
  let upd := (rt.flush.index (.classifier id)).updIndex
  let m := rt.mngInfos id
  let made := rt.initArea hash memory id
  let stored := txPortsStored hash memory 0 txPorts (m.cmpInfos upd)
  let cmpInfo := if made.1 = .ok then { made.2 with name := component.name } else made.2
  { rt.setMngInfo id
      { m with
        cmpInfos := Function.update m.cmpInfos upd cmpInfo
        pkts := Function.update m.pkts upd fun i => if i < stored then [] else m.pkts upd i } with
    built := Function.update rt.built id (rt.built id || !failsAtFirstTable memory 0 txPorts) }

/-- The path that `spp_forward_update` or `spp_mirror_update` builds. -/
def Runtime.madePath (id : ℕ) (rt : Runtime τ ρ) : Option DataPath :=
  match P.M with
  | .vf => sppForwardUpdate rt.flush.s.iface (rt.flush.s.component id)
  | .mirror => sppMirrorUpdate rt.flush.s.iface (rt.flush.s.component id)

/-- `spp_forward_update` and `spp_mirror_update` up to the publication of the path. -/
def Runtime.buildPath (id : ℕ) (rt : Runtime τ ρ) : Runtime τ ρ :=
  match rt.madePath P id with
  | some path =>
    let upd := (rt.flush.index (.path id)).updIndex
    { rt with
      paths := Function.update rt.paths id (Function.update (rt.paths id) upd path) }
  | none => rt

/-- What a step of `flush_component` does to the areas: the update function
builds one, marks the classifier as used when it is published, and
uninitialises the area that it got back. -/
def Runtime.areaStep (memory : ℕ → Bool) (rt : Runtime τ ρ) : Runtime τ ρ :=
  match rt.flush.manager with
  | .setting id [] _ =>
    match updateTarget P.M rt.flush.s id with
    | .classifier id => rt.buildClassifier hash memory id
    | .path id => rt.buildPath P id
  | .store id _ _ =>
    match updateTarget P.M rt.flush.s id with
    | .classifier id => rt.setMngInfo id { rt.mngInfos id with isUsed := true }
    | .path _ => rt
  | .wait id _ =>
    match updateTarget P.M rt.flush.s id with
    | .classifier id =>
      let index := rt.flush.index (.classifier id)
      if index.refIndex = index.updIndex then rt
      else
        let m := rt.mngInfos id
        rt.setMngInfo id
          { m with
            cmpInfos := Function.update m.cmpInfos index.updIndex {}
            pkts := Function.update m.pkts index.updIndex fun _ => [] }
    | .path _ => rt
  | _ => rt

/-- What the step of `flush_component` returns is decided by the area it builds. -/
def Runtime.flushWorld (memory : ℕ → Bool) (rt : Runtime τ ρ) : FlushWorld :=
  { rt.flush with
    dev.classifierMacUpdate := fun id => (rt.initArea hash memory id).1 }

/-- The end of `flush_component` and of the request. -/
def Runtime.finishFlush (ret : Ret) (rt : Runtime τ ρ) : Runtime τ ρ :=
  { rt with flush.s := backupMngInfo P.L rt.flush.s }.finish ret

/-- A step of `flush_component`. -/
def Runtime.componentStep (memory : ℕ → Bool) (rt : Runtime τ ρ) : Option (Runtime τ ρ) :=
  (flushManagerStep P.L P.M (rt.flushWorld hash memory)).map fun w =>
    let rt' := { rt.areaStep P hash memory with flush := { w with dev := rt.flush.dev } }
    if w.manager = .idle then
      rt'.finishFlush P (if rt.flush.manager = .loop [] then .ok else .ng)
    else rt'

/-- Every flagged core has taken its list. -/
def CoresTaken (L : Limits) (s : MngData) : Prop :=
  ∀ l < L.maxLcore, s.changeCore l = true → (s.core l).refIndex ≠ (s.core l).updIndex

instance (L : Limits) (s : MngData) : Decidable (CoresTaken L s) := by
  unfold CoresTaken
  infer_instance

/-- The copies at the end of `flush_core`. -/
def copyBackCores (L : Limits) (s : MngData) : MngData :=
  { s with
    core := fun l =>
      if l < L.maxLcore ∧ s.changeCore l = true then (s.core l).copyBack else s.core l }

/-- A step of the manager within `spp_flush`. `memory` says whether a
classification can be created for a transmit port. -/
def Runtime.managerStep (memory : ℕ → Bool) (rt : Runtime τ ρ) : Option (Runtime τ ρ) :=
  match rt.pc with
  | .idle _ => none
  | .update =>
    match flushPort P.L rt.flush.dev rt.flush.s with
    | (.ng, s) => some ({ rt with flush.s := s }.finish .ng)
    | (.ok, s) =>
      some { rt with flush.s := { s with core := publishCores P.L s }, pc := .core }
  | .core =>
    if CoresTaken P.L rt.flush.s then
      some { rt with
        flush.s := copyBackCores P.L rt.flush.s
        flush.manager := .loop ((List.range P.L.maxLcore).filter rt.flush.s.changeComponent)
        pc := .component }
    else some rt
  | .component => rt.componentStep P hash memory

end Flush

end Spp.Vf
