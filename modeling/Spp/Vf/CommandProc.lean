import Spp.Vf.CommandDec
import Spp.Vf.DataPath

/-!
# Command execution

The update functions of `command_proc.c`, the flush functions of `spp_proc.c`
and `execute_command`. An update function stops before its first store when it
fails, so it returns the new tables or the way it stopped. A flush returns
both a value and the tables it leaves. `flushCore` is the state once each
flagged core has answered.
-/

namespace Spp.Vf

open CLib

/-- What the devices answer while one request is executed: the return values of
`spp_vf_add_vhost_pmd` and `add_ring_pmd` by interface number, and of
`spp_classifier_mac_update` by component id. -/
structure Devices where
  addVhostPmd : ℕ → ℤ
  addRingPmd : ℕ → ℤ
  classifierMacUpdate : ℕ → Ret

section Update

variable (L : Limits)

/-- `spp_update_classifier_table`. -/
def sppUpdateClassifierTable (s : MngData) (table : CommandClassifierTable) :
    Except Stop MngData := do
  let retMac ← sppChangeMacStrToInt64 table.mac
  if retMac = -1 then .error .ng
  else
    let macAddr := macToUInt64 retMac
    match ← getIfaceInfo L table.port.ifaceType table.port.ifaceNo with
    | none => .error .ng
    | some port =>
      let info := s.iface port
      if info.ifaceType = .undef then .error .ng
      else
        match table.action with
        | .del =>
          if info.classId.vid ≠ 0 ∧ info.classId.vid ≠ table.vid then .error .ng
          else if info.classId.macAddr ≠ 0 ∧ info.classId.macAddr ≠ macAddr then .error .ng
          else
            let classId := { macAddr := 0, macAddrStr := [], vid := ethVlanIdMax }
            setComponentChangePort L (s.setIface port { info with classId := classId }) port .tx
        | .add =>
          if info.classId.vid ≠ ethVlanIdMax then .error .ng
          else if info.classId.macAddr ≠ 0 then .error .ng
          else
            let macAddrStr ← strcpy sppMinStrLen table.mac
            let classId := { macAddr := macAddr, macAddrStr := macAddrStr, vid := table.vid }
            setComponentChangePort L (s.setIface port { info with classId := classId }) port .tx
        | _ => setComponentChangePort L s port .tx

/-- `spp_update_component`, action `SPP_CMD_ACTION_START`. -/
def sppUpdateComponentStart (s : MngData) (name : CStr) (lcoreId : ℕ) (type : ComponentType) :
    Except Stop MngData :=
  if (s.core lcoreId).status = .unuse then .error .ng
  else if (sppGetComponentId L s name).isSome then .error .ng
  else
    match getFreeComponent L s with
    | none => .error .ng
    | some componentId =>
      let s := s.setComponent componentId
        { name := name, type := type, lcoreId := lcoreId, componentId := componentId }
      let s := s.setUpdList lcoreId ((s.core lcoreId).updList ++ [componentId])
      .ok ((s.setChangeComponent componentId true).setChangeCore lcoreId)

/-- `spp_update_component`, action `SPP_CMD_ACTION_STOP`. The test of the
component type comes after the slot is zeroed, so the classifier information is
never initialised here. -/
def sppUpdateComponentStop (s : MngData) (name : CStr) : MngData :=
  match sppGetComponentId L s name with
  | none => s
  | some componentId =>
    let lcoreId := (s.component componentId).lcoreId
    let s := s.setComponent componentId {}
    let s :=
      match delComponentInfo componentId (s.core lcoreId).updList with
      | some ids => s.setUpdList lcoreId ids
      | none => s
    (s.setChangeComponent componentId false).setChangeCore lcoreId

/-- `spp_update_component`. The decoder yields no third action; for one the
source would only flag core zero and return `SPP_RET_NG`. -/
def sppUpdateComponent (s : MngData) (c : CommandComponent) : Except Stop MngData :=
  match c.action with
  | .start => sppUpdateComponentStart L s c.name c.core c.type
  | .stop => .ok (sppUpdateComponentStop L s c.name)
  | _ => .error .ng

/-- `check_port_count`: the type still admits one more port in the direction. -/
def checkPortCount (componentType : ComponentType) (rxtx : PortRxtx) (numRx numTx : ℕ) : Ret :=
  let numRx' := if rxtx = .rx then numRx + 1 else numRx
  let numTx' := if rxtx = .rx then numTx else numTx + 1
  match componentType with
  | .forward => if numRx' > 1 ∨ numTx' > 1 then .ng else .ok
  | .merge => if numTx' > 1 then .ng else .ok
  | .classifierMac => if numRx' > 1 then .ng else .ok
  | .mirror => if numRx' > 1 ∨ numTx' > 2 then .ng else .ok
  | .unuse => .ng

/-- The first index at which a port has an ability with the given operation. -/
def findAbility (info : PortInfo) (ope : PortAbilityOpe) : Option (Fin sppPortAbilityMax) :=
  (List.finRange sppPortAbilityMax).find? fun cnt => (info.ability cnt).ope = ope

/-- The port with one entry of its ability array overwritten. -/
def PortInfo.setAbility (info : PortInfo) (cnt : Fin sppPortAbilityMax) (ability : PortAbility) :
    PortInfo :=
  { info with ability := Function.update info.ability cnt ability }

/-- The port with its abilities of one direction zeroed. -/
def PortInfo.clearAbility (info : PortInfo) (rxtx : PortRxtx) : PortInfo :=
  { info with
    ability := fun cnt =>
      if (info.ability cnt).ope ≠ .none ∧ (info.ability cnt).rxtx = rxtx then {}
      else info.ability cnt }

/-- `spp_update_port`, action `SPP_CMD_ACTION_ADD`, for a component and a port
that have been found. -/
def sppUpdatePortAdd (s : MngData) (componentId : ℕ) (port : PortRef) (c : CommandPort) :
    Except Stop MngData :=
  let compInfo := s.component componentId
  let portInfo := s.iface port
  let ports := compInfo.ports c.rxtx
  if checkPortCount compInfo.type c.rxtx compInfo.rxPorts.length compInfo.txPorts.length ≠ .ok then
    .error .ng
  else if (checkPortElement port ports).isSome then
    -- The port is attached already: only a VLAN tag can be replaced.
    if c.ability.ope = .addVlantag then
      match findAbility portInfo .addVlantag with
      | none => .error .ng
      | some cnt =>
        .ok ((s.setIface port (portInfo.setAbility cnt c.ability)).setChangeComponent
          componentId true)
    else .ok s
  else if ports.length ≥ L.maxEthports then .error .ng
  else
    let attach (portInfo : PortInfo) : MngData :=
      let s := s.setIface port { portInfo with ifaceType := c.port.ifaceType }
      let s := s.setComponent componentId (compInfo.setPorts c.rxtx (ports ++ [port]))
      s.setChangeComponent componentId true
    if c.ability.ope ≠ .none then
      match findAbility portInfo .none with
      | none => .error .ng
      | some cnt => .ok (attach (portInfo.setAbility cnt c.ability))
    else .ok (attach portInfo)

/-- `spp_update_port`, action `SPP_CMD_ACTION_DEL`, for a component and a port
that have been found. -/
def sppUpdatePortDel (s : MngData) (componentId : ℕ) (port : PortRef) (rxtx : PortRxtx) :
    MngData :=
  let compInfo := s.component componentId
  let s := s.setIface port ((s.iface port).clearAbility rxtx)
  let s :=
    match getDelPortElement port (compInfo.ports rxtx) with
    | some ports => s.setComponent componentId (compInfo.setPorts rxtx ports)
    | none => s
  s.setChangeComponent componentId true

/-- `spp_update_port`. -/
def sppUpdatePort (s : MngData) (c : CommandPort) : Except Stop MngData :=
  match sppGetComponentId L s c.name with
  | none => .error .ng
  | some componentId =>
    match ifaceEntry L c.port.ifaceType c.port.ifaceNo with
    | .error e => .error e
    | .ok port =>
      match c.action with
      | .add => sppUpdatePortAdd L s componentId port c
      | .del => .ok (sppUpdatePortDel s componentId port c.rxtx)
      | _ => .error .ng

end Update

section Flush

/-- One iteration of the loops of `flush_port`: an added interface without a
device gets one. -/
def flushPortEntry (addPmd : ℕ → ℤ) (port : PortRef) (s : MngData) : Ret × MngData :=
  let info := s.iface port
  if info.ifaceType ≠ .undef ∧ info.dpdkPort < 0 then
    let ret := addPmd info.ifaceNo
    if ret < 0 then (.ng, s) else (.ok, s.setIface port { info with dpdkPort := ret })
  else (.ok, s)

/-- A loop of `flush_port` over an array of interfaces, left at the first error. -/
def flushPortArray (addPmd : ℕ → ℤ) : List PortRef → MngData → Ret × MngData
  | [], s => (.ok, s)
  | port :: ports, s =>
    match flushPortEntry addPmd port s with
    | (.ng, s) => (.ng, s)
    | (.ok, s) => flushPortArray addPmd ports s

/-- `flush_port`. -/
def flushPort (L : Limits) (dev : Devices) (s : MngData) : Ret × MngData :=
  match flushPortArray dev.addVhostPmd ((List.range L.maxEthports).map (PortRef.mk .vhost)) s with
  | (.ng, s) => (.ng, s)
  | (.ok, s) => flushPortArray dev.addRingPmd ((List.range L.maxEthports).map (PortRef.mk .ring)) s

/-- The manager hands the update side of a core over. -/
def CoreMngInfo.publish (c : CoreMngInfo) : CoreMngInfo :=
  { c with updIndex := c.refIndex }

/-- `slave_main` takes a list that was handed over. -/
def CoreMngInfo.takeUpdate (c : CoreMngInfo) : CoreMngInfo :=
  if c.refIndex = c.updIndex then { c with refIndex := c.updIndex + 1 } else c

/-- The copy that ends `flush_core` for one core. -/
def CoreMngInfo.copyBack (c : CoreMngInfo) : CoreMngInfo :=
  { c with core := Function.update c.core c.updIndex c.refList }

/-- `flush_core`, once the workers of all flagged cores have answered. -/
def flushCore (L : Limits) (s : MngData) : MngData :=
  { s with
    core := fun l =>
      if l < L.maxLcore ∧ s.changeCore l = true then (s.core l).publish.takeUpdate.copyBack
      else s.core l }

/-- The return value of the update function that `flush_component` calls for a
component. -/
def componentUpdateRet (M : SppModule) (dev : Devices) (s : MngData) (cnt : ℕ) : Ret :=
  let component := s.component cnt
  match M with
  | .vf =>
    if component.type = .classifierMac then dev.classifierMacUpdate cnt
    else if (sppForwardUpdate s.iface component).isSome then .ok else .ng
  | .mirror => if (sppMirrorUpdate s.iface component).isSome then .ok else .ng

/-- `flush_component`: the flagged components are updated in order up to the
first error. -/
def flushComponent (L : Limits) (M : SppModule) (dev : Devices) (s : MngData) : Ret :=
  if ∀ cnt < L.maxLcore, s.changeComponent cnt = true → componentUpdateRet M dev s cnt = .ok then
    .ok
  else .ng

/-- `backup_mng_info`. The copy it takes is read nowhere; what it leaves behind
are cleared change flags. -/
def backupMngInfo (L : Limits) (s : MngData) : MngData :=
  { s with
    changeCore := fun l => if l < L.maxLcore then false else s.changeCore l
    changeComponent := fun cnt => if cnt < L.maxLcore then false else s.changeComponent cnt }

/-- `spp_flush`. -/
def sppFlush (L : Limits) (M : SppModule) (dev : Devices) (s : MngData) : Ret × MngData :=
  match flushPort L dev s with
  | (.ng, s) => (.ng, s)
  | (.ok, s) =>
    let s := flushCore L s
    (flushComponent L M dev s, backupMngInfo L s)

end Flush

section Execute

variable (L : Limits) (M : SppModule)

/-- The update function that `execute_command` runs before the flush, for a
command that has one. -/
def updateCommand (s : MngData) : SppCommand → Option (Except Stop MngData)
  | .classifierTableMac c | .classifierTableVlan c => some (sppUpdateClassifierTable L s c)
  | .component c => some (sppUpdateComponent L s c)
  | .port c => some (sppUpdatePort L s c)
  | .clientId | .status | .exit => none

/-- `execute_command`; `none` if it runs into undefined behaviour. -/
def executeCommand (dev : Devices) (s : MngData) (command : SppCommand) : Option (Ret × MngData) :=
  match updateCommand L s command with
  | none => some (.ok, s)
  | some (.error .undef) => none
  | some (.error .ng) => some (.ng, s)
  | some (.ok s') => some (sppFlush L M dev s')

/-- One request with what the devices answer while it is executed. -/
structure Request where
  text : CStr
  dev : Devices

/-- A request with devices that can all be created. -/
def Request.ofString (text : String) : Request :=
  ⟨text.toList, ⟨fun _ => 0, fun _ => 0, fun _ => .ok⟩⟩

/-- `process_request` without the reply text: whether the reply reports success,
and the tables it leaves. -/
def processRequest (r : Request) (s : MngData) : Option (Ret × MngData) :=
  match sppCommandDecodeRequest L M s r.text with
  | .error .undef => none
  | .error (.error _) => some (.ng, s)
  | .ok command => executeCommand L M r.dev s command

/-- The request is replied to with success. -/
def accepted (r : Request) (s : MngData) : Bool :=
  (processRequest L M r s).any fun reply => reply.1 = .ok

/-- The state after one request. -/
def serve (r : Request) (s : MngData) : Option MngData :=
  (processRequest L M r s).map Prod.snd

end Execute

end Spp.Vf
