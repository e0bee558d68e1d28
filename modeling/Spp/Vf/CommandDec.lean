import Spp.Vf.Tables

/-!
# The request decoder

`command_dec.c`: a request string is split at spaces, matched against the
command list by name and number of tokens, and its tokens are handed one by one
to the handlers of `parameter_list`. A handler sees the command decoded so far,
which starts zeroed, and the management state.

A handler stops with `Stop.ng` where the source returns `SPP_RET_NG`, and with
`Stop.undef` where a `strcpy` overruns its destination or a pointer leaves its
array.
-/

namespace Spp.Vf

open CLib

/-- `struct spp_command_classifier_table`; zeroed by default. -/
structure CommandClassifierTable where
  action : CommandAction := .none
  type : ClassifierType := .none
  vid : ℤ := 0
  mac : CStr := []
  port : PortIndex := {}
  deriving DecidableEq, Repr

/-- `struct spp_command_component`; zeroed by default. -/
structure CommandComponent where
  action : CommandAction := .none
  name : CStr := []
  core : ℕ := 0
  type : ComponentType := .unuse
  deriving DecidableEq, Repr

/-- `struct spp_command_port`; zeroed by default. -/
structure CommandPort where
  action : CommandAction := .none
  port : PortIndex := {}
  rxtx : PortRxtx := .none
  name : CStr := []
  ability : PortAbility := {}
  deriving DecidableEq, Repr

/-- `struct spp_command`: the command type with the member of the union that
belongs to it. -/
inductive SppCommand
  | classifierTableMac (c : CommandClassifierTable)
  | classifierTableVlan (c : CommandClassifierTable)
  | clientId
  | status
  | exit
  | component (c : CommandComponent)
  | port (c : CommandPort)
  deriving DecidableEq, Repr

/-- `enum spp_command_decode_error_code`. -/
inductive DecodeErrorCode
  | badFormat | unknownCommand | noParam | badType | badValue
  deriving DecidableEq, Repr

/-- `struct spp_command_decode_error`. -/
structure DecodeError where
  code : DecodeErrorCode
  valueName : CStr := []
  value : CStr := []
  deriving DecidableEq, Repr

/-- The ways decoding ends without a command: an error that is reported to the
controller, or undefined behaviour. -/
inductive DecodeFailure
  | error (e : DecodeError)
  | undef
  deriving DecidableEq, Repr

/-- `strcpy` into a buffer of `bufsz` bytes. -/
def strcpy (bufsz : ℕ) (src : CStr) : Except Stop CStr :=
  if src.length < bufsz then .ok src else .error (.undef)

/-- `CLASSIFILER_TYPE_STRINGS`. -/
def classifierTypeStrings : List (String × ClassifierType) :=
  [("none", .none), ("mac", .mac), ("vlan", .vlan)]

/-- `COMMAND_ACTION_STRINGS`. -/
def commandActionStrings : List (String × CommandAction) :=
  [("none", .none), ("start", .start), ("stop", .stop), ("add", .add), ("del", .del)]

/-- `PORT_RXTX_STRINGS`. -/
def portRxtxStrings : List (String × PortRxtx) :=
  [("none", .none), ("rx", .rx), ("tx", .tx)]

/-- `PORT_ABILITY_STRINGS`. -/
def portAbilityStrings : List (String × PortAbilityOpe) :=
  [("none", .none), ("add_vlantag", .addVlantag), ("del_vlantag", .delVlantag)]

/-- `get_arrary_index`: the enumerator listed with the string. -/
def getArraryIndex {α : Type} (arg : CStr) (list : List (String × α)) : Option α :=
  (list.find? fun p => p.1.toList = arg).map Prod.snd

/-- `get_int_value`. -/
def getIntValue (arg : CStr) (min max : ℤ) : Except Stop ℤ :=
  match strtol 0 arg with
  | some (v, []) =>
    let ret := toInt v
    if ret < min ∨ ret > max then .error .ng else .ok ret
  | _ => .error .ng

/-- `get_uint_value`. -/
def getUintValue (arg : CStr) (min max : ℕ) : Except Stop ℕ :=
  match strtoul 0 arg with
  | some (v, []) =>
    let ret := toUInt v
    if ret < min ∨ ret > max then .error .ng else .ok ret
  | _ => .error .ng

/-- `decode_str_value` into a buffer of `bufsz` bytes. -/
def decodeStrValue (bufsz : ℕ) (arg : CStr) : Except Stop CStr :=
  if arg.length ≥ sppCmdValueBufsz then .error .ng else strcpy bufsz arg

/-- The text after a prefix, as compared by `strncmp`. -/
def stripPrefix (pre : String) (s : CStr) : Option CStr :=
  if pre.toList.isPrefixOf s then some (s.drop pre.toList.length) else none

/-- `spp_convert_port_to_iface`. -/
def sppConvertPortToIface (port : CStr) : Except Stop PortIndex :=
  let number (type : PortType) (noStr : CStr) : Except Stop PortIndex :=
    match strtol 0 noStr with
    | some (v, []) => .ok ⟨type, toInt v⟩
    | _ => .error .ng
  match stripPrefix "phy:" port with
  | some noStr => number .phy noStr
  | none =>
    match stripPrefix "vhost:" port with
    | some noStr => number .vhost noStr
    | none =>
      match stripPrefix "ring:" port with
      | some noStr => number .ring noStr
      | none => .error .ng

/-- `spp_convert_component_type`. -/
def sppConvertComponentType (M : SppModule) (typeStr : CStr) : ComponentType :=
  match M with
  | .vf =>
    if typeStr = "classifier_mac".toList then .classifierMac
    else if typeStr = "merge".toList then .merge
    else if typeStr = "forward".toList then .forward
    else .unuse
  | .mirror => if typeStr = "mirror".toList then .mirror else .unuse

/-- The loop of `spp_change_mac_str_to_int64` over the fields of the address. A
field that is no hexadecimal number ends the loop without an error. -/
def macFields (tokens : List CStr) (tokenCnt : ℕ) (retMac : BitVec 64) :
    Except Stop (BitVec 64) :=
  match tokens with
  | [] => .ok retMac
  | retTok :: rest =>
    if tokenCnt ≥ etherAddrLen then .error .ng
    else
      match strtol 16 retTok with
      | some (v, []) =>
        macFields rest (tokenCnt + 1) (retMac ||| BitVec.ofInt 64 (toInt v) <<< (tokenCnt * 8))
      | _ => .ok retMac

/-- `spp_change_mac_str_to_int64`, with -1 for `SPP_RET_NG`. -/
def sppChangeMacStrToInt64 (mac : CStr) : Except Stop ℤ :=
  match strcpy sppMinStrLen mac with
  | .error e => .error e
  | .ok tmpMac =>
    match macFields (strtok ':' tmpMac) 0 0 with
    | .ok retMac => .ok retMac.toInt
    | .error .ng => .ok (-1)
    | .error .undef => .error (.undef)

/-- The conversion of a MAC address value to `uint64_t`. -/
def macToUInt64 (mac : ℤ) : ℕ := (mac % 2 ^ 64).toNat

section Handlers

variable (L : Limits) (M : SppModule) (s : MngData)

/-- `spp_check_classid_used_port`. -/
def sppCheckClassidUsedPort (vid : ℤ) (macAddr : ℕ) (port : PortRef) : Bool :=
  macAddr = (s.iface port).classId.macAddr ∧ vid = (s.iface port).classId.vid

/-- `spp_check_added_port`. -/
def sppCheckAddedPort (port : PortRef) : Bool :=
  (s.iface port).ifaceType ≠ (.undef)

/-- `decode_core_value`. -/
def decodeCoreValue (arg : CStr) : Except Stop ℕ :=
  getUintValue arg 0 (L.maxLcore - 1)

/-- `decode_component_action_value`. -/
def decodeComponentActionValue (component : CommandComponent) (arg : CStr) :
    Except Stop CommandComponent :=
  match getArraryIndex arg commandActionStrings with
  | some .start => .ok { component with action := .start }
  | some .stop => .ok { component with action := .stop }
  | _ => .error .ng

/-- `decode_component_name_value`. -/
def decodeComponentNameValue (component : CommandComponent) (arg : CStr) :
    Except Stop CommandComponent := do
  if component.action = .start ∧ (sppGetComponentId L s arg).isSome then .error .ng
  else
    let name ← decodeStrValue sppCmdNameBufsz arg
    .ok { component with name := name }

/-- `decode_component_core_value`. -/
def decodeComponentCoreValue (component : CommandComponent) (arg : CStr) :
    Except Stop CommandComponent := do
  if component.action ≠ .start then .ok component
  else
    let core ← decodeCoreValue L arg
    .ok { component with core := core }

/-- `decode_component_type_value`. -/
def decodeComponentTypeValue (component : CommandComponent) (arg : CStr) :
    Except Stop CommandComponent :=
  if component.action ≠ .start then .ok component
  else
    match sppConvertComponentType M arg with
    | .unuse => .error .ng
    | compType => .ok { component with type := compType }

/-- `decode_port_action_value`. -/
def decodePortActionValue (port : CommandPort) (arg : CStr) : Except Stop CommandPort :=
  match getArraryIndex arg commandActionStrings with
  | some .add => .ok { port with action := .add }
  | some .del => .ok { port with action := .del }
  | _ => .error .ng

/-- `decode_port_port_value`. -/
def decodePortPortValue (port : CommandPort) (arg : CStr) (allowOverride : Bool) :
    Except Stop CommandPort := do
  let tmpPort ← sppConvertPortToIface arg
  if allowOverride = false ∧ port.action = .add then
    let rx ← sppCheckUsedPort L s tmpPort.ifaceType tmpPort.ifaceNo .rx
    let tx ← sppCheckUsedPort L s tmpPort.ifaceType tmpPort.ifaceNo .tx
    if rx.isSome ∧ tx.isSome then .error .ng
    else .ok { port with port := tmpPort }
  else .ok { port with port := tmpPort }

/-- `decode_port_rxtx_value`. -/
def decodePortRxtxValue (port : CommandPort) (arg : CStr) (allowOverride : Bool) :
    Except Stop CommandPort :=
  match getArraryIndex arg portRxtxStrings with
  | none | some .none => .error .ng
  | some rxtx => do
    if allowOverride = false ∧ port.action = .add then
      let used ← sppCheckUsedPort L s port.port.ifaceType port.port.ifaceNo rxtx
      if used.isSome then .error .ng else .ok { port with rxtx := rxtx }
    else .ok { port with rxtx := rxtx }

/-- `decode_port_name_value`. -/
def decodePortNameValue (port : CommandPort) (arg : CStr) : Except Stop CommandPort := do
  if sppGetComponentId L s arg = none then .error .ng
  else
    let name ← decodeStrValue sppCmdNameBufsz arg
    .ok { port with name := name }

/-- `decode_port_vlan_operation`. -/
def decodePortVlanOperation (port : CommandPort) (arg : CStr) : Except Stop CommandPort :=
  match port.ability.ope with
  | .none =>
    match getArraryIndex arg portAbilityStrings with
    | some .addVlantag =>
      .ok { port with ability := { port.ability with ope := .addVlantag, rxtx := port.rxtx } }
    | some .delVlantag =>
      .ok { port with ability := { port.ability with ope := .delVlantag, rxtx := port.rxtx } }
    | _ => .error .ng
  | _ => .ok port

/-- `decode_port_vid`. -/
def decodePortVid (port : CommandPort) (arg : CStr) : Except Stop CommandPort := do
  if port.ability.ope = .addVlantag then
    let vid ← getIntValue arg 0 ethVlanIdMax
    let tag := { port.ability.vlantag with vid := vid, pcp := -1 }
    .ok { port with ability := { port.ability with vlantag := tag } }
  else .ok port

/-- `decode_port_pcp`. -/
def decodePortPcp (port : CommandPort) (arg : CStr) : Except Stop CommandPort := do
  if port.ability.ope = .addVlantag then
    let pcp ← getIntValue arg 0 sppVlanPcpMax
    let tag := { port.ability.vlantag with pcp := pcp }
    .ok { port with ability := { port.ability with vlantag := tag } }
  else .ok port

/-- `decode_mac_addr_str_value`; `default` stands for an internal address. -/
def decodeMacAddrStrValue (table : CommandClassifierTable) (arg : CStr) :
    Except Stop CommandClassifierTable := do
  let strVal := if arg = "default".toList then "00:00:00:00:00:01".toList else arg
  let ret ← sppChangeMacStrToInt64 strVal
  if ret < 0 then .error .ng
  else
    let mac ← strcpy sppCmdValueBufsz strVal
    .ok { table with mac := mac }

/-- `decode_classifier_action_value`. -/
def decodeClassifierActionValue (table : CommandClassifierTable) (arg : CStr) :
    Except Stop CommandClassifierTable :=
  match getArraryIndex arg commandActionStrings with
  | some .add => .ok { table with action := .add }
  | some .del => .ok { table with action := .del }
  | _ => .error .ng

/-- `decode_classifier_type_value`. -/
def decodeClassifierTypeValue (table : CommandClassifierTable) (arg : CStr) :
    Except Stop CommandClassifierTable :=
  match getArraryIndex arg classifierTypeStrings with
  | some .mac => .ok { table with type := .mac }
  | some .vlan => .ok { table with type := .vlan }
  | _ => .error .ng

/-- `decode_classifier_vid_value`. -/
def decodeClassifierVidValue (table : CommandClassifierTable) (arg : CStr) :
    Except Stop CommandClassifierTable := do
  let vid ← getIntValue arg 0 ethVlanIdMax
  .ok { table with vid := vid }

/-- `decode_classifier_port_value`. -/
def decodeClassifierPortValue (table : CommandClassifierTable) (arg : CStr) :
    Except Stop CommandClassifierTable := do
  let tmpPort ← sppConvertPortToIface arg
  let port ← ifaceEntry L tmpPort.ifaceType tmpPort.ifaceNo
  if sppCheckAddedPort s port = false then .error .ng
  else
    let table := if table.type = .mac then { table with vid := ethVlanIdMax } else table
    if table.action = .add then
      if sppCheckClassidUsedPort s ethVlanIdMax 0 port = false then .error .ng
      else .ok { table with port := tmpPort }
    else if table.action = .del then
      let macAddr ← sppChangeMacStrToInt64 table.mac
      if macAddr < 0 then .error .ng
      else if sppCheckClassidUsedPort s table.vid (macToUInt64 macAddr) port = false then
        .error .ng
      else .ok { table with port := tmpPort }
    else .ok { table with port := tmpPort }

/-- One row of `parameter_list`: the name reported in errors and the handler,
with the override flag already applied. -/
abbrev Parameter (γ : Type) := String × (γ → CStr → Except Stop γ)

/-- `parameter_list` for `classifier_table` with a MAC address. -/
def parameterListMac : List (Parameter CommandClassifierTable) :=
  [("action", decodeClassifierActionValue),
   ("type", decodeClassifierTypeValue),
   ("mac address", decodeMacAddrStrValue),
   ("port", decodeClassifierPortValue L s)]

/-- `parameter_list` for `classifier_table` with a VLAN id. -/
def parameterListVlan : List (Parameter CommandClassifierTable) :=
  [("action", decodeClassifierActionValue),
   ("type", decodeClassifierTypeValue),
   ("vlan id", decodeClassifierVidValue),
   ("mac address", decodeMacAddrStrValue),
   ("port", decodeClassifierPortValue L s)]

/-- `parameter_list` for `component`. -/
def parameterListComponent : List (Parameter CommandComponent) :=
  [("action", decodeComponentActionValue),
   ("component name", decodeComponentNameValue L s),
   ("core", decodeComponentCoreValue L),
   ("component type", decodeComponentTypeValue M)]

/-- `parameter_list` for `port`. -/
def parameterListPort (flag : Bool) : List (Parameter CommandPort) :=
  [("action", decodePortActionValue),
   ("port", fun port arg => decodePortPortValue L s port arg flag),
   ("port rxtx", fun port arg => decodePortRxtxValue L s port arg flag),
   ("component name", decodePortNameValue L s),
   ("port vlan operation", decodePortVlanOperation),
   ("port vid", decodePortVid),
   ("port pcp", decodePortPcp)]

end Handlers

/-- `set_string_value_decode_error`. -/
def setStringValueDecodeError (value : CStr) (errorName : String) : DecodeFailure :=
  match strcpy sppCmdValueBufsz value with
  | .ok value => .error { code := .badValue, valueName := errorName.toList, value := value }
  | .error _ => (.undef)

/-- The loop shared by the functions `decode_command_parameter_*`: the tokens
after the command name go to the handlers in order, up to the first failure. -/
def decodeCommandParameter {γ : Type} :
    List (Parameter γ) → List CStr → γ → Except DecodeFailure γ
  | _, [], command => .ok command
  | [], _ :: _, _ => .error .undef
  | (name, func) :: list, arg :: args, command =>
    match func command arg with
    | .ok command => decodeCommandParameter list args command
    | .error .ng => .error (setStringValueDecodeError arg name)
    | .error .undef => .error (.undef)

/-- A row of `command_list`. The last field decodes the tokens after the name,
given their number with the name and the upper bound on it. -/
structure DecodeCommandList where
  name : String
  paramMin : ℕ
  paramMax : ℕ
  func : List CStr → Except DecodeFailure SppCommand

section Request

variable (L : Limits) (M : SppModule) (s : MngData)

/-- `decode_command_parameter_cls_table`. -/
def decodeCommandParameterClsTable (args : List CStr) : Except DecodeFailure SppCommand :=
  (decodeCommandParameter (parameterListMac L s) args {}).map .classifierTableMac

/-- `decode_command_parameter_cls_table_vlan`. -/
def decodeCommandParameterClsTableVlan (args : List CStr) : Except DecodeFailure SppCommand :=
  (decodeCommandParameter (parameterListVlan L s) args {}).map .classifierTableVlan

/-- `decode_command_parameter_component`. -/
def decodeCommandParameterComponent (args : List CStr) : Except DecodeFailure SppCommand :=
  (decodeCommandParameter (parameterListComponent L M s) args {}).map .component

/-- `decode_command_parameter_port`: the in-use checks are switched off when
the request has the largest number of tokens. -/
def decodeCommandParameterPort (maxargc : ℕ) (args : List CStr) :
    Except DecodeFailure SppCommand :=
  let flag : Bool := args.length + 1 = maxargc
  (decodeCommandParameter (parameterListPort L s flag) args {}).map .port

/-- `command_list`. -/
def commandList : List DecodeCommandList :=
  [⟨"classifier_table", 5, 5, decodeCommandParameterClsTable L s⟩,
   ⟨"classifier_table", 6, 6, decodeCommandParameterClsTableVlan L s⟩,
   ⟨"_get_client_id", 1, 1, fun _ => .ok .clientId⟩,
   ⟨"status", 1, 1, fun _ => .ok .status⟩,
   ⟨"exit", 1, 1, fun _ => .ok .exit⟩,
   ⟨"component", 3, 5, decodeCommandParameterComponent L M s⟩,
   ⟨"port", 5, 8, decodeCommandParameterPort L s 8⟩]

/-- The search loop of `decode_command_in_list`. `nameCheck` records that a row
had the right name but the wrong number of tokens. -/
def searchCommandList (command : CStr) (args : List CStr) (nameCheck : Bool) :
    List DecodeCommandList → Except DecodeFailure SppCommand
  | [] =>
    if nameCheck then .error (.error { code := .badFormat })
    else .error (setStringValueDecodeError command "command")
  | row :: rows =>
    if row.name.toList ≠ command then searchCommandList command args nameCheck rows
    else if args.length + 1 < row.paramMin ∨ row.paramMax < args.length + 1 then
      searchCommandList command args true rows
    else row.func args

/-- `decode_command_in_list`. The request is first copied to a buffer of
`SPP_CMD_MAX_PARAMETERS * SPP_CMD_VALUE_BUFSZ` bytes; a request without tokens
leaves `argv[0]` NULL. -/
def decodeCommandInList (requestStr : CStr) : Except DecodeFailure SppCommand :=
  match strcpy (sppCmdMaxParameters * sppCmdValueBufsz) requestStr with
  | .error _ => .error .undef
  | .ok tmpStr =>
    let argv := strtok ' ' tmpStr
    if argv.length > sppCmdMaxParameters then .error (.error { code := .badFormat })
    else
      match argv with
      | [] => .error .undef
      | command :: args => searchCommandList command args false (commandList L M s)

/-- `spp_command_decode_request`. The request flags it sets are functions of
the command type. -/
def sppCommandDecodeRequest (requestStr : CStr) : Except DecodeFailure SppCommand :=
  decodeCommandInList L M s requestStr

end Request

end Spp.Vf
