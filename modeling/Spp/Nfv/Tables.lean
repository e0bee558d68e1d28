import Spp.Vf.Types

/-!
# The port tables of spp_nfv

The tables of `params.h` and the functions of `nfv_utils.h`, `init.h` and
`commands.h` that edit them. Only the command thread writes the tables, so a
function is given as the list of its stores, in the order in which it makes
them. What the DPDK calls do to the devices is part of that list.
-/

namespace Spp.Nfv

open CLib
open Spp.Vf (PortType)

/-- `PORT_RESET`, which is `UINT16_MAX`. -/
abbrev portReset : ℕ := 65535

/-- `MAX_CLIENT`. -/
def maxClient : ℤ := 99

/-- `MAX_PARAMETER`. -/
def maxParameter : ℕ := 48

/-- `RTE_MAX_ETHPORTS` of the DPDK build. Port ids are 16-bit numbers below it,
and `UINT16_MAX` is none of them. -/
structure Build where
  maxEthports : ℕ
  pos : 0 < maxEthports
  lt_reset : maxEthports < portReset

/-- DPDK's default configuration. -/
def Build.default : Build := ⟨32, by decide, by decide⟩

/-- `enum cmd_type`. -/
inductive CmdType
  | stop | start | forward
  deriving DecidableEq, Repr

/-- The values of `struct stats *`. -/
inductive StatsPtr
  /-- The null pointer of static storage. -/
  | null
  /-- `&ports->port_stats[i]` -/
  | portStats (i : ℕ)
  /-- `&ports->client_stats[i]`; `i` is not checked against the array. -/
  | clientStats (i : ℤ)
  /-- `&port_map[i].default_stats` -/
  | defaultStats (i : ℕ)
  deriving DecidableEq, Repr

/-- `struct port_map`. -/
structure PortMap where
  id : ℤ
  portType : PortType
  stats : StatsPtr
  deriving DecidableEq, Repr

/-- `struct port`. The two function pointers are only ever null or set to
`rte_eth_rx_burst` and `rte_eth_tx_burst`. -/
structure Port where
  inPortId : ℕ
  outPortId : ℕ
  rxFunc : Bool
  txFunc : Bool
  deriving DecidableEq, Repr

/-- An ethernet device of DPDK: its name, the resource it was made for, and
whether it is in use or has been stopped or closed. -/
structure EthDev where
  name : CStr
  resource : PortType × ℤ
  running : Bool
  deriving DecidableEq, Repr

/-- `ports_fwd_array`, `port_map`, the devices by port id, and `cmd`. -/
structure State where
  portsFwdArray : ℕ → Port
  portMap : ℕ → PortMap
  ethDevices : ℕ → Option EthDev
  cmd : CmdType

/-- One store of the command thread, or one call into DPDK. -/
inductive Store
  | inPortId (i v : ℕ)
  | outPortId (i v : ℕ)
  | rxFunc (i : ℕ)
  | txFunc (i : ℕ)
  | mapId (i : ℕ) (v : ℤ)
  | mapPortType (i : ℕ) (t : PortType)
  | mapStats (i : ℕ) (p : StatsPtr)
  | devAttach (i : ℕ) (d : EthDev)
  | devStart (i : ℕ)
  | devStop (i : ℕ)
  | devClose (i : ℕ)
  | devDetach (i : ℕ)
  | cmd (c : CmdType)
  deriving DecidableEq, Repr

/-- An edit of one entry of `ports_fwd_array`. -/
def State.setPort (s : State) (i : ℕ) (f : Port → Port) : State :=
  { s with portsFwdArray := Function.update s.portsFwdArray i (f (s.portsFwdArray i)) }

/-- An edit of one entry of `port_map`. -/
def State.setMap (s : State) (i : ℕ) (f : PortMap → PortMap) : State :=
  { s with portMap := Function.update s.portMap i (f (s.portMap i)) }

/-- A change of one device. -/
def State.setDev (s : State) (i : ℕ) (d : Option EthDev) : State :=
  { s with ethDevices := Function.update s.ethDevices i d }

/-- The effect of a store. -/
def Store.apply (s : State) : Store → State
  | .inPortId i v => s.setPort i fun p => { p with inPortId := v }
  | .outPortId i v => s.setPort i fun p => { p with outPortId := v }
  | .rxFunc i => s.setPort i fun p => { p with rxFunc := true }
  | .txFunc i => s.setPort i fun p => { p with txFunc := true }
  | .mapId i v => s.setMap i fun m => { m with id := v }
  | .mapPortType i t => s.setMap i fun m => { m with portType := t }
  | .mapStats i p => s.setMap i fun m => { m with stats := p }
  | .devAttach i d => s.setDev i (some d)
  | .devStart i => s.setDev i ((s.ethDevices i).map fun d => { d with running := true })
  | .devStop i => s.setDev i ((s.ethDevices i).map fun d => { d with running := false })
  | .devClose i => s.setDev i ((s.ethDevices i).map fun d => { d with running := false })
  | .devDetach i => s.setDev i none
  | .cmd c => { s with cmd := c }

/-- The state after a list of stores. -/
def applyAll (s : State) (stores : List Store) : State := stores.foldl Store.apply s

@[simp] theorem applyAll_nil (s : State) : applyAll s [] = s := rfl

@[simp] theorem applyAll_cons (s : State) (c : Store) (cs : List Store) :
    applyAll s (c :: cs) = applyAll (c.apply s) cs := rfl

@[simp] theorem applyAll_append (s : State) (cs ds : List Store) :
    applyAll s (cs ++ ds) = applyAll (applyAll s cs) ds := List.foldl_append

/-! ## Names of resources and devices -/

/-- `%u` applied to an `int`. -/
def formatU (v : ℤ) : CStr := Nat.toDigits 10 (v % 2 ^ 32).toNat

/-- `%d` applied to an `int`. -/
def formatD (v : ℤ) : CStr :=
  if v < 0 then '-' :: Nat.toDigits 10 v.natAbs else Nat.toDigits 10 v.natAbs

/-- `get_rx_queue_name`; its buffer holds eleven characters. -/
def getRxQueueName (id : ℤ) : CStr := ("eth_ring".toList ++ formatU id).take 11

/-- `get_vhost_backend_name`; its buffer holds twelve characters. -/
def getVhostBackendName (id : ℤ) : CStr := ("eth_vhost".toList ++ formatU id).take 12

/-- `get_pcap_pmd_name`; its buffer holds eleven characters. -/
def getPcapPmdName (id : ℤ) : CStr := ("eth_pcap".toList ++ formatU id).take 11

/-- `get_null_pmd_name`; its buffer holds eleven characters. -/
def getNullPmdName (id : ℤ) : CStr := ("eth_null".toList ++ formatU id).take 11

/-- The name under which the device of a resource is attached or looked up. -/
def deviceName : PortType → ℤ → CStr
  | .ring, id => "net_ring_".toList ++ getRxQueueName id
  | .vhost, id => getVhostBackendName id
  | .pcap, id => getPcapPmdName id
  | .nullpmd, id => getNullPmdName id
  | .phy, _ => []
  | .undef, _ => []

/-- `portmap` of `params.h`. -/
def portmap : List (CStr × PortType) :=
  [("phy".toList, .phy), ("ring".toList, .ring), ("vhost".toList, .vhost),
    ("pcap".toList, .pcap), ("nullpmd".toList, .nullpmd)]

/-- `get_port_type`: the first name of `portmap` that the argument starts with. -/
def getPortType (portname : CStr) : PortType :=
  match portmap.find? fun entry => entry.1.isPrefixOf portname with
  | some entry => entry.2
  | none => (.undef)

/-- What C leaves undefined: an index past the end of an array, a use of a null
pointer, a use of a variable that was not written. -/
inductive Fault
  | outOfBounds
  | nullPointer
  | uninitialised
  deriving DecidableEq, Repr

/-- The outputs of `parse_resource_uid`; `valid` is whether it returns zero. -/
structure ResourceUid where
  portType : CStr
  portId : ℤ
  valid : Bool
  deriving DecidableEq, Repr

/-- `parse_resource_uid`. Without a colon it returns before it writes its
outputs. A text with fewer than two tokens makes it use a null pointer. -/
def parseResourceUid (str : CStr) : Except Fault (Option ResourceUid) :=
  if ':' ∉ str then .ok none
  else
    match strtok ':' str with
    | portType :: token :: _ =>
      match strtol 10 token with
      | none => .ok (some ⟨portType, 0, false⟩)
      | some (v, rest) => .ok (some ⟨portType, toInt v, rest.isEmpty⟩)
    | _ => .error .nullPointer

/-- A command argument that may be missing. -/
def argument (args : List CStr) (k : ℕ) : Except Fault CStr :=
  match args[k]? with
  | some arg => .ok arg
  | none => .error .nullPointer

/-! ## The functions on the tables -/

section Functions

variable (b : Build)

/-- `forward_array_init_one`. -/
def forwardArrayInitOne (i : ℕ) : List Store := [.inPortId i portReset, .outPortId i portReset]

/-- `port_map_init_one`. -/
def portMapInitOne (i : ℕ) : List Store :=
  [.mapId i portReset, .mapPortType i .undef, .mapStats i (.defaultStats i)]

/-- `forward_array_remove`. The loop stops at the first entry it resets. -/
def forwardArrayRemove (s : State) (portId : ℕ) : List Store :=
  forwardArrayInitOne portId ++
    match (List.range b.maxEthports).find? fun i =>
        ((applyAll s (forwardArrayInitOne portId)).portsFwdArray i).inPortId ≠ portReset ∧
          ((applyAll s (forwardArrayInitOne portId)).portsFwdArray i).outPortId = portId with
    | some i => [.outPortId i portReset]
    | none => []

/-- `is_valid_port`. The bound lets one id past the end of `port_map` through. -/
def isValidPort (s : State) (portId : ℕ) : Except Fault Bool :=
  if b.maxEthports < portId then .ok false
  else if portId = b.maxEthports then .error .outOfBounds
  else .ok (decide ((s.portMap portId).id ≠ portReset))

/-- `find_port_id`. -/
def findPortId (s : State) (id : ℤ) (type : PortType) : ℕ :=
  ((List.range b.maxEthports).find? fun i =>
    (s.portMap i).portType = type ∧ (s.portMap i).id = id).getD portReset

/-- `add_patch`; `none` is its result `-1`. -/
def addPatch (s : State) (inPort outPort : ℕ) : Except Fault (Option (List Store)) := do
  if !(← isValidPort b s inPort) then
    return none
  if !(← isValidPort b s outPort) then
    return none
  return some [.inPortId inPort inPort, .rxFunc inPort, .txFunc inPort, .outPortId inPort outPort,
    .inPortId outPort outPort, .rxFunc outPort, .txFunc outPort]

/-- `forward_array_reset`. -/
def forwardArrayReset (s : State) : List Store :=
  ((List.range b.maxEthports).filter fun i => (s.portsFwdArray i).inPortId ≠ portReset).map
    fun i => .outPortId i portReset

/-- The part of `do_del` after the device has been dealt with. A port id past
the end of the tables is written through all the same. -/
def removePort (s : State) (portId : ℕ) : Except Fault (List Store) :=
  if portId < b.maxEthports then .ok (forwardArrayRemove b s portId ++ portMapInitOne portId)
  else .error .outOfBounds

/-- The calls `do_del` makes to DPDK for a type of port. `detached` is whether
`dev_detach_by_port_id` succeeds. -/
def releaseDevice (type : PortType) (portId : ℕ) (detached : Bool) : List Store :=
  match type with
  | .ring => [.devStop portId, .devClose portId]
  | .pcap | .nullpmd => if detached then [.devDetach portId] else []
  | _ => []

/-- The type that `do_add` and `do_del` read from the text of a resource UID. -/
def resourceType (pType : CStr) : Option PortType :=
  if pType = "vhost".toList then some .vhost
  else if pType = "ring".toList then some .ring
  else if pType = "pcap".toList then some .pcap
  else if pType = "nullpmd".toList then some .nullpmd
  else none

/-- `do_del`. A type it does not know leaves `port_id` at `PORT_RESET`. -/
def doDel (s : State) (detached : Bool) (resUid : CStr) : Except Fault (List Store) := do
  match ← parseResourceUid resUid with
  | none => return []
  | some uid =>
    if !uid.valid then
      return []
    match resourceType uid.portType with
    | none => removePort b s portReset
    | some type =>
      let portId := findPortId b s uid.portId type
      if portId = portReset then
        return []
      let device := releaseDevice type portId detached
      return device ++ (← removePort b (applyAll s device) portId)

/-- What `add_ring_pmd`, `add_vhost_pmd`, `add_pcap_pmd` or `add_null_pmd` did:
it failed, it made a device under a port id, or (`add_ring_pmd` only) it found
one of that name and tried to start it. -/
inductive Pmd
  | failed
  | attached (portId : ℕ)
  | found (portId : ℕ) (started : Bool)
  deriving DecidableEq, Repr

/-- The port id an `add_*_pmd` function returns, if not negative. -/
def Pmd.portId : Pmd → Option ℕ
  | .failed => none
  | .attached k => some k
  | .found k _ => some k

/-- The device changes of an `add_*_pmd` function. -/
def Pmd.stores (type : PortType) (id : ℤ) : Pmd → List Store
  | .failed => []
  | .attached k => [.devAttach k ⟨deviceName type id, (type, id), true⟩]
  | .found k started => if started then [.devStart k] else []

/-- The stores of `do_add` to the tables, once a port id is known. -/
def registerPort (portId : ℕ) (pId : ℤ) (type : PortType) : List Store :=
  [.mapId portId pId, .mapPortType portId type, .mapStats portId (.clientStats pId),
    .inPortId portId portId]

/-- `do_add`. A type it does not know keeps `res` at the zero that
`parse_resource_uid` returned. -/
def doAdd (pmd : Pmd) (resUid : CStr) : Except Fault (List Store) := do
  match ← parseResourceUid resUid with
  | none => return []
  | some uid =>
    if !uid.valid then
      return []
    match resourceType uid.portType with
    | none => return registerPort 0 uid.portId (.undef)
    | some type =>
      match pmd.portId with
      | none => return []
      | some portId => return pmd.stores type uid.portId ++ registerPort portId uid.portId type

/-- The resource UID of one argument of `patch`, whose result is not looked at. -/
def patchArgument (token : CStr) : Except Fault ResourceUid := do
  match ← parseResourceUid token with
  | none => .error .uninitialised
  | some uid => return uid

/-- A port as the messages of `patch` name it. -/
def ResourceUid.text (uid : ResourceUid) : CStr :=
  '\'' :: uid.portType ++ ':' :: formatD uid.portId ++ ['\'']

/-- The message for a patch whose ports are not both found. -/
def patchMessage (src dst : ResourceUid) (inPort outPort : ℕ) : CStr :=
  if inPort = portReset ∧ outPort = portReset then
    "Patch not found, both of ".toList ++ src.text ++ " and ".toList ++ dst.text
  else if inPort = portReset then "Patch not found, in_port ".toList ++ src.text
  else if outPort = portReset then "Patch not found, out_port ".toList ++ dst.text
  else []

/-- The branch of `parse_command` that patches two ports. The message goes to a
buffer of 128 characters. -/
def patchPorts (s : State) (src dst : CStr) : Except Fault (List Store) := do
  let inUid ← patchArgument src
  let inPort := findPortId b s inUid.portId (getPortType inUid.portType)
  let outUid ← patchArgument dst
  let outPort := findPortId b s outUid.portId (getPortType outUid.portType)
  if 128 ≤ (patchMessage inUid outUid inPort outPort).length then
    .error .outOfBounds
  else
    return (← addPatch b s inPort outPort).getD []

/-- A command line as `parse_command` takes it apart. -/
inductive Command
  /-- A line that leaves the tables and `cmd` alone. -/
  | other
  | stop
  | forward
  | add (resUid : CStr)
  | reset
  | patch (src dst : CStr)
  | del (resUid : CStr)
  deriving DecidableEq, Repr

/-- The arguments of `patch`: fewer than two are ignored unless the first one
starts with `reset`. -/
def patchCommand : List CStr → Command
  | [] => .other
  | src :: rest =>
    if "reset".toList.isPrefixOf src then .reset
    else
      match rest with
      | [] => .other
      | dst :: _ => .patch src dst

/-- The tokens of `parse_command`. A line with `MAX_PARAMETER` tokens or more
overruns the token list, and a missing argument of `add` or `del` is a null
pointer. -/
def commandOf (str : CStr) : Except Fault Command :=
  let tokens := strtok ' ' str
  if maxParameter ≤ tokens.length then .error .outOfBounds
  else
    match tokens with
    | [] => .ok .other
    | command :: args =>
      if command = "exit".toList ∨ command = "stop".toList then .ok .stop
      else if command = "forward".toList then .ok .forward
      else if command = "add".toList then (argument args 0).map .add
      else if command = "patch".toList then .ok (patchCommand args)
      else if command = "del".toList then (argument args 0).map .del
      else .ok .other

/-- The stores of a command. `pmd` and `detached` are the results of the DPDK
calls that `add` and `del` make. -/
def runCommand (s : State) (pmd : Pmd) (detached : Bool) : Command → Except Fault (List Store)
  | .other => .ok []
  | .stop => .ok [.cmd .stop]
  | .forward => .ok [.cmd .forward]
  | .add resUid => doAdd pmd resUid
  | .reset => .ok (forwardArrayReset b s)
  | .patch src dst => patchPorts b s src dst
  | .del resUid => do return .cmd .stop :: (← doDel b { s with cmd := .stop } detached resUid)

/-- `parse_command`. -/
def parseCommand (s : State) (pmd : Pmd) (detached : Bool) (str : CStr) :
    Except Fault (List Store) := do
  runCommand b s pmd detached (← commandOf str)

/-! ## Start-up -/

/-- The physical ports that DPDK has probed. No two devices have one name. -/
structure PhysicalPorts where
  name : ℕ → Option CStr
  name_inj : ∀ {i j : ℕ} {n : CStr}, name i = some n → name j = some n → i = j
  lt : ∀ {i : ℕ} {n : CStr}, name i = some n → i < b.maxEthports

variable {b}

/-- The devices before the first command. -/
def physicalDevices (phys : PhysicalPorts b) (i : ℕ) : Option EthDev :=
  (phys.name i).map fun name => ⟨name, (.phy, i), true⟩

/-- Static storage before `main`. -/
def zeroed (phys : PhysicalPorts b) : State where
  portsFwdArray := fun _ => ⟨0, 0, false, false⟩
  portMap := fun _ => ⟨0, .phy, .null⟩
  ethDevices := physicalDevices phys
  cmd := .stop

/-- `rte_eth_dev_count_avail`. -/
def nbPorts (phys : PhysicalPorts b) : ℕ :=
  ((List.range b.maxEthports).filter fun i => (phys.name i).isSome).length

/-- The stores of `main` for the physical port `i`. -/
def registerPhy (i : ℕ) : List Store :=
  [.inPortId i i, .mapPortType i .phy, .mapId i i, .mapStats i (.portStats i)]

/-- The stores of `main` to the tables: both arrays are initialised, then the
valid ports below the number of ports are entered. -/
def mainStores (phys : PhysicalPorts b) : List Store :=
  (List.range b.maxEthports).flatMap forwardArrayInitOne ++
    (List.range b.maxEthports).flatMap portMapInitOne ++
    ((List.range (nbPorts phys)).filter fun i => (phys.name i).isSome).flatMap registerPhy

/-- The state in which `main` starts to take commands. -/
def started (phys : PhysicalPorts b) : State := applyAll (zeroed phys) (mainStores phys)

end Functions

end Spp.Nfv
