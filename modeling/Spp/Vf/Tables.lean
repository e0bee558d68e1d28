import Mathlib.Tactic.Simps.Basic
import Spp.Lib.Arrays
import Spp.Vf.Types

/-!
# The management tables

The functions of `spp_proc.c` that look up, search and initialise the
management tables. `sppGetComponentId` and `getFreeComponent` return the index
the loop stops at, and `none` for `SPP_RET_NG`.
-/

namespace Spp.Vf

open CLib

variable (L : Limits)

/-- `get_iface_info`: a pointer into the interface table. `none` is the NULL
returned for an unknown type; a number outside the array has no defined entry. -/
def getIfaceInfo (ifaceType : PortType) (ifaceNo : ℤ) : Except Stop (Option PortRef) :=
  let entry (array : IfaceArray) : Except Stop (Option PortRef) :=
    if 0 ≤ ifaceNo ∧ ifaceNo < L.maxEthports then .ok (some ⟨array, ifaceNo.toNat⟩)
    else .error .undef
  match ifaceType with
  | .phy => entry .nic
  | .vhost => entry .vhost
  | .ring => entry .ring
  | _ => .ok none

/-- A pointer from `get_iface_info` that is dereferenced without a NULL test. -/
def ifaceEntry (ifaceType : PortType) (ifaceNo : ℤ) : Except Stop PortRef :=
  match getIfaceInfo L ifaceType ifaceNo with
  | .ok (some port) => .ok port
  | .ok none => .error .undef
  | .error e => .error e

/-- `get_free_component`: the first unused slot. -/
def getFreeComponent (s : MngData) : Option ℕ :=
  (List.range L.maxLcore).find? fun cnt => (s.component cnt).type = .unuse

/-- `spp_get_component_id`: the first slot with the given name. -/
def sppGetComponentId (s : MngData) (name : CStr) : Option ℕ :=
  if name = [] then none
  else (List.range L.maxLcore).find? fun cnt => name = (s.component cnt).name

/-- `spp_check_used_port`: the first used component that holds the port in the
given direction. -/
def sppCheckUsedPort (s : MngData) (ifaceType : PortType) (ifaceNo : ℤ) (rxtx : PortRxtx) :
    Except Stop (Option ℕ) :=
  match getIfaceInfo L ifaceType ifaceNo with
  | .error e => .error e
  | .ok none => .ok none
  | .ok (some port) =>
    .ok ((List.range L.maxLcore).find? fun cnt =>
      (s.component cnt).type ≠ .unuse ∧ port ∈ (s.component cnt).ports rxtx)

/-- `del_component_info`: the id list without the last occurrence of the id,
`none` if it does not occur. -/
def delComponentInfo (componentId : ℕ) (componentArray : List ℕ) : Option (List ℕ) :=
  (lastIdxOf? componentId componentArray).map componentArray.eraseIdx

/-- `check_port_element`: the index of the port in an array of a component. -/
def checkPortElement (info : PortRef) (array : List PortRef) : Option ℕ :=
  lastIdxOf? info array

/-- `get_del_port_element`: the array without the port, `none` if it is not there. -/
def getDelPortElement (info : PortRef) (array : List PortRef) : Option (List PortRef) :=
  (checkPortElement info array).map array.eraseIdx

/-- Replacement of one component slot. -/
@[simps] def MngData.setComponent (s : MngData) (id : ℕ) (c : ComponentInfo) : MngData :=
  { s with component := Function.update s.component id c }

/-- Replacement of the update-side id list of one core. -/
@[simps] def MngData.setUpdList (s : MngData) (lcoreId : ℕ) (ids : List ℕ) : MngData :=
  { s with
    core := Function.update s.core lcoreId
      { s.core lcoreId with
        core := Function.update (s.core lcoreId).core (s.core lcoreId).updIndex ids } }

/-- Replacement of one entry of the interface table. -/
@[simps] def MngData.setIface (s : MngData) (port : PortRef) (info : PortInfo) : MngData :=
  { s with iface := Function.update s.iface port info }

/-- A change flag of a component is set or cleared. -/
@[simps] def MngData.setChangeComponent (s : MngData) (id : ℕ) (flag : Bool) : MngData :=
  { s with changeComponent := Function.update s.changeComponent id flag }

/-- A change flag of a core is set. -/
@[simps] def MngData.setChangeCore (s : MngData) (lcoreId : ℕ) : MngData :=
  { s with changeCore := Function.update s.changeCore lcoreId true }

/-- `set_component_change_port` for one direction: the component that holds the
port is flagged. -/
def setComponentChangePort (s : MngData) (port : PortRef) (rxtx : PortRxtx) :
    Except Stop MngData :=
  match sppCheckUsedPort L s (s.iface port).ifaceType (s.iface port).ifaceNo rxtx with
  | .error e => .error e
  | .ok none => .ok s
  | .ok (some id) => .ok (s.setChangeComponent id true)

/-- `init_iface_info` followed by `set_nic_interface` with `numNic` devices. -/
def initIfaceInfo (numNic : ℕ) (port : PortRef) : PortInfo :=
  let info : PortInfo :=
    { ifaceType := .undef, ifaceNo := port.no, dpdkPort := -1, classId := { vid := ethVlanIdMax } }
  if port.array = .nic ∧ port.no < min numNic L.maxEthports then
    { info with ifaceType := .phy, dpdkPort := port.no }
  else info

/-- `init_core_info`: slave lcores are stopped, all others are unused. -/
def initCoreInfo (slave : ℕ → Bool) (lcoreId : ℕ) : CoreMngInfo :=
  { status := if slave lcoreId then .stop else .unuse
    refIndex := 0, updIndex := 1, core := fun _ => [] }

/-- `init_mng_data`: the state before the first command. -/
def initMngData (slave : ℕ → Bool) (numNic : ℕ) : MngData :=
  { component := fun cnt => { componentId := cnt }
    core := initCoreInfo slave
    iface := initIfaceInfo L numNic
    changeCore := fun _ => false
    changeComponent := fun _ => false }

/-- The statuses that `main` leaves before it serves commands: `SPP_CORE_FORWARD`
on the slave lcores and `SPP_CORE_IDLE` on its own. -/
def startForwarding (slave : ℕ → Bool) (mainLcore : ℕ) (s : MngData) : MngData :=
  { s with
    core := fun l =>
      { s.core l with
        status := if slave l then .forward else if l = mainLcore then .idle
          else (s.core l).status } }

/-- The state of a process with one slave lcore and one physical port. -/
def bootState : MngData :=
  startForwarding (fun l => l = 1) 0 (initMngData .default (fun l => l = 1) 1)

end Spp.Vf
