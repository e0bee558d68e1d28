import Spp.Vf.Tables

/-!
# The data paths of forwarder, merger and mirror

A component slot is turned into the path its worker runs: `struct forward_path`
by `spp_forward_update` and `struct mirror_path` by `spp_mirror_update`. Both
functions first refuse a slot with too many ports; `none` stands for that.
-/

namespace Spp.Vf

open CLib

/-- `struct forward_rxtx` and `struct mirror_rxtx`. -/
structure PathRxtx where
  rx : PortInfo
  tx : PortInfo

/-- An entry of the interface table filled with zero bytes. -/
def zeroPortInfo : PortInfo := { ifaceType := .phy, ifaceNo := 0, dpdkPort := 0 }

/-- `struct forward_path` and `struct mirror_path`, zeroed by default. -/
structure DataPath where
  name : CStr := []
  type : ComponentType := .unuse
  numRx : ℕ := 0
  numTx : ℕ := 0
  ports : ℕ → PathRxtx := fun _ => ⟨zeroPortInfo, zeroPortInfo⟩

/-- The copy of the port that an array holds at an index, zero bytes beyond it. -/
def portCopy (iface : PortRef → PortInfo) (array : List PortRef) (cnt : ℕ) : PortInfo :=
  match array[cnt]? with
  | some port => iface port
  | none => zeroPortInfo

/-- `spp_forward_update`, up to the publication of the path. The one transmit
port is repeated beside every receive port. -/
def sppForwardUpdate (iface : PortRef → PortInfo) (component : ComponentInfo) : Option DataPath :=
  let numRx := component.rxPorts.length
  let numTx := component.txPorts.length
  let max := if numRx > numTx then numRx * numTx else numTx
  if component.type = .forward ∧ numRx > 1 then none
  else if numTx ≠ 0 ∧ numTx ≠ 1 then none
  else some
    { name := component.name
      type := component.type
      numRx := numRx
      numTx := numTx
      ports := fun cnt =>
        ⟨portCopy iface component.rxPorts cnt,
          if cnt < max then portCopy iface component.txPorts 0 else zeroPortInfo⟩ }

/-- `spp_mirror_update`, up to the publication of the path. -/
def sppMirrorUpdate (iface : PortRef → PortInfo) (component : ComponentInfo) : Option DataPath :=
  if component.rxPorts.length > 1 then none
  else if component.txPorts.length > 2 then none
  else some
    { name := component.name
      type := component.type
      numRx := component.rxPorts.length
      numTx := component.txPorts.length
      ports := fun cnt =>
        ⟨portCopy iface component.rxPorts cnt, portCopy iface component.txPorts cnt⟩ }

/-- The practice condition check of `spp_forward`: a merger needs one transmit
port and at least one receive port, any other type exactly one of each. -/
def DataPath.runnable (path : DataPath) : Bool :=
  if path.type = .merge then path.numTx = 1 ∧ path.numRx ≥ 1
  else path.numTx = 1 ∧ path.numRx = 1

end Spp.Vf
