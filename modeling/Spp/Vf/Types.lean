import Mathlib.Logic.Function.Basic
import Spp.Lib.CString
import Spp.Lib.Handoff

/-!
# The management data of spp_vf and spp_mirror

The structures of `spp_proc.h` and `command_dec.h`. Arrays indexed by a
component id or an lcore id are functions on `ℕ`; the loops over them range
below the limits of the build. An array with a counter beside it is a list
whose length is the counter.
-/

namespace Spp.Vf

open CLib

/-- The limits of the DPDK build that size every table. -/
structure Limits where
  /-- `RTE_MAX_LCORE`, the number of component slots and of lcores. -/
  maxLcore : ℕ
  /-- `RTE_MAX_ETHPORTS`, the number of interfaces of each type. -/
  maxEthports : ℕ

/-- The limits of DPDK's default configuration. -/
def Limits.default : Limits := ⟨128, 32⟩

/-- `SPP_CMD_MAX_PARAMETERS`. -/
def sppCmdMaxParameters : ℕ := 8
/-- `SPP_CMD_NAME_BUFSZ`. -/
def sppCmdNameBufsz : ℕ := 32
/-- `SPP_CMD_VALUE_BUFSZ`. -/
def sppCmdValueBufsz : ℕ := 111
/-- `SPP_MIN_STR_LEN`. -/
def sppMinStrLen : ℕ := 32
/-- `SPP_PORT_ABILITY_MAX`. -/
abbrev sppPortAbilityMax : ℕ := 4
/-- `SPP_VLAN_PCP_MAX`. -/
def sppVlanPcpMax : ℤ := 7
/-- `ETH_VLAN_ID_MAX` of DPDK. -/
def ethVlanIdMax : ℤ := 0x0fff
/-- `ETHER_ADDR_LEN` of DPDK. -/
def etherAddrLen : ℕ := 6

/-- The two processes that share the command code, chosen at build time by
`SPP_VF_MODULE` or `SPP_MIRROR_MODULE`. -/
inductive SppModule
  | vf
  | mirror
  deriving DecidableEq, Repr

/-- `enum port_type`. -/
inductive PortType
  | phy | ring | vhost | pcap | nullpmd | undef
  deriving DecidableEq, Repr

/-- `enum spp_core_status`. -/
inductive CoreStatus
  | unuse | stop | idle | forward | stopRequest | idleRequest
  deriving DecidableEq, Repr

/-- `enum spp_component_type`. -/
inductive ComponentType
  | unuse | classifierMac | merge | forward | mirror
  deriving DecidableEq, Repr

/-- `enum spp_classifier_type`. -/
inductive ClassifierType
  | none | mac | vlan
  deriving DecidableEq, Repr

/-- `enum spp_port_rxtx`. -/
inductive PortRxtx
  | none | rx | tx | all
  deriving DecidableEq, Repr

/-- `enum spp_port_ability_ope`. -/
inductive PortAbilityOpe
  | none | addVlantag | delVlantag
  deriving DecidableEq, Repr

/-- `enum spp_command_action`. -/
inductive CommandAction
  | none | start | stop | add | del
  deriving DecidableEq, Repr

/-- `struct spp_vlantag_info`. -/
structure VlantagInfo where
  vid : ℤ := 0
  pcp : ℤ := 0
  tci : ℤ := 0
  deriving DecidableEq, Repr

/-- `struct spp_port_ability`; its value by default is the zeroed one. -/
structure PortAbility where
  ope : PortAbilityOpe := .none
  rxtx : PortRxtx := .none
  vlantag : VlantagInfo := {}
  deriving DecidableEq, Repr

/-- `struct spp_port_index`, the type and number read from a resource UID. -/
structure PortIndex where
  ifaceType : PortType := .phy
  ifaceNo : ℤ := 0
  deriving DecidableEq, Repr

/-- The three arrays of `struct iface_info`. -/
inductive IfaceArray
  | nic | vhost | ring
  deriving DecidableEq, Repr

/-- A pointer to an entry of `struct iface_info`, which is how components
refer to ports: two attachments are of one port iff the pointers are equal. -/
structure PortRef where
  array : IfaceArray
  no : ℕ
  deriving DecidableEq, Repr

/-- `struct spp_port_class_identifier`. -/
structure ClassIdentifier where
  macAddr : ℕ := 0
  macAddrStr : CStr := []
  vid : ℤ := 0
  deriving DecidableEq, Repr

/-- `struct spp_port_info`. -/
structure PortInfo where
  ifaceType : PortType
  ifaceNo : ℕ
  dpdkPort : ℤ
  classId : ClassIdentifier := {}
  ability : Fin sppPortAbilityMax → PortAbility := fun _ => {}

/-- `struct spp_component_info`; its value by default is the zeroed one. -/
structure ComponentInfo where
  name : CStr := []
  type : ComponentType := .unuse
  lcoreId : ℕ := 0
  componentId : ℕ := 0
  rxPorts : List PortRef := []
  txPorts : List PortRef := []
  deriving DecidableEq, Repr

/-- The ports a component holds in one direction, `rx_ports` for
`SPP_PORT_RXTX_RX` and `tx_ports` otherwise. -/
def ComponentInfo.ports (c : ComponentInfo) (rxtx : PortRxtx) : List PortRef :=
  if rxtx = .rx then c.rxPorts else c.txPorts

/-- Replacement of the ports of one direction. -/
def ComponentInfo.setPorts (c : ComponentInfo) (rxtx : PortRxtx) (ports : List PortRef) :
    ComponentInfo :=
  if rxtx = .rx then { c with rxPorts := ports } else { c with txPorts := ports }

/-- `struct core_mng_info`. `core a` is the id list of area `a`; its length is
the `num` of `struct core_info`. A store past the end of `id` makes the list
longer than `RTE_MAX_LCORE` instead of being cut off. -/
structure CoreMngInfo where
  status : CoreStatus
  refIndex : Fin 2
  updIndex : Fin 2
  core : Fin 2 → List ℕ

/-- The id list on the update side. -/
def CoreMngInfo.updList (c : CoreMngInfo) : List ℕ := c.core c.updIndex

/-- The id list on the reference side, the one the worker of the core runs. -/
def CoreMngInfo.refList (c : CoreMngInfo) : List ℕ := c.core c.refIndex

/-- The tables the manager edits: `g_component_info`, `g_core_info`,
`g_iface_info`, `g_change_core` and `g_change_component`. -/
structure MngData where
  component : ℕ → ComponentInfo
  core : ℕ → CoreMngInfo
  iface : PortRef → PortInfo
  changeCore : ℕ → Bool
  changeComponent : ℕ → Bool

/-- `enum spp_return_value`. -/
inductive Ret
  | ok
  | ng
  deriving DecidableEq, Repr

/-- The two ways a function stops before its normal end: it returns
`SPP_RET_NG`, or it does something C leaves undefined (a copy that overruns
its destination, a pointer outside its array). -/
inductive Stop
  | ng
  | undef
  deriving DecidableEq, Repr

end Spp.Vf
