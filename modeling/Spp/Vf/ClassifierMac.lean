import Mathlib.Logic.Function.Basic
import Spp.Vf.Types

/-!
# The classifier's tables

`init_component_info`, `uninit_component_info` and the selection functions of
`classifier_mac.c`. A `CmpInfo` is what the manager builds and the worker looks
packets up in; the packet buffers of its ports belong to the worker and are not
part of it. DPDK's hash table is a parameter with its documented behaviour.
-/

namespace Spp.Vf

open CLib

/-- `VLAN_UNTAGGED_VID`. -/
def vlanUntaggedVid : ℕ := 0x0fff
/-- `ETHER_TYPE_VLAN` of DPDK. -/
def etherTypeVlan : ℕ := 0x8100
/-- `SPP_DEFAULT_CLASSIFIED_DMY_ADDR`. -/
def sppDefaultClassifiedDmyAddr : ℕ := 0x010000000000

/-- The functions of `rte_hash` that the classifier calls, with what they are
documented to do. `addKeyData` is `none` where the function returns an error. -/
structure RteHash (τ : Type) where
  create : τ
  addKeyData : τ → ℕ → ℕ → Option τ
  lookupData : τ → ℕ → Option ℕ
  lookup_create : ∀ key, lookupData create key = none
  lookup_add : ∀ {tab key data tab'}, addKeyData tab key data = some tab' →
    ∀ key', lookupData tab' key' = if key' = key then some data else lookupData tab key'

/-- A hash table as an association list of at most 128 entries. -/
def assocHash : RteHash (List (ℕ × ℕ)) where
  create := []
  addKeyData tab key data := if tab.length < 128 then some ((key, data) :: tab) else none
  lookupData tab key := tab.lookup key
  lookup_create _ := rfl
  lookup_add {tab key data tab'} h key' := by
    split at h
    · obtain rfl := Option.some.inj h
      by_cases hkey : key' = key
      · subst hkey
        simp
      · have hbeq : (key' == key) = false := by simpa using hkey
        simp [List.lookup_cons, hbeq, hkey]
    · cases h

/-- `struct mac_classification` as `create_mac_classification` leaves it, with
-1 for no default. -/
structure MacClassification (τ : Type) where
  classificationTab : τ
  activeClassifieds : List ℕ := []
  defaultClassified : ℤ := -1

/-- `struct classified_data` without its packet buffer. -/
structure ClassifiedData where
  ifaceType : PortType := .phy
  ifaceNo : ℕ := 0
  ifaceNoGlobal : ℕ := 0
  port : ℕ := 0
  deriving DecidableEq

/-- `struct component_info` of the classifier; zeroed by default. -/
structure CmpInfo (τ : Type) where
  name : CStr := []
  macAddrEntry : ℕ := 0
  macClassifications : ℕ → Option (MacClassification τ) := fun _ => none
  nClassifiedDataTx : ℕ := 0
  classifiedDataRx : ClassifiedData := {}
  classifiedDataTx : ℕ → ClassifiedData := fun _ => {}

variable {τ : Type} (hash : RteHash τ)

/-- A MAC classification is stored for a VLAN id. -/
def CmpInfo.setMac (cmpInfo : CmpInfo τ) (vid : ℕ) (macCls : MacClassification τ) : CmpInfo τ :=
  { cmpInfo with macClassifications := Function.update cmpInfo.macClassifications vid (some macCls) }

/-- The classification of a VLAN id, created if there is none. `memory` says
whether `create_mac_classification` gets its memory and its table. -/
def macClassification (memory : Bool) (cmpInfo : CmpInfo τ) (vid : ℕ) :
    Option (MacClassification τ) :=
  match cmpInfo.macClassifications vid with
  | some macCls => some macCls
  | none => if memory then some { classificationTab := hash.create } else none

/-- One iteration of `init_component_info` over the transmit ports. -/
def initTxPort (memory : Bool) (i : ℕ) (txPort : PortInfo) (cmpInfo : CmpInfo τ) : Ret × CmpInfo τ :=
  let vid := (txPort.classId.vid % 2 ^ 16).toNat
  let cmpInfo := { cmpInfo with
    classifiedDataTx := Function.update cmpInfo.classifiedDataTx i
      { ifaceType := txPort.ifaceType, ifaceNo := i, ifaceNoGlobal := txPort.ifaceNo
        port := (txPort.dpdkPort % 2 ^ 16).toNat } }
  if txPort.classId.macAddr = 0 then (.ok, cmpInfo)
  else
    match macClassification hash memory cmpInfo vid with
    | none => (.ng, cmpInfo)
    | some macCls =>
      let macCls := { macCls with activeClassifieds := macCls.activeClassifieds ++ [i] }
      let cmpInfo := { cmpInfo with macAddrEntry := 1 }
      if txPort.classId.macAddr = sppDefaultClassifiedDmyAddr then
        (.ok, cmpInfo.setMac vid { macCls with defaultClassified := i })
      else
        match hash.addKeyData macCls.classificationTab (txPort.classId.macAddr % 2 ^ 48) i with
        | none => (.ng, cmpInfo.setMac vid macCls)
        | some tab => (.ok, cmpInfo.setMac vid { macCls with classificationTab := tab })

/-- The loop of `init_component_info` over the transmit ports, from index `i`. -/
def initTxPorts (memory : ℕ → Bool) : ℕ → List PortInfo → CmpInfo τ → Ret × CmpInfo τ
  | _, [], cmpInfo => (.ok, cmpInfo)
  | i, txPort :: txPorts, cmpInfo =>
    match initTxPort hash (memory i) i txPort cmpInfo with
    | (.ng, cmpInfo) => (.ng, cmpInfo)
    | (.ok, cmpInfo) => initTxPorts memory (i + 1) txPorts cmpInfo

/-- `init_component_info`. `memory i` says whether a classification can be
created for transmit port `i`. -/
def initComponentInfo (memory : ℕ → Bool) (iface : PortRef → PortInfo)
    (componentInfo : ComponentInfo) (cmpInfo : CmpInfo τ) : Ret × CmpInfo τ :=
  let rx : ClassifiedData :=
    match componentInfo.rxPorts with
    | [] => { ifaceType := .undef }
    | port :: _ =>
      { ifaceType := (iface port).ifaceType, ifaceNo := 0, ifaceNoGlobal := (iface port).ifaceNo
        port := ((iface port).dpdkPort % 2 ^ 16).toNat }
  initTxPorts hash memory 0 (componentInfo.txPorts.map iface)
    { cmpInfo with
      classifiedDataRx := rx
      nClassifiedDataTx := componentInfo.txPorts.length
      macAddrEntry := 0 }

section Select

/-- The header fields of a received frame that the classifier reads. A MAC
address is the number whose lowest byte comes first in the frame. -/
structure Frame (ρ : Type) where
  mbuf : ρ
  dAddr : ℕ
  etherType : ℕ
  vlanTci : ℕ

variable {ρ : Type}

/-- `get_vid`. -/
def getVid (pkt : Frame ρ) : ℕ :=
  if pkt.etherType = etherTypeVlan then pkt.vlanTci % 2 ^ 12 else vlanUntaggedVid

/-- `is_multicast_ether_addr` of DPDK. -/
def isMulticastEtherAddr (dAddr : ℕ) : Bool := dAddr % 2 = 1

/-- `get_general_default_classified_index`. -/
def getGeneralDefaultClassifiedIndex (cmpInfo : CmpInfo τ) : ℤ :=
  match cmpInfo.macClassifications vlanUntaggedVid with
  | none => -1
  | some macCls => macCls.defaultClassified

/-- `select_classified_index`: -1 for no destination, -2 for L2 multicast. -/
def selectClassifiedIndex (pkt : Frame ρ) (cmpInfo : CmpInfo τ) : ℤ :=
  let vid := getVid pkt
  match cmpInfo.macClassifications vid with
  | none => getGeneralDefaultClassifiedIndex cmpInfo
  | some macCls =>
    match hash.lookupData macCls.classificationTab pkt.dAddr with
    | some data => data
    | none =>
      if isMulticastEtherAddr pkt.dAddr then -2
      else if macCls.defaultClassified < 0 ∧ vid ≠ vlanUntaggedVid then
        getGeneralDefaultClassifiedIndex cmpInfo
      else macCls.defaultClassified

/-- What becomes of a frame: what is added to its reference count, the transmit
ports it is then pushed to, in order, and whether it is freed instead. -/
structure Fate where
  added : ℤ
  pushes : List ℕ
  freed : Bool
  deriving DecidableEq

/-- `handle_l2multicast_packet`. The number added to the reference count is
converted to `int16_t`. -/
def handleL2multicastPacket (pkt : Frame ρ) (cmpInfo : CmpInfo τ) : Fate :=
  let vid := getVid pkt
  let genDefClsdIdx := getGeneralDefaultClassifiedIndex cmpInfo
  let toGeneral := 0 ≤ genDefClsdIdx ∧ vid ≠ vlanUntaggedVid
  let active :=
    match cmpInfo.macClassifications vid with
    | none => []
    | some macCls => macCls.activeClassifieds
  if active.length = 0 then
    if genDefClsdIdx < 0 then ⟨0, [], true⟩ else ⟨0, [genDefClsdIdx.toNat], false⟩
  else
    let nActClsd : ℤ := if toGeneral then active.length + 1 else active.length
    ⟨(nActClsd - 1).bmod (2 ^ 16),
      active ++ if toGeneral then [genDefClsdIdx.toNat] else [], false⟩

/-- What `classify_packet` does with one frame of a burst. -/
def classifyPacket (pkt : Frame ρ) (cmpInfo : CmpInfo τ) : Fate :=
  let clsdIdx := selectClassifiedIndex hash pkt cmpInfo
  if 0 ≤ clsdIdx then ⟨0, [clsdIdx.toNat], false⟩
  else if clsdIdx = -1 then ⟨0, [], true⟩
  else if clsdIdx = -2 then handleL2multicastPacket pkt cmpInfo
  else ⟨0, [], false⟩

end Select

end Spp.Vf
