import Mathlib.Data.Fin.Basic
import Spp.Vf.Port

/-!
# The published abilities of the ports

The double buffer of `spp_port.c`. For every device and direction the manager
writes the abilities of a port to the update side and lists the device as
pending; a worker that takes over an update moves the reference side of every
pending device. `portAbilitySetAbility` and the two halves of
`spp_port_ability_change_index` are those of the source.
-/

namespace Spp.Vf

section Table

/-- `struct port_ability_mng_info`. An area is the list of the abilities copied
into it; the entries behind them are zeroed. -/
structure PortAbilityMngInfo where
  refIndex : Fin 2
  updIndex : Fin 2
  ability : Fin 2 → List PortAbility

/-- `g_port_mng_info` by device and direction, and the devices in the static
`rx_list` and `tx_list` of `spp_port_ability_change_index`. A store past the end
of a list makes it longer than `RTE_MAX_ETHPORTS` instead of being cut off. -/
structure PortAbilityTable where
  mng : ℕ → PortRxtx → PortAbilityMngInfo
  pending : PortRxtx → List ℕ

/-- `spp_port_ability_init`. -/
def sppPortAbilityInit : PortAbilityTable :=
  { mng := fun _ _ => ⟨0, 1, fun _ => []⟩
    pending := fun _ => [] }

/-- Replacement of the management information of one device and direction. -/
def PortAbilityTable.setMng (t : PortAbilityTable) (portId : ℕ) (rxtx : PortRxtx)
    (mng : PortAbilityMngInfo) : PortAbilityTable :=
  { t with mng := Function.update t.mng portId (Function.update (t.mng portId) rxtx mng) }

/-- `spp_port_ability_get_info`: the area that a worker reads. -/
def sppPortAbilityGetInfo (t : PortAbilityTable) (portId : ℕ) (rxtx : PortRxtx) :
    List PortAbility :=
  (t.mng portId rxtx).ability (t.mng portId rxtx).refIndex

/-- `spp_port_ability_change_index`, type `PORT_ABILITY_CHG_INDEX_UPD`. -/
def changeIndexUpd (t : PortAbilityTable) (portId : ℕ) (rxtx : PortRxtx) : PortAbilityTable :=
  let mng := t.mng portId rxtx
  { t.setMng portId rxtx { mng with updIndex := mng.refIndex } with
    pending := Function.update t.pending rxtx (t.pending rxtx ++ [portId]) }

/-- One iteration of the loops of `PORT_ABILITY_CHG_INDEX_REF`. -/
def takeAbility (rxtx : PortRxtx) (t : PortAbilityTable) (portId : ℕ) : PortAbilityTable :=
  let mng := t.mng portId rxtx
  t.setMng portId rxtx { mng with refIndex := mng.updIndex + 1 }

/-- `spp_port_ability_change_index`, type `PORT_ABILITY_CHG_INDEX_REF`. -/
def changeIndexRef (t : PortAbilityTable) : PortAbilityTable :=
  let t := (t.pending .rx).foldl (takeAbility .rx) t
  let t := (t.pending .tx).foldl (takeAbility .tx) t
  { t with pending := fun _ => [] }

/-- `SPP_VLANTAG_CALC_TCI`. -/
def sppVlantagCalcTci (id pcp : ℤ) : ℕ :=
  (pcp % 8).toNat <<< 13 ||| (id % 4096).toNat

/-- The copy of an ability, with the tag control information of a tag to add. -/
def publishAbility (ability : PortAbility) : PortAbility :=
  if ability.ope = .addVlantag then
    { ability with
      vlantag :=
        { ability.vlantag with
          tci := rteCpuToBe16 (sppVlantagCalcTci ability.vlantag.vid ability.vlantag.pcp) } }
  else ability

/-- What `port_ability_set_ability` copies: the abilities of one direction, in
order. -/
def PortInfo.configured (port : PortInfo) (rxtx : PortRxtx) : List PortAbility :=
  (((List.finRange sppPortAbilityMax).map port.ability).filter fun ability =>
    ability.rxtx = rxtx).map publishAbility

/-- The index into `g_port_mng_info` for a port; outside the array there is no
defined entry. -/
def portMngIndex (L : Limits) (port : PortInfo) : Option ℕ :=
  if 0 ≤ port.dpdkPort ∧ port.dpdkPort < L.maxEthports then some port.dpdkPort.toNat else none

/-- `port_ability_set_ability`. -/
def portAbilitySetAbility (L : Limits) (t : PortAbilityTable) (port : PortInfo)
    (rxtx : PortRxtx) : Option PortAbilityTable :=
  (portMngIndex L port).map fun portId =>
    let mng := t.mng portId rxtx
    changeIndexUpd
      (t.setMng portId rxtx
        { mng with ability := Function.update mng.ability mng.updIndex (port.configured rxtx) })
      portId rxtx

/-- The ports of a component in the order in which `spp_port_ability_update`
sets their abilities. -/
def ComponentInfo.portDirections (component : ComponentInfo) : List (PortRef × PortRxtx) :=
  component.rxPorts.map (·, .rx) ++ component.txPorts.map (·, .tx)

/-- `spp_port_ability_update`. -/
def sppPortAbilityUpdate (L : Limits) (iface : PortRef → PortInfo) (component : ComponentInfo)
    (t : PortAbilityTable) : Option PortAbilityTable :=
  component.portDirections.foldlM (fun t p => portAbilitySetAbility L t (iface p.1) p.2) t

end Table

section Lemmas

variable {t : PortAbilityTable}

@[simp] theorem setMng_pending (portId : ℕ) (rxtx : PortRxtx) (mng : PortAbilityMngInfo) :
    (t.setMng portId rxtx mng).pending = t.pending := rfl

/-- The management information after that of one device and direction is replaced. -/
@[simp] theorem setMng_mng (portId p : ℕ) (rxtx d : PortRxtx) (mng : PortAbilityMngInfo) :
    (t.setMng portId rxtx mng).mng p d = if p = portId ∧ d = rxtx then mng else t.mng p d := by
  by_cases hp : p = portId
  · subst hp
    by_cases hd : d = rxtx
    · subst hd
      simp [PortAbilityTable.setMng]
    · simp [PortAbilityTable.setMng, hd]
  · simp [PortAbilityTable.setMng, hp]

/-- A loop of `PORT_ABILITY_CHG_INDEX_REF` moves the reference side of every
listed device, however often it is listed. -/
theorem foldl_takeAbility (rxtx : PortRxtx) (ports : List ℕ) (t : PortAbilityTable) (p : ℕ)
    (d : PortRxtx) : (ports.foldl (takeAbility rxtx) t).pending = t.pending ∧
      (ports.foldl (takeAbility rxtx) t).mng p d =
        if p ∈ ports ∧ d = rxtx then { t.mng p d with refIndex := (t.mng p d).updIndex + 1 }
        else t.mng p d := by
  induction ports generalizing t with
  | nil => simp
  | cons q ports ih =>
    obtain ⟨hpending, hmng⟩ := ih (takeAbility rxtx t q)
    rw [List.foldl_cons]
    constructor
    · rw [hpending]
      rfl
    · rw [hmng]
      by_cases hd : d = rxtx
      · subst hd
        by_cases hq : p = q
        · subst hq
          simp [takeAbility]
        · simp [takeAbility, hq]
      · simp [takeAbility, hd]

/-- After `PORT_ABILITY_CHG_INDEX_REF` nothing is pending. -/
@[simp] theorem changeIndexRef_pending (t : PortAbilityTable) (d : PortRxtx) :
    (changeIndexRef t).pending d = [] := rfl

/-- The reference side of the pending devices has moved, and nothing else. -/
theorem changeIndexRef_mng (t : PortAbilityTable) (p : ℕ) {d : PortRxtx} (hd : d = .rx ∨ d = .tx) :
    (changeIndexRef t).mng p d =
      if p ∈ t.pending d then { t.mng p d with refIndex := (t.mng p d).updIndex + 1 }
      else t.mng p d := by
  unfold changeIndexRef
  dsimp only
  rw [(foldl_takeAbility .tx _ _ p d).2, (foldl_takeAbility .rx _ _ p d).2,
    (foldl_takeAbility .rx _ _ p d).1]
  rcases hd with rfl | rfl <;> simp

/-- Setting the abilities of a port stores them on the update side, gives up
that side and lists the device. -/
theorem portAbilitySetAbility_eq_some {L : Limits} {port : PortInfo} {rxtx : PortRxtx}
    {t' : PortAbilityTable} (h : portAbilitySetAbility L t port rxtx = some t') :
    ∃ portId < L.maxEthports, portMngIndex L port = some portId ∧
      t'.pending = Function.update t.pending rxtx (t.pending rxtx ++ [portId]) ∧
      ∀ p d, t'.mng p d =
        if p = portId ∧ d = rxtx then
          { (t.mng p d) with
            updIndex := (t.mng p d).refIndex
            ability := Function.update (t.mng p d).ability (t.mng p d).updIndex
              (port.configured rxtx) }
        else t.mng p d := by
  obtain ⟨portId, hindex, rfl⟩ := Option.map_eq_some_iff.mp h
  refine ⟨portId, ?_, hindex, rfl, fun p d => ?_⟩
  · unfold portMngIndex at hindex
    split at hindex
    · cases hindex
      omega
    · cases hindex
  · by_cases hp : p = portId ∧ d = rxtx
    · obtain ⟨rfl, rfl⟩ := hp
      simp [changeIndexUpd]
    · simp [changeIndexUpd, hp]

end Lemmas

end Spp.Vf
