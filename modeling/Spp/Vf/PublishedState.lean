import Spp.Vf.ClassifierRule
import Spp.Vf.ConfiguredRuns

/-!
# What a component has published

A worker and the reply to `status` read a component from the areas and the ability table,
on the side that was handed over last. Once a component is published that side shows the
slot: its name, type and ports, and for every port the ability that was given to it.
-/

namespace Spp.Vf

open CLib GuardedRun

variable {τ ρ : Type} {P : SppProcess} {rt rt' : Runtime τ ρ}

section Shown

/-- A component as a slot or an area has it. -/
structure Shown where
  name : CStr
  type : ComponentType
  rxPort : List PortIndex
  txPort : List PortIndex

/-- What a slot has. -/
def ComponentInfo.shown (component : ComponentInfo) : Shown :=
  ⟨component.name, component.type, component.rxPorts.map PortRef.index,
    component.txPorts.map PortRef.index⟩

/-- What a path has. -/
def DataPath.shown (path : DataPath) : Shown :=
  ⟨path.name, path.type, (List.range path.numRx).map fun cnt => (path.ports cnt).rx.portIndex,
    (List.range path.numTx).map fun cnt => (path.ports cnt).tx.portIndex⟩

/-- What the area of a classifier has. -/
def CmpInfo.shown (cmpInfo : CmpInfo τ) : Shown :=
  ⟨cmpInfo.name, .classifierMac,
    if cmpInfo.classifiedDataRx.ifaceType ≠ .undef then [cmpInfo.classifiedDataRx.portIndex]
    else [],
    (List.range cmpInfo.nClassifiedDataTx).map fun i => (cmpInfo.classifiedDataTx i).portIndex⟩

/-- What one of the two areas of a buffer has. -/
def Runtime.shown (rt : Runtime τ ρ) (target : UpdateTarget) (area : Fin 2) : Shown :=
  match target with
  | .classifier id => ((rt.mngInfos id).cmpInfos area).shown
  | .path id => (rt.paths id area).shown

/-- The ports of a slot are entries of the interface table under their own index. -/
def PortsShown (iface : PortRef → PortInfo) (component : ComponentInfo) : Prop :=
  ∀ p ∈ component.portDirections, (iface p.1).portIndex = p.1.index

/-- The copies of an array have the indices of its ports. -/
theorem map_portCopy {iface : PortRef → PortInfo} {array : List PortRef}
    (h : ∀ port ∈ array, (iface port).portIndex = port.index) :
    ((List.range array.length).map fun cnt => (portCopy iface array cnt).portIndex) =
      array.map PortRef.index := by
  refine List.ext_getElem (by simp) fun cnt hcnt hcnt' => ?_
  have hlt : cnt < array.length := by simpa using hcnt
  simp only [List.getElem_map, List.getElem_range, portCopy, List.getElem?_eq_getElem hlt]
  exact h _ (List.getElem_mem hlt)

/-- The ports of either direction are among the ports of a component. -/
theorem portsShown_iff {iface : PortRef → PortInfo} {component : ComponentInfo} :
    PortsShown iface component ↔
      (∀ port ∈ component.rxPorts, (iface port).portIndex = port.index) ∧
        ∀ port ∈ component.txPorts, (iface port).portIndex = port.index := by
  simp [PortsShown, ComponentInfo.portDirections, or_imp, forall_and]

/-- The one transmit port is shown although it is repeated beside every receive port. -/
theorem shown_sppForwardUpdate {iface : PortRef → PortInfo} {component : ComponentInfo}
    {path : DataPath} (h : sppForwardUpdate iface component = some path)
    (hports : PortsShown iface component) : path.shown = component.shown := by
  obtain ⟨hrx, htx⟩ := portsShown_iff.mp hports
  unfold sppForwardUpdate at h
  dsimp only at h
  split at h
  · cases h
  · split at h
    · cases h
    · rename_i hone
      cases h
      have hmax : ∀ cnt < component.txPorts.length, cnt = 0 ∧
          0 < if component.rxPorts.length > component.txPorts.length then
            component.rxPorts.length * component.txPorts.length else component.txPorts.length := by
        intro cnt hcnt
        have hlength : component.txPorts.length = 1 := by omega
        rw [hlength, Nat.mul_one]
        refine ⟨by omega, ?_⟩
        split <;> omega
      simp only [DataPath.shown, ComponentInfo.shown, map_portCopy hrx, ← map_portCopy htx,
        Shown.mk.injEq, true_and]
      refine List.map_congr_left fun cnt hcnt => ?_
      obtain ⟨rfl, hpos⟩ := hmax cnt (List.mem_range.mp hcnt)
      rw [if_pos hpos]

/-- A path that is built shows the slot. -/
theorem shown_madePath {id : ℕ} {path : DataPath} (h : rt.madePath P id = some path)
    (hports : PortsShown rt.flush.s.iface (rt.flush.s.component id)) :
    path.shown = (rt.flush.s.component id).shown := by
  obtain ⟨hrx, htx⟩ := portsShown_iff.mp hports
  unfold Runtime.madePath at h
  split at h
  · exact shown_sppForwardUpdate h hports
  · unfold sppMirrorUpdate at h
    split_ifs at h
    cases h
    simp only [DataPath.shown, ComponentInfo.shown, map_portCopy hrx, map_portCopy htx]

variable {hash : RteHash τ}

/-- One iteration of `init_component_info` stores its port and leaves the others. -/
theorem initTxPort_ports (hash : RteHash τ) (memory : Bool) (i : ℕ) (txPort : PortInfo)
    (cmpInfo : CmpInfo τ) :
    let made := (initTxPort hash memory i txPort cmpInfo).2
    made.classifiedDataRx = cmpInfo.classifiedDataRx ∧
      made.nClassifiedDataTx = cmpInfo.nClassifiedDataTx ∧
      (made.classifiedDataTx i).portIndex = txPort.portIndex ∧
      ∀ j, j ≠ i → made.classifiedDataTx j = cmpInfo.classifiedDataTx j := by
  have hset : ∀ made : CmpInfo τ, made.classifiedDataRx = cmpInfo.classifiedDataRx →
      made.nClassifiedDataTx = cmpInfo.nClassifiedDataTx →
      made.classifiedDataTx = Function.update cmpInfo.classifiedDataTx i
        { ifaceType := txPort.ifaceType, ifaceNo := i, ifaceNoGlobal := txPort.ifaceNo
          port := (txPort.dpdkPort % 2 ^ 16).toNat } →
      made.classifiedDataRx = cmpInfo.classifiedDataRx ∧
        made.nClassifiedDataTx = cmpInfo.nClassifiedDataTx ∧
        (made.classifiedDataTx i).portIndex = txPort.portIndex ∧
        ∀ j, j ≠ i → made.classifiedDataTx j = cmpInfo.classifiedDataTx j := by
    intro made hrx hn htx
    refine ⟨hrx, hn, ?_, fun j hj => ?_⟩
    · rw [htx, Function.update_self]
      rfl
    · rw [htx, Function.update_of_ne hj]
  unfold initTxPort
  dsimp only
  split
  · exact hset _ rfl rfl rfl
  · split
    · exact hset _ rfl rfl rfl
    · split
      · exact hset _ rfl rfl rfl
      · split <;> exact hset _ rfl rfl rfl

/-- The loop of `init_component_info` stores every port at its position. -/
theorem initTxPorts_ports {memory : ℕ → Bool} {txPorts : List PortInfo} {i : ℕ}
    {cmpInfo : CmpInfo τ} (hok : (initTxPorts hash memory i txPorts cmpInfo).1 = .ok) :
    let made := (initTxPorts hash memory i txPorts cmpInfo).2
    made.classifiedDataRx = cmpInfo.classifiedDataRx ∧
      made.nClassifiedDataTx = cmpInfo.nClassifiedDataTx ∧
      (∀ j < i, made.classifiedDataTx j = cmpInfo.classifiedDataTx j) ∧
      ∀ k (hk : k < txPorts.length),
        (made.classifiedDataTx (i + k)).portIndex = txPorts[k].portIndex := by
  induction txPorts generalizing i cmpInfo with
  | nil => exact ⟨rfl, rfl, fun _ _ => rfl, fun k hk => absurd hk (Nat.not_lt_zero k)⟩
  | cons txPort txPorts ih =>
    obtain ⟨hrx, hn, hthis, hothers⟩ :=
      initTxPort_ports hash (memory i) i txPort cmpInfo
    unfold initTxPorts at hok ⊢
    cases hport : initTxPort hash (memory i) i txPort cmpInfo with
    | mk ret cmpInfo' =>
      rw [hport] at hok hrx hn hthis hothers
      cases ret with
      | ng => cases hok
      | ok =>
        obtain ⟨hrx', hn', hbelow, hrest⟩ := ih hok
        refine ⟨hrx'.trans hrx, hn'.trans hn, fun j hj => ?_, fun k hk => ?_⟩
        · exact (hbelow j (by omega)).trans (hothers j (by omega))
        · cases k with
          | zero => exact (congrArg ClassifiedData.portIndex (hbelow i (by omega))).trans hthis
          | succ k =>
            have hlt : k < txPorts.length := by simpa using hk
            rw [List.getElem_cons_succ, ← hrest k hlt, Nat.add_right_comm, Nat.add_assoc]

/-- The area of a classifier that is built shows the slot. -/
theorem shown_initComponentInfo {memory : ℕ → Bool} {iface : PortRef → PortInfo}
    {component : ComponentInfo} {cmpInfo : CmpInfo τ}
    (hok : (initComponentInfo hash memory iface component cmpInfo).1 = .ok)
    (htype : component.type = .classifierMac) (hone : component.rxPorts.length ≤ 1)
    (hports : PortsShown iface component) :
    { (initComponentInfo hash memory iface component cmpInfo).2 with
      name := component.name }.shown = component.shown := by
  obtain ⟨hrx, htx⟩ := portsShown_iff.mp hports
  obtain ⟨hmadeRx, hmadeN, -, hmadeTx⟩ := initTxPorts_ports hok
  unfold CmpInfo.shown ComponentInfo.shown
  simp only [initComponentInfo, hmadeRx, hmadeN, htype, Shown.mk.injEq, true_and]
  constructor
  · cases hrxs : component.rxPorts with
    | nil => simp
    | cons port rest =>
      have hrest : rest = [] := by simpa [hrxs] using hone
      have hindex : (⟨(iface port).ifaceType, (iface port).ifaceNo⟩ : PortIndex) = port.index :=
        hrx port (by simp [hrxs])
      have hdef : (iface port).ifaceType ≠ .undef := by
        rw [(PortIndex.mk.inj hindex).1]
        cases port.array <;> simp [IfaceArray.type]
      simp [hdef, hrest, ClassifiedData.portIndex, hindex]
  · refine List.ext_getElem (by simp) fun k hk hk' => ?_
    have hlt : k < component.txPorts.length := by simpa using hk'
    have hmade := hmadeTx k (by simpa using hlt)
    rw [Nat.zero_add] at hmade
    simp only [List.getElem_map, List.getElem_range, hmade]
    exact htx _ (List.getElem_mem hlt)

end Shown

section Published

variable (P) (hash : RteHash τ)

/-- An area of a component shows its slot, and the tables of a classifier hold the entries
of its transmit ports. -/
structure AreaBuilt (rt : Runtime τ ρ) (id : ℕ) (area : Fin 2) : Prop where
  shown : rt.shown (updateTarget P.M rt.flush.s id) area = (rt.flush.s.component id).shown
  rules : updateTarget P.M rt.flush.s id = .classifier id →
    ((rt.mngInfos id).cmpInfos area).Holds hash
      ((rt.flush.s.component id).txPorts.map rt.flush.s.iface)

/-- The side that is read shows the slot of a component, the rules of its transmit ports
and the abilities of all its ports. -/
structure Published (rt : Runtime τ ρ) (id : ℕ) : Prop where
  taken : (rt.flush.index (updateTarget P.M rt.flush.s id)).refIndex ≠
    (rt.flush.index (updateTarget P.M rt.flush.s id)).updIndex
  area : AreaBuilt P hash rt id (rt.flush.index (updateTarget P.M rt.flush.s id)).refIndex
  used : updateTarget P.M rt.flush.s id = .classifier id → (rt.mngInfos id).isUsed = true
  ability : ∀ p ∈ (rt.flush.s.component id).portDirections, ∃ portId,
    portMngIndex P.L (rt.flush.s.iface p.1) = some portId ∧
      appendVlanBlock (sppPortAbilityGetInfo rt.flush.table portId p.2) =
        (rt.given (id, p.2, p.1)).block

variable {P hash}

/-- The areas of a component are as they were, and it is still used. -/
structure BuffersKept (rt rt' : Runtime τ ρ) (id : ℕ) : Prop where
  cmpInfos : (rt'.mngInfos id).cmpInfos = (rt.mngInfos id).cmpInfos
  isUsed : (rt.mngInfos id).isUsed = true → (rt'.mngInfos id).isUsed = true
  paths : rt'.paths id = rt.paths id

theorem buffersKept_of_eq {id : ℕ} (hmng : rt'.mngInfos id = rt.mngInfos id)
    (hpaths : rt'.paths id = rt.paths id) : BuffersKept rt rt' id :=
  ⟨by rw [hmng], fun hused => by rwa [hmng], hpaths⟩

theorem BuffersKept.shown {id : ℕ} (h : BuffersKept rt rt' id) {target : UpdateTarget}
    (htarget : target = .classifier id ∨ target = .path id) (area : Fin 2) :
    rt'.shown target area = rt.shown target area := by
  rcases htarget with rfl | rfl
  · simp only [Runtime.shown, h.cmpInfos]
  · simp only [Runtime.shown, h.paths]

/-- The buffer that is updated for a component is its own. -/
theorem updateTarget_own (M : SppModule) (s : MngData) (id : ℕ) :
    updateTarget M s id = .classifier id ∨ updateTarget M s id = .path id := by
  rcases updateTarget_cases M s id with ⟨h, -⟩ | ⟨h, -⟩
  · exact .inl h
  · exact .inr h

/-- What a port is registered with is a matter of its class id. -/
theorem isRegistered_congr {a b : PortInfo} (h : a.classId = b.classId) (vid : ℕ) :
    isRegistered vid a = isRegistered vid b := by
  simp only [isRegistered, h]

theorem isEntry_congr {a b : PortInfo} (h : a.classId = b.classId) (vid key : ℕ) :
    isEntry vid key a = isEntry vid key b :=
  decide_eq_decide.mpr (by rw [isRegistered_congr h, h])

theorem isDefaultEntry_congr {a b : PortInfo} (h : a.classId = b.classId) (vid : ℕ) :
    isDefaultEntry vid a = isDefaultEntry vid b :=
  decide_eq_decide.mpr (by rw [isRegistered_congr h, h])

/-- An area stays built while the tables and the area itself stay. -/
theorem AreaBuilt.of_area {id : ℕ} {area : Fin 2} (h : AreaBuilt P hash rt id area)
    (hs : rt'.flush.s = rt.flush.s)
    (hcmp : (rt'.mngInfos id).cmpInfos area = (rt.mngInfos id).cmpInfos area)
    (hpath : rt'.paths id area = rt.paths id area) : AreaBuilt P hash rt' id area := by
  refine ⟨?_, fun htarget => ?_⟩
  · rw [hs, ← h.shown]
    rcases updateTarget_own P.M rt.flush.s id with ht | ht
    · simp only [ht, Runtime.shown, hcmp]
    · simp only [ht, Runtime.shown, hpath]
  · rw [hs] at htarget ⊢
    rw [hcmp]
    exact h.rules htarget

/-- Only the class ids of the ports count for the tables. -/
theorem CmpInfo.Holds.of_classIds {ports ports' : List PortInfo} {cmpInfo : CmpInfo τ}
    (h : cmpInfo.Holds hash ports)
    (hids : ports'.map PortInfo.classId = ports.map PortInfo.classId) :
    cmpInfo.Holds hash ports' := by
  have hlength : ports'.length = ports.length := by
    simpa only [List.length_map] using congrArg List.length hids
  have hpositions : ∀ p : PortInfo → Bool,
      (∀ a b : PortInfo, a.classId = b.classId → p a = p b) →
      positions p ports' = positions p ports := by
    intro p hp
    unfold positions
    rw [hlength]
    refine List.filter_congr fun i hi => ?_
    have hlt : i < ports.length := List.mem_range.mp hi
    have hlt' : i < ports'.length := by omega
    rw [List.getElem?_eq_getElem hlt, List.getElem?_eq_getElem hlt', Option.any_some,
      Option.any_some]
    refine hp _ _ ?_
    have hget := congrArg (fun l => l[i]?) hids
    simpa [hlt, hlt'] using hget
  have hregistered := fun vid => hpositions _ fun a b hab => isRegistered_congr hab vid
  refine ⟨fun vid => by rw [hregistered, h.none_iff], fun vid macCls hcls => ?_⟩
  obtain ⟨hactive, hlookup, hdefault⟩ := h.table vid macCls hcls
  refine ⟨by rw [hregistered, hactive], fun key => ?_, ?_⟩
  · rw [hlookup, hpositions _ fun a b hab => isEntry_congr hab vid key]
  · rw [hdefault, defaultOf, defaultOf, hpositions _ fun a b hab => isDefaultEntry_congr hab vid]

/-- The slot of a component and the class ids of its transmit ports are as they were. -/
structure SlotKept (s s' : MngData) (id : ℕ) : Prop where
  component : s'.component id = s.component id
  classIds : ∀ port ∈ (s.component id).txPorts, (s'.iface port).classId = (s.iface port).classId

theorem SlotKept.refl (s : MngData) (id : ℕ) : SlotKept s s id := ⟨rfl, fun _ _ => rfl⟩

theorem SlotKept.target {s s' : MngData} {id : ℕ} (h : SlotKept s s' id) (M : SppModule) :
    updateTarget M s' id = updateTarget M s id :=
  updateTarget_congr (by rw [h.component])

/-- An area stays built while slot and buffers stay. -/
theorem AreaBuilt.congr {id : ℕ} {area : Fin 2} (h : AreaBuilt P hash rt id area)
    (hslot : SlotKept rt.flush.s rt'.flush.s id) (hbuffers : BuffersKept rt rt' id) :
    AreaBuilt P hash rt' id area := by
  refine ⟨?_, fun htarget => ?_⟩
  · rw [hslot.target, hslot.component, hbuffers.shown (updateTarget_own ..), h.shown]
  · rw [hslot.target] at htarget
    rw [hslot.component, hbuffers.cmpInfos]
    refine (h.rules htarget).of_classIds ?_
    rw [List.map_map, List.map_map]
    exact List.map_congr_left fun port hport => hslot.classIds port hport

/-- A component stays published while nothing that is read of it changes. -/
theorem Published.congr {id : ℕ} (h : Published P hash rt id)
    (hslot : SlotKept rt.flush.s rt'.flush.s id) (hbuffers : BuffersKept rt rt' id)
    (hindex : rt'.flush.index (updateTarget P.M rt.flush.s id) =
      rt.flush.index (updateTarget P.M rt.flush.s id))
    (hgiven : ∀ p ∈ (rt.flush.s.component id).portDirections,
      rt'.given (id, p.2, p.1) = rt.given (id, p.2, p.1))
    (hability : ∀ p ∈ (rt.flush.s.component id).portDirections, ∀ portId,
      portMngIndex P.L (rt.flush.s.iface p.1) = some portId →
      portMngIndex P.L (rt'.flush.s.iface p.1) = some portId ∧
        sppPortAbilityGetInfo rt'.flush.table portId p.2 =
          sppPortAbilityGetInfo rt.flush.table portId p.2) : Published P hash rt' id := by
  refine ⟨?_, ?_, fun htarget => ?_, fun p hp => ?_⟩
  · rw [hslot.target, hindex]
    exact h.taken
  · rw [hslot.target, hindex]
    exact h.area.congr hslot hbuffers
  · rw [hslot.target] at htarget
    exact hbuffers.isUsed (h.used htarget)
  · rw [hslot.component] at hp
    obtain ⟨portId, hport, hblock⟩ := h.ability p hp
    obtain ⟨hport', hinfo⟩ := hability p hp portId hport
    exact ⟨portId, hport', by rw [hinfo, hgiven p hp, hblock]⟩

end Published

section Abilities

/-- Publishing an ability changes no more than its tag control information. -/
theorem publishAbility_shown (ability : PortAbility) :
    (publishAbility ability).ope = ability.ope ∧
      (publishAbility ability).vlantag.vid = ability.vlantag.vid ∧
      (publishAbility ability).vlantag.pcp = ability.vlantag.pcp := by
  unfold publishAbility
  split <;> exact ⟨rfl, rfl, rfl⟩

/-- The abilities configured for an attachment show the one that was given to it. -/
theorem AbilitiesFollow.block_configured {L : Limits} {st : AbilityState}
    (h : AbilitiesFollow L st) {id : ℕ} {d : PortRxtx} {port : PortRef} (hd : d.Directed)
    (hin : st.s.Holds L id d port) :
    appendVlanBlock ((st.s.iface port).configured d) = (st.given (id, d, port)).block := by
  unfold appendVlanBlock PortAbility.block
  cases hfind : ((st.s.iface port).configured d).find? fun ability => ability.ope ≠ .none with
  | none =>
    refine (if_pos ?_).symm
    by_contra hgiven
    obtain ⟨cnt, hentry, -⟩ := h.entry_unique id port d hd hin hgiven
    have hmem : publishAbility ((st.s.iface port).ability cnt) ∈
        (st.s.iface port).configured d := by
      refine List.mem_map_of_mem (List.mem_filter.mpr ⟨?_, decide_eq_true hentry.2⟩)
      exact List.mem_map_of_mem (List.mem_finRange cnt)
    have hnone := List.find?_eq_none.mp hfind _ hmem
    rw [(publishAbility_shown _).1] at hnone
    exact hnone (decide_eq_true hentry.1)
  | some shown =>
    have hope : shown.ope ≠ .none := by simpa using List.find?_some hfind
    obtain ⟨ability, hability, rfl⟩ := List.mem_map.mp (List.mem_of_find?_eq_some hfind)
    obtain ⟨hlisted, hrxtx⟩ := List.mem_filter.mp hability
    obtain ⟨cnt, -, rfl⟩ := List.mem_map.mp hlisted
    obtain ⟨hsame, hvid, hpcp⟩ := publishAbility_shown ((st.s.iface port).ability cnt)
    rw [hsame] at hope
    have hgiven := h.entry_eq id port d cnt hd hin ⟨hope, of_decide_eq_true hrxtx⟩
    dsimp only
    rw [hsame, hvid, hpcp, hgiven, if_neg (hgiven ▸ hope)]

end Abilities

section Requests

variable {L : Limits} {M : SppModule} {cfg : Configuration} {st : AbilityState} {s s' t : MngData}

/-- A `classifier_table` command rewrites at most one class id and then flags the component
that transmits on the port. -/
theorem sppUpdateClassifierTable_changes {table : CommandClassifierTable}
    (h : sppUpdateClassifierTable L s table = .ok s') :
    ∃ port classId, ∃ t : MngData,
      (t = s ∨ t = s.setIface port { s.iface port with classId := classId }) ∧
        setComponentChangePort L t port .tx = .ok s' := by
  unfold sppUpdateClassifierTable at h
  obtain ⟨retMac, -, h⟩ := bind_eq_ok.mp h
  split at h
  · cases h
  obtain ⟨entry, -, h⟩ := bind_eq_ok.mp h
  cases entry with
  | none => cases h
  | some port =>
    dsimp only at h
    split at h
    · cases h
    split at h
    · split at h
      · cases h
      split at h
      · cases h
      · exact ⟨port, _, _, .inr rfl, h⟩
    · split at h
      · cases h
      split at h
      · cases h
      obtain ⟨macAddrStr, -, h⟩ := bind_eq_ok.mp h
      exact ⟨port, _, _, .inr rfl, h⟩
    · exact ⟨port, {}, s, .inl rfl, h⟩

/-- The one component that holds a port is flagged when the port is changed. -/
theorem flagged_of_setComponentChangePort (howned : PortsOwned L t) (htyped : PortsTyped L t)
    {id : ℕ} {port : PortRef} {d : PortRxtx} (hin : t.Holds L id d port)
    (h : setComponentChangePort L t port d = .ok s') : s'.changeComponent id = true := by
  obtain ⟨hlt, htype⟩ := htyped.placed id d port hin
  have hentry : getIfaceInfo L (t.iface port).ifaceType (t.iface port).ifaceNo =
      .ok (some port) := by
    rw [htype, htyped.ifaceNo]
    exact getIfaceInfo_index hlt
  unfold setComponentChangePort sppCheckUsedPort at h
  simp only [hentry] at h
  cases hfind : (List.range L.maxLcore).find? fun cnt =>
      (t.component cnt).type ≠ .unuse ∧ port ∈ (t.component cnt).ports d with
  | none =>
    have hnone := List.find?_eq_none.mp hfind id (List.mem_range.mpr hin.1)
    simp [hin.2.1, hin.2.2] at hnone
  | some id' =>
    simp only [hfind, Except.ok.injEq] at h
    have hfound := List.find?_some hfind
    simp only [decide_eq_true_eq] at hfound
    have hmem := List.mem_range.mp (List.mem_of_find?_eq_some hfind)
    obtain rfl := howned.owner_unique id hin.1 id' hmem hin.2.1 hfound.1 d port hin.2.2 hfound.2
    rw [← h]
    simp

variable (L) in
/-- What a request leaves of a component that it does not flag. -/
structure RequestFrame (st st' : AbilityState) (id : ℕ) : Prop where
  flag : st.s.changeComponent id = false
  slot : SlotKept st.s st'.s id
  given : ∀ p ∈ (st.s.component id).portDirections,
    st'.given (id, p.2, p.1) = st.given (id, p.2, p.1)

/-- A component command leaves every other component. -/
theorem requestFrame_component {c : CommandComponent} (hc : sppUpdateComponent L st.s c = .ok s')
    {id : ℕ} (hused : (s'.component id).type ≠ .unuse) (hflag : s'.changeComponent id = false) :
    RequestFrame st ⟨s', st.given⟩ id := by
  cases haction : c.action with
  | start =>
    obtain ⟨-, -, id', -, rfl⟩ := sppUpdateComponent_start c haction hc
    have hne : id ≠ id' := by
      rintro rfl
      simp [startEdit] at hflag
    refine ⟨by simpa [startEdit, hne] using hflag, ⟨?_, fun _ _ => rfl⟩, fun _ _ => rfl⟩
    simp [startEdit_component, hne]
  | stop =>
    obtain ⟨-, rfl⟩ | ⟨id', -, rfl⟩ := sppUpdateComponent_stop c haction hc
    · exact ⟨hflag, .refl _ _, fun _ _ => rfl⟩
    · have hne : id ≠ id' := by
        rintro rfl
        simp [stopEdit_component] at hused
      refine ⟨by simpa [stopEdit, hne] using hflag, ⟨?_, fun _ _ => rfl⟩, fun _ _ => rfl⟩
      simp [stopEdit_component, hne]
  | none | add | del => simp [sppUpdateComponent, haction] at hc

/-- A port command leaves every other component, and the one that it names if it has
nothing to do. -/
theorem requestFrame_port (h : Configured L cfg st) {r : Request} {c : CommandPort}
    (hdecode : sppCommandDecodeRequest L M st.s r.text = .ok (.port c))
    (horder : AbilityInOrder L M r st) (hc : sppUpdatePort L st.s c = .ok s')
    {id : ℕ} (hflag : s'.changeComponent id = false) :
    RequestFrame st ⟨s', recordGiven L M r.text st⟩ id := by
  obtain ⟨args, -, hmin, -, hparams⟩ := decodeRequest_port hdecode
  have hd : c.rxtx.Directed := (portRequest_of_decode hmin hparams).rxtx
  obtain ⟨id', port, hid, hport, hcase⟩ := sppUpdatePort_cases hc
  have hgiven := recordGiven_port hdecode hc hid hport
  -- What a command does that flags the component it names.
  have hother : ∀ {component iface}, s'.component = Function.update st.s.component id' component →
      s'.iface = Function.update st.s.iface port iface →
      iface.classId = (st.s.iface port).classId →
      s'.changeComponent = Function.update st.s.changeComponent id' true →
      RequestFrame st ⟨s', recordGiven L M r.text st⟩ id := by
    intro component iface hcomponent hiface hclass hchange
    have hne : id ≠ id' := by
      rintro rfl
      rw [hchange, Function.update_self] at hflag
      cases hflag
    refine ⟨?_, ⟨?_, fun p _ => ?_⟩, fun p _ => ?_⟩
    · rwa [hchange, Function.update_of_ne hne] at hflag
    · dsimp only
      rw [hcomponent, Function.update_of_ne hne]
    · dsimp only
      rw [hiface]
      by_cases hp : p = port
      · rw [hp, Function.update_self, hclass]
      · rw [Function.update_of_ne hp]
    · dsimp only
      rw [hgiven]
      split
      · simp [hne]
      · rfl
  rcases hcase with ⟨haction, hadd⟩ | ⟨haction, rfl⟩
  · obtain ⟨hcount, hcases⟩ := sppUpdatePortAdd_cases hadd
    rcases hcases with ⟨-, -, cnt, -, rfl⟩ | ⟨hmem, hope, rfl⟩ | ⟨-, -, info, rfl, hinfo⟩
    · exact hother (Function.update_eq_self id' st.s.component).symm rfl rfl rfl
    · refine ⟨hflag, .refl _ _, fun p hp => ?_⟩
      dsimp only
      rw [hgiven, if_pos haction]
      -- The ability that is asked for is the one that the port has.
      have hreattach := horder.reattach c id' port hdecode haction hid hport hcount hmem
      rw [if_neg hope] at hreattach
      obtain ⟨cnt, hentry, hsame⟩ := hreattach
      obtain ⟨hlt, hname, hne⟩ := sppGetComponentId_eq_some hid
      have hused : (st.s.component id').type ≠ .unuse := by
        rw [← h.table.named_iff id' hlt, hname]
        exact hne
      have hold := h.follow.entry_eq id' port c.rxtx cnt hd ⟨hlt, hused, hmem⟩ hentry
      rw [← hsame, hold, Function.update_eq_self]
    · refine hother rfl rfl ?_ rfl
      rcases hinfo with ⟨-, rfl⟩ | ⟨-, cnt, -, rfl⟩ <;> rfl
  · obtain ⟨hlt, hname, hne⟩ := sppGetComponentId_eq_some hid
    have hused : (st.s.component id').type ≠ .unuse := by
      rw [← h.table.named_iff id' hlt, hname]
      exact hne
    have hcomponent := sppUpdatePortDel_component port hd (h.owned.nodup id' hlt hused c.rxtx)
    refine hother hcomponent (sppUpdatePortDel_iface ..) rfl ?_
    unfold sppUpdatePortDel
    dsimp only
    split <;> rfl

/-- A `classifier_table` command leaves every component but the one that transmits on the
port. -/
theorem requestFrame_classifierTable (h : Configured L cfg st) {table : CommandClassifierTable}
    (hc : sppUpdateClassifierTable L st.s table = .ok s') {id : ℕ} (hlt : id < L.maxLcore)
    (hused : (s'.component id).type ≠ .unuse) (hflag : s'.changeComponent id = false) :
    RequestFrame st ⟨s', st.given⟩ id := by
  obtain ⟨port, classId, t, ht, hchange⟩ := sppUpdateClassifierTable_changes hc
  have hcomponent : t.component = st.s.component := by
    rcases ht with rfl | rfl <;> rfl
  have hflags : t.changeComponent = st.s.changeComponent := by
    rcases ht with rfl | rfl <;> rfl
  have hiface : ∀ p, p ≠ port → t.iface p = st.s.iface p := fun p hp => by
    rcases ht with rfl | rfl
    · rfl
    · simp [hp]
  have htypes : ∀ p, (t.iface p).ifaceNo = (st.s.iface p).ifaceNo ∧
      (t.iface p).ifaceType = (st.s.iface p).ifaceType := fun p => by
    rcases ht with rfl | rfl
    · exact ⟨rfl, rfl⟩
    · by_cases hp : p = port
      · subst hp
        simp
      · simp [hp]
  have hholds : ∀ id d p, t.Holds L id d p ↔ st.s.Holds L id d p := fun id d p => by
    unfold MngData.Holds
    rw [hcomponent]
  have htyped : PortsTyped L t := h.typed.of (fun p => (htypes p).1) (fun p => .inl (htypes p).2)
    fun id d p hin => .inl ((hholds id d p).mp hin)
  have hafter : s'.component = t.component ∧ s'.iface = t.iface ∧
      (s'.changeComponent id = false → t.changeComponent id = false) := by
    rcases setComponentChangePort_cases hchange with rfl | ⟨id', -, -, rfl⟩
    · exact ⟨rfl, rfl, fun hfalse => hfalse⟩
    · refine ⟨rfl, rfl, fun hfalse => ?_⟩
      by_cases heq : id = id'
      · simp [heq] at hfalse
      · simpa [heq] using hfalse
  refine ⟨?_, ⟨?_, fun p hp => ?_⟩, fun _ _ => rfl⟩
  · rw [← hflags]
    exact hafter.2.2 hflag
  · exact congrFun (hafter.1.trans hcomponent) id
  · dsimp only
    rw [hafter.2.1]
    by_cases heq : p = port
    · subst heq
      have hin : t.Holds L id .tx p := by
        refine ⟨hlt, ?_, ?_⟩
        · rwa [hafter.1] at hused
        · rw [hcomponent]
          exact hp
      rw [flagged_of_setComponentChangePort (h.owned.congr hcomponent) htyped hin hchange] at hflag
      cases hflag
    · rw [hiface p heq]

/-- An accepted request leaves every component that it does not flag. -/
theorem requestFrame (h : Configured L cfg st) {r : Request} {command : SppCommand}
    (hdecode : sppCommandDecodeRequest L M st.s r.text = .ok command)
    (horder : ConfigOrder L M r st) (hupdate : updateCommand L st.s command = some (.ok s'))
    {id : ℕ} (hlt : id < L.maxLcore) (hused : (s'.component id).type ≠ .unuse)
    (hflag : s'.changeComponent id = false) :
    RequestFrame st ⟨s', recordGiven L M r.text st⟩ id := by
  rcases updateCommand_cases hupdate with ⟨c, rfl, hc⟩ | ⟨c, rfl, hc⟩ | ⟨c, htable, hc⟩
  · rw [recordGiven_of_not_port hdecode (by simp)]
    exact requestFrame_component hc hused hflag
  · exact requestFrame_port h hdecode horder.ability hc hflag
  · rw [recordGiven_of_not_port hdecode (by rcases htable with rfl | rfl <;> simp)]
    exact requestFrame_classifierTable h hc hlt hused hflag

end Requests

end Spp.Vf
