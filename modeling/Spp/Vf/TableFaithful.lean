import Spp.Vf.StatusFaithful

/-!
# What the reply shows of the classifier tables

The array `classifier_table` is read from the hash tables of the areas. An iteration of
a table visits the addresses that a look up finds, each once, so the elements of a
published classifier are those that the class ids of its transmit ports ask for.
-/

namespace Spp.Vf

open CLib GuardedRun

variable {τ ρ : Type} {P : SppProcess} {hash : RteHashTable τ} {rt rt' : Runtime τ ρ}

section Visits

variable {tab tab' : τ} {key data : ℕ}

/-- An iteration of a table visits what a look up finds, and no key twice. -/
structure RteHashTable.Visits (hash : RteHashTable τ) (tab : τ) : Prop where
  nodup : ((hash.iterate tab).map Prod.fst).Nodup
  mem_iff : ∀ key data, (key, data) ∈ hash.iterate tab ↔ hash.lookupData tab key = some data

theorem RteHashTable.visits_create (hash : RteHashTable τ) : hash.Visits hash.create := by
  refine ⟨?_, fun key data => ?_⟩
  · rw [hash.iterate_create]
    exact List.nodup_nil
  · rw [hash.iterate_create, hash.lookup_create]
    simp

/-- A key that is added replaces its former entry. -/
theorem RteHashTable.Visits.add (h : hash.Visits tab)
    (hadd : hash.addKeyData tab key data = some tab') : hash.Visits tab' := by
  have hperm := hash.iterate_add hadd
  refine ⟨?_, fun key' data' => ?_⟩
  · rw [(hperm.map Prod.fst).nodup_iff, List.map_cons, List.nodup_cons]
    refine ⟨fun hmem => ?_, ?_⟩
    · obtain ⟨entry, hentry, hkey⟩ := List.mem_map.mp hmem
      exact of_decide_eq_true (List.mem_filter.mp hentry).2 hkey
    · exact h.nodup.sublist ((List.filter_sublist).map Prod.fst)
  · rw [hperm.mem_iff, List.mem_cons, List.mem_filter, h.mem_iff, hash.lookup_add hadd]
    by_cases hkey : key' = key
    · simp [hkey, eq_comm]
    · simp [hkey]

/-- Every table of an area can be iterated so. -/
def CmpInfo.Visited (hash : RteHashTable τ) (cmpInfo : CmpInfo τ) : Prop :=
  ∀ vid macCls, cmpInfo.macClassifications vid = some macCls →
    hash.Visits macCls.classificationTab

variable {cmpInfo other : CmpInfo τ}

/-- The tables are all that counts. -/
theorem CmpInfo.Visited.congr (h : cmpInfo.Visited hash)
    (heq : other.macClassifications = cmpInfo.macClassifications) : other.Visited hash := by
  unfold CmpInfo.Visited
  rw [heq]
  exact h

/-- One classification is replaced. -/
theorem CmpInfo.Visited.setMac (h : cmpInfo.Visited hash) {macCls : MacClassification τ} {vid : ℕ}
    (heq : other.macClassifications =
      Function.update cmpInfo.macClassifications vid (some macCls))
    (hvisits : hash.Visits macCls.classificationTab) : other.Visited hash := by
  intro vid' macCls' hcls
  rw [heq] at hcls
  by_cases hvid : vid' = vid
  · rw [hvid, Function.update_self] at hcls
    obtain rfl := Option.some.inj hcls
    exact hvisits
  · rw [Function.update_of_ne hvid] at hcls
    exact h vid' macCls' hcls

/-- The classification that a port is added to. -/
theorem CmpInfo.Visited.macClassification (h : cmpInfo.Visited hash) {memory : Bool} {vid : ℕ}
    {macCls : MacClassification τ}
    (hcls : macClassification hash.toRteHash memory cmpInfo vid = some macCls) :
    hash.Visits macCls.classificationTab := by
  unfold Spp.Vf.macClassification at hcls
  split at hcls
  · rename_i macCls₀ hold
    obtain rfl := Option.some.inj hcls
    exact h vid _ hold
  · split at hcls
    · obtain rfl := Option.some.inj hcls
      exact hash.visits_create
    · cases hcls

/-- One iteration of `init_component_info`, also one that fails. -/
theorem CmpInfo.Visited.initTxPort (h : cmpInfo.Visited hash) (memory : Bool) (i : ℕ)
    (txPort : PortInfo) : (initTxPort hash.toRteHash memory i txPort cmpInfo).2.Visited hash := by
  unfold Spp.Vf.initTxPort
  dsimp only
  split
  · exact h.congr rfl
  · split
    · exact h.congr rfl
    · rename_i macCls hcls
      have hvisits : hash.Visits macCls.classificationTab := by
        refine CmpInfo.Visited.macClassification (CmpInfo.Visited.congr h ?_) hcls
        rfl
      split
      · exact h.setMac rfl hvisits
      · split
        · exact h.setMac rfl hvisits
        · rename_i tab hadd
          exact h.setMac rfl (hvisits.add hadd)

/-- The loop of `init_component_info`. -/
theorem CmpInfo.Visited.initTxPorts (h : cmpInfo.Visited hash) (memory : ℕ → Bool) (i : ℕ)
    (txPorts : List PortInfo) :
    (initTxPorts hash.toRteHash memory i txPorts cmpInfo).2.Visited hash := by
  induction txPorts generalizing i cmpInfo with
  | nil => exact h
  | cons txPort txPorts ih =>
    have hstep := h.initTxPort (memory i) i txPort
    unfold Spp.Vf.initTxPorts
    split <;> rename_i cmpInfo' hinit <;> rw [hinit] at hstep
    · exact hstep
    · exact ih hstep (i + 1)

theorem CmpInfo.Visited.initComponentInfo (h : cmpInfo.Visited hash) (memory : ℕ → Bool)
    (iface : PortRef → PortInfo) (component : ComponentInfo) :
    (initComponentInfo hash.toRteHash memory iface component cmpInfo).2.Visited hash := by
  unfold Spp.Vf.initComponentInfo
  refine CmpInfo.Visited.initTxPorts (CmpInfo.Visited.congr h ?_) memory 0 _
  rfl

end Visits

section Areas

/-- The tables of both areas of every slot can be iterated. -/
def AreasVisited (hash : RteHashTable τ) (rt : Runtime τ ρ) : Prop :=
  ∀ id area, ((rt.mngInfos id).cmpInfos area).Visited hash

theorem AreasVisited.congr (h : AreasVisited hash rt)
    (hkept : ∀ id, (rt'.mngInfos id).cmpInfos = (rt.mngInfos id).cmpInfos) :
    AreasVisited hash rt' := by
  intro id area
  rw [hkept]
  exact h id area

/-- One area of a slot is replaced. -/
theorem AreasVisited.setArea (h : AreasVisited hash rt) {id : ℕ} {area : Fin 2}
    {cmpInfo : CmpInfo τ} {m : ManagementInfo τ ρ}
    (hset : rt'.mngInfos = Function.update rt.mngInfos id m)
    (hm : m.cmpInfos = Function.update (rt.mngInfos id).cmpInfos area cmpInfo)
    (hvisited : cmpInfo.Visited hash) : AreasVisited hash rt' := by
  intro id' area'
  rw [hset]
  by_cases hid : id' = id
  · subst hid
    rw [Function.update_self, hm]
    by_cases harea : area' = area
    · rwa [harea, Function.update_self]
    · rw [Function.update_of_ne harea]
      exact h id' area'
  · rw [Function.update_of_ne hid]
    exact h id' area'

/-- The update of a classifier, also one that fails. -/
theorem AreasVisited.buildClassifier (h : AreasVisited hash rt) (memory : ℕ → Bool) (id : ℕ) :
    AreasVisited hash (rt.buildClassifier hash.toRteHash memory id) := by
  have hmade : (rt.initArea hash.toRteHash memory id).2.Visited hash :=
    (h id _).initComponentInfo memory rt.flush.s.iface (rt.flush.s.component id)
  refine h.setArea rfl rfl ?_
  split
  · exact hmade.congr rfl
  · exact hmade

/-- A step of `flush_component`. -/
theorem AreasVisited.componentStep (h : AreasVisited hash rt) {memory : ℕ → Bool}
    (hstep : ComponentStep P hash.toRteHash memory rt rt') : AreasVisited hash rt' := by
  cases hstep with
  | buildClassifier hm htarget hmade => exact h.buildClassifier memory _
  | failClassifier hm htarget hmade => exact h.buildClassifier memory _
  | storeClassifier hm htarget =>
    exact h.setArea rfl (Function.update_eq_self 0 _).symm (h _ 0)
  | uninit hm htarget hindex =>
    exact h.setArea rfl rfl fun vid macCls hcls => by cases hcls
  | finish | next | set | buildPath | failPath | publish | storePath | spin | taken | updated =>
    exact h

/-- Every step of the process. -/
theorem AreasVisited.step (h : AreasVisited hash rt) {e : RuntimeEvent ρ}
    (hstep : runtimeStep P hash e rt = some rt') : AreasVisited hash rt' := by
  cases e with
  | request r =>
    obtain ⟨ret, hpc, ⟨ret', replies, rfl⟩ | ⟨command, s', hdecode, hupdate, rfl⟩⟩ :=
      processRequest_step hstep <;> exact h
  | manager memory =>
    cases managerStep_cases hstep with
    | failPort | publishCores | copyBack | spin => exact h
    | component hpc hcomponent => exact h.componentStep hcomponent
  | takeCore l =>
    obtain ⟨-, rfl⟩ := takeCore_cases hstep
    exact h
  | run l cnt call =>
    obtain ⟨-, -, hbuffers, -⟩ := run_effect hstep
    exact h.congr fun id => (hbuffers id).cmpInfos

/-- In every run the tables can be iterated. -/
theorem areasVisited_of_reaches {numNic mainLcore : ℕ} {x : ConfiguredProcess τ ρ}
    {guard : RuntimeEvent ρ → ConfiguredProcess τ ρ → Prop}
    (h : Reaches (configStep P hash) guard (.initial P numNic mainLcore) x) :
    AreasVisited hash x.rt := by
  have hinitial : AreasVisited hash (.initial P numNic mainLcore : ConfiguredProcess τ ρ).rt :=
    fun id area vid macCls hcls => by cases hcls
  have hstep : ∀ (e : RuntimeEvent ρ) (x y : ConfiguredProcess τ ρ), AreasVisited hash x.rt →
      guard e x → configStep P hash e x = some y → AreasVisited hash y.rt := by
    intro e x y hinv _ hstep
    obtain ⟨rt', hrt, rfl⟩ := Option.map_eq_some_iff.mp hstep
    exact hinv.step hrt
  exact h.invariant hinitial hstep

end Areas

section Elements

variable {ports : List PortInfo} {clsdData : ℕ → ClassifiedData} {cmpInfo : CmpInfo τ}
  {element : ClassifierElement}

/-- The transmit port that is registered last for an address of a VLAN, or as its default. -/
def registeredFor (ports : List PortInfo) (vid : ℕ) : Option ℕ → Option ℕ
  | none => defaultOf ports vid
  | some dAddr => (positions (isEntry vid dAddr) ports).getLast?

/-- What an element is for. -/
def ClassifierElement.key (element : ClassifierElement) : ℕ × Option ℕ :=
  (element.vid, element.mac)

/-- The type of the elements of a VLAN. -/
def classifierType (vid : ℕ) : ClassifierType := if vid = vlanUntaggedVid then .mac else .vlan

/-- The elements of a classification are the ports that are registered with its VLAN. -/
theorem mem_macClassificationIterateTable {vid : ℕ} {macCls : MacClassification τ}
    (h : macCls.Holds hash.toRteHash ports vid) (hvisits : hash.Visits macCls.classificationTab) :
    element ∈ macClassificationIterateTable hash clsdData vid macCls ↔
      element.vid = vid ∧ element.type = classifierType vid ∧
        ∃ i, registeredFor ports vid element.mac = some i ∧
          element.port = (clsdData i).portIndex := by
  unfold macClassificationIterateTable
  rw [List.mem_append]
  obtain ⟨type, vid', mac, port⟩ := element
  constructor
  · rintro (hdefault | hentry)
    · rw [h.default] at hdefault
      cases hreg : defaultOf ports vid with
      | none => simp [hreg] at hdefault
      | some i =>
        simp only [hreg, Option.elim_some, Int.natCast_nonneg, if_true, Int.toNat_natCast,
          List.mem_singleton, ClassifierElement.mk.injEq] at hdefault
        obtain ⟨rfl, rfl, rfl, rfl⟩ := hdefault
        exact ⟨rfl, rfl, i, hreg, rfl⟩
    · obtain ⟨⟨key, i⟩, hvisited, helement⟩ := List.mem_map.mp hentry
      rw [hvisits.mem_iff, h.lookup] at hvisited
      cases helement
      exact ⟨rfl, rfl, i, hvisited, rfl⟩
  · rintro ⟨hvid, htype, i, hreg, hport⟩
    dsimp only at hvid htype hreg hport
    subst hvid htype hport
    cases mac with
    | none =>
      left
      have hdefault : defaultOf ports vid' = some i := hreg
      simp [h.default, hdefault, classifierType]
    | some key =>
      right
      refine List.mem_map.mpr ⟨(key, i), ?_, rfl⟩
      rw [hvisits.mem_iff, h.lookup]
      exact hreg

/-- A classification gives no key twice. -/
theorem nodup_macClassificationIterateTable {vid : ℕ} {macCls : MacClassification τ}
    (hvisits : hash.Visits macCls.classificationTab) :
    ((macClassificationIterateTable hash clsdData vid macCls).map
      ClassifierElement.key).Nodup := by
  unfold macClassificationIterateTable
  dsimp only
  rw [List.map_append, List.map_map]
  have hentries : ((hash.iterate macCls.classificationTab).map fun entry =>
      ((vid, some entry.1) : ℕ × Option ℕ)).Nodup := by
    have hkeys := hvisits.nodup.map (f := fun key => ((vid, some key) : ℕ × Option ℕ))
      fun a b hab => by simpa using hab
    rwa [List.map_map] at hkeys
  refine List.nodup_append.mpr ⟨?_, hentries, ?_⟩
  · split <;> simp
  · intro a ha b hb hab
    obtain ⟨entry, -, rfl⟩ := List.mem_map.mp hb
    split at ha
    · simp [ClassifierElement.key, hab] at ha
    · cases ha

/-- The elements of a classification are those of its VLAN. -/
theorem vid_of_mem {vid : ℕ} {macCls : MacClassification τ}
    (h : element ∈ macClassificationIterateTable hash clsdData vid macCls) :
    element.vid = vid := by
  rcases List.mem_append.mp h with hdefault | hentry
  · split at hdefault
    · rw [List.mem_singleton.mp hdefault]
    · cases hdefault
  · obtain ⟨entry, -, rfl⟩ := List.mem_map.mp hentry
    rfl

/-- The elements of a VLAN in an area. -/
def CmpInfo.vlanElements (hash : RteHashTable τ) (cmpInfo : CmpInfo τ) (vid : ℕ) :
    List ClassifierElement :=
  match cmpInfo.macClassifications vid with
  | none => []
  | some macCls => macClassificationIterateTable hash cmpInfo.classifiedDataTx vid macCls

theorem iterateCmpInfo_eq (hash : RteHashTable τ) (cmpInfo : CmpInfo τ) :
    iterateCmpInfo hash cmpInfo =
      (List.range sppNumVlanVid).flatMap (cmpInfo.vlanElements hash) := rfl

/-- They are the ports that are registered with it. -/
theorem mem_vlanElements (h : cmpInfo.Holds hash.toRteHash ports)
    (hvisited : cmpInfo.Visited hash) (vid : ℕ) :
    element ∈ cmpInfo.vlanElements hash vid ↔
      element.vid = vid ∧ element.type = classifierType vid ∧
        ∃ i, registeredFor ports vid element.mac = some i ∧
          element.port = (cmpInfo.classifiedDataTx i).portIndex := by
  unfold CmpInfo.vlanElements
  cases hcls : cmpInfo.macClassifications vid with
  | none =>
    obtain ⟨hentry, hdefault⟩ := entries_eq_nil ((h.none_iff vid).mp hcls)
    have hnone : registeredFor ports vid element.mac = none := by
      cases element.mac with
      | none => exact hdefault
      | some key => simp [registeredFor, hentry]
    simp [hnone]
  | some macCls =>
    exact mem_macClassificationIterateTable (h.table vid macCls hcls) (hvisited vid macCls hcls)

/-- The elements of an area are the ports that are registered. -/
theorem mem_iterateCmpInfo (h : cmpInfo.Holds hash.toRteHash ports)
    (hvisited : cmpInfo.Visited hash) :
    element ∈ iterateCmpInfo hash cmpInfo ↔
      element.vid < sppNumVlanVid ∧ element.type = classifierType element.vid ∧
        ∃ i, registeredFor ports element.vid element.mac = some i ∧
          element.port = (cmpInfo.classifiedDataTx i).portIndex := by
  rw [iterateCmpInfo_eq, List.mem_flatMap]
  constructor
  · rintro ⟨vid, hvid, helement⟩
    obtain ⟨rfl, hrest⟩ := (mem_vlanElements h hvisited vid).mp helement
    exact ⟨List.mem_range.mp hvid, hrest⟩
  · rintro ⟨hlt, hrest⟩
    exact ⟨element.vid, List.mem_range.mpr hlt, (mem_vlanElements h hvisited _).mpr ⟨rfl, hrest⟩⟩

/-- An area gives no key twice. -/
theorem nodup_iterateCmpInfo (hvisited : cmpInfo.Visited hash) :
    ((iterateCmpInfo hash cmpInfo).map ClassifierElement.key).Nodup := by
  rw [iterateCmpInfo_eq, List.map_flatMap, List.nodup_flatMap]
  constructor
  · intro vid _
    unfold CmpInfo.vlanElements
    cases hcls : cmpInfo.macClassifications vid with
    | none => exact List.nodup_nil
    | some macCls => exact nodup_macClassificationIterateTable (hvisited vid macCls hcls)
  · have hvid : ∀ {vid : ℕ} {key : ℕ × Option ℕ},
        key ∈ (cmpInfo.vlanElements hash vid).map ClassifierElement.key → key.1 = vid := by
      intro vid key hkey
      obtain ⟨element, helement, rfl⟩ := List.mem_map.mp hkey
      unfold CmpInfo.vlanElements at helement
      split at helement
      · cases helement
      · exact vid_of_mem helement
    refine List.nodup_range.imp fun hne key hkey hkey' => hne ?_
    rw [← hvid hkey, hvid hkey']

end Elements

section Reply

variable {numNic : ℕ} {x y : ConfiguredProcess τ ρ}

/-- An element that the class ids of the transmit ports of a component ask for. -/
structure TableElement (s : MngData) (component : ComponentInfo) (element : ClassifierElement) :
    Prop where
  vid : element.vid < sppNumVlanVid
  type : element.type = classifierType element.vid
  port : ∃ i port,
    registeredFor (component.txPorts.map s.iface) element.vid element.mac = some i ∧
      component.txPorts[i]? = some port ∧ element.port = port.index

/-- A position of a port is one of the list. -/
theorem lt_of_registeredFor {ports : List PortInfo} {vid : ℕ} {mac : Option ℕ} {i : ℕ}
    (h : registeredFor ports vid mac = some i) : i < ports.length := by
  have hmem : ∀ p : PortInfo → Bool, (positions p ports).getLast? = some i → i < ports.length :=
    fun p hp => List.mem_range.mp (List.mem_filter.mp (List.mem_of_getLast? hp)).1
  cases mac with
  | none => exact hmem _ h
  | some dAddr => exact hmem _ h

/-- A published classifier gives the elements that its transmit ports ask for. -/
theorem Published.mem_iterateCmpInfo {id : ℕ} (h : Published P hash.toRteHash rt id)
    (htarget : updateTarget P.M rt.flush.s id = .classifier id) (hvisited : AreasVisited hash rt)
    (element : ClassifierElement) :
    element ∈ iterateCmpInfo hash (rt.refCmpInfo id) ↔
      TableElement rt.flush.s (rt.flush.s.component id) element := by
  obtain ⟨hshown, hrules⟩ := h.area
  have hholds : (rt.refCmpInfo id).Holds hash.toRteHash
      ((rt.flush.s.component id).txPorts.map rt.flush.s.iface) := by
    have hrules' := hrules htarget
    rwa [htarget] at hrules'
  rw [htarget] at hshown
  have hindex : (List.range (rt.refCmpInfo id).nClassifiedDataTx).map
        (fun i => ((rt.refCmpInfo id).classifiedDataTx i).portIndex) =
      (rt.flush.s.component id).txPorts.map PortRef.index := congrArg Vf.Shown.txPort hshown
  have hlength : (rt.refCmpInfo id).nClassifiedDataTx =
      (rt.flush.s.component id).txPorts.length := by
    simpa using congrArg List.length hindex
  have hport : ∀ i port, (rt.flush.s.component id).txPorts[i]? = some port →
      ((rt.refCmpInfo id).classifiedDataTx i).portIndex = port.index := by
    intro i port hget
    obtain ⟨hlt, rfl⟩ := List.getElem?_eq_some_iff.mp hget
    have hthis := congrArg (fun l => l[i]?) hindex
    simpa [hlength, hlt] using hthis
  rw [Vf.mem_iterateCmpInfo hholds (hvisited id _)]
  constructor
  · rintro ⟨hvid, htype, i, hreg, hindex'⟩
    have hlt : i < (rt.flush.s.component id).txPorts.length := by
      simpa using lt_of_registeredFor hreg
    have hget := List.getElem?_eq_getElem hlt
    exact ⟨hvid, htype, i, _, hreg, hget, hindex'.trans (hport i _ hget)⟩
  · rintro ⟨hvid, htype, i, port, hreg, hget, hindex'⟩
    exact ⟨hvid, htype, i, hreg, hindex'.trans (hport i port hget).symm⟩

/-- A port that is registered for an address gets the frames to it. -/
theorem destinations_of_address {ports : List PortInfo} {vid dAddr i : ℕ}
    (h : registeredFor ports vid (some dAddr) = some i) : destinations ports vid dAddr = [i] := by
  have hentry : (positions (isEntry vid dAddr) ports).getLast? = some i := h
  unfold destinations
  rw [hentry]

/-- The default gets the frames to all other addresses but group addresses. -/
theorem destinations_of_default {ports : List PortInfo} {vid dAddr i : ℕ}
    (h : registeredFor ports vid none = some i)
    (hnone : registeredFor ports vid (some dAddr) = none)
    (heven : dAddr % 2 = 0) : destinations ports vid dAddr = [i] := by
  have hdefault : defaultOf ports vid = some i := h
  have hentry : (positions (isEntry vid dAddr) ports).getLast? = none := hnone
  have hregistered : positions (isRegistered vid) ports ≠ [] := by
    intro hempty
    rw [(entries_eq_nil hempty).2] at hdefault
    cases hdefault
  unfold destinations
  rw [hentry]
  dsimp only
  rw [if_neg hregistered, if_neg (by omega), hdefault]
  rfl

/-- A frame is one for an element: it is sent to the address of the element, or to an
address without an element while this one is the default. -/
def ClassifierElement.IsFor (element : ClassifierElement) (elements : List ClassifierElement)
    (pkt : Frame ρ) : Prop :=
  element.vid = getVid pkt ∧
    (element.mac = some pkt.dAddr ∨
      element.mac = none ∧ pkt.dAddr % 2 = 0 ∧
        (getVid pkt, some pkt.dAddr) ∉ elements.map ClassifierElement.key)

/-- A frame is delivered to the port of its element. -/
theorem TableElement.destinations {s : MngData} {component : ComponentInfo}
    {element : ClassifierElement} (h : TableElement s component element)
    {elements : List ClassifierElement}
    (hmem : ∀ element, element ∈ elements ↔ TableElement s component element) {pkt : Frame ρ}
    (hpkt : element.IsFor elements pkt) :
    ∃ i port, destinations (component.txPorts.map s.iface) (getVid pkt) pkt.dAddr = [i] ∧
      component.txPorts[i]? = some port ∧ element.port = port.index := by
  obtain ⟨i, port, hreg, hget, hport⟩ := h.port
  obtain ⟨hvid, haddr | ⟨hdefault, heven, hnone⟩⟩ := hpkt
  · rw [hvid, haddr] at hreg
    exact ⟨i, port, destinations_of_address hreg, hget, hport⟩
  · rw [hvid, hdefault] at hreg
    refine ⟨i, port, destinations_of_default hreg ?_ heven, hget, hport⟩
    by_contra hsome
    obtain ⟨j, hj⟩ := Option.ne_none_iff_exists'.mp hsome
    have hlt : j < component.txPorts.length := by simpa using lt_of_registeredFor hj
    have hvlan : getVid pkt < sppNumVlanVid := hvid ▸ h.vid
    have helement : (⟨classifierType (getVid pkt), getVid pkt, some pkt.dAddr,
        (component.txPorts[j]).index⟩ : ClassifierElement) ∈ elements :=
      (hmem _).mpr ⟨hvlan, rfl, j, _, hj, List.getElem?_eq_getElem hlt, rfl⟩
    exact hnone (List.mem_map_of_mem helement)

/-- The elements of one slot in the array. -/
def Runtime.tableElements (hash : RteHashTable τ) (rt : Runtime τ ρ) (id : ℕ) :
    List ClassifierElement :=
  if (rt.mngInfos id).isUsed then iterateCmpInfo hash (rt.refCmpInfo id) else []

/-- The elements are appended as they are. -/
theorem mapM_appendClassifierElementValue {elements table : List ClassifierElement}
    (h : elements.mapM appendClassifierElementValue = .ok table) : table = elements := by
  induction elements generalizing table with
  | nil =>
    cases h
    rfl
  | cons element elements ih =>
    rw [List.mapM_cons] at h
    obtain ⟨first, hfirst, h⟩ := bind_eq_ok.mp h
    obtain ⟨rest, hrest, h⟩ := bind_eq_ok.mp h
    cases h
    rw [ih hrest]
    congr 1
    unfold appendClassifierElementValue at hfirst
    cases hformat : sppFormatPortString element.port with
    | error stop => simp [hformat, Except.map] at hfirst
    | ok port =>
      have hsame : port = element.port := by
        unfold sppFormatPortString at hformat
        split at hformat <;> cases hformat <;> rfl
      rw [hformat, hsame] at hfirst
      cases hfirst
      rfl

/-- The array has the elements of the slots, one slot after the other. -/
theorem classifierTable_of_appendInfoValue (hM : P.M = .vf) {info : StatusInfo}
    (h : appendInfoValue P hash rt = .ok info) :
    info.classifierTable = some ((List.range P.L.maxLcore).flatMap (rt.tableElements hash)) := by
  unfold appendInfoValue at h
  obtain ⟨core, -, h⟩ := bind_eq_ok.mp h
  rw [hM] at h
  obtain ⟨table, htable, h⟩ := bind_eq_ok.mp h
  cases hiterate : sppClassifierMacIterateTable P hash rt with
  | error stop => simp [hiterate, Except.map] at htable
  | ok elements =>
    rw [hiterate] at htable
    cases htable
    cases h
    rw [mapM_appendClassifierElementValue hiterate]
    rfl

/-- In every run, in whatever order manager and workers have made their steps, the array
`classifier_table` of the reply to a `status` request that is processed while no change is
pending has a part for every classifier: an element for each address of each VLAN, and for
each default, that its transmit ports are registered for, with the port that is registered
last, and no second one. What is shown is what the worker does: a frame is delivered to
the port of its element. Slots that no classifier uses any longer may have parts, too. -/
theorem classifierTable_of_reaches {mainLcore : ℕ} (hM : P.M = .vf)
    (h : Reaches (configStep P hash) (PublishesInOrder P hash numNic)
      (.initial P numNic mainLcore) x) (hquiet : Quiet P x.rt) {r : Request}
    (hdecode : sppCommandDecodeRequest P.L P.M x.rt.flush.s r.text = .ok .status)
    (hstep : configStep P hash (.request r) x = some y) :
    ∃ (info : StatusInfo) (part : ℕ → List ClassifierElement),
      y.rt.replies = x.rt.replies ++ [{ results := [.success], info := some info }] ∧
        info.classifierTable = some ((List.range P.L.maxLcore).flatMap part) ∧
        ∀ id < P.L.maxLcore, (x.rt.flush.s.component id).type = .classifierMac →
          let component := x.rt.flush.s.component id
          ((part id).map ClassifierElement.key).Nodup ∧
            (∀ element, element ∈ part id ↔ TableElement x.rt.flush.s component element) ∧
            ∀ element ∈ part id, ∀ pkt : Frame ρ, element.IsFor (part id) pkt →
              ∃ i port, (classifyPacket hash.toRteHash pkt (x.rt.refCmpInfo id)).pushes = [i] ∧
                component.txPorts[i]? = some port ∧ element.port = port.index := by
  have hpublishing := publishing_of_reaches h
  have hvisited := areasVisited_of_reaches h
  obtain ⟨ret, hpc⟩ := hquiet.idle
  obtain ⟨-, info, hinfo, -, hreplies⟩ := status_reply
    (hpublishing.sppIterateCoreInfo (coresRun_of_reaches h) hquiet) hpc hdecode hstep
  refine ⟨info, x.rt.tableElements hash, hreplies, classifierTable_of_appendInfoValue hM hinfo,
    fun id hlt htype => ?_⟩
  have htarget : updateTarget P.M x.rt.flush.s id = .classifier id := by
    simp [updateTarget, hM, htype]
  have hpublished := hpublishing.inStep.published id hlt (by simp [htype])
    (not_due_of_flag (by simp [hpc]) (hquiet.component id hlt))
  have hmem := hpublished.mem_iterateCmpInfo htarget hvisited
  have hrules := hpublished.area.rules htarget
  rw [htarget] at hrules
  unfold Runtime.tableElements
  rw [if_pos (hpublished.used htarget)]
  refine ⟨nodup_iterateCmpInfo (hvisited id _), hmem, fun element helement pkt hpkt => ?_⟩
  obtain ⟨i, port, hdestinations, hport⟩ := ((hmem element).mp helement).destinations hmem hpkt
  exact ⟨i, port, (hrules.classifyPacket pkt).1.trans hdestinations, hport⟩

/-- The reply shows the entry of the classifier with its port. -/
theorem classifierTable_startClassifier :
    ∃ (x y : ConfiguredProcess (List (ℕ × ℕ)) ℕ) (info : StatusInfo)
        (table : List ClassifierElement),
      configStep oneSlave assocHashTable (.request (.ofString "status")) x = some y ∧
        y.rt.replies = x.rt.replies ++ [{ results := [.success], info := some info }] ∧
        info.classifierTable = some table ∧
        ⟨.mac, vlanUntaggedVid, some 0x554433221100, ⟨.phy, 0⟩⟩ ∈ table := by
  obtain ⟨x, hrun, hpc, hcomponent, hcore, hdecode, htype, htx, hreg, hsome⟩ : ∃ x, runAll
      (tested (configStep oneSlave assocHashTable) (publishesTest oneSlave assocHashTable 1))
      startClassifier (.initial oneSlave 1 0) = some x ∧ x.rt.pc = .idle .ok ∧
        (∀ id < oneSlave.L.maxLcore, x.rt.flush.s.changeComponent id = false) ∧
        (∀ l < oneSlave.L.maxLcore, x.rt.flush.s.changeCore l = false) ∧
        sppCommandDecodeRequest oneSlave.L oneSlave.M x.rt.flush.s "status".toList = .ok .status ∧
        (x.rt.flush.s.component 0).type = .classifierMac ∧
        (x.rt.flush.s.component 0).txPorts[0]? = some ⟨.nic, 0⟩ ∧
        registeredFor ((x.rt.flush.s.component 0).txPorts.map x.rt.flush.s.iface)
          vlanUntaggedVid (some 0x554433221100) = some 0 ∧
        (configStep oneSlave assocHashTable (.request (.ofString "status")) x).isSome = true :=
    exists_of_runAll (by decide +kernel)
  have hreaches := reaches_of_texts ["component start c1 1 classifier_mac",
    "port add phy:0 tx c1", "classifier_table add mac 00:11:22:33:44:55 phy:0"] hrun rfl
  obtain ⟨y, hstep⟩ := Option.isSome_iff_exists.mp hsome
  obtain ⟨info, part, hreplies, htable, hpart⟩ :=
    classifierTable_of_reaches rfl hreaches ⟨⟨.ok, hpc⟩, hcomponent, hcore⟩ hdecode hstep
  refine ⟨x, y, info, _, hstep, hreplies, htable, List.mem_flatMap.mpr ⟨0, by decide, ?_⟩⟩
  exact ((hpart 0 (by decide) htype).2.1 _).mpr ⟨by decide, rfl, 0, _, hreg, htx, rfl⟩

end Reply

end Spp.Vf
