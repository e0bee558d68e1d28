import Spp.Lib.Roster
import Spp.Vf.AbilityTable
import Spp.Vf.ComponentTable
import Spp.Vf.EntryRuns
import Spp.Vf.PortDevice
import Spp.Vf.Runtime

/-!
# The configuration that requests describe

What a user of the commands has in mind: a list of components in the order of their
start, each with its name, type, core and ports, and every port with the VLAN operation
it was attached with last. The tables of spp_vf keep it in slots, core lists and ability
arrays. Every accepted request changes both in the same way.
-/

namespace Spp.Vf

open CLib

section Members

/-- The operation of an ability as a reply shows it. -/
def PortAbility.block (ability : PortAbility) : VlanBlock :=
  if ability.ope = .none then ⟨.none, 0, 0⟩
  else ⟨ability.ope, ability.vlantag.vid, ability.vlantag.pcp⟩

/-- A component with its attached ports, in the order in which they were attached. -/
structure Member where
  name : CStr
  type : ComponentType
  core : ℕ
  rxPort : List PortBlock
  txPort : List PortBlock
  deriving DecidableEq, Repr

/-- The components in the order of their start. -/
abbrev Configuration := List Member

/-- A port is attached, or gets another operation if it is attached already. -/
def attachBlock (block : PortBlock) (blocks : List PortBlock) : List PortBlock :=
  if block.port ∈ blocks.map PortBlock.port then
    blocks.map fun b => if b.port = block.port then block else b
  else blocks ++ [block]

/-- A port is detached. -/
def detachBlock (port : PortIndex) (blocks : List PortBlock) : List PortBlock :=
  blocks.filter fun b => b.port ≠ port

/-- The ports of one direction are changed. -/
def Member.changePorts (f : List PortBlock → List PortBlock) (rxtx : PortRxtx) (m : Member) :
    Member :=
  if rxtx = .rx then { m with rxPort := f m.rxPort } else { m with txPort := f m.txPort }

/-- The member of a name is changed. -/
def Configuration.change (name : CStr) (f : Member → Member) (cfg : Configuration) :
    Configuration :=
  cfg.map fun m => if m.name = name then f m else m

/-- A component is started or stopped. -/
def Configuration.executeComponent (c : CommandComponent) (cfg : Configuration) : Configuration :=
  if c.action = .start then cfg ++ [⟨c.name, c.type, c.core, [], []⟩]
  else cfg.filter fun m => m.name ≠ c.name

/-- A port is attached to a component or detached from it. -/
def Configuration.executePort (c : CommandPort) (cfg : Configuration) : Configuration :=
  if c.action = .add then
    cfg.change c.name (.changePorts (attachBlock ⟨c.port, c.ability.block⟩) c.rxtx)
  else cfg.change c.name (.changePorts (detachBlock c.port) c.rxtx)

/-- What an accepted command does to the configuration. -/
def Configuration.execute (command : SppCommand) (cfg : Configuration) : Configuration :=
  match command with
  | .component c => cfg.executeComponent c
  | .port c => cfg.executePort c
  | _ => cfg

end Members

section Slots

/-- A port of a slot with the operation of its attachment. -/
def AbilityState.block (st : AbilityState) (id : ℕ) (rxtx : PortRxtx) (port : PortRef) :
    PortBlock :=
  ⟨port.index, (st.given (id, rxtx, port)).block⟩

/-- The component that a slot holds. -/
def AbilityState.member (st : AbilityState) (id : ℕ) : Member :=
  { name := (st.s.component id).name
    type := (st.s.component id).type
    core := (st.s.component id).lcoreId
    rxPort := (st.s.component id).rxPorts.map (st.block id .rx)
    txPort := (st.s.component id).txPorts.map (st.block id .tx) }

/-- Every port of the interface table stands under its number, and an attached one is an
entry of its array with the type of that array. -/
structure PortsTyped (L : Limits) (s : MngData) : Prop where
  ifaceNo : ∀ port, (s.iface port).ifaceNo = port.no
  placed : ∀ id d port, s.Holds L id d port →
    port.no < L.maxEthports ∧ (s.iface port).ifaceType = port.array.type

/-- The tables keep the configuration. -/
structure Configured (L : Limits) (cfg : Configuration) (st : AbilityState) : Prop where
  shows : Roster.Shows Member.core st.member (fun l => (st.s.core l).updList) cfg
  table : UpdateTable L st.s
  synced : CoreListsSynced st.s
  owned : PortsOwned L st.s
  typed : PortsTyped L st.s
  follow : AbilitiesFollow L st

variable {L : Limits} {M : SppModule} {cfg : Configuration} {st st' : AbilityState}

/-- Two ports with the same type and number are one. -/
theorem PortRef.index_inj {p q : PortRef} : p.index = q.index ↔ p = q := by
  refine ⟨fun h => ?_, fun h => by rw [h]⟩
  obtain ⟨harray, hno⟩ : p.array.type = q.array.type ∧ (p.no : ℤ) = q.no := by
    simpa [PortRef.index] using h
  have harray' : p.array = q.array := by
    cases hp : p.array <;> cases hq : q.array <;> simp_all [IfaceArray.type]
  cases p
  cases q
  simp_all

/-- The port that an entry of the interface table is looked up for. -/
theorem index_of_ifaceEntry {port : PortIndex} {p : PortRef}
    (h : ifaceEntry L port.ifaceType port.ifaceNo = .ok p) : p.index = port := by
  have hno := (ifaceEntry_eq_ok h).2.2.1
  have htype := (ifaceEntry_array h).1
  cases port
  simp only [PortRef.index, PortIndex.mk.injEq]
  exact ⟨htype.symm, hno⟩

/-- The name of a slot tells it from every other listed slot. -/
theorem UpdateTable.namesApart (h : UpdateTable L st.s) :
    Roster.NamesApart Member.name st.member fun l => (st.s.core l).updList := by
  intro p q i hi j hj hname
  obtain ⟨hlt, hused⟩ := h.mem_updList p i hi
  exact h.names_distinct i hlt j (h.mem_updList q j hj).1 hused hname

/-- A named slot is in the list of its core. -/
theorem UpdateTable.mem_core (h : UpdateTable L st.s) {id : ℕ} (hlt : id < L.maxLcore)
    (hname : (st.s.component id).name ≠ []) :
    id ∈ (st.s.core (st.s.component id).lcoreId).updList := by
  rw [← List.count_pos_iff, h.count_updList id hlt hname, if_pos rfl]
  exact Nat.one_pos

/-- The lists of the cores hold no id twice. -/
theorem UpdateTable.nodup_updList (h : UpdateTable L st.s) (l : ℕ) :
    (st.s.core l).updList.Nodup := by
  refine List.nodup_iff_count_le_one.mpr fun i => ?_
  by_cases hmem : i ∈ (st.s.core l).updList
  · obtain ⟨hlt, hused⟩ := h.mem_updList l i hmem
    rw [h.count_updList i hlt hused l]
    split <;> omega
  · simp [List.count_eq_zero.mpr hmem]

/-- A slot that does not change keeps its member. -/
theorem member_congr {id : ℕ} (hcomponent : st'.s.component id = st.s.component id)
    (hgiven : ∀ d p, st'.given (id, d, p) = st.given (id, d, p)) :
    st'.member id = st.member id := by
  have hblock : st'.block id = st.block id := by
    funext d p
    simp only [AbilityState.block, hgiven]
  simp only [AbilityState.member, hcomponent, hblock]

/-- What a request and a flush leave of the tables is all that the configuration needs. -/
theorem Configured.congr (h : Configured L cfg st) (hsynced : CoreListsSynced st'.s)
    (hcomponent : st'.s.component = st.s.component)
    (hupd : ∀ l, (st'.s.core l).updList = (st.s.core l).updList)
    (hiface : ∀ port, (st'.s.iface port).ifaceNo = (st.s.iface port).ifaceNo ∧
      (st'.s.iface port).ifaceType = (st.s.iface port).ifaceType ∧
      (st'.s.iface port).ability = (st.s.iface port).ability)
    (hgiven : st'.given = st.given) : Configured L cfg st' := by
  have hholds : ∀ id d port, st'.s.Holds L id d port ↔ st.s.Holds L id d port := by
    intro id d port
    unfold MngData.Holds
    rw [hcomponent]
  have hmember : st'.member = st.member := by
    funext id
    exact member_congr (by rw [hcomponent]) fun _ _ => by rw [hgiven]
  refine ⟨?_, ?_, hsynced, h.owned.congr hcomponent, ⟨fun port => ?_, fun id d port hin => ?_⟩, ?_⟩
  · rw [hmember]
    exact h.shows.congr hupd fun _ _ _ => rfl
  · exact h.table.congr (fun i => by rw [hcomponent]) (fun i => by rw [hcomponent])
      (fun i => by rw [hcomponent]) hupd
  · rw [(hiface port).1]
    exact h.typed.ifaceNo port
  · rw [(hiface port).2.1]
    exact h.typed.placed id d port ((hholds id d port).mp hin)
  · exact h.follow.congr hholds (fun port => (hiface port).2.2) hgiven

end Slots

section Requests

variable {L : Limits} {M : SppModule} {cfg : Configuration} {st st' : AbilityState}

/-- What a request has to meet for the tables to keep the configuration: a start names
its type, and abilities and attachments stay in step. -/
structure ConfigOrder (L : Limits) (M : SppModule) (r : Request) (st : AbilityState) : Prop where
  typed : TypedStart L M r st.s
  ability : AbilityInOrder L M r st

/-- Attaching a port that is attached already gives it another operation. -/
theorem map_block_of_mem {id : ℕ} {d : PortRxtx} {port : PortRef} {ability : PortAbility}
    (hgiven : st'.given = Function.update st.given (id, d, port) ability) {ports : List PortRef}
    (h : port ∈ ports) :
    ports.map (st'.block id d) =
      attachBlock ⟨port.index, ability.block⟩ (ports.map (st.block id d)) := by
  have hmem : port.index ∈ (ports.map (st.block id d)).map PortBlock.port := by
    rw [List.map_map]
    exact List.mem_map.mpr ⟨port, h, rfl⟩
  rw [attachBlock, if_pos hmem, List.map_map]
  refine List.map_congr_left fun p _ => ?_
  by_cases hp : p = port
  · simp [AbilityState.block, hgiven, hp]
  · have hne : p.index ≠ port.index := fun heq => hp (PortRef.index_inj.mp heq)
    simp [AbilityState.block, hgiven, hp, hne]

/-- Attaching a port adds it behind the others. -/
theorem map_block_of_not_mem {id : ℕ} {d : PortRxtx} {port : PortRef} {ability : PortAbility}
    (hgiven : st'.given = Function.update st.given (id, d, port) ability) {ports : List PortRef}
    (h : port ∉ ports) :
    (ports ++ [port]).map (st'.block id d) =
      attachBlock ⟨port.index, ability.block⟩ (ports.map (st.block id d)) := by
  have hnot : port.index ∉ (ports.map (st.block id d)).map PortBlock.port := by
    rw [List.map_map]
    intro hmem
    obtain ⟨p, hp, heq⟩ := List.mem_map.mp hmem
    exact h (PortRef.index_inj.mp heq ▸ hp)
  rw [attachBlock, if_neg hnot, List.map_append]
  have hkept : ports.map (st'.block id d) = ports.map (st.block id d) := by
    refine List.map_congr_left fun p hp => ?_
    have hne : p ≠ port := fun heq => h (heq ▸ hp)
    simp [AbilityState.block, hgiven, hne]
  rw [hkept]
  simp [AbilityState.block, hgiven]

/-- Detaching a port takes its block away. -/
theorem map_block_erase {id : ℕ} {d : PortRxtx} {port : PortRef} (hgiven : st'.given = st.given)
    {ports : List PortRef} (hnodup : ports.Nodup) :
    (ports.erase port).map (st'.block id d) =
      detachBlock port.index (ports.map (st.block id d)) := by
  rw [detachBlock, List.filter_map, hnodup.erase_eq_filter]
  have hblock : st'.block id d = st.block id d := by
    funext p
    simp only [AbilityState.block, hgiven]
  rw [hblock]
  refine congrArg _ (List.filter_congr fun p _ => ?_)
  by_cases hp : p = port
  · simp [AbilityState.block, hp]
  · have hne : p.index ≠ port.index := fun heq => hp (PortRef.index_inj.mp heq)
    simp [AbilityState.block, hp, hne]

/-- Replacing the ports of a direction by themselves changes nothing. -/
theorem setPorts_self {c : ComponentInfo} {d : PortRxtx} (hd : d.Directed) :
    c.setPorts d (c.ports d) = c := by
  rcases hd with rfl | rfl <;> rfl

/-- A slot whose ports of one direction are changed holds its member changed. -/
theorem member_changePorts {id : ℕ} {d : PortRxtx} {ports : List PortRef}
    {f : List PortBlock → List PortBlock} (hd : d.Directed)
    (hcomponent : st'.s.component id = (st.s.component id).setPorts d ports)
    (hports : ports.map (st'.block id d) = f (((st.s.component id).ports d).map (st.block id d)))
    (hother : ∀ d' p, d' ≠ d → st'.given (id, d', p) = st.given (id, d', p)) :
    st'.member id = (st.member id).changePorts f d := by
  have hkept : ∀ d', d' ≠ d → st'.block id d' = st.block id d' := fun d' hne => by
    funext p
    simp only [AbilityState.block, hother d' p hne]
  unfold AbilityState.member Member.changePorts
  rw [hcomponent]
  rcases hd with rfl | rfl
  · simp only [ComponentInfo.setPorts, ComponentInfo.ports, if_true] at hports ⊢
    rw [hports, hkept .tx (by simp)]
  · simp only [ComponentInfo.setPorts, ComponentInfo.ports, reduceCtorEq, if_false] at hports ⊢
    rw [hports, hkept .rx (by simp)]

/-- A start enrols its component. -/
theorem shows_start (hshows : Roster.Shows Member.core st.member
      (fun l => (st.s.core l).updList) cfg) (htable : UpdateTable L st.s) {c : CommandComponent}
    {id : ℕ} (hfree : getFreeComponent L st.s = some id) :
    Roster.Shows Member.core (AbilityState.member ⟨startEdit st.s id c, st.given⟩)
      (fun l => ((startEdit st.s id c).core l).updList)
      (cfg ++ [⟨c.name, c.type, c.core, [], []⟩]) := by
  obtain ⟨hlt, hunuse⟩ := getFreeComponent_eq_some hfree
  have hnew : AbilityState.member ⟨startEdit st.s id c, st.given⟩ id =
      ⟨c.name, c.type, c.core, [], []⟩ := by
    simp [AbilityState.member, startEdit_component]
  rw [← hnew]
  refine hshows.enrol (htable.not_mem_of_unuse hlt hunuse) (fun l => ?_) fun j hj => ?_
  · rw [startEdit_updList, hnew]
    by_cases hl : l = c.core
    · simp [hl]
    · simp [hl]
  · exact member_congr (by simp [startEdit_component, hj]) fun _ _ => rfl

/-- The update-side lists after a stop, exactly. -/
theorem stopEdit_updList_eq (htable : UpdateTable L st.s) {id : ℕ} (hlt : id < L.maxLcore)
    (hname : (st.s.component id).name ≠ []) (l : ℕ) :
    ((stopEdit st.s id).core l).updList =
      (st.s.core l).updList.filter fun j => j ≠ id := by
  have herase : (st.s.core l).updList.erase id = (st.s.core l).updList.filter fun j => j ≠ id := by
    rw [List.Nodup.erase_eq_filter (htable.nodup_updList l)]
    exact List.filter_congr fun j _ => by simp [bne, Bool.beq_eq_decide_eq]
  rw [← herase]
  by_cases hl : l = (st.s.component id).lcoreId
  · subst hl
    simp only [stopEdit, MngData.setChangeCore_core, MngData.setChangeComponent_core,
      updList_setUpdList, if_true]
    cases hidx : lastIdxOf? id (st.s.core (st.s.component id).lcoreId).updList with
    | none => exact absurd (htable.mem_core hlt hname) (lastIdxOf?_eq_none.mp hidx)
    | some k =>
      simp only [delComponentInfo, hidx, Option.map_some, Option.getD_some]
      exact eraseIdx_lastIdxOf?_of_nodup (htable.nodup_updList _) hidx
  · have hnot : id ∉ (st.s.core l).updList := by
      rw [← List.count_eq_zero, htable.count_updList id hlt hname, if_neg hl]
    rw [List.erase_of_not_mem hnot]
    simp only [stopEdit, MngData.setChangeCore_core, MngData.setChangeComponent_core,
      updList_setUpdList, MngData.setComponent_core, if_neg hl]

/-- A stop dismisses the component of its name. -/
theorem shows_stop (hshows : Roster.Shows Member.core st.member
      (fun l => (st.s.core l).updList) cfg) (htable : UpdateTable L st.s) {name : CStr} {id : ℕ}
    (hid : sppGetComponentId L st.s name = some id) :
    Roster.Shows Member.core (AbilityState.member ⟨stopEdit st.s id, st.given⟩)
      (fun l => ((stopEdit st.s id).core l).updList) (cfg.filter fun m => m.name ≠ name) := by
  obtain ⟨hlt, hname, hne⟩ := sppGetComponentId_eq_some hid
  have hnamed : (st.s.component id).name ≠ [] := by
    rw [hname]
    exact hne
  have hmember : (st.member id).name = name := hname
  rw [← hmember]
  refine hshows.dismiss htable.namesApart (htable.mem_core hlt hnamed)
    (fun l => stopEdit_updList_eq htable hlt hnamed l) fun j hj => ?_
  exact member_congr (by simp [stopEdit_component, hj]) fun _ _ => rfl

/-- No member has a name that no slot has. -/
theorem filter_name_of_none (hshows : Roster.Shows Member.core st.member
      (fun l => (st.s.core l).updList) cfg) (htable : UpdateTable L st.s) {name : CStr}
    (hname : sppGetComponentId L st.s name = none) :
    (cfg.filter fun m => m.name ≠ name) = cfg := by
  refine List.filter_eq_self.mpr fun m hm => ?_
  obtain ⟨id, hid, rfl⟩ := hshows.exists_of_mem hm
  obtain ⟨hlt, hused⟩ := htable.mem_updList _ id hid
  have hne : (st.s.component id).name ≠ name := by
    by_cases hnil : name = []
    · rw [hnil]
      exact hused
    · exact sppGetComponentId_eq_none hname hnil hlt
  exact decide_eq_true hne

/-- A port command revises the member of its name. -/
theorem shows_port (hshows : Roster.Shows Member.core st.member
      (fun l => (st.s.core l).updList) cfg) (htable : UpdateTable L st.s) {name : CStr} {id : ℕ}
    (hid : sppGetComponentId L st.s name = some id) {d : PortRxtx}
    {f : List PortBlock → List PortBlock}
    (hupd : ∀ l, (st'.s.core l).updList = (st.s.core l).updList)
    (hrevised : st'.member id = (st.member id).changePorts f d)
    (hrecord : ∀ j, j ≠ id → st'.member j = st.member j) :
    Roster.Shows Member.core st'.member (fun l => (st'.s.core l).updList)
      (cfg.change name (.changePorts f d)) := by
  obtain ⟨hlt, hname, hne⟩ := sppGetComponentId_eq_some hid
  have hnamed : (st.s.component id).name ≠ [] := by
    rw [hname]
    exact hne
  have hmember : (st.member id).name = name := hname
  have hcore : ∀ m : Member, (m.changePorts f d).core = m.core := fun m => by
    unfold Member.changePorts
    split <;> rfl
  have hall := hshows.revise htable.namesApart (htable.mem_core hlt hnamed)
    (Member.changePorts f d) hcore hrevised hrecord
  simp only [hupd]
  rw [hmember] at hall
  exact hall

/-- Ports keep their numbers, and get the type of their array when they are attached. -/
theorem PortsTyped.of (h : PortsTyped L st.s) {s' : MngData}
    (hno : ∀ p, (s'.iface p).ifaceNo = (st.s.iface p).ifaceNo)
    (htype : ∀ p, (s'.iface p).ifaceType = (st.s.iface p).ifaceType ∨
      (s'.iface p).ifaceType = p.array.type)
    (hholds : ∀ id d p, s'.Holds L id d p → st.s.Holds L id d p ∨
      p.no < L.maxEthports ∧ (s'.iface p).ifaceType = p.array.type) : PortsTyped L s' := by
  refine ⟨fun p => (hno p).trans (h.ifaceNo p), fun id d p hin => ?_⟩
  rcases hholds id d p hin with hold | hnew
  · obtain ⟨hlt, hold⟩ := h.placed id d p hold
    rcases htype p with hsame | hnew
    · exact ⟨hlt, hsame.trans hold⟩
    · exact ⟨hlt, hnew⟩
  · exact hnew

/-- One entry of the interface table changes, to that of an added port or without its type. -/
theorem PortsTyped.editPort (h : PortsTyped L st.s) {s' : MngData} (port : PortRef)
    {info : PortInfo} (hiface : s'.iface = Function.update st.s.iface port info)
    (hno : info.ifaceNo = (st.s.iface port).ifaceNo)
    (htype : info.ifaceType = (st.s.iface port).ifaceType ∨ info.ifaceType = port.array.type)
    (hholds : ∀ id d p, s'.Holds L id d p →
      st.s.Holds L id d p ∨
        p = port ∧ port.no < L.maxEthports ∧ info.ifaceType = port.array.type) :
    PortsTyped L s' := by
  refine h.of (fun p => ?_) (fun p => ?_) fun id d p hin => (hholds id d p hin).imp_right ?_
  · rw [hiface]
    by_cases hp : p = port
    · rw [hp, Function.update_self, hno]
    · rw [Function.update_of_ne hp]
  · rw [hiface]
    by_cases hp : p = port
    · rw [hp, Function.update_self]
      exact htype
    · rw [Function.update_of_ne hp]
      exact .inl rfl
  · rintro ⟨rfl, hlt, hnew⟩
    rw [hiface, Function.update_self]
    exact ⟨hlt, hnew⟩

/-- A component without ports holds none. -/
theorem PortsTyped.emptySlot (h : PortsTyped L st.s) {s' : MngData} {id : ℕ} {c : ComponentInfo}
    (hiface : s'.iface = st.s.iface)
    (hcomponent : s'.component = Function.update st.s.component id c)
    (hports : ∀ d, c.ports d = []) : PortsTyped L s' := by
  refine h.of (fun p => by rw [hiface]) (fun p => .inl (by rw [hiface])) fun j d p hin => ?_
  rw [holds_update hcomponent] at hin
  split at hin
  · simp [hports] at hin
  · exact .inl hin

/-- A component command changes configuration and tables in the same way. -/
theorem Configured.component (h : Configured L cfg st) {r : Request} {c : CommandComponent}
    {s₁ : MngData} (hdecode : sppCommandDecodeRequest L M st.s r.text = .ok (.component c))
    (horder : ConfigOrder L M r st) (hc : sppUpdateComponent L st.s c = .ok s₁) :
    Configured L (cfg.executeComponent c) ⟨s₁, st.given⟩ := by
  have htable := h.table.sppUpdateComponent hdecode horder.typed hc
  have hsynced := h.synced.sppUpdateComponent hc
  have howned := h.owned.sppUpdateComponent hc
  have hfollow := h.follow.sppUpdateComponent hdecode horder.ability hc
  unfold Configuration.executeComponent
  cases haction : c.action with
  | start =>
    obtain ⟨-, -, id, hfree, rfl⟩ := sppUpdateComponent_start c haction hc
    refine ⟨shows_start h.shows h.table hfree, htable, hsynced, howned, ?_, hfollow⟩
    exact h.typed.emptySlot (c := ⟨c.name, c.type, c.core, id, [], []⟩) rfl rfl fun d => by
      simp [ComponentInfo.ports]
  | stop =>
    simp only [reduceCtorEq, if_false]
    obtain ⟨hnone, rfl⟩ | ⟨id, hid, rfl⟩ := sppUpdateComponent_stop c haction hc
    · rw [filter_name_of_none h.shows h.table hnone]
      exact h
    · refine ⟨shows_stop h.shows h.table hid, htable, hsynced, howned, ?_, hfollow⟩
      exact h.typed.emptySlot (c := {}) rfl rfl fun d => by simp [ComponentInfo.ports]
  | none | add | del => simp [sppUpdateComponent, haction] at hc

/-- A `port del` takes the port out of the component in that direction. -/
theorem sppUpdatePortDel_component {s : MngData} {id : ℕ} (port : PortRef) {d : PortRxtx}
    (hd : d.Directed) (hnodup : ((s.component id).ports d).Nodup) :
    (sppUpdatePortDel s id port d).component = Function.update s.component id
      ((s.component id).setPorts d (((s.component id).ports d).erase port)) := by
  unfold sppUpdatePortDel
  dsimp only
  split
  · rename_i ports hports
    obtain ⟨k, hk, rfl⟩ := Option.map_eq_some_iff.mp hports
    rw [eraseIdx_lastIdxOf?_of_nodup hnodup hk]
    rfl
  · rename_i hnone
    have hnot : port ∉ (s.component id).ports d := by
      simpa [getDelPortElement, checkPortElement] using hnone
    rw [List.erase_of_not_mem hnot, setPorts_self hd, Function.update_eq_self]
    rfl

/-- It clears the abilities of the direction. -/
theorem sppUpdatePortDel_iface (s : MngData) (id : ℕ) (port : PortRef) (d : PortRxtx) :
    (sppUpdatePortDel s id port d).iface =
      Function.update s.iface port ((s.iface port).clearAbility d) := by
  unfold sppUpdatePortDel
  dsimp only
  split <;> rfl

/-- A port command changes configuration and tables in the same way. -/
theorem Configured.port (h : Configured L cfg st) {r : Request} {c : CommandPort} {s₁ : MngData}
    (hdecode : sppCommandDecodeRequest L M st.s r.text = .ok (.port c))
    (horder : ConfigOrder L M r st) (hc : sppUpdatePort L st.s c = .ok s₁) :
    Configured L (cfg.executePort c) ⟨s₁, recordGiven L M r.text st⟩ := by
  obtain ⟨args, -, hmin, -, hparams⟩ := decodeRequest_port hdecode
  have hd : c.rxtx.Directed := (portRequest_of_decode hmin hparams).rxtx
  have hk := slotsKept_sppUpdatePort hc
  have htable := h.table.of_slotsKept hk
  have hsynced := h.synced.of_slotsKept hk
  have howned := h.owned.sppUpdatePort hdecode horder.ability.free hc
  have hfollow := h.follow.sppUpdatePort h.owned hdecode horder.ability hc
  have hupd : ∀ l, (s₁.core l).updList = (st.s.core l).updList := fun l => by rw [hk.core]
  obtain ⟨id, port, hid, hport, hcase⟩ := sppUpdatePort_cases hc
  have hindex := index_of_ifaceEntry hport
  obtain ⟨harray, hno⟩ := ifaceEntry_array hport
  have hgiven := recordGiven_port hdecode hc hid hport
  unfold Configuration.executePort
  rcases hcase with ⟨haction, hadd⟩ | ⟨haction, rfl⟩
  · rw [if_pos haction] at hgiven ⊢
    have hother : ∀ d' p, d' ≠ c.rxtx →
        recordGiven L M r.text st (id, d', p) = st.given (id, d', p) := fun d' p hne => by
      simp [hgiven, hne]
    have hothers : ∀ j, j ≠ id → s₁.component j = st.s.component j →
        AbilityState.member ⟨s₁, recordGiven L M r.text st⟩ j = st.member j := by
      intro j hj hcomponent
      exact member_congr hcomponent fun d' p => by simp [hgiven, hj]
    obtain ⟨-, hcases⟩ := sppUpdatePortAdd_cases hadd
    rw [← hindex]
    rcases hcases with ⟨hmem, -, cnt, -, rfl⟩ | ⟨hmem, -, rfl⟩ | ⟨hnot, -, info, rfl, hinfo⟩
    · refine ⟨shows_port h.shows h.table hid hupd ?_ fun j hj => hothers j hj rfl, htable, hsynced,
        howned, ?_, hfollow⟩
      · exact member_changePorts hd (setPorts_self hd).symm (map_block_of_mem hgiven hmem) hother
      · exact h.typed.editPort port rfl rfl (.inl rfl) fun _ _ _ hin => .inl hin
    · refine ⟨shows_port h.shows h.table hid hupd ?_ fun j hj => hothers j hj rfl, htable, hsynced,
        howned, h.typed, hfollow⟩
      exact member_changePorts hd (setPorts_self hd).symm (map_block_of_mem hgiven hmem) hother
    · have hcomponent : (attachEdit st.s id port c info).component =
          Function.update st.s.component id ((st.s.component id).setPorts c.rxtx
            ((st.s.component id).ports c.rxtx ++ [port])) := rfl
      refine ⟨shows_port h.shows h.table hid hupd ?_ fun j hj => hothers j hj ?_, htable, hsynced,
        howned, ?_, hfollow⟩
      · refine member_changePorts hd ?_ (map_block_of_not_mem hgiven hnot) hother
        rw [hcomponent, Function.update_self]
      · rw [hcomponent, Function.update_of_ne hj]
      · have hsame : info.ifaceNo = (st.s.iface port).ifaceNo := by
          rcases hinfo with ⟨-, rfl⟩ | ⟨-, cnt, -, rfl⟩ <;> rfl
        refine h.typed.editPort port rfl hsame (.inr harray) fun j d p hin => ?_
        rw [holds_update hcomponent] at hin
        split at hin
        · rename_i hj
          subst hj
          obtain ⟨hlt, hused, hmem⟩ := hin
          rw [setPorts_ports] at hmem
          rw [setPorts_type] at hused
          split at hmem
          · rename_i hdir
            rcases List.mem_append.mp hmem with hold | hnew
            · left
              exact ⟨hlt, hused, by rwa [ports_eq_of_iff _ hdir]⟩
            · exact .inr ⟨List.mem_singleton.mp hnew, hno, harray⟩
          · exact .inl ⟨hlt, hused, hmem⟩
        · exact .inl hin
  · rw [if_neg (by simp [haction])] at hgiven ⊢
    obtain ⟨hlt, hname, hne⟩ := sppGetComponentId_eq_some hid
    have hused : (st.s.component id).type ≠ .unuse := by
      rw [← h.table.named_iff id hlt, hname]
      exact hne
    have hnodup := h.owned.nodup id hlt hused c.rxtx
    have hcomponent := sppUpdatePortDel_component port hd hnodup
    rw [← hindex]
    refine ⟨shows_port h.shows h.table hid hupd ?_ fun j hj => ?_, htable, hsynced, howned, ?_,
      hfollow⟩
    · refine member_changePorts hd ?_ (map_block_erase hgiven hnodup) fun d' p _ => by rw [hgiven]
      rw [hcomponent, Function.update_self]
    · exact member_congr (by rw [hcomponent, Function.update_of_ne hj]) fun d' p => by rw [hgiven]
    · refine h.typed.editPort port (sppUpdatePortDel_iface ..) rfl (.inl rfl)
        fun j d p hin => .inl ?_
      rw [holds_update hcomponent] at hin
      split at hin
      · rename_i hj
        subst hj
        obtain ⟨-, hused', hmem⟩ := hin
        rw [setPorts_type] at hused'
        rw [setPorts_ports] at hmem
        split at hmem
        · rename_i hdir
          exact ⟨hlt, hused', by rw [ports_eq_of_iff _ hdir]; exact List.mem_of_mem_erase hmem⟩
        · exact ⟨hlt, hused', hmem⟩
      · exact hin

/-- A `classifier_table` command leaves components, lists and attachments. -/
theorem Configured.classifierTable (h : Configured L cfg st) {table : CommandClassifierTable}
    {s₁ : MngData} (hc : sppUpdateClassifierTable L st.s table = .ok s₁) :
    Configured L cfg ⟨s₁, st.given⟩ := by
  have hk := slotsKept_sppUpdateClassifierTable hc
  obtain ⟨port, classId, t, ht, hs⟩ := sppUpdateClassifierTable_cases hc
  have hcomponent : s₁.component = st.s.component := by
    rcases ht with rfl | rfl <;> rcases hs with rfl | ⟨id, -, -, rfl⟩ <;> rfl
  have hiface : s₁.iface = t.iface := by
    rcases hs with rfl | ⟨id, -, -, rfl⟩ <;> rfl
  refine h.congr (h.synced.of_slotsKept hk) hcomponent (fun l => by rw [hk.core]) (fun p => ?_) rfl
  rw [hiface]
  rcases ht with rfl | rfl
  · exact ⟨rfl, rfl, rfl⟩
  · by_cases hp : p = port
    · subst hp
      simp
    · simp [hp]

/-- Every accepted command changes configuration and tables in the same way. -/
theorem Configured.update (h : Configured L cfg st) {r : Request} {command : SppCommand}
    {s₁ : MngData} (hdecode : sppCommandDecodeRequest L M st.s r.text = .ok command)
    (horder : ConfigOrder L M r st) (hupdate : updateCommand L st.s command = some (.ok s₁)) :
    Configured L (cfg.execute command) ⟨s₁, recordGiven L M r.text st⟩ := by
  rcases updateCommand_cases hupdate with ⟨c, rfl, hc⟩ | ⟨c, rfl, hc⟩ | ⟨c, htable, hc⟩
  · rw [recordGiven_of_not_port hdecode (by simp)]
    exact h.component hdecode horder hc
  · exact h.port hdecode horder hc
  · rw [recordGiven_of_not_port hdecode (by rcases htable with rfl | rfl <;> simp)]
    rcases htable with rfl | rfl <;> exact h.classifierTable hc

/-- Nothing is configured before the first request. -/
theorem configured_start (L : Limits) (slave : ℕ → Bool) (numNic mainLcore : ℕ) :
    Configured L []
      (startHistory (startForwarding slave mainLcore (initMngData L slave numNic))) := by
  refine ⟨fun _ => rfl, ?_, coreListsSynced_initMngData L slave numNic mainLcore,
    portsOwned_initMngData L slave numNic mainLcore, ⟨fun port => ?_, fun id d port hin => ?_⟩,
    abilitiesFollow_start slave numNic mainLcore⟩
  · exact (tableInv_initMngData L slave numNic fun _ => .unuse).table.congr (fun _ => rfl)
      (fun _ => rfl) (fun _ => rfl) fun _ => rfl
  · simp only [startHistory, startForwarding, initMngData, initIfaceInfo]
    split <;> rfl
  · exact absurd rfl hin.2.1

end Requests

end Spp.Vf
