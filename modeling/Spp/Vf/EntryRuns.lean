import Spp.Vf.ClassifierEntry
import Spp.Vf.ComponentTable
import Spp.Vf.PortOwnership

/-!
# Runs over the classifier table

Runs of accepted requests with, beside the tables, the entry that the last
accepted `classifier_table` request of each port has left there. As long as the
entries are regular, the class ids represent them, and the requests are carried
out or rejected by them.
-/

namespace Spp.Vf

open CLib GuardedRun

variable {L : Limits} {M : SppModule} {s s' : MngData} {q : TableRequest}

section Effect

/-- What a request on a port leaves once it was carried out: its class id, and
perhaps devices created by the flush. -/
structure TableEffect (L : Limits) (s : MngData) (port : PortRef) (classId : ClassIdentifier)
    (s' : MngData) : Prop where
  component : s'.component = s.component
  core : (∀ l < L.maxLcore, s.changeCore l = false) → s'.core = s.core
  iface : DeviceUpdate (s.withClassId port classId).iface s'.iface

/-- The creation of devices leaves everything else of an entry. -/
theorem DeviceUpdate.same {iface iface' : PortRef → PortInfo} (h : DeviceUpdate iface iface')
    (port : PortRef) : (iface' port).classId = (iface port).classId ∧
      (iface' port).ifaceType = (iface port).ifaceType ∧
      (iface' port).ifaceNo = (iface port).ifaceNo := by
  rcases h port with heq | ⟨-, -, d, -, heq⟩
  · rw [heq]
    exact ⟨rfl, rfl, rfl⟩
  · rw [heq]
    exact ⟨rfl, rfl, rfl⟩

/-- The class ids after a request. -/
theorem TableEffect.classId {port : PortRef} {classId : ClassIdentifier}
    (h : TableEffect L s port classId s') (p : PortRef) :
    (s'.iface p).classId = if p = port then classId else (s.iface p).classId := by
  rw [(h.iface.same p).1, MngData.withClassId, MngData.setIface_iface]
  by_cases hp : p = port
  · subst hp
    rw [Function.update_self, if_pos rfl]
  · rw [Function.update_of_ne hp, if_neg hp]

/-- The same ports are added after a request. -/
theorem TableEffect.placed {port : PortRef} {classId : ClassIdentifier}
    (h : TableEffect L s port classId s') {p : PortRef} (hp : Placed L s p) : Placed L s' p := by
  obtain ⟨-, htype, hno⟩ := h.iface.same p
  have hsame : ((s.withClassId port classId).iface p).ifaceType = (s.iface p).ifaceType ∧
      ((s.withClassId port classId).iface p).ifaceNo = (s.iface p).ifaceNo := by
    rw [MngData.withClassId, MngData.setIface_iface]
    by_cases heq : p = port
    · subst heq
      rw [Function.update_self]
      exact ⟨rfl, rfl⟩
    · rw [Function.update_of_ne heq]
      exact ⟨rfl, rfl⟩
  unfold Placed
  rw [htype, hno, hsame.1, hsame.2]
  exact hp

/-- A flush that follows a request leaves the effect of the request. -/
theorem tableEffect_flush {dev : Devices} {ret : Ret} {port : PortRef} {classId : ClassIdentifier}
    {s₁ : MngData} (hs₁ : s₁ = s.withClassId port classId ∨
      ∃ id, s₁ = (s.withClassId port classId).setChangeComponent id true)
    (hflush : sppFlush L .vf dev s₁ = (ret, s')) : TableEffect L s port classId s' := by
  have hsame : s₁.component = s.component ∧ s₁.core = s.core ∧ s₁.changeCore = s.changeCore ∧
      s₁.iface = (s.withClassId port classId).iface := by
    rcases hs₁ with rfl | ⟨id, rfl⟩ <;> exact ⟨rfl, rfl, rfl, rfl⟩
  obtain ⟨hcomponent, hcore, hflag, hiface⟩ := hsame
  obtain ⟨iface', hdev, ⟨-, -, rfl⟩ | ⟨-, -, rfl⟩⟩ := sppFlush_cases hflush
  · exact ⟨hcomponent, fun _ => hcore, hiface ▸ hdev⟩
  · refine ⟨hcomponent, fun hclear => ?_, hiface ▸ hdev⟩
    funext l
    show (if l < L.maxLcore ∧ s₁.changeCore l = true then _ else s₁.core l) = s.core l
    rw [if_neg, hcore]
    rintro ⟨hl, hset⟩
    rw [hflag, hclear l hl] at hset
    cases hset

/-- Replacing the same class id in two tables keeps the devices apart only. -/
theorem DeviceUpdate.withClassId {s₁ s₂ : MngData} (h : DeviceUpdate s₁.iface s₂.iface)
    (port : PortRef) (classId : ClassIdentifier) :
    DeviceUpdate (s₁.withClassId port classId).iface (s₂.withClassId port classId).iface := by
  intro p
  simp only [MngData.withClassId, MngData.setIface_iface]
  by_cases hp : p = port
  · subst hp
    simp only [Function.update_self]
    rcases h p with heq | ⟨htype, hneg, d, hd, heq⟩
    · exact .inl (by rw [heq])
    · exact .inr ⟨htype, hneg, d, hd, by rw [heq]⟩
  · simp only [Function.update_of_ne hp]
    exact h p

/-- A request that puts the class id back restores the tables. -/
theorem TableEffect.restore {port : PortRef} {classId classId' : ClassIdentifier} {s₁ s₂ : MngData}
    (h₁ : TableEffect L s port classId s₁) (h₂ : TableEffect L s₁ port classId' s₂)
    (hback : classId' = (s.iface port).classId) : DeviceUpdate s.iface s₂.iface := by
  have hput : ((s.withClassId port classId).withClassId port classId').iface = s.iface := by
    subst hback
    funext p
    simp only [MngData.withClassId, MngData.setIface_iface]
    by_cases hp : p = port
    · subst hp
      simp only [Function.update_self]
    · simp only [Function.update_of_ne hp, MngData.setIface_iface]
  have hdev := h₁.iface.withClassId port classId'
  rw [hput] at hdev
  exact hdev.trans h₂.iface

end Effect

section Others

/-- A component whose update function accepts its ports. -/
def Updatable (c : ComponentInfo) : Prop :=
  c.type ≠ .mirror ∧ (c.type = .classifierMac ∨
    (c.type = .forward → c.rxPorts.length ≤ 1) ∧ c.txPorts.length ≤ 1)

/-- A component without ports is updatable in spp_vf. -/
theorem updatable_of_no_ports {c : ComponentInfo} (htype : c.type ≠ .mirror)
    (hrx : c.rxPorts = []) (htx : c.txPorts = []) : Updatable c := by
  refine ⟨htype, .inr ⟨fun _ => ?_, ?_⟩⟩
  · rw [hrx]
    exact Nat.zero_le _
  · rw [htx]
    exact Nat.zero_le _

/-- A port that passes the count leaves its component updatable. -/
theorem Updatable.attach {c : ComponentInfo} (h : Updatable c) {rxtx : PortRxtx}
    (hcount : checkPortCount c.type rxtx c.rxPorts.length c.txPorts.length = .ok)
    (port : PortRef) : Updatable (c.setPorts rxtx (c.ports rxtx ++ [port])) := by
  have hlimits := (portLimits_of_checkPortCount hcount port).2
  have hused := (portLimits_of_checkPortCount hcount port).1
  refine ⟨by rw [setPorts_type]; exact h.1, ?_⟩
  unfold PortLimits at hlimits
  rw [setPorts_type] at hlimits ⊢
  cases htype : c.type with
  | unuse => exact absurd htype hused
  | classifierMac => exact .inl rfl
  | merge =>
    rw [htype] at hlimits
    exact .inr ⟨fun h => (by cases h), hlimits⟩
  | forward =>
    rw [htype] at hlimits
    exact .inr ⟨fun _ => hlimits.1, hlimits.2⟩
  | mirror => exact absurd htype h.1

/-- A component that loses ports stays updatable. -/
theorem Updatable.shrink {c : ComponentInfo} (h : Updatable c) {rxtx : PortRxtx}
    {ports : List PortRef} (hle : ports.length ≤ (c.ports rxtx).length) :
    Updatable (c.setPorts rxtx ports) := by
  obtain ⟨htype, hports⟩ := h
  refine ⟨by rw [setPorts_type]; exact htype, ?_⟩
  rw [setPorts_type]
  rcases hports with hclassifier | ⟨hrx, htx⟩
  · exact .inl hclassifier
  · refine .inr ?_
    unfold ComponentInfo.ports at hle
    unfold ComponentInfo.setPorts
    split at hle
    · rename_i hdir
      rw [if_pos hdir]
      exact ⟨fun hforward => hle.trans (hrx hforward), htx⟩
    · rename_i hdir
      rw [if_neg hdir]
      exact ⟨hrx, hle.trans htx⟩

/-- The update function of an updatable component succeeds. -/
theorem componentUpdateRet_ok {dev : Devices} (hdev : dev.Succeed) {i : ℕ}
    (h : Updatable (s.component i)) : componentUpdateRet .vf dev s i = .ok := by
  unfold componentUpdateRet
  by_cases hclassifier : (s.component i).type = .classifierMac
  · simp only [if_pos hclassifier]
    exact hdev.classifierMacUpdate i
  · obtain ⟨hrx, htx⟩ := h.2.resolve_left hclassifier
    have hsome : (sppForwardUpdate s.iface (s.component i)).isSome = true := by
      unfold sppForwardUpdate
      dsimp only
      rw [if_neg (fun hforward => absurd (hrx hforward.1) (by omega)), if_neg (by omega)]
      rfl
    simp only [if_neg hclassifier, hsome, if_true]

/-- A flush of updatable components succeeds if the devices do. -/
theorem sppFlush_ok {dev : Devices} (hdev : dev.Succeed) (h : ∀ i, Updatable (s.component i)) :
    (sppFlush L .vf dev s).1 = .ok := by
  cases hflush : sppFlush L .vf dev s with
  | mk ret s' =>
  obtain ⟨iface', -, ⟨hport, -, -⟩ | ⟨-, hret, -⟩⟩ := sppFlush_cases hflush
  · have hok := flushPort_ok (L := L) hdev s
    rw [hport] at hok
    cases hok
  · have hall : flushComponent L .vf dev (flushCore L { s with iface := iface' }) = .ok := by
      unfold flushComponent
      rw [if_pos]
      exact fun i _ _ => componentUpdateRet_ok hdev (h i)
    exact hret.trans hall

/-- A component that the decoder of spp_vf yields is no mirror. -/
theorem decodeRequest_type {text : CStr} {c : CommandComponent}
    (h : sppCommandDecodeRequest L .vf s text = .ok (.component c)) : c.type ≠ .mirror := by
  obtain ⟨args, -, -, -, hparams⟩ := decodeRequest_component h
  refine decodeCommandParameter_keeps (P := fun c => c.type ≠ .mirror) ?_ hparams (by decide)
  intro p hp c arg c' hfunc hc
  simp only [parameterListComponent, List.mem_cons, List.not_mem_nil, or_false] at hp
  rcases hp with rfl | rfl | rfl | rfl
  · obtain ⟨-, rfl⟩ | ⟨-, rfl⟩ := decodeComponentActionValue_eq_ok hfunc <;> exact hc
  · obtain ⟨-, rfl, -⟩ := decodeComponentNameValue_eq_ok hfunc
    exact hc
  · obtain ⟨core, rfl, -⟩ := decodeComponentCoreValue_eq_ok hfunc
    exact hc
  · change decodeComponentTypeValue .vf c arg = .ok c' at hfunc
    unfold decodeComponentTypeValue at hfunc
    split at hfunc
    · cases hfunc
      exact hc
    · split at hfunc
      · cases hfunc
      · cases hfunc
        show sppConvertComponentType .vf arg ≠ .mirror
        unfold sppConvertComponentType
        dsimp only
        split
        · decide
        · split
          · decide
          · split <;> decide

/-- What a request that is no `classifier_table` request leaves as it was: the
class ids, the places of the ports, and components that are updatable. -/
structure EntriesKept (L : Limits) (s s' : MngData) : Prop where
  classId : ∀ port, (s'.iface port).classId = (s.iface port).classId
  placed : ∀ port, Placed L s port → Placed L s' port
  updatable : (∀ i, Updatable (s.component i)) → ∀ i, Updatable (s'.component i)

/-- Tables with the same interfaces and one slot replaced. -/
theorem EntriesKept.of_slot {i : ℕ} {c : ComponentInfo} (hiface : s'.iface = s.iface)
    (hcomp : s'.component = Function.update s.component i c)
    (hc : Updatable (s.component i) → Updatable c) : EntriesKept L s s' := by
  refine ⟨fun port => by rw [hiface], fun port h => by unfold Placed; rw [hiface]; exact h,
    fun h j => ?_⟩
  rw [hcomp]
  by_cases hj : j = i
  · subst hj
    rw [Function.update_self]
    exact hc (h j)
  · rw [Function.update_of_ne hj]
    exact h j

theorem EntriesKept.trans {s₁ s₂ s₃ : MngData} (h₁ : EntriesKept L s₁ s₂)
    (h₂ : EntriesKept L s₂ s₃) : EntriesKept L s₁ s₃ :=
  ⟨fun port => (h₂.classId port).trans (h₁.classId port),
    fun port h => h₂.placed port (h₁.placed port h), fun h => h₂.updatable (h₁.updatable h)⟩

/-- A flush keeps the entries. -/
theorem entriesKept_flush {dev : Devices} {ret : Ret} (h : sppFlush L M dev s = (ret, s')) :
    EntriesKept L s s' := by
  obtain ⟨iface', hdev, hcases⟩ := sppFlush_cases h
  have hsame : s'.iface = iface' := by
    rcases hcases with ⟨-, -, rfl⟩ | ⟨-, -, rfl⟩ <;> rfl
  refine ⟨fun port => ?_, fun port hplaced => ?_, fun hup i => ?_⟩
  · rw [hsame]
    exact (hdev.same port).1
  · obtain ⟨-, htype, hno⟩ := hdev.same port
    unfold Placed
    rw [hsame, htype, hno]
    exact hplaced
  · rw [sppFlush_component h]
    exact hup i

/-- Tables with one port added or given other abilities. -/
theorem EntriesKept.of_port (port : PortRef) (info : PortInfo)
    (hiface : s'.iface = Function.update s.iface port info)
    (hclass : info.classId = (s.iface port).classId) (hno : info.ifaceNo = (s.iface port).ifaceNo)
    (htype : info.ifaceType = (s.iface port).ifaceType ∨
      info.ifaceType = port.array.type ∧ port.no < L.maxEthports)
    (hcomp : ∀ i, Updatable (s.component i) → Updatable (s'.component i)) :
    EntriesKept L s s' := by
  refine ⟨fun p => ?_, fun p hplaced => ?_, fun h i => hcomp i (h i)⟩
  · rw [hiface]
    by_cases hp : p = port
    · subst hp
      rw [Function.update_self, hclass]
    · rw [Function.update_of_ne hp]
  · unfold Placed
    rw [hiface]
    by_cases hp : p = port
    · subst hp
      rw [Function.update_self, hno]
      rcases htype with heq | hadded
      · rw [heq]
        exact hplaced
      · exact ⟨hplaced.1, fun _ => hadded⟩
    · rw [Function.update_of_ne hp]
      exact hplaced

/-- The array of a port that was looked up. -/
theorem ifaceEntry_array {ifaceType : PortType} {ifaceNo : ℤ} {port : PortRef}
    (h : ifaceEntry L ifaceType ifaceNo = .ok port) :
    ifaceType = port.array.type ∧ port.no < L.maxEthports := by
  unfold ifaceEntry getIfaceInfo at h
  by_cases hrange : 0 ≤ ifaceNo ∧ ifaceNo < L.maxEthports
  · cases ifaceType <;> simp only [if_pos hrange] at h <;> cases h
    all_goals exact ⟨rfl, by dsimp only; omega⟩
  · cases ifaceType <;> simp only [if_neg hrange] at h <;> cases h

/-- A `port` command keeps the entries. -/
theorem entriesKept_port {c : CommandPort} (h : sppUpdatePort L s c = .ok s') :
    EntriesKept L s s' := by
  obtain ⟨id, port, hid, hport, ⟨-, hadd⟩ | ⟨-, rfl⟩⟩ := sppUpdatePort_cases h
  · obtain ⟨hcount, ⟨-, -, cnt, -, rfl⟩ | ⟨-, -, rfl⟩ | ⟨-, -, info, rfl, hinfo⟩⟩ :=
      sppUpdatePortAdd_cases hadd
    · exact .of_port port _ rfl rfl rfl (.inl rfl) fun _ h => h
    · exact ⟨fun _ => rfl, fun _ h => h, fun h => h⟩
    · have hsame : info.classId = (s.iface port).classId ∧
          info.ifaceNo = (s.iface port).ifaceNo := by
        rcases hinfo with ⟨-, rfl⟩ | ⟨-, cnt, -, rfl⟩ <;> exact ⟨rfl, rfl⟩
      refine .of_port port _ rfl hsame.1 hsame.2 (.inr (ifaceEntry_array hport)) ?_
      intro i hi
      show Updatable (Function.update s.component id _ i)
      by_cases heq : i = id
      · subst heq
        rw [Function.update_self]
        exact hi.attach hcount port
      · rw [Function.update_of_ne heq]
        exact hi
  · refine .of_port port ((s.iface port).clearAbility c.rxtx) ?_ rfl rfl (.inl rfl) ?_
    · unfold sppUpdatePortDel
      dsimp only
      split <;> rfl
    · intro i hi
      unfold sppUpdatePortDel
      dsimp only
      split
      · rename_i ports hdel
        show Updatable (Function.update s.component id _ i)
        by_cases heq : i = id
        · subst heq
          rw [Function.update_self]
          obtain ⟨k, -, rfl⟩ := Option.map_eq_some_iff.mp hdel
          exact hi.shrink (List.eraseIdx_sublist ..).length_le
        · rw [Function.update_of_ne heq]
          exact hi
      · exact hi

/-- A `component` command keeps the entries. -/
theorem entriesKept_component {c : CommandComponent} (htype : c.type ≠ .mirror)
    (h : sppUpdateComponent L s c = .ok s') : EntriesKept L s s' := by
  cases haction : c.action with
  | start =>
    obtain ⟨-, -, id, -, rfl⟩ := sppUpdateComponent_start c haction h
    exact .of_slot rfl rfl fun _ => updatable_of_no_ports htype rfl rfl
  | stop =>
    obtain ⟨-, rfl⟩ | ⟨id, -, rfl⟩ := sppUpdateComponent_stop c haction h
    · exact ⟨fun _ => rfl, fun _ h => h, fun h => h⟩
    · exact .of_slot rfl rfl fun _ => updatable_of_no_ports (by decide) rfl rfl
  | none | add | del => simp [sppUpdateComponent, haction] at h

/-- A request that is decoded to a classifier command starts with its name. -/
theorem decodeRequest_classifier {text : CStr} {c : CommandClassifierTable} {command : SppCommand}
    (h : sppCommandDecodeRequest L M s text = .ok command)
    (hcommand : command = .classifierTableMac c ∨ command = .classifierTableVlan c) :
    (strtok ' ' text).head? = some "classifier_table".toList := by
  obtain ⟨name, args, hargv, row, hrow, hname, -, -, hfunc⟩ := decodeRequest_eq_ok h
  rw [hargv, ← hname]
  simp only [commandList, List.mem_cons, List.not_mem_nil, or_false] at hrow
  rcases hrow with rfl | rfl | rfl | rfl | rfl | rfl | rfl
  · rfl
  · rfl
  all_goals exfalso
  · rcases hcommand with rfl | rfl <;> cases hfunc
  · rcases hcommand with rfl | rfl <;> cases hfunc
  · rcases hcommand with rfl | rfl <;> cases hfunc
  · obtain ⟨_, -, hc⟩ := map_eq_ok.mp hfunc
    rcases hcommand with rfl | rfl <;> cases hc
  · obtain ⟨_, -, hc⟩ := map_eq_ok.mp hfunc
    rcases hcommand with rfl | rfl <;> cases hc

/-- A request that is no `classifier_table` request keeps the entries. -/
theorem entriesKept_request {r : Request} {ret : Ret}
    (hother : (strtok ' ' r.text).head? ≠ some "classifier_table".toList)
    (h : processRequest L .vf r s = some (ret, s')) : EntriesKept L s s' := by
  obtain rfl | ⟨command, s₁, hdecode, hupdate, hflush⟩ := processRequest_cases h
  · exact ⟨fun _ => rfl, fun _ h => h, fun h => h⟩
  · refine EntriesKept.trans ?_ (entriesKept_flush hflush)
    rcases updateCommand_cases hupdate with ⟨c, rfl, hc⟩ | ⟨c, rfl, hc⟩ | ⟨c, hcommand, -⟩
    · exact entriesKept_component (decodeRequest_type hdecode) hc
    · exact entriesKept_port hc
    · exact absurd (decodeRequest_classifier hdecode hcommand) hother

end Others

section Run

/-- The tables with the entry of each port. -/
structure TableSys where
  s : MngData
  entry : PortRef → Option ClassifierEntry

/-- A request on the classifier table, or any other request. -/
inductive TableEvent
  | table (q : TableRequest) (r : Request)
  | other (r : Request)

/-- The request of an event. -/
def TableEvent.request : TableEvent → Request
  | .table _ r => r
  | .other r => r

/-- The entries after an event whose request was accepted. -/
def TableEvent.entries (entry : PortRef → Option ClassifierEntry) :
    TableEvent → PortRef → Option ClassifierEntry
  | .table q _ => Function.update entry q.port q.after
  | .other _ => entry

/-- One accepted request. -/
def tableStep (L : Limits) (e : TableEvent) (t : TableSys) : Option TableSys :=
  match processRequest L .vf e.request t.s with
  | some (.ok, s') => some { s := s', entry := e.entries t.entry }
  | _ => none

/-- The text of an event is a documented `classifier_table` request, or no
`classifier_table` request at all. -/
def Plain (L : Limits) (e : TableEvent) (_ : TableSys) : Prop :=
  match e with
  | .table q r => Asks L r.text q
  | .other r => (strtok ' ' r.text).head? ≠ some "classifier_table".toList

/-- A plain event whose entry uses no reserved value. -/
def PlainRegular (L : Limits) (e : TableEvent) (t : TableSys) : Prop :=
  Plain L e t ∧ ∀ q r, e = .table q r → q.entry.Regular

/-- The tables before the first request, when no port has an entry. -/
def startEntries (L : Limits) (slave : ℕ → Bool) (mainLcore numNic : ℕ) : TableSys :=
  { s := startForwarding slave mainLcore (initMngData L slave numNic), entry := fun _ => none }

/-- The class ids represent the entries of the ports, and the requests go by
the entries. -/
structure Faithful (L : Limits) (t : TableSys) : Prop where
  /-- A class id is a function of the entry. -/
  encoded : ∀ port, ((t.s.iface port).classId.vid, (t.s.iface port).classId.macAddr) =
    encodeEntry (t.entry port)
  /-- Different entries have different class ids. -/
  injective : ∀ p p', encodeEntry (t.entry p) = encodeEntry (t.entry p') → t.entry p = t.entry p'
  /-- The classifier takes it for the entry. -/
  read : ∀ port, readEntry (t.s.iface port).classId = t.entry port
  /-- The text that is kept with an entry denotes its address. -/
  text : ∀ port e, t.entry port = some e →
    sppChangeMacStrToInt64 (t.s.iface port).classId.macAddrStr = .ok (e.mac.value : ℤ)
  /-- A request on an added port is carried out if the port has no entry to add
  to, or the one to delete. It leaves the entry of the request and no other
  class id is changed; it is accepted if the devices of the flush succeed. -/
  carried_out : ∀ q r, Asks L r.text q → q.entry.Regular →
    (t.s.iface q.port).ifaceType ≠ .undef → t.entry q.port = q.before →
      ∃ ret s', processRequest L .vf r t.s = some (ret, s') ∧ (r.dev.Succeed → ret = .ok) ∧
        ((s'.iface q.port).classId.vid, (s'.iface q.port).classId.macAddr) =
          encodeEntry q.after ∧
        ∀ port ≠ q.port, (s'.iface port).classId = (t.s.iface port).classId
  /-- Otherwise it is rejected and changes nothing. -/
  rejected : ∀ q r, Asks L r.text q → q.entry.Regular → t.entry q.port ≠ q.before →
    processRequest L .vf r t.s = some (.ng, t.s)
  /-- Deleting what was just added restores the tables, but for devices that
  were created on the way. -/
  restored : ∀ entry port r r' t₁ t₂, entry.Regular → Asks L r.text ⟨.add, entry, port⟩ →
    Asks L r'.text ⟨.del, entry, port⟩ → tableStep L (.table ⟨.add, entry, port⟩ r) t = some t₁ →
    tableStep L (.table ⟨.del, entry, port⟩ r') t₁ = some t₂ →
      t₂.entry = t.entry ∧ t₂.s.component = t.s.component ∧ t₂.s.core = t.s.core ∧
        DeviceUpdate t.s.iface t₂.s.iface

/-- What holds between two requests of a run over regular entries. -/
structure EntriesStored (L : Limits) (t : TableSys) : Prop where
  stored : ∀ port, Stored (t.s.iface port).classId (t.entry port)
  placed : ∀ port, Placed L t.s port
  updatable : ∀ i, Updatable (t.s.component i)
  flushed : ∀ l < L.maxLcore, t.s.changeCore l = false

/-- Before the first request no port has an entry. -/
theorem entriesStored_start (slave : ℕ → Bool) (mainLcore numNic : ℕ) :
    EntriesStored L (startEntries L slave mainLcore numNic) := by
  have hiface : ∀ port, (initIfaceInfo L numNic port).classId = { vid := ethVlanIdMax } ∧
      (initIfaceInfo L numNic port).ifaceNo = port.no ∧
      ((initIfaceInfo L numNic port).ifaceType ≠ .undef →
        (initIfaceInfo L numNic port).ifaceType = port.array.type ∧ port.no < L.maxEthports) := by
    intro port
    unfold initIfaceInfo
    dsimp only
    split
    · rename_i hnic
      refine ⟨rfl, rfl, fun _ => ⟨?_, by omega⟩⟩
      rw [hnic.1]
      rfl
    · exact ⟨rfl, rfl, fun h => absurd rfl h⟩
  refine ⟨fun port => ?_, fun port => ?_, fun i => ?_, fun _ _ => rfl⟩
  · show Stored (initIfaceInfo L numNic port).classId none
    rw [(hiface port).1]
    exact ⟨rfl, fun e he => (by cases he), fun e he => (by cases he), fun _ => rfl⟩
  · exact ⟨(hiface port).2.1, (hiface port).2.2⟩
  · exact updatable_of_no_ports (show ComponentType.unuse ≠ .mirror by decide) rfl rfl

/-- A port admits a request iff it was added and has the entry that the request
is for. -/
theorem EntriesStored.admits_iff {t : TableSys} (h : EntriesStored L t)
    (hregular : q.entry.Regular) : Admits t.s q ↔
      (t.s.iface q.port).ifaceType ≠ .undef ∧ t.entry q.port = q.before := by
  unfold Admits
  rw [(h.stored q.port).pair, encodeEntry_inj]
  · exact fun e he => ((h.stored q.port).inRange e he).2
  · intro e he
    unfold TableRequest.before at he
    split at he
    · cases he
    · cases he
      exact hregular

/-- A request that a port admits is executed up to its flush. -/
theorem EntriesStored.execute {t : TableSys} (h : EntriesStored L t) {r : Request}
    (hasks : Asks L r.text q) (hregular : q.entry.Regular) (hadm : Admits t.s q) :
    ∃ macAddrStr s₁, Stored (q.classId macAddrStr) q.after ∧
      (s₁ = t.s.withClassId q.port (q.classId macAddrStr) ∨
        ∃ id, s₁ = (t.s.withClassId q.port (q.classId macAddrStr)).setChangeComponent id true) ∧
      processRequest L .vf r t.s = some (sppFlush L .vf r.dev s₁) := by
  obtain ⟨c, hc, hdecode⟩ := (hasks.decode .vf t.s).1 hadm
  obtain ⟨words, -, hwords, -⟩ := hasks.tokens
  have hrange := hwords.inRange
  obtain ⟨s₁, hupdate, hs₁⟩ := sppUpdateClassifierTable_carries hc hadm (h.placed q.port) hrange
  refine ⟨c.mac, s₁, stored_classId hrange hregular hc.mac, hs₁, ?_⟩
  rcases hdecode with hdecode | hdecode
  · simp only [processRequest, hdecode, executeCommand, updateCommand, hupdate]
  · simp only [processRequest, hdecode, executeCommand, updateCommand, hupdate]

/-- A request that a port does not admit is rejected. -/
theorem processRequest_rejected {t : TableSys} {r : Request} (hasks : Asks L r.text q)
    (hadm : ¬ Admits t.s q) : processRequest L .vf r t.s = some (.ng, t.s) := by
  obtain ⟨e, hdecode⟩ := (hasks.decode .vf t.s).2 hadm
  simp only [processRequest, hdecode]

/-- What an accepted `classifier_table` request leaves. -/
theorem EntriesStored.tableStep {t t' : TableSys} (h : EntriesStored L t) {r : Request}
    (hasks : Asks L r.text q) (hregular : q.entry.Regular)
    (hstep : tableStep L (.table q r) t = some t') :
    t.entry q.port = q.before ∧ t'.entry = Function.update t.entry q.port q.after ∧
      ∃ macAddrStr, Stored (q.classId macAddrStr) q.after ∧
        TableEffect L t.s q.port (q.classId macAddrStr) t'.s := by
  unfold Spp.Vf.tableStep TableEvent.request at hstep
  by_cases hadm : Admits t.s q
  · obtain ⟨macAddrStr, s₁, hstored, hs₁, hprocess⟩ := h.execute hasks hregular hadm
    dsimp only at hstep
    rw [hprocess] at hstep
    cases hflush : sppFlush L .vf r.dev s₁ with
    | mk ret s' =>
    rw [hflush] at hstep
    cases ret with
    | ng => cases hstep
    | ok =>
      cases hstep
      exact ⟨((h.admits_iff hregular).mp hadm).2, rfl, macAddrStr, hstored,
        tableEffect_flush hs₁ hflush⟩
  · dsimp only at hstep
    rw [processRequest_rejected hasks hadm] at hstep
    cases hstep

/-- An accepted request leaves no core flagged. -/
theorem flushed_of_accepted {r : Request} (hclear : ∀ l < L.maxLcore, s.changeCore l = false)
    (h : processRequest L M r s = some (.ok, s')) : ∀ l < L.maxLcore, s'.changeCore l = false := by
  obtain rfl | ⟨command, s₁, -, -, hflush⟩ := processRequest_cases h
  · exact hclear
  · obtain ⟨iface', -, ⟨-, hret, -⟩ | ⟨-, -, rfl⟩⟩ := sppFlush_cases hflush
    · cases hret
    · intro l hl
      simp only [backupMngInfo, if_pos hl]

/-- An accepted request that is plain and regular keeps the entries stored. -/
theorem EntriesStored.step {t t' : TableSys} (h : EntriesStored L t) {e : TableEvent}
    (hguard : PlainRegular L e t) (hstep : Spp.Vf.tableStep L e t = some t') :
    EntriesStored L t' := by
  have hprocess : processRequest L .vf e.request t.s = some (.ok, t'.s) := by
    unfold Spp.Vf.tableStep at hstep
    split at hstep
    · rename_i s' hs'
      cases hstep
      exact hs'
    · cases hstep
  have hflushed := flushed_of_accepted h.flushed hprocess
  cases e with
  | table q r =>
    obtain ⟨-, hentry, macAddrStr, hstored, heffect⟩ :=
      h.tableStep hguard.1 (hguard.2 q r rfl) hstep
    refine ⟨fun port => ?_, fun port => heffect.placed (h.placed port), fun i => ?_, hflushed⟩
    · rw [heffect.classId, hentry]
      by_cases hp : port = q.port
      · subst hp
        rw [if_pos rfl, Function.update_self]
        exact hstored
      · rw [if_neg hp, Function.update_of_ne hp]
        exact h.stored port
    · rw [heffect.component]
      exact h.updatable i
  | other r =>
    have hkept := entriesKept_request hguard.1 hprocess
    have hentry : t'.entry = t.entry := by
      unfold Spp.Vf.tableStep at hstep
      split at hstep
      · cases hstep
        rfl
      · cases hstep
    refine ⟨fun port => ?_, fun port => hkept.placed port (h.placed port),
      hkept.updatable h.updatable, hflushed⟩
    rw [hkept.classId, hentry]
    exact h.stored port

/-- The class id that a deletion leaves is the one of a port without an entry. -/
theorem Stored.eq_empty {classId : ClassIdentifier} (h : Stored classId none) :
    classId = { macAddr := 0, macAddrStr := [], vid := ethVlanIdMax } := by
  obtain ⟨macAddr, macAddrStr, vid⟩ := classId
  have hpair := Prod.ext_iff.mp h.pair
  have htext := h.empty rfl
  simp only [encodeEntry] at hpair htext
  rw [hpair.1, hpair.2, htext]

/-- Stored entries are faithful. -/
theorem EntriesStored.faithful {t : TableSys} (h : EntriesStored L t) : Faithful L t := by
  have hregular : ∀ port e, t.entry port = some e → e.Regular :=
    fun port e he => ((h.stored port).inRange e he).2
  refine ⟨fun port => (h.stored port).pair, ?_, ?_, ?_, ?_, ?_, ?_⟩
  · exact fun p p' heq => (encodeEntry_inj (hregular p) (hregular p')).mp heq
  · exact fun port => readEntry_of_encode (h.stored port).pair (hregular port)
  · intro port e he
    have haddr : (t.s.iface port).classId.macAddr = e.mac.value := by
      have hpair := (h.stored port).pair
      rw [he] at hpair
      exact congrArg Prod.snd hpair
    rw [← haddr]
    exact (h.stored port).text e he
  · intro q r hasks hq hadded hbefore
    obtain ⟨macAddrStr, s₁, hstored, hs₁, hprocess⟩ :=
      h.execute hasks hq ((h.admits_iff hq).mpr ⟨hadded, hbefore⟩)
    cases hflush : sppFlush L .vf r.dev s₁ with
    | mk ret s' =>
    have heffect := tableEffect_flush hs₁ hflush
    refine ⟨ret, s', by rw [hprocess, hflush], fun hdev => ?_, ?_, fun port hne => ?_⟩
    · have hcomp : s₁.component = t.s.component := by
        rcases hs₁ with rfl | ⟨id, rfl⟩ <;> rfl
      have hok := sppFlush_ok (L := L) (s := s₁) hdev (by rw [hcomp]; exact h.updatable)
      rw [hflush] at hok
      exact hok
    · rw [heffect.classId, if_pos rfl]
      exact hstored.pair
    · rw [heffect.classId, if_neg hne]
  · intro q r hasks hq hne
    exact processRequest_rejected hasks fun hadm => hne ((h.admits_iff hq).mp hadm).2
  · intro entry port r r' t₁ t₂ hq hadd hdel hstep₁ hstep₂
    have hguard : PlainRegular L (.table ⟨.add, entry, port⟩ r) t := by
      refine ⟨hadd, fun q r heq => ?_⟩
      cases heq
      exact hq
    have h₁ : EntriesStored L t₁ := h.step hguard hstep₁
    obtain ⟨hnone, hentry₁, text₁, -, heffect₁⟩ := h.tableStep hadd hq hstep₁
    obtain ⟨-, hentry₂, text₂, -, heffect₂⟩ := h₁.tableStep hdel hq hstep₂
    have hempty : Stored (t.s.iface port).classId none := by
      have hport := h.stored port
      rw [show t.entry port = none from hnone] at hport
      exact hport
    refine ⟨?_, heffect₂.component.trans heffect₁.component,
      (heffect₂.core h₁.flushed).trans (heffect₁.core h.flushed),
      heffect₁.restore heffect₂ hempty.eq_empty.symm⟩
    rw [hentry₂, hentry₁]
    funext p
    by_cases hp : p = port
    · subst hp
      rw [Function.update_self]
      exact hnone.symm
    · rw [Function.update_of_ne hp, Function.update_of_ne hp]

/-- In every run whose `classifier_table` requests use no reserved value, the
class ids represent the entries faithfully between any two requests. -/
theorem faithful_of_reaches (slave : ℕ → Bool) (mainLcore numNic : ℕ) {t : TableSys}
    (h : Reaches (tableStep L) (PlainRegular L) (startEntries L slave mainLcore numNic) t) :
    Faithful L t :=
  (h.invariant (entriesStored_start slave mainLcore numNic)
    fun _ _ _ hinv hguard hstep => hinv.step hguard hstep).faithful

/-- The first physical port of a process that was just started. -/
def phyZero : PortRef := ⟨.nic, 0⟩

/-- The resource UID of the first physical port. -/
theorem denotesPort_phyZero : DenotesPort "phy:0".toList phyZero.index :=
  ⟨"phy".toList, by decide, by decide, by decide⟩

/-- A request with a MAC entry for the first physical port. -/
theorem asks_mac (text mac : String) {action : TableAction} {address : EntryMac}
    (hmac : WritesMac mac.toList address)
    (hfits : text.toList.length < sppCmdMaxParameters * sppCmdValueBufsz)
    (htokens : strtok ' ' text.toList =
      ["classifier_table".toList, action.word, "mac".toList, mac.toList, "phy:0".toList]) :
    Asks .default (Request.ofString text).text ⟨action, ⟨none, address⟩, phyZero⟩ :=
  ⟨hfits, by simp [phyZero, Limits.default], _, "phy:0".toList, .mac hmac, denotesPort_phyZero,
    by decide, htokens⟩

/-- A request with a VLAN entry for the first physical port. -/
theorem asks_vlan (text vid mac : String) {action : TableAction} {v : ℕ} {address : EntryMac}
    (hvid : intLiteral vid.toList = some (v : ℤ)) (hle : v ≤ 0xfff)
    (hmac : WritesMac mac.toList address)
    (hfits : text.toList.length < sppCmdMaxParameters * sppCmdValueBufsz)
    (htokens : strtok ' ' text.toList = ["classifier_table".toList, action.word, "vlan".toList,
      vid.toList, mac.toList, "phy:0".toList]) :
    Asks .default (Request.ofString text).text ⟨action, ⟨some v, address⟩, phyZero⟩ :=
  ⟨hfits, by simp [phyZero, Limits.default], _, "phy:0".toList, .vlan hvid hle hmac,
    denotesPort_phyZero, by decide, htokens⟩

/-- The test of a field by evaluation. -/
def testHexField (field : CStr) : Bool :=
  decide (1 ≤ field.length) && decide (field.length ≤ 2) && field.all (isDigit 16)

/-- A token of six hexadecimal fields, tested by evaluation. -/
theorem writesMac_address {mac : ℕ} (word : CStr)
    (hlength : (word.splitOn ':').length = etherAddrLen)
    (hfields : (word.splitOn ':').all testHexField = true) (hvalue : macValue word = mac) :
    WritesMac word (.address mac) := by
  refine ⟨hlength, fun f hf => ?_, hvalue⟩
  have htest := List.all_eq_true.mp hfields f hf
  rw [testHexField, Bool.and_eq_true, Bool.and_eq_true, decide_eq_true_eq,
    decide_eq_true_eq] at htest
  exact ⟨htest.1, List.all_eq_true.mp htest.2⟩

/-- The start of a process with one slave lcore and one physical port. -/
def bootEntries : TableSys := startEntries .default (fun l => l = 1) 0 1

/-- A VLAN entry is added to the first physical port and deleted again. -/
def addThenDel : List TableEvent :=
  [.table ⟨.add, ⟨some 100, .default⟩, phyZero⟩
      (.ofString "classifier_table add vlan 100 default phy:0"),
   .table ⟨.del, ⟨some 100, .default⟩, phyZero⟩
      (.ofString "classifier_table del vlan 100 default phy:0"),
   .table ⟨.add, ⟨none, .address 0x0a0000000000⟩, phyZero⟩
      (.ofString "classifier_table add mac 00:00:00:00:00:0A phy:0")]

/-- The entry of the last addition is represented. -/
theorem faithful_addThenDel :
    ∃ t, runAll (tableStep .default) addThenDel bootEntries = some t ∧
      t.entry phyZero = some ⟨none, .address 0x0a0000000000⟩ ∧ Faithful .default t := by
  have hrun : ((runAll (tableStep .default) addThenDel bootEntries).any fun t =>
      t.entry phyZero = some ⟨none, .address 0x0a0000000000⟩) = true := by
    decide +kernel
  obtain ⟨t, ht, hentry⟩ := exists_of_runAll hrun
  refine ⟨t, ht, hentry, faithful_of_reaches (fun l => l = 1) 0 1 (reaches_of_runAll ht ?_)⟩
  intro e he t
  simp only [addThenDel, List.mem_cons, List.not_mem_nil, or_false] at he
  rcases he with rfl | rfl | rfl
  · refine ⟨asks_vlan _ "100" "default" (by decide) (by decide) rfl (by decide)
      (by decide +kernel), ?_⟩
    rintro q r heq
    cases heq
    unfold ClassifierEntry.Regular
    decide
  · refine ⟨asks_vlan _ "100" "default" (by decide) (by decide) rfl (by decide)
      (by decide +kernel), ?_⟩
    rintro q r heq
    cases heq
    unfold ClassifierEntry.Regular
    decide
  · refine ⟨asks_mac _ "00:00:00:00:00:0A" (writesMac_address _ (by decide) (by decide) rfl)
      (by decide) (by decide +kernel), ?_⟩
    rintro q r heq
    cases heq
    unfold ClassifierEntry.Regular
    decide

/-- Requests to add entries with a reserved value: the address of an empty class
id, the one that stands for `default`, and the VLAN id of untagged frames. Each
comes with the entry or its absence that has the same class id. -/
def reservedRequests : List (String × ClassifierEntry × Option ClassifierEntry) :=
  [("classifier_table add mac 00:00:00:00:00:00 phy:0", ⟨none, .address 0⟩, none),
   ("classifier_table add mac 00:00:00:00:00:01 phy:0",
      ⟨none, .address sppDefaultClassifiedDmyAddr⟩, some ⟨none, .default⟩),
   ("classifier_table add vlan 4095 00:00:00:00:00:0A phy:0",
      ⟨some 4095, .address 0x0a0000000000⟩, some ⟨none, .address 0x0a0000000000⟩)]

/-- They are requests in the documented syntax. -/
theorem asks_reserved : ∀ p ∈ reservedRequests,
    Asks .default (Request.ofString p.1).text ⟨.add, p.2.1, phyZero⟩ := by
  intro p hp
  simp only [reservedRequests, List.mem_cons, List.not_mem_nil, or_false] at hp
  rcases hp with rfl | rfl | rfl
  · have hmac := writesMac_address "00:00:00:00:00:00".toList (by decide) (by decide) rfl
    exact asks_mac _ _ hmac (by decide) (by decide +kernel)
  · have hmac := writesMac_address "00:00:00:00:00:01".toList (by decide) (by decide) rfl
    exact asks_mac _ _ hmac (by decide) (by decide +kernel)
  · have hmac := writesMac_address "00:00:00:00:00:0A".toList (by decide) (by decide) rfl
    exact asks_vlan _ "4095" _ (by decide) (by decide) hmac (by decide) (by decide +kernel)

/-- Each of them is accepted. The class id is that of another entry, or of no
entry, and the classifier takes it for that one. -/
theorem reserved_entry_misread : ∀ p ∈ reservedRequests,
    some p.2.1 ≠ p.2.2 ∧ encodeEntry (some p.2.1) = encodeEntry p.2.2 ∧ ∃ t,
      Reaches (tableStep .default) (Plain .default) bootEntries t ∧
        t.entry phyZero = some p.2.1 ∧ readEntry (t.s.iface phyZero).classId = p.2.2 ∧
        ¬ Faithful .default t := by
  intro p hp
  have hne : some p.2.1 ≠ p.2.2 ∧ encodeEntry (some p.2.1) = encodeEntry p.2.2 := by
    revert p hp
    decide
  have hrun : ((runAll (tableStep .default) [.table ⟨.add, p.2.1, phyZero⟩ (.ofString p.1)]
      bootEntries).any fun t => t.entry phyZero = some p.2.1 ∧
        readEntry (t.s.iface phyZero).classId = p.2.2) = true := by
    revert p hp
    decide +kernel
  obtain ⟨t, ht, hentry, hread⟩ := exists_of_runAll hrun
  refine ⟨hne.1, hne.2, t, reaches_of_runAll ht ?_, hentry, hread, fun h => hne.1 ?_⟩
  · intro e he _
    rw [List.mem_singleton] at he
    subst he
    exact asks_reserved p hp
  · rw [← hentry, ← hread]
    exact (h.read phyZero).symm

/-- So not every run of documented requests keeps the entries faithful. -/
theorem not_faithful_reserved : ¬ ∀ t,
    Reaches (tableStep .default) (Plain .default) bootEntries t → Faithful .default t := by
  intro h
  obtain ⟨-, -, t, hreaches, -, -, hnot⟩ := reserved_entry_misread _ List.mem_cons_self
  exact hnot (h t hreaches)

end Run

end Spp.Vf
