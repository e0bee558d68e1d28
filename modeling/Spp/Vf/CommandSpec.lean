import Spp.Vf.CommandProc
import Spp.Vf.DecodedCommand

/-!
# What a command does to the tables

One inversion lemma for each update function and one for the flush. They say
everything the step can do, so that an invariant is preserved by a command as
soon as it is preserved by the few edits named here.
-/

namespace Spp.Vf

open CLib

variable {L : Limits} {M : SppModule} {s s' : MngData}

section Setters

/-- The update-side lists after one of them is replaced. -/
@[simp] theorem updList_setUpdList (s : MngData) (lcoreId l : ℕ) (ids : List ℕ) :
    ((s.setUpdList lcoreId ids).core l).updList =
      if l = lcoreId then ids else (s.core l).updList := by
  by_cases h : l = lcoreId
  · subst h
    simp [CoreMngInfo.updList]
  · simp [h]

/-- The reference-side lists do not change when an update side is edited, as
long as the two indices of that core differ. -/
theorem refList_setUpdList {lcoreId : ℕ}
    (h : (s.core lcoreId).refIndex ≠ (s.core lcoreId).updIndex) (l : ℕ) (ids : List ℕ) :
    ((s.setUpdList lcoreId ids).core l).refList = (s.core l).refList := by
  by_cases hl : l = lcoreId
  · subst hl
    simp [CoreMngInfo.refList, h]
  · simp [hl]

/-- Editing an update side moves no index and changes no status. -/
@[simp] theorem core_setUpdList_indices (s : MngData) (lcoreId l : ℕ) (ids : List ℕ) :
    ((s.setUpdList lcoreId ids).core l).refIndex = (s.core l).refIndex ∧
      ((s.setUpdList lcoreId ids).core l).updIndex = (s.core l).updIndex ∧
      ((s.setUpdList lcoreId ids).core l).status = (s.core l).status := by
  by_cases hl : l = lcoreId
  · subst hl
    simp
  · simp [hl]

end Setters

section Search

/-- A slot found by `spp_get_component_id` has the name, and the name is not empty. -/
theorem sppGetComponentId_eq_some {name : CStr} {id : ℕ} (h : sppGetComponentId L s name = some id) :
    id < L.maxLcore ∧ (s.component id).name = name ∧ name ≠ [] := by
  unfold sppGetComponentId at h
  split at h
  · cases h
  · rename_i hname
    refine ⟨?_, ?_, hname⟩
    · simpa using List.mem_of_find?_eq_some h
    · simpa [eq_comm] using List.find?_some h

/-- A name that is not found belongs to no slot. -/
theorem sppGetComponentId_eq_none {name : CStr} (h : sppGetComponentId L s name = none)
    (hname : name ≠ []) {i : ℕ} (hi : i < L.maxLcore) : (s.component i).name ≠ name := by
  unfold sppGetComponentId at h
  rw [if_neg hname, List.find?_eq_none] at h
  simpa [eq_comm] using h i (List.mem_range.mpr hi)

/-- A slot found by `get_free_component` is unused. -/
theorem getFreeComponent_eq_some {id : ℕ} (h : getFreeComponent L s = some id) :
    id < L.maxLcore ∧ (s.component id).type = .unuse := by
  unfold getFreeComponent at h
  exact ⟨by simpa using List.mem_of_find?_eq_some h, by simpa using List.find?_some h⟩

/-- A component found by `spp_check_used_port` is used and holds the port. -/
theorem sppCheckUsedPort_eq_some {ifaceType : PortType} {ifaceNo : ℤ} {rxtx : PortRxtx} {id : ℕ}
    (h : sppCheckUsedPort L s ifaceType ifaceNo rxtx = .ok (some id)) :
    id < L.maxLcore ∧ (s.component id).type ≠ .unuse := by
  unfold sppCheckUsedPort at h
  split at h
  · cases h
  · cases h
  · have hfind := Except.ok.inj h
    have hused := List.find?_some hfind
    simp only [decide_eq_true_eq] at hused
    exact ⟨by simpa using List.mem_of_find?_eq_some hfind, hused.1⟩

/-- A port that `spp_check_used_port` reports free is held by no used component. -/
theorem sppCheckUsedPort_eq_none {ifaceType : PortType} {ifaceNo : ℤ} {rxtx : PortRxtx}
    {port : PortRef} (hport : ifaceEntry L ifaceType ifaceNo = .ok port)
    (h : sppCheckUsedPort L s ifaceType ifaceNo rxtx = .ok none) {i : ℕ} (hi : i < L.maxLcore)
    (hused : (s.component i).type ≠ .unuse) : port ∉ (s.component i).ports rxtx := by
  unfold ifaceEntry at hport
  unfold sppCheckUsedPort at h
  split at hport
  · rename_i p hinfo
    cases hport
    simp only [hinfo, Except.ok.injEq] at h
    rw [List.find?_eq_none] at h
    have := h i (List.mem_range.mpr hi)
    simpa [hused] using this
  · cases hport
  · cases hport

end Search

section Start

/-- The edit of a successful `component start` in slot `id`. -/
def startEdit (s : MngData) (id : ℕ) (c : CommandComponent) : MngData :=
  (((s.setComponent id
      { name := c.name, type := c.type, lcoreId := c.core, componentId := id }).setUpdList c.core
        ((s.core c.core).updList ++ [id])).setChangeComponent id true).setChangeCore c.core

/-- The edit of `component stop` for the component in slot `id`. -/
def stopEdit (s : MngData) (id : ℕ) : MngData :=
  (((s.setComponent id {}).setUpdList (s.component id).lcoreId
      ((delComponentInfo id (s.core (s.component id).lcoreId).updList).getD
        (s.core (s.component id).lcoreId).updList)).setChangeComponent id false).setChangeCore
          (s.component id).lcoreId

/-- Replacing an update side by itself changes nothing. -/
theorem setUpdList_self (s : MngData) (lcoreId : ℕ) :
    s.setUpdList lcoreId (s.core lcoreId).updList = s := by
  unfold MngData.setUpdList CoreMngInfo.updList
  rw [Function.update_eq_self, Function.update_eq_self]

/-- A start takes an unused slot for a new name on a core that is in use. -/
theorem sppUpdateComponent_start (c : CommandComponent) (haction : c.action = .start)
    (h : sppUpdateComponent L s c = .ok s') :
    (s.core c.core).status ≠ .unuse ∧ sppGetComponentId L s c.name = none ∧
      ∃ id, getFreeComponent L s = some id ∧ s' = startEdit s id c := by
  unfold sppUpdateComponent at h
  simp only [haction] at h
  unfold sppUpdateComponentStart at h
  split at h
  · cases h
  · rename_i hstatus
    split at h
    · cases h
    · rename_i hname
      split at h
      · cases h
      · rename_i id hfree
        exact ⟨hstatus, by simpa using hname, id, hfree, (Except.ok.inj h).symm⟩

/-- A stop of an unknown name does nothing; otherwise it empties the slot. -/
theorem sppUpdateComponent_stop (c : CommandComponent) (haction : c.action = .stop)
    (h : sppUpdateComponent L s c = .ok s') :
    (sppGetComponentId L s c.name = none ∧ s' = s) ∨
      ∃ id, sppGetComponentId L s c.name = some id ∧ s' = stopEdit s id := by
  unfold sppUpdateComponent at h
  simp only [haction, Except.ok.injEq] at h
  unfold sppUpdateComponentStop at h
  cases hid : sppGetComponentId L s c.name with
  | none => exact .inl ⟨rfl, by simpa [hid] using h.symm⟩
  | some id =>
    refine .inr ⟨id, rfl, ?_⟩
    rw [← h]
    have hself := setUpdList_self (s.setComponent id {}) (s.component id).lcoreId
    simp only [MngData.setComponent_core] at hself
    cases hdel : delComponentInfo id (s.core (s.component id).lcoreId).updList with
    | some ids => simp only [hid, stopEdit, MngData.setComponent_core, hdel, Option.getD_some]
    | none => simp only [hid, stopEdit, MngData.setComponent_core, hdel, Option.getD_none, hself]

end Start

section Port

/-- The edit of `port add` for a port not yet attached; `info` is the port with
the ability of the request stored. -/
def attachEdit (s : MngData) (id : ℕ) (port : PortRef) (c : CommandPort) (info : PortInfo) :
    MngData :=
  ((s.setIface port { info with ifaceType := c.port.ifaceType }).setComponent id
    ((s.component id).setPorts c.rxtx ((s.component id).ports c.rxtx ++ [port]))).setChangeComponent
      id true

/-- A `port add` respects the limits of the component's type. It attaches a
port that the component does not hold yet, replaces the tag of one that it
holds, or does nothing. -/
theorem sppUpdatePortAdd_cases {id : ℕ} {port : PortRef} {c : CommandPort}
    (h : sppUpdatePortAdd L s id port c = .ok s') :
    checkPortCount (s.component id).type c.rxtx (s.component id).rxPorts.length
        (s.component id).txPorts.length = .ok ∧
      ((port ∈ (s.component id).ports c.rxtx ∧ c.ability.ope = .addVlantag ∧
          ∃ cnt, findAbility (s.iface port) .addVlantag = some cnt ∧
            s' = (s.setIface port ((s.iface port).setAbility cnt c.ability)).setChangeComponent
              id true) ∨
        (port ∈ (s.component id).ports c.rxtx ∧ c.ability.ope ≠ .addVlantag ∧ s' = s) ∨
        (port ∉ (s.component id).ports c.rxtx ∧
          ((s.component id).ports c.rxtx).length < L.maxEthports ∧
          ∃ info, s' = attachEdit s id port c info ∧
            (c.ability.ope = .none ∧ info = s.iface port ∨
              c.ability.ope ≠ .none ∧ ∃ cnt, findAbility (s.iface port) .none = some cnt ∧
                info = (s.iface port).setAbility cnt c.ability))) := by
  unfold sppUpdatePortAdd at h
  dsimp only at h
  split at h
  · cases h
  rename_i hcount
  refine ⟨not_not.mp hcount, ?_⟩
  split at h
  · rename_i hheld
    have hmem : port ∈ (s.component id).ports c.rxtx := by
      by_contra hnot
      rw [checkPortElement, lastIdxOf?_eq_none.mpr hnot] at hheld
      cases hheld
    split at h
    · rename_i hope
      split at h
      · cases h
      · rename_i cnt hcnt
        exact .inl ⟨hmem, hope, cnt, hcnt, (Except.ok.inj h).symm⟩
    · rename_i hope
      exact .inr (.inl ⟨hmem, hope, (Except.ok.inj h).symm⟩)
  · rename_i hheld
    have hnot : port ∉ (s.component id).ports c.rxtx := by
      apply lastIdxOf?_eq_none.mp
      simpa [checkPortElement] using hheld
    split at h
    · cases h
    rename_i hroom
    refine .inr (.inr ⟨hnot, Nat.lt_of_not_ge hroom, ?_⟩)
    split at h
    · rename_i hope
      split at h
      · cases h
      · rename_i cnt hcnt
        exact ⟨_, (Except.ok.inj h).symm, .inr ⟨hope, cnt, hcnt, rfl⟩⟩
    · rename_i hope
      exact ⟨_, (Except.ok.inj h).symm, .inl ⟨not_not.mp hope, rfl⟩⟩

/-- A successful `port` command names a component and a port of the tables. -/
theorem sppUpdatePort_cases {c : CommandPort} (h : sppUpdatePort L s c = .ok s') :
    ∃ id port, sppGetComponentId L s c.name = some id ∧
      ifaceEntry L c.port.ifaceType c.port.ifaceNo = .ok port ∧
      (c.action = .add ∧ sppUpdatePortAdd L s id port c = .ok s' ∨
        c.action = .del ∧ s' = sppUpdatePortDel s id port c.rxtx) := by
  unfold sppUpdatePort at h
  split at h
  · cases h
  · rename_i id hid
    split at h
    · cases h
    · rename_i port hport
      refine ⟨id, port, hid, hport, ?_⟩
      split at h
      · rename_i haction
        exact .inl ⟨haction, h⟩
      · rename_i haction
        exact .inr ⟨haction, (Except.ok.inj h).symm⟩
      · cases h

end Port

section ClassifierTable

/-- Flagging the component of a port sets at most the flag of a used component. -/
theorem setComponentChangePort_cases {port : PortRef} {rxtx : PortRxtx}
    (h : setComponentChangePort L s port rxtx = .ok s') :
    s' = s ∨ ∃ id, id < L.maxLcore ∧ (s.component id).type ≠ .unuse ∧
      s' = s.setChangeComponent id true := by
  unfold setComponentChangePort at h
  split at h
  · cases h
  · exact .inl (Except.ok.inj h).symm
  · rename_i id hused
    obtain ⟨hid, htype⟩ := sppCheckUsedPort_eq_some hused
    exact .inr ⟨id, hid, htype, (Except.ok.inj h).symm⟩

/-- A `classifier_table` command rewrites the class id of at most one port and
flags at most the component that transmits on it. -/
theorem sppUpdateClassifierTable_cases {table : CommandClassifierTable}
    (h : sppUpdateClassifierTable L s table = .ok s') :
    ∃ port classId, ∃ t : MngData,
      (t = s ∨ t = s.setIface port { s.iface port with classId := classId }) ∧
      (s' = t ∨ ∃ id, id < L.maxLcore ∧ (s.component id).type ≠ .unuse ∧
        s' = t.setChangeComponent id true) := by
  unfold sppUpdateClassifierTable at h
  obtain ⟨retMac, -, h⟩ := bind_eq_ok.mp h
  split at h
  · cases h
  obtain ⟨entry, -, h⟩ := bind_eq_ok.mp h
  cases entry with
  | none => cases h
  | some port =>
    dsimp only at h
    split at h
    · cases h
    split at h
    · split at h
      · cases h
      split at h
      · cases h
      · exact ⟨port, _, _, .inr rfl, setComponentChangePort_cases h⟩
    · split at h
      · cases h
      split at h
      · cases h
      obtain ⟨macAddrStr, -, h⟩ := bind_eq_ok.mp h
      exact ⟨port, _, _, .inr rfl, setComponentChangePort_cases h⟩
    · exact ⟨port, {}, s, .inl rfl, setComponentChangePort_cases h⟩

end ClassifierTable

section Flush

/-- An interface table after devices were created: an added interface without a
device may have got one, and nothing else changed. -/
def DeviceUpdate (iface iface' : PortRef → PortInfo) : Prop :=
  ∀ port, iface' port = iface port ∨
    (iface port).ifaceType ≠ .undef ∧ (iface port).dpdkPort < 0 ∧
      ∃ d, 0 ≤ d ∧ iface' port = { iface port with dpdkPort := d }

theorem DeviceUpdate.refl (iface : PortRef → PortInfo) : DeviceUpdate iface iface :=
  fun _ => .inl rfl

/-- An interface gets a device only once. -/
theorem DeviceUpdate.trans {i₁ i₂ i₃ : PortRef → PortInfo} (h₁ : DeviceUpdate i₁ i₂)
    (h₂ : DeviceUpdate i₂ i₃) : DeviceUpdate i₁ i₃ := by
  intro port
  rcases h₁ port with heq | ⟨htype, hneg, d, hd, heq⟩
  · simpa only [heq] using h₂ port
  · rcases h₂ port with heq₂ | ⟨-, hneg₂, -⟩
    · exact .inr ⟨htype, hneg, d, hd, heq₂.trans heq⟩
    · rw [heq] at hneg₂
      exact absurd hneg₂ (Int.not_lt.mpr hd)

/-- Creating the device of one interface touches only its device number. -/
theorem flushPortEntry_snd (addPmd : ℕ → ℤ) (port : PortRef) (s : MngData) :
    ∃ iface', DeviceUpdate s.iface iface' ∧
      (flushPortEntry addPmd port s).2 = { s with iface := iface' } := by
  unfold flushPortEntry
  dsimp only
  split
  · rename_i hadded
    split
    · exact ⟨s.iface, .refl _, rfl⟩
    · rename_i hret
      refine ⟨_, fun p => ?_, rfl⟩
      by_cases hp : p = port
      · subst hp
        exact .inr ⟨hadded.1, hadded.2, _, Int.not_lt.mp hret, Function.update_self ..⟩
      · exact .inl (Function.update_of_ne hp ..)
  · exact ⟨s.iface, .refl _, rfl⟩

/-- A loop of `flush_port` touches only device numbers, wherever it stops. -/
theorem flushPortArray_snd (addPmd : ℕ → ℤ) (ports : List PortRef) (s : MngData) :
    ∃ iface', DeviceUpdate s.iface iface' ∧
      (flushPortArray addPmd ports s).2 = { s with iface := iface' } := by
  induction ports generalizing s with
  | nil => exact ⟨s.iface, .refl _, rfl⟩
  | cons port ports ih =>
    obtain ⟨iface₁, h₁, hentry⟩ := flushPortEntry_snd addPmd port s
    unfold flushPortArray
    split
    · rename_i t ht
      exact ⟨iface₁, h₁, by rw [← hentry, ht]⟩
    · rename_i t ht
      rw [ht] at hentry
      dsimp only at hentry
      subst hentry
      obtain ⟨iface₂, h₂, hrest⟩ := ih { s with iface := iface₁ }
      exact ⟨iface₂, h₁.trans h₂, hrest⟩

/-- `flush_port` touches only device numbers, whether it fails or not. -/
theorem flushPort_snd (L : Limits) (dev : Devices) (s : MngData) :
    ∃ iface', DeviceUpdate s.iface iface' ∧ (flushPort L dev s).2 = { s with iface := iface' } := by
  obtain ⟨iface₁, h₁, hvhost⟩ := flushPortArray_snd dev.addVhostPmd
    ((List.range L.maxEthports).map (PortRef.mk .vhost)) s
  unfold flushPort
  split
  · rename_i t ht
    exact ⟨iface₁, h₁, by rw [← hvhost, ht]⟩
  · rename_i t ht
    rw [ht] at hvhost
    dsimp only at hvhost
    subst hvhost
    obtain ⟨iface₂, h₂, hring⟩ := flushPortArray_snd dev.addRingPmd
      ((List.range L.maxEthports).map (PortRef.mk .ring)) { s with iface := iface₁ }
    exact ⟨iface₂, h₁.trans h₂, hring⟩

/-- A flush stops after `flush_port` if a device cannot be created. Otherwise
it publishes the core lists and clears the change flags, whatever
`flush_component` returns. -/
theorem sppFlush_cases {dev : Devices} {ret : Ret} (h : sppFlush L M dev s = (ret, s')) :
    ∃ iface', DeviceUpdate s.iface iface' ∧
      ((flushPort L dev s = (.ng, s') ∧ ret = .ng ∧ s' = { s with iface := iface' }) ∨
        (flushPort L dev s = (.ok, { s with iface := iface' }) ∧
          ret = flushComponent L M dev (flushCore L { s with iface := iface' }) ∧
          s' = backupMngInfo L (flushCore L { s with iface := iface' }))) := by
  obtain ⟨iface', hdev, hport⟩ := flushPort_snd L dev s
  refine ⟨iface', hdev, ?_⟩
  unfold sppFlush at h
  split at h
  · rename_i t ht
    rw [ht] at hport
    cases h
    exact .inl ⟨ht, rfl, hport⟩
  · rename_i t ht
    rw [ht] at hport
    dsimp only at hport
    subst hport
    cases h
    exact .inr ⟨ht, rfl, rfl⟩

/-- An lcore whose indices differ still has differing indices after a flush. -/
theorem flushCore_indices_ne {l : ℕ} (h : (s.core l).refIndex ≠ (s.core l).updIndex) :
    ((flushCore L s).core l).refIndex ≠ ((flushCore L s).core l).updIndex := by
  simp only [flushCore]
  split
  · simp only [CoreMngInfo.publish, CoreMngInfo.takeUpdate, CoreMngInfo.copyBack, if_true]
    omega
  · exact h

/-- The other area of a core whose indices differ. -/
theorem refIndex_add_one {c : CoreMngInfo} (h : c.refIndex ≠ c.updIndex) :
    c.refIndex + 1 = c.updIndex := by
  omega

/-- A flush leaves every update-side list as it is. -/
theorem updList_flushCore {l : ℕ} (h : (s.core l).refIndex ≠ (s.core l).updIndex) :
    ((flushCore L s).core l).updList = (s.core l).updList := by
  simp only [flushCore]
  split
  · simp [CoreMngInfo.publish, CoreMngInfo.takeUpdate, CoreMngInfo.copyBack, CoreMngInfo.updList,
      CoreMngInfo.refList, refIndex_add_one h]
  · rfl

/-- After a flush the worker of a flagged core runs the list of its update side. -/
theorem refList_flushCore {l : ℕ} (hl : l < L.maxLcore) (hflag : s.changeCore l = true)
    (h : (s.core l).refIndex ≠ (s.core l).updIndex) :
    ((flushCore L s).core l).refList = (s.core l).updList := by
  simp only [flushCore]
  rw [if_pos ⟨hl, hflag⟩]
  simp [CoreMngInfo.publish, CoreMngInfo.takeUpdate, CoreMngInfo.copyBack, CoreMngInfo.updList,
    CoreMngInfo.refList, refIndex_add_one h, h.symm]

end Flush

section Request

/-- The tables change only through an update function followed by a flush. -/
theorem processRequest_cases {r : Request} {ret : Ret}
    (h : processRequest L M r s = some (ret, s')) :
    s' = s ∨ ∃ command s₁, sppCommandDecodeRequest L M s r.text = .ok command ∧
      updateCommand L s command = some (.ok s₁) ∧ sppFlush L M r.dev s₁ = (ret, s') := by
  unfold processRequest at h
  split at h
  · cases h
  · cases h
    exact .inl rfl
  · rename_i command hdecode
    unfold executeCommand at h
    split at h
    · cases h
      exact .inl rfl
    · cases h
    · cases h
      exact .inl rfl
    · rename_i s₁ hupdate
      exact .inr ⟨command, s₁, hdecode, hupdate, Option.some.inj h⟩

/-- The commands that reach the flush. -/
theorem updateCommand_cases {command : SppCommand} (h : updateCommand L s command = some (.ok s')) :
    (∃ c, command = .component c ∧ sppUpdateComponent L s c = .ok s') ∨
      (∃ c, command = .port c ∧ sppUpdatePort L s c = .ok s') ∨
      ∃ c, (command = .classifierTableMac c ∨ command = .classifierTableVlan c) ∧
        sppUpdateClassifierTable L s c = .ok s' := by
  cases command with
  | classifierTableMac c => exact .inr (.inr ⟨c, .inl rfl, Option.some.inj h⟩)
  | classifierTableVlan c => exact .inr (.inr ⟨c, .inr rfl, Option.some.inj h⟩)
  | clientId => cases h
  | status => cases h
  | exit => cases h
  | component c => exact .inl ⟨c, rfl, Option.some.inj h⟩
  | port c => exact .inr (.inl ⟨c, rfl, Option.some.inj h⟩)

/-- A served request was processed with some reply. -/
theorem serve_eq_some {r : Request} : serve L M r s = some s' ↔
    ∃ ret, processRequest L M r s = some (ret, s') := by
  simp [serve]

end Request

end Spp.Vf
