import Spp.Vf.WorkerPathInv

/-!
# When workers forward along their own paths

The steps of the manager keep the invariant of the previous module as long as
no slot is reused while it has a path that is run. `spp_forward` has no check of
its own, and `g_forward_info` is not cleared when a component is stopped: the
run at the end starts a forwarder in the slot of another one, and the worker
forwards along the old path before the new one is handed over.
-/

namespace Spp.Vf

open CLib GuardedRun

variable {L : Limits} {w w' : World} {id : ℕ}

section Tables

/-- The tables speak of components, lists, paths, workers and history only. -/
theorem WorldTables.congr (h : WorldTables L w) (hcomponent : w'.s.component = w.s.component)
    (hcore : w'.s.core = w.s.core) (hforward : w'.forward = w.forward)
    (hworker : w'.worker = w.worker) (hhome : w'.home = w.home) (hheld : w'.held = w.held) :
    WorldTables L w' := by
  constructor <;>
    simp only [hcomponent, hcore, hforward, hworker, hhome, hheld, World.Fine, World.PathHeld]
  · exact h.lists
  · exact h.nodup
  · exact h.home_lt
  · exact h.held
  · exact h.workers
  · exact h.called
  · exact h.area
  · exact h.fine

theorem MngData.setComponent_self (s : MngData) (id : ℕ) (slot : ComponentInfo) :
    (s.setComponent id slot).component id = slot := by
  simp

theorem MngData.setComponent_ne (s : MngData) {id i : ℕ} (slot : ComponentInfo) (h : i ≠ id) :
    (s.setComponent id slot).component i = s.component i := by
  simp [h]

/-- A store to a slot. If the slot is listed, it does not become a classifier
and has a path of its own. -/
theorem WorldTables.setComponent (h : WorldTables L w) (id : ℕ) (slot : ComponentInfo)
    (hrx : ∀ p ∈ slot.rxPorts, p ∈ w.held id .rx) (htx : ∀ p ∈ slot.txPorts, p ∈ w.held id .tx)
    (hlisted : ∀ l a, id ∈ (w.s.core l).core a → slot.type ≠ .classifierMac ∧ w.Fine id) :
    WorldTables L { w with s := w.s.setComponent id slot } where
  lists := h.lists
  nodup := h.nodup
  home_lt := h.home_lt
  held i := by
    by_cases hi : i = id
    · subst hi
      rw [MngData.setComponent_self]
      exact ⟨hrx, htx⟩
    · rw [MngData.setComponent_ne _ _ hi]
      exact h.held i
  workers := h.workers
  called l i hcalled := by
    by_cases hi : i = id
    · subst hi
      rw [MngData.setComponent_self]
      exact (hlisted l _ (h.workers l i (LcorePc.mem_ids_of_called hcalled))).1
    · rw [MngData.setComponent_ne _ _ hi]
      exact h.called l i hcalled
  area := h.area
  fine l a i hmem htype := by
    by_cases hi : i = id
    · subst hi
      exact (hlisted l a hmem).2
    · rw [MngData.setComponent_ne _ _ hi] at htype
      exact h.fine l a i hmem htype

/-- The history of a component that is in no list and has no ports is forgotten. -/
theorem WorldTables.forget (h : WorldTables L w) (hgone : ∀ l a, id ∉ (w.s.core l).core a)
    (hslot : w.s.component id = {}) :
    WorldTables L { w with
      home := Function.update w.home id none
      held := Function.update w.held id fun _ => [] } where
  lists l a i hmem := by
    have hi : i ≠ id := fun hi => hgone l a (hi ▸ hmem)
    dsimp only
    rw [Function.update_of_ne hi]
    exact h.lists l a i hmem
  nodup := h.nodup
  home_lt i l hhome := by
    dsimp only at hhome
    by_cases hi : i = id
    · subst hi
      rw [Function.update_self] at hhome
      cases hhome
    · rw [Function.update_of_ne hi] at hhome
      exact h.home_lt i l hhome
  held i := by
    by_cases hi : i = id
    · subst hi
      rw [hslot]
      exact ⟨nofun, nofun⟩
    · dsimp only
      rw [Function.update_of_ne hi]
      exact h.held i
  workers := h.workers
  called := h.called
  area := h.area
  fine l a i hmem htype := by
    have hi : i ≠ id := fun hi => hgone l a (hi ▸ hmem)
    refine (h.fine l a i hmem htype).mono rfl fun rxtx p hp => ?_
    dsimp only
    rwa [Function.update_of_ne hi]

/-- A component that is in no list is put on an lcore. -/
theorem WorldTables.seat (h : WorldTables L w) {l : ℕ} (hhome : w.home id = none)
    (hl : l < L.maxLcore) :
    WorldTables L { w with home := Function.update w.home id (some l) } where
  lists l' a i hmem := by
    have hi : i ≠ id := fun hi => h.unlisted hhome l' a (hi ▸ hmem)
    dsimp only
    rw [Function.update_of_ne hi]
    exact h.lists l' a i hmem
  nodup := h.nodup
  home_lt i l' hi' := by
    dsimp only at hi'
    by_cases hi : i = id
    · subst hi
      rw [Function.update_self] at hi'
      rwa [← Option.some.inj hi']
    · rw [Function.update_of_ne hi] at hi'
      exact h.home_lt i l' hi'
  held := h.held
  workers := h.workers
  called := h.called
  area := h.area
  fine := h.fine

/-- A core whose areas hold lists that it held before, and whose worker still
has the same list. -/
theorem WorldTables.setCore (h : WorldTables L w) (l : ℕ) (core : CoreMngInfo)
    (hareas : ∀ a, ∃ b, core.core a = (w.s.core l).core b)
    (href : core.refList = (w.s.core l).refList) : WorldTables L (w.setCore l core) := by
  have harea : ∀ l' a, ∃ b, ((w.setCore l core).s.core l').core a = (w.s.core l').core b := by
    intro l' a
    rw [World.setCore_core]
    split
    · rename_i hl
      rw [hl]
      exact hareas a
    · exact ⟨a, rfl⟩
  refine ⟨fun l' a i hmem => ?_, fun l' a => ?_, h.home_lt, h.held, fun l' i hi => ?_, h.called,
    h.area, fun l' a i hmem htype => ?_⟩
  · obtain ⟨b, hb⟩ := harea l' a
    exact h.lists l' b i (hb ▸ hmem)
  · obtain ⟨b, hb⟩ := harea l' a
    exact hb ▸ h.nodup l' b
  · have hmem := h.workers l' i hi
    rw [World.setCore_core]
    split
    · rename_i hl
      rw [hl] at hmem
      rwa [href]
    · exact hmem
  · obtain ⟨b, hb⟩ := harea l' a
    exact h.fine l' b i (hb ▸ hmem) htype

/-- An update side is replaced by a list of ids that belong to the lcore. -/
theorem WorldTables.setUpdList (h : WorldTables L w) (l : ℕ) (ids : List ℕ)
    (hne : (w.s.core l).refIndex ≠ (w.s.core l).updIndex) (hnodup : ids.Nodup)
    (hhome : ∀ i ∈ ids, w.home i = some l)
    (hfine : ∀ i ∈ ids, (w.s.component i).type ≠ .classifierMac → w.Fine i) :
    WorldTables L { w with s := w.s.setUpdList l ids } := by
  have harea : ∀ l' a, ((w.s.setUpdList l ids).core l').core a = ids ∧ l' = l ∨
      ((w.s.setUpdList l ids).core l').core a = (w.s.core l').core a := by
    intro l' a
    by_cases hl : l' = l
    · subst hl
      by_cases ha : a = (w.s.core l').updIndex
      · subst ha
        exact .inl ⟨by simp, rfl⟩
      · exact .inr (by simp [ha])
    · exact .inr (by simp [hl])
  refine ⟨fun l' a i hmem => ?_, fun l' a => ?_, h.home_lt, h.held, fun l' i hi => ?_, h.called,
    h.area, fun l' a i hmem htype => ?_⟩
  · rcases harea l' a with ⟨heq, rfl⟩ | heq <;> rw [heq] at hmem
    · exact hhome i hmem
    · exact h.lists l' a i hmem
  · rcases harea l' a with ⟨heq, rfl⟩ | heq <;> rw [heq]
    · exact hnodup
    · exact h.nodup l' a
  · rw [refList_setUpdList hne]
    exact h.workers l' i hi
  · rcases harea l' a with ⟨heq, rfl⟩ | heq <;> rw [heq] at hmem
    · exact hfine i hmem htype
    · exact h.fine l' a i hmem htype

/-- A path is stored or handed over; the worker of the id still has the same one. -/
theorem WorldTables.setForward (h : WorldTables L w) (id : ℕ) (info : ForwardInfo)
    (href : info.refIndex = (w.forward id).refIndex)
    (hfine : w.Fine id → (w.setForward id info).Fine id) :
    WorldTables L (w.setForward id info) := by
  refine ⟨h.lists, h.nodup, h.home_lt, h.held, h.workers, h.called, fun l i a ids hpc => ?_,
    fun l a i hmem htype => ?_⟩
  · rw [World.setForward_forward]
    split
    · rename_i hi
      rw [href, ← hi]
      exact h.area l i a ids hpc
    · exact h.area l i a ids hpc
  · have hold := h.fine l a i hmem htype
    by_cases hi : i = id
    · subst hi
      exact hfine hold
    · refine hold.mono ?_ fun rxtx p hp => hp
      rw [World.setForward_forward, if_neg hi]

end Tables

section Finish

variable {stopped : Option ℕ}

/-- A slot that a step leaves alone. -/
theorem slot_congr {i : ℕ} (h : w.FreeSlot i ∨ w.SeatedSlot i)
    (hcomponent : w'.s.component i = w.s.component i) (hhome : w'.home i = w.home i)
    (hflag : w.s.changeComponent i = false → w'.s.changeComponent i = false) :
    w'.FreeSlot i ∨ w'.SeatedSlot i := by
  refine h.imp (fun hfree => ?_) fun hseated => ?_
  · refine ⟨?_, ?_, ?_, hflag hfree.flag⟩
    · rw [hcomponent]
      exact hfree.name
    · rw [hcomponent]
      exact hfree.type
    · rw [hhome]
      exact hfree.home
  · refine ⟨?_, ?_, ?_⟩
    · rw [hcomponent]
      exact hseated.name
    · rw [hcomponent]
      exact hseated.componentId
    · rw [hcomponent, hhome]
      exact hseated.home

/-- When a command is completed, the component that it has stopped is in no list. -/
theorem WorldTables.finish (h : WorldTables L w)
    (hslots : ∀ i, stopped ≠ some i → w.FreeSlot i ∨ w.SeatedSlot i)
    (hcores : w.CoresApart) (hpaths : w.PathsApart)
    (hstop : w.Stopped stopped fun i l => (w.s.core l).Gone i) :
    WorldInv L (w.finish stopped) := by
  cases stopped with
  | none =>
    exact { toWorldTables := h.congr rfl rfl rfl rfl rfl rfl
            slots := fun i _ => slot_congr (hslots i nofun) rfl rfl id
            manager := ⟨hcores, hpaths⟩ }
  | some id =>
    obtain ⟨hslot, hflag, hgone⟩ := hstop id rfl
    have hunlisted : ∀ l a, id ∉ (w.s.core l).core a := fun l a hmem =>
      hgone l (h.lists l a id hmem) a hmem
    refine { toWorldTables := (h.forget hunlisted hslot).congr rfl rfl rfl rfl rfl rfl
             slots := fun i _ => ?_, manager := ⟨hcores, hpaths⟩ }
    by_cases hi : i = id
    · subst hi
      refine .inl ⟨?_, ?_, Function.update_self _ _ _, hflag⟩
      · exact congrArg ComponentInfo.name hslot
      · exact congrArg ComponentInfo.type hslot
    · exact slot_congr (hslots i fun heq => hi (Option.some.inj heq).symm) rfl
        (Function.update_of_ne hi _ _) fun hf => hf

theorem backupMngInfo_changeComponent {s : MngData} {i : ℕ} (h : s.changeComponent i = false) :
    (backupMngInfo L s).changeComponent i = false := by
  simp [backupMngInfo, h]

/-- The change flags are cleared at the end of a flush. -/
theorem WorldTables.finish_backup (h : WorldTables L w)
    (hslots : ∀ i, stopped ≠ some i → w.FreeSlot i ∨ w.SeatedSlot i)
    (hcores : w.CoresApart) (hpaths : w.PathsApart)
    (hstop : w.Stopped stopped fun i l => (w.s.core l).Gone i) :
    WorldInv L (World.finish { w with s := backupMngInfo L w.s } stopped) := by
  refine WorldTables.finish (h.congr rfl rfl rfl rfl rfl rfl) (fun i hi => ?_) hcores hpaths
    fun i hi => ?_
  · exact slot_congr (hslots i hi) rfl rfl backupMngInfo_changeComponent
  · obtain ⟨hslot, hflag, hgone⟩ := hstop i hi
    exact ⟨hslot, backupMngInfo_changeComponent hflag, hgone⟩

end Finish

section ManagerSteps

variable {dev : Devices}

/-- The manager moves on without a store. -/
theorem WorldInv.moveManager (h : WorldInv L w) {pc : CommandPc} (hbusy : pc.busy = w.manager.busy)
    (hm : World.ManagerOk L { w with manager := pc }) : WorldInv L { w with manager := pc } where
  toWorldTables := h.toWorldTables.congr rfl rfl rfl rfl rfl rfl
  slots i hi := slot_congr (h.slots i (hbusy ▸ hi)) rfl rfl id
  manager := hm

/-- A store to a field of the slot that is being filled. -/
theorem SlotField.store_ports (field : SlotField) (id : ℕ) (c : CommandComponent)
    (slot : ComponentInfo) :
    (field.store id c slot).rxPorts = slot.rxPorts ∧
      (field.store id c slot).txPorts = slot.txPorts := by
  cases field <;> exact ⟨rfl, rfl⟩

theorem WorldInv.fill (h : WorldInv L w) {c : CommandComponent} {field : SlotField}
    {fields : List SlotField} (hpc : w.manager = .filling id c (field :: fields)) :
    WorldInv L { w with
      s := w.s.setComponent id (field.store id c (w.s.component id))
      manager := .filling id c fields } := by
  have hm := h.manager
  simp only [World.ManagerOk, hpc] at hm
  obtain ⟨hcores, hpaths, hfill⟩ := hm
  obtain ⟨hrx, htx⟩ := field.store_ports id c (w.s.component id)
  have htables := h.setComponent id (field.store id c (w.s.component id))
    (hrx ▸ (h.held id).1) (htx ▸ (h.held id).2) fun l a hmem =>
      absurd hmem (h.unlisted hfill.home l a)
  refine { toWorldTables := htables.congr rfl rfl rfl rfl rfl rfl, slots := fun i hi => ?_,
           manager := ⟨hcores, hpaths, hfill.home, hfill.flag, ?_, hfill.core_lt, hfill.name_ne,
             hfill.path⟩ }
  · have hne : i ≠ id := fun heq => hi (heq ▸ rfl)
    exact slot_congr (h.slots i (hpc ▸ hi)) (MngData.setComponent_ne _ _ hne) rfl fun hf => hf
  · dsimp only
    rw [MngData.setComponent_self]
    exact hfill.slot

/-- An edit of an update side moves no index. -/
theorem setUpdList_apart (hcores : w.CoresApart) (l : ℕ) (ids : List ℕ) (l' : ℕ) :
    ((w.s.setUpdList l ids).core l').refIndex ≠ ((w.s.setUpdList l ids).core l').updIndex := by
  obtain ⟨href, hupd, -⟩ := core_setUpdList_indices w.s l l' ids
  rw [href, hupd]
  exact hcores l'

/-- The id of a filled slot is appended to the list of its lcore. -/
theorem WorldInv.enlist (h : WorldInv L w) {c : CommandComponent}
    (hpc : w.manager = .filling id c []) :
    WorldInv L { w with
      s := ((w.s.setUpdList c.core ((w.s.core c.core).updList ++ [id])).setChangeComponent id
        true).setChangeCore c.core
      manager := .flushing none
      home := Function.update w.home id (some c.core) } := by
  have hm := h.manager
  simp only [World.ManagerOk, hpc] at hm
  obtain ⟨hcores, hpaths, hfill⟩ := hm
  have hslot := hfill.slot
  rw [List.foldl_nil] at hslot
  have hlist := h.lists c.core (w.s.core c.core).updIndex
  have hseat := h.seat hfill.home hfill.core_lt
  have htables := hseat.setUpdList c.core ((w.s.core c.core).updList ++ [id])
    (hcores c.core) ?nodup ?homes ?fine
  case nodup =>
    refine List.nodup_append.mpr ⟨h.nodup _ _, List.nodup_singleton id, fun i hi j hj => ?_⟩
    rw [List.mem_singleton.mp hj]
    rintro rfl
    exact h.unlisted hfill.home _ _ hi
  case homes =>
    intro i hi
    rcases List.mem_append.mp hi with hmem | hmem
    · exact hseat.lists c.core _ i hmem
    · rw [List.mem_singleton.mp hmem]
      exact Function.update_self _ _ _
  case fine =>
    intro i hi htype
    rcases List.mem_append.mp hi with hmem | hmem
    · exact h.fine c.core _ i hmem htype
    · rw [List.mem_singleton.mp hmem] at htype ⊢
      dsimp only at htype
      rw [hslot] at htype
      refine ⟨fun hrun => ?_, fun heq => absurd heq (hpaths id)⟩
      rw [hfill.path htype] at hrun
      cases hrun
  refine { toWorldTables := htables.congr rfl rfl rfl rfl rfl rfl, slots := fun i _ => ?_,
           manager := ⟨fun l => ?_, hpaths, nofun⟩ }
  · by_cases hi : i = id
    · subst hi
      refine .inr ⟨?_, ?_, ?_⟩
      · exact hslot ▸ hfill.name_ne
      · exact congrArg ComponentInfo.componentId hslot
      · exact (Function.update_self _ _ _).trans
          (congrArg some (congrArg ComponentInfo.lcoreId hslot).symm)
    · have hbusy : w.manager.busy ≠ some i := by
        rw [hpc]
        exact fun heq => hi (Option.some.inj heq).symm
      exact slot_congr (h.slots i hbusy) rfl (Function.update_of_ne hi _ _) fun hf => by simp [hi, hf]
  · exact setUpdList_apart hcores _ _ l

/-- `del_component_info` removes one occurrence of the id. -/
theorem delComponentInfo_perm (id : ℕ) (ids : List ℕ) :
    ((delComponentInfo id ids).getD ids).Perm (ids.erase id) := by
  unfold delComponentInfo
  cases hidx : lastIdxOf? id ids with
  | none =>
    rw [List.erase_of_not_mem (lastIdxOf?_eq_none.mp hidx)]
    exact .refl ids
  | some k => exact eraseIdx_lastIdxOf?_perm hidx

/-- The id of a zeroed slot is deleted from the list of its lcore. -/
theorem WorldInv.delist (h : WorldInv L w) {l : ℕ} (hpc : w.manager = .delisting id l)
    {ids : List ℕ} (hids : ids.Perm ((w.s.core l).updList.erase id)) :
    WorldInv L { w with
      s := ((w.s.setUpdList l ids).setChangeComponent id false).setChangeCore l
      manager := .flushing (some id) } := by
  have hm := h.manager
  simp only [World.ManagerOk, hpc] at hm
  obtain ⟨hcores, hpaths, hslot, hhome⟩ := hm
  have hupd : (w.s.core l).updList.Nodup := h.nodup l _
  have hsub : ∀ i ∈ ids, i ∈ (w.s.core l).updList := fun i hi =>
    List.mem_of_mem_erase (hids.mem_iff.mp hi)
  have hnot : id ∉ ids := fun hi => hupd.not_mem_erase (hids.mem_iff.mp hi)
  have htables := h.setUpdList l ids (hcores l) (hids.nodup_iff.mpr (hupd.erase id))
    (fun i hi => h.lists l _ i (hsub i hi)) fun i hi => h.fine l _ i (hsub i hi)
  refine { toWorldTables := htables.congr rfl rfl rfl rfl rfl rfl, slots := fun i hi => ?_,
           manager := ⟨fun l' => setUpdList_apart hcores _ _ l', hpaths, fun i hi => ?_⟩ }
  · have hne : i ≠ id := fun heq => hi (heq ▸ rfl)
    exact slot_congr (h.slots i (hpc ▸ hi)) rfl rfl fun hf => by simp [hne, hf]
  · obtain rfl := Option.some.inj hi
    refine ⟨hslot, Function.update_self _ _ _, fun l' hl' => ?_⟩
    obtain rfl := Option.some.inj (hhome.symm.trans hl')
    refine ⟨Function.update_self _ _ _, ?_⟩
    change id ∉ ((w.s.setUpdList l ids).core l).updList
    rwa [updList_setUpdList, if_pos rfl]

/-- `flush_port` touches no component and no core. -/
theorem WorldInv.flush (h : WorldInv L w) {stopped : Option ℕ} (hpc : w.manager = .flushing stopped)
    (hguard : (flushPort L dev w.s).1 = .ng → ∀ id, stopped = some id →
      ∀ l, id ∉ (w.s.core l).refList)
    (hstep : Vf.commandStep L dev w = some w') : WorldInv L w' := by
  have hm := h.manager
  simp only [World.ManagerOk, hpc] at hm
  obtain ⟨hcores, hpaths, hstop⟩ := hm
  obtain ⟨iface', -, hs⟩ := flushPort_snd L dev w.s
  have hslots : ∀ i, stopped ≠ some i → w.FreeSlot i ∨ w.SeatedSlot i := fun i hi =>
    h.slots i (by rwa [hpc])
  unfold Vf.commandStep at hstep
  simp only [hpc] at hstep
  split at hstep
  · rename_i s hflush
    obtain rfl := Option.some.inj hstep
    rw [hflush] at hs hguard
    dsimp only at hs
    subst hs
    refine WorldTables.finish (h.toWorldTables.congr rfl rfl rfl rfl rfl rfl)
      (fun i hi => slot_congr (hslots i hi) rfl rfl fun hf => hf) hcores hpaths fun i hi => ?_
    obtain ⟨hslot, hflag, hlist⟩ := hstop i hi
    refine ⟨hslot, hflag, fun l hl a hmem => ?_⟩
    have hside : a = (w.s.core l).refIndex ∨ a = (w.s.core l).updIndex := by
      have := hcores l
      omega
    rcases hside with rfl | rfl
    · exact hguard rfl i hi l hmem
    · exact (hlist l hl).2 hmem
  · rename_i s hflush
    obtain rfl := Option.some.inj hstep
    rw [hflush] at hs
    dsimp only at hs
    subst hs
    refine { toWorldTables := h.toWorldTables.congr rfl rfl rfl rfl rfl rfl
             slots := fun i hi => slot_congr (hslots i hi) rfl rfl fun hf => hf
             manager := ⟨hpaths, List.nodup_range.filter _, fun l hl => ?_,
               fun l => .inl (hcores l), fun i hi => ?_⟩ }
    · simpa using hl
    · obtain ⟨hslot, hflag, hlist⟩ := hstop i hi
      refine ⟨hslot, hflag, fun l hl => ?_⟩
      obtain ⟨hchange, hupd⟩ := hlist l hl
      refine ⟨hchange, fun _ => ⟨hcores l, hupd⟩, fun hnot => absurd ?_ hnot⟩
      simpa using ⟨h.home_lt i l hl, hchange⟩

/-- `flush_core` hands over the list of one core. -/
theorem WorldInv.publish (h : WorldInv L w) {stopped : Option ℕ} {l : ℕ} {ls : List ℕ}
    (hpc : w.manager = .publishing stopped (l :: ls)) :
    WorldInv L { w.setCore l (w.s.core l).publish with manager := .publishing stopped ls } := by
  have hm := h.manager
  simp only [World.ManagerOk, hpc] at hm
  obtain ⟨hpaths, hnodup, hls, hcores, hstop⟩ := hm
  obtain ⟨hl, hrest⟩ := List.nodup_cons.mp hnodup
  have htables := h.setCore l (w.s.core l).publish (fun a => ⟨a, rfl⟩) rfl
  refine { toWorldTables := htables.congr rfl rfl rfl rfl rfl rfl
           slots := fun i hi => slot_congr (h.slots i (by rwa [hpc])) rfl rfl fun hf => hf
           manager := ⟨hpaths, hrest, fun l' hl' => hls l' (List.mem_cons_of_mem l hl'),
             fun l' => ?_, fun i hi => ?_⟩ }
  · dsimp only
    rw [World.setCore_core]
    split
    · rename_i heq
      rw [heq]
      exact .inr (hls l List.mem_cons_self)
    · exact hcores l'
  · obtain ⟨hslot, hflag, hlist⟩ := hstop i hi
    refine ⟨hslot, hflag, fun l' hl' => ?_⟩
    obtain ⟨hchange, hpending, hhanded⟩ := hlist l' hl'
    refine ⟨hchange, fun hmem => ?_, fun hmem => ?_⟩ <;> dsimp only <;> rw [World.setCore_core]
    · rw [if_neg fun heq : l' = l => hl (heq ▸ hmem)]
      exact hpending (List.mem_cons_of_mem l hmem)
    · split
      · -- the core that was just handed over
        rename_i heq
        rw [heq] at hpending
        obtain ⟨hne, hupd⟩ := hpending List.mem_cons_self
        simp only [CoreMngInfo.Handed, CoreMngInfo.publish, if_true]
        rwa [refIndex_add_one hne]
      · rename_i heq
        refine hhanded fun hcons => ?_
        exact (List.mem_cons.mp hcons).elim heq hmem

/-- Every flagged core has been handed over. -/
theorem WorldInv.published (h : WorldInv L w) {stopped : Option ℕ}
    (hpc : w.manager = .publishing stopped []) :
    WorldInv L { w with
      manager := .awaiting stopped ((List.range L.maxLcore).filter w.s.changeCore) } := by
  have hm := h.manager
  simp only [World.ManagerOk, hpc] at hm
  obtain ⟨hpaths, -, -, hcores, hstop⟩ := hm
  refine h.moveManager (by rw [hpc]; rfl) ⟨hpaths, fun l => (hcores l).imp_right fun hl => ?_,
    fun i hi => ?_⟩
  · simpa using hl
  · obtain ⟨hslot, hflag, hlist⟩ := hstop i hi
    refine ⟨hslot, hflag, fun l hl => .inl ⟨?_, (hlist l hl).2.2 List.not_mem_nil⟩⟩
    simpa using ⟨h.home_lt i l hl, (hlist l hl).1⟩

/-- A worker has taken its list, which is copied to the other side. -/
theorem WorldInv.copyBack (h : WorldInv L w) {stopped : Option ℕ} {l : ℕ} {ls : List ℕ}
    (hpc : w.manager = .awaiting stopped (l :: ls))
    (hne : (w.s.core l).refIndex ≠ (w.s.core l).updIndex) :
    WorldInv L { w.setCore l (w.s.core l).copyBack with manager := .awaiting stopped ls } := by
  have hm := h.manager
  simp only [World.ManagerOk, hpc] at hm
  obtain ⟨hpaths, hcores, hstop⟩ := hm
  have hareas : ∀ a, (w.s.core l).copyBack.core a = (w.s.core l).refList := by
    intro a
    by_cases ha : a = (w.s.core l).updIndex
    · simp [CoreMngInfo.copyBack, ha]
    · have href : a = (w.s.core l).refIndex := by omega
      simp [CoreMngInfo.copyBack, CoreMngInfo.refList, href, hne]
  have htables := h.setCore l (w.s.core l).copyBack (fun a => ⟨_, hareas a⟩) (hareas _)
  refine { toWorldTables := htables.congr rfl rfl rfl rfl rfl rfl
           slots := fun i hi => slot_congr (h.slots i (by rwa [hpc])) rfl rfl fun hf => hf
           manager := ⟨hpaths, fun l' => ?_, fun i hi => ?_⟩ }
  · dsimp only
    rw [World.setCore_core]
    split
    · exact .inl hne
    · rename_i heq
      exact (hcores l').imp_right fun hmem => (List.mem_cons.mp hmem).resolve_left heq
  · obtain ⟨hslot, hflag, hlist⟩ := hstop i hi
    refine ⟨hslot, hflag, fun l' hl' => ?_⟩
    dsimp only
    rw [World.setCore_core]
    split
    · -- the copy replaces the last list with the component
      rename_i heq
      rw [heq] at hl'
      refine .inr fun a => ?_
      rw [hareas]
      rcases hlist l hl' with ⟨-, hhanded⟩ | hgone
      · simpa only [CoreMngInfo.Handed, if_neg hne] using hhanded
      · exact hgone _
    · rename_i heq
      refine (hlist l' hl').imp_left (And.imp_left fun hmem => ?_)
      exact (List.mem_cons.mp hmem).resolve_left heq

/-- Every core has answered, so the component that is stopped is in no list. -/
theorem WorldInv.awaited (h : WorldInv L w) {stopped : Option ℕ}
    (hpc : w.manager = .awaiting stopped []) :
    WorldInv L { w with
      manager := .updating stopped ((List.range L.maxLcore).filter w.s.changeComponent) } := by
  have hm := h.manager
  simp only [World.ManagerOk, hpc] at hm
  obtain ⟨hpaths, hcores, hstop⟩ := hm
  refine h.moveManager (by rw [hpc]; rfl) ⟨fun l => (hcores l).resolve_right List.not_mem_nil,
    hpaths, fun i hi => ?_, fun i hi => ?_⟩
  · exact (List.mem_filter.mp hi).2
  · obtain ⟨hslot, hflag, hlist⟩ := hstop i hi
    exact ⟨hslot, hflag, fun l hl => (hlist l hl).resolve_left fun hmem =>
      List.not_mem_nil hmem.1⟩

/-- The path of a flagged component is stored. -/
theorem WorldInv.storePath (h : WorldInv L w) {stopped : Option ℕ} {ids : List ℕ}
    (hpc : w.manager = .updating stopped (id :: ids)) :
    WorldInv L { w.setForward id { w.forward id with
        path := Function.update (w.forward id).path (w.forward id).updIndex (w.s.component id) } with
      manager := .handing stopped id ids } := by
  have hm := h.manager
  simp only [World.ManagerOk, hpc] at hm
  obtain ⟨hcores, hpaths, hflags, hstop⟩ := hm
  have htables := h.setForward id { w.forward id with
    path := Function.update (w.forward id).path (w.forward id).updIndex (w.s.component id) } rfl
    fun hfine => by
      refine ⟨?_, fun heq => ?_⟩
      · rw [World.setForward_forward, if_pos rfl]
        dsimp only
        rw [Function.update_of_ne (hpaths id)]
        exact hfine.1
      · rw [World.setForward_forward, if_pos rfl] at heq
        exact absurd heq (hpaths id)
  refine { toWorldTables := htables.congr rfl rfl rfl rfl rfl rfl
           slots := fun i hi => slot_congr (h.slots i (by rwa [hpc])) rfl rfl fun hf => hf
           manager := ⟨hcores, fun i => ?_, fun i hi => hflags i (List.mem_cons_of_mem id hi), hstop,
             fun _ => ?_⟩ }
  · dsimp only
    rw [World.setForward_forward]
    split
    · exact hpaths id
    · exact hpaths i
  · dsimp only
    rw [World.setForward_forward, if_pos rfl]
    dsimp only
    rw [Function.update_self]
    exact h.held id

/-- `flush_component` updates one component, or leaves its loop. -/
theorem WorldInv.update (h : WorldInv L w) {stopped : Option ℕ} {ids : List ℕ}
    (hpc : w.manager = .updating stopped ids) (hstep : Vf.commandStep L dev w = some w') :
    WorldInv L w' := by
  have hm := h.manager
  simp only [World.ManagerOk, hpc] at hm
  obtain ⟨hcores, hpaths, hflags, hstop⟩ := hm
  have hslots : ∀ i, stopped ≠ some i → w.FreeSlot i ∨ w.SeatedSlot i := fun i hi =>
    h.slots i (by rwa [hpc])
  have hfinish : WorldInv L (World.finish { w with s := backupMngInfo L w.s } stopped) :=
    h.toWorldTables.finish_backup hslots hcores hpaths hstop
  cases ids with
  | nil =>
    unfold Vf.commandStep at hstep
    simp only [hpc, Option.some.injEq] at hstep
    exact hstep ▸ hfinish
  | cons id ids =>
    have hrest : ∀ i ∈ ids, w.s.changeComponent i = true := fun i hi =>
      hflags i (List.mem_cons_of_mem id hi)
    unfold Vf.commandStep at hstep
    simp only [hpc] at hstep
    split at hstep
    · split at hstep
      · obtain rfl := Option.some.inj hstep
        exact h.moveManager (by rw [hpc]; rfl) ⟨hcores, hpaths, hrest, hstop⟩
      · exact Option.some.inj hstep ▸ hfinish
    · split at hstep
      · exact Option.some.inj hstep ▸ hfinish
      · obtain rfl := Option.some.inj hstep
        have hflag := hflags id List.mem_cons_self
        have hbusy : stopped ≠ some id := fun heq => by
          rw [(hstop id heq).2.1] at hflag
          cases hflag
        obtain hfree | hseated := hslots id hbusy
        · rw [hfree.flag] at hflag
          cases hflag
        · rw [hseated.componentId]
          exact h.storePath hpc

/-- The path of a component is handed over. -/
theorem WorldInv.handOver (h : WorldInv L w) {stopped : Option ℕ} {ids : List ℕ}
    (hpc : w.manager = .handing stopped id ids) :
    WorldInv L { w.setForward id { w.forward id with updIndex := (w.forward id).refIndex } with
      manager := .waiting stopped id ids } := by
  have hm := h.manager
  simp only [World.ManagerOk, hpc] at hm
  obtain ⟨hcores, hpaths, hflags, hstop, hpath⟩ := hm
  have hne := hpaths id
  have htables := h.setForward id
    { w.forward id with updIndex := (w.forward id).refIndex } rfl fun hfine => by
      refine ⟨?_, fun _ => ?_⟩ <;> rw [World.setForward_forward, if_pos rfl]
      · exact hfine.1
      · have hnext : (w.forward id).refIndex + 1 = (w.forward id).updIndex := by omega
        dsimp only
        rw [hnext]
        exact hpath
  refine { toWorldTables := htables.congr rfl rfl rfl rfl rfl rfl
           slots := fun i hi => slot_congr (h.slots i (by rwa [hpc])) rfl rfl fun hf => hf
           manager := ⟨hcores, fun i => ?_, hflags, hstop⟩ }
  by_cases hi : i = id
  · exact .inr hi
  · refine .inl ?_
    dsimp only
    rw [World.setForward_forward, if_neg hi]
    exact hpaths i

/-- The worker has taken the path. -/
theorem WorldInv.answered (h : WorldInv L w) {stopped : Option ℕ} {ids : List ℕ}
    (hpc : w.manager = .waiting stopped id ids)
    (hne : (w.forward id).refIndex ≠ (w.forward id).updIndex) :
    WorldInv L { w with manager := .updating stopped ids } := by
  have hm := h.manager
  simp only [World.ManagerOk, hpc] at hm
  obtain ⟨hcores, hpaths, hflags, hstop⟩ := hm
  refine h.moveManager (by rw [hpc]; rfl) ⟨hcores, fun i => ?_, hflags, hstop⟩
  rcases hpaths i with hi | rfl
  · exact hi
  · exact hne

/-- A step of the manager in a command keeps the invariant. -/
theorem WorldInv.commandStep (h : WorldInv L w) (hguard : PathsInOrder L (.manager dev) w)
    (hstep : Vf.commandStep L dev w = some w') : WorldInv L w' := by
  cases hpc : w.manager with
  | idle => simp [Vf.commandStep, hpc] at hstep
  | filling id c fields =>
    cases fields with
    | nil =>
      simp only [Vf.commandStep, hpc, Option.some.injEq] at hstep
      exact hstep ▸ h.enlist hpc
    | cons field fields =>
      simp only [Vf.commandStep, hpc, Option.some.injEq] at hstep
      exact hstep ▸ h.fill hpc
  | delisting id l =>
    simp only [Vf.commandStep, hpc, Option.some.injEq] at hstep
    exact hstep ▸ h.delist hpc (delComponentInfo_perm id _)
  | flushing stopped =>
    refine h.flush hpc (fun hng id hid => ?_) hstep
    exact hguard id (hid ▸ hpc) hng
  | publishing stopped ls =>
    cases ls with
    | nil =>
      simp only [Vf.commandStep, hpc, Option.some.injEq] at hstep
      exact hstep ▸ h.published hpc
    | cons l ls =>
      simp only [Vf.commandStep, hpc, Option.some.injEq] at hstep
      exact hstep ▸ h.publish hpc
  | awaiting stopped ls =>
    cases ls with
    | nil =>
      simp only [Vf.commandStep, hpc, Option.some.injEq] at hstep
      exact hstep ▸ h.awaited hpc
    | cons l ls =>
      simp only [Vf.commandStep, hpc] at hstep
      split at hstep
      · exact Option.some.inj hstep ▸ h
      · rename_i hne
        exact Option.some.inj hstep ▸ h.copyBack hpc hne
  | updating stopped ids => exact h.update hpc hstep
  | handing stopped id ids =>
    simp only [Vf.commandStep, hpc, Option.some.injEq] at hstep
    exact hstep ▸ h.handOver hpc
  | waiting stopped id ids =>
    simp only [Vf.commandStep, hpc] at hstep
    split at hstep
    · exact Option.some.inj hstep ▸ h
    · rename_i hne
      exact Option.some.inj hstep ▸ h.answered hpc hne

end ManagerSteps

section Requests

/-- A start zeroes a free slot, whose component has not held a port. -/
theorem WorldInv.beginStart (h : WorldInv L w) {c : CommandComponent} (hidle : w.manager = .idle)
    (hcore : c.core < L.maxLcore)
    (hnoname : (w.s.component id).name = []) (hname : c.name ≠ [])
    (hpath : c.type ≠ .classifierMac →
      ((w.forward id).path (w.forward id).refIndex).forwardable = false) :
    WorldInv L { w with
      s := w.s.setComponent id {}
      held := Function.update w.held id fun _ => []
      manager := .filling id c [.name, .type, .lcoreId, .componentId] } := by
  have hm := h.manager
  simp only [World.ManagerOk, hidle] at hm
  obtain ⟨hcores, hpaths⟩ := hm
  have hslots : ∀ i, w.FreeSlot i ∨ w.SeatedSlot i := fun i =>
    h.slots i (by rw [hidle]; nofun)
  have hslot : w.FreeSlot id := (hslots id).resolve_right fun hseated => hseated.name hnoname
  have hunlisted := h.unlisted hslot.home
  have htables := (h.setComponent id {} nofun nofun fun l a hmem =>
    absurd hmem (hunlisted l a)).forget hunlisted (MngData.setComponent_self _ _ _)
  refine { toWorldTables := htables.congr rfl rfl rfl rfl ?_ rfl, slots := fun i hi => ?_,
           manager := ⟨hcores, hpaths, hslot.home, hslot.flag, ?_, hcore, hname, hpath⟩ }
  · dsimp only
    rw [← hslot.home, Function.update_eq_self]
  · have hne : i ≠ id := fun heq => hi (heq ▸ rfl)
    exact slot_congr (hslots i) (MngData.setComponent_ne _ _ hne) rfl fun hf => hf
  · dsimp only
    rw [MngData.setComponent_self]
    rfl

/-- A stop zeroes the slot of a component. -/
theorem WorldInv.beginStop (h : WorldInv L w) {name : CStr} (hidle : w.manager = .idle)
    (hfound : sppGetComponentId L w.s name = some id)
    (hpath : (w.s.component id).type = .classifierMac →
      w.PathHeld id ((w.forward id).path (w.forward id).refIndex)) :
    WorldInv L { w with
      s := w.s.setComponent id {}
      manager := .delisting id (w.s.component id).lcoreId } := by
  have hm := h.manager
  simp only [World.ManagerOk, hidle] at hm
  obtain ⟨hcores, hpaths⟩ := hm
  obtain ⟨-, hname, hne⟩ := sppGetComponentId_eq_some hfound
  have hslots : ∀ i, w.FreeSlot i ∨ w.SeatedSlot i := fun i =>
    h.slots i (by rw [hidle]; nofun)
  have hslot : w.SeatedSlot id := (hslots id).resolve_left fun hfree =>
    hne (hname.symm.trans hfree.name)
  have htables := h.setComponent id {} nofun nofun fun l a hmem => by
    refine ⟨nofun, ?_⟩
    by_cases htype : (w.s.component id).type = .classifierMac
    · exact ⟨hpath htype, fun heq => absurd heq (hpaths id)⟩
    · exact h.fine l a id hmem htype
  refine { toWorldTables := htables.congr rfl rfl rfl rfl rfl rfl, slots := fun i hi => ?_,
           manager := ⟨hcores, hpaths, MngData.setComponent_self _ _ _, hslot.home⟩ }
  have hne' : i ≠ id := fun heq => hi (heq ▸ rfl)
  exact slot_congr (hslots i) (MngData.setComponent_ne _ _ hne') rfl fun hf => hf

/-- A `port` or `classifier_table` command keeps the components on their cores;
the ports that a component gets are held from now on. -/
theorem WorldInv.beginUpdate (h : WorldInv L w) (hidle : w.manager = .idle) {s' : MngData}
    (hkept : SlotsKept w.s s')
    (hflags : ∀ i, s'.changeComponent i = true →
      w.s.changeComponent i = true ∨ ¬ w.FreeSlot i) :
    WorldInv L { w with
      s := s'
      held := fun id rxtx => w.held id rxtx ++ (s'.component id).ports rxtx
      manager := .flushing none } := by
  have hm := h.manager
  simp only [World.ManagerOk, hidle] at hm
  obtain ⟨hcores, hpaths⟩ := hm
  have hslots : ∀ i, w.FreeSlot i ∨ w.SeatedSlot i := fun i =>
    h.slots i (by rw [hidle]; nofun)
  refine { lists := ?_, nodup := ?_, home_lt := h.home_lt, held := fun i => ?_, workers := ?_,
           called := ?_, area := h.area, fine := fun l a i hmem htype => ?_, slots := fun i _ => ?_,
           manager := ⟨?_, hpaths, nofun⟩ }
  · simpa only [hkept.core] using h.lists
  · simpa only [hkept.core] using h.nodup
  · exact ⟨fun p hp => List.mem_append_right _ hp, fun p hp => List.mem_append_right _ hp⟩
  · simpa only [hkept.core] using h.workers
  · simpa only [hkept.type] using h.called
  · simp only [hkept.core] at hmem
    simp only [hkept.type] at htype
    exact (h.fine l a i hmem htype).mono rfl fun rxtx p hp => List.mem_append_left _ hp
  · refine (hslots i).imp (fun hfree => ?_) fun hseated => ?_
    · refine ⟨?_, ?_, hfree.home, ?_⟩
      · simpa only [hkept.name] using hfree.name
      · simpa only [hkept.type] using hfree.type
      · cases hflag : s'.changeComponent i with
        | false => rfl
        | true =>
          rcases hflags i hflag with hold | hused
          · rw [hfree.flag] at hold
            cases hold
          · exact absurd hfree hused
    · refine ⟨?_, ?_, ?_⟩
      · simpa only [hkept.name] using hseated.name
      · simpa only [hkept.componentId] using hseated.componentId
      · simpa only [hkept.lcoreId] using hseated.home
  · simpa only [World.CoresApart, hkept.core] using hcores

/-- A request that is decoded in order keeps the invariant. -/
theorem WorldInv.beginCommand (h : WorldInv L w) {text : CStr} {command : SppCommand}
    (hidle : w.manager = .idle) (hguard : PathsInOrder L (.request text) w)
    (hdecode : sppCommandDecodeRequest L .vf w.s text = .ok command)
    (hstep : Vf.beginCommand L command w = some w') : WorldInv L w' := by
  unfold Vf.beginCommand at hstep
  split at hstep
  · rename_i c
    obtain ⟨hstart, hstop⟩ := hguard c hdecode
    obtain ⟨args, hargs, hmin, hmax, hparams⟩ := decodeRequest_component hdecode
    have hrequest := componentRequest_of_decode hmin hmax hparams
    have hcore := hrequest.core_le
    split at hstep
    · rename_i haction
      split at hstep
      · exact Option.some.inj hstep ▸ h
      · rename_i hstatus
        split at hstep
        · exact Option.some.inj hstep ▸ h
        · split at hstep
          · exact Option.some.inj hstep ▸ h
          · rename_i id hfree
            obtain ⟨hnoname, hpath⟩ := hstart haction hstatus id hfree
            have hid := (getFreeComponent_eq_some hfree).1
            exact Option.some.inj hstep ▸
              h.beginStart hidle (by omega) hnoname (hrequest.name_ne_nil hargs) hpath
    · rename_i haction
      split at hstep
      · obtain rfl := Option.some.inj hstep
        have hm := h.manager
        simp only [World.ManagerOk, hidle] at hm
        exact h.moveManager (by rw [hidle]; rfl) ⟨hm.1, hm.2, nofun⟩
      · rename_i id hfound
        exact Option.some.inj hstep ▸ h.beginStop hidle hfound (hstop haction id hfound)
    · exact Option.some.inj hstep ▸ h
  · rename_i command hnot
    split at hstep
    · rename_i s' hupdate
      obtain rfl := Option.some.inj hstep
      rcases updateCommand_cases hupdate with ⟨c, rfl, -⟩ | ⟨c, -, hc⟩ | ⟨c, -, hc⟩
      · exact absurd rfl (hnot c)
      · exact h.beginUpdate hidle (slotsKept_sppUpdatePort hc) fun i hi =>
          (sppUpdatePort_flags hc i hi).imp_right fun hname hfree => hname hfree.name
      · exact h.beginUpdate hidle (slotsKept_sppUpdateClassifierTable hc) fun i hi =>
          (sppUpdateClassifierTable_flags hc i hi).imp_right fun htype hfree => htype hfree.type
    · cases hstep
    · exact Option.some.inj hstep ▸ h

/-- Every step that meets the condition keeps the invariant. -/
theorem WorldInv.worldStep (h : WorldInv L w) {i : WorldAct} (hguard : PathsInOrder L i w)
    (hstep : Vf.worldStep L i w = some w') : WorldInv L w' := by
  cases i with
  | request text =>
    unfold Vf.worldStep at hstep
    dsimp only at hstep
    split at hstep
    · rename_i hidle
      split at hstep
      · cases hstep
      · exact Option.some.inj hstep ▸ h
      · rename_i command hdecode
        exact h.beginCommand hidle hguard hdecode hstep
    · cases hstep
  | manager dev => exact h.commandStep hguard hstep
  | worker l => exact h.lcoreStep hstep

end Requests

section Runs

/-- In every run whose steps all meet the condition, every worker in
`spp_forward` uses only ports of the component of its id. -/
theorem forwardsOwnPorts_of_reaches (slave : ℕ → Bool) (numNic mainLcore : ℕ)
    (h : Reaches (worldStep L) (PathsInOrder L) (World.initial L slave numNic mainLcore) w) :
    w.ForwardsOwnPorts :=
  (h.invariant (worldInv_initial L slave numNic mainLcore) fun _ _ _ hinv hguard hstep =>
    hinv.worldStep hguard hstep).forwardsOwnPorts

/-- A test for the condition. -/
def inOrder (L : Limits) : WorldAct → World → Bool
  | .request text, w =>
    match sppCommandDecodeRequest L .vf w.s text with
    | .ok (.component c) =>
      match c.action with
      | .start =>
        (getFreeComponent L w.s).all fun id =>
          (w.s.component id).name = [] ∧
            ((w.forward id).path (w.forward id).refIndex).forwardable = false
      | .stop =>
        (sppGetComponentId L w.s c.name).all fun id => (w.s.component id).type ≠ .classifierMac
      | _ => true
    | _ => true
  | .manager dev, w => (flushPort L dev w.s).1 = .ok
  | .worker _, _ => true

theorem pathsInOrder_of_test {i : WorldAct} (h : inOrder L i w = true) : PathsInOrder L i w := by
  cases i with
  | request text =>
    intro c hdecode
    simp only [inOrder, hdecode] at h
    refine ⟨fun haction _ id hfree => ?_, fun haction id hfound htype => ?_⟩
    · simp only [haction, hfree, Option.all_some, decide_eq_true_eq] at h
      exact ⟨h.1, fun _ => h.2⟩
    · simp only [haction, hfound, Option.all_some, decide_eq_true_eq] at h
      exact absurd htype h
  | manager dev =>
    intro id _ hng
    simp [inOrder, hng] at h
  | worker l => trivial

/-- A request, followed by turns of the manager and of the worker of lcore 1. -/
def served (text : String) (turns : List (ℕ × ℕ)) : List WorldAct :=
  .request text.toList :: turns.flatMap fun turn =>
    List.replicate turn.1 (.manager ⟨fun _ => 0, fun _ => 0, fun _ => .ok⟩) ++
      List.replicate turn.2 (.worker 1)

/-- A forwarder from `phy:0` to `phy:1`. -/
def startForwarding01 : List WorldAct :=
  served "component start f1 1 forward" [(8, 1), (4, 4), (2, 0)] ++
    (served "port add phy:0 rx f1" [(5, 5), (2, 0)] ++
      served "port add phy:1 tx f1" [(5, 5), (2, 0)])

/-- It is stopped, and one without ports is started in its place. -/
def restart : List WorldAct :=
  served "component stop f1" [(4, 2), (3, 0)] ++ served "component start f2 1 forward" [(8, 3)]

/-- The worker of lcore 1 forwards along a path that is run, and the ports that
the component of its id has held meet a test. -/
def isForwarding (test : List PortRef → Bool) (w : World) : Bool :=
  match w.worker 1 with
  | .forwarding id area _ => ((w.forward id).path area).forwardable && test (w.held id .rx)
  | _ => false

theorem forwarding_of_test {test : List PortRef → Bool} (h : isForwarding test w = true) :
    ∃ id area ids, w.worker 1 = .forwarding id area ids ∧
      ((w.forward id).path area).forwardable = true ∧ test (w.held id .rx) = true := by
  unfold isForwarding at h
  split at h
  · rename_i id area ids hworker
    obtain ⟨hrun, htest⟩ := Bool.and_eq_true_iff.mp h
    exact ⟨id, area, ids, hworker, hrun, htest⟩
  · cases h

/-- The worker forwards from `phy:0` to `phy:1`, which are ports of the forwarder. -/
theorem forwardsOwnPorts_start :
    ∃ w : World, w.ForwardsOwnPorts ∧ ∃ id area ids, w.worker 1 = .forwarding id area ids ∧
      ((w.forward id).path area).forwardable = true := by
  have hrun : (runAll (tested (worldStep .default) (inOrder .default))
      (startForwarding01 ++ List.replicate 3 (.worker 1))
      (World.initial .default (fun l => l = 1) 2 0)).any (isForwarding fun _ => true) := by
    decide +kernel
  obtain ⟨w, hw, htest⟩ := (Option.any_eq_true ..).mp hrun
  obtain ⟨id, area, ids, hworker, hpath, -⟩ := forwarding_of_test htest
  exact ⟨w, forwardsOwnPorts_of_reaches _ _ _
    (reaches_of_runAll_tested hw fun _ _ _ => pathsInOrder_of_test), id, area, ids, hworker, hpath⟩

/-- The second forwarder holds no port, and the worker forwards along the path
of the first one. -/
theorem not_forwardsOwnPorts_restart :
    ∃ w, Reaches (worldStep .default) (fun _ _ => True)
      (World.initial .default (fun l => l = 1) 2 0) w ∧ ¬ w.ForwardsOwnPorts := by
  have hrun : (runAll (worldStep .default) (startForwarding01 ++ restart)
      (World.initial .default (fun l => l = 1) 2 0)).any
        (isForwarding fun held => held.isEmpty) := by
    decide +kernel
  obtain ⟨w, hw, htest⟩ := (Option.any_eq_true ..).mp hrun
  obtain ⟨id, area, ids, hworker, hpath, hheld⟩ := forwarding_of_test htest
  refine ⟨w, reaches_of_runAll hw fun _ _ _ => trivial, fun hown => ?_⟩
  obtain ⟨path, hupdate, hpathRun, hrx⟩ := sppForwardUpdate_of_forwardable hpath w.s.iface
  obtain ⟨⟨p, hp, -⟩, -⟩ := hown 1 id area ids hworker w.s.iface path hupdate hpathRun 0 hrx
  rw [List.isEmpty_iff.mp hheld] at hp
  cases hp

end Runs

end Spp.Vf
