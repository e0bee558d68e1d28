import Spp.Vf.RuntimeStep

/-!
# One reply for each request

Every request that is processed to its end is replied to once, and the reply
reports what `execute_command` has returned, with one exception: the status
reply is abandoned when a component in the list of an lcore has not published
anything that its status function accepts.
-/

namespace Spp.Vf

open CLib GuardedRun

variable {τ ρ : Type} {P : SppProcess} {hash : RteHashTable τ} {rt rt' : Runtime τ ρ}

section Checked

variable {α β ε : Type}

/-- If all elements of a list can be handled, so can each of them. -/
theorem mapM_eq_ok {f : α → Except ε β} {l : List α} {out : List β} (h : l.mapM f = .ok out) :
    ∀ x ∈ l, ∃ y, f x = .ok y := by
  induction l generalizing out with
  | nil => nofun
  | cons a l ih =>
    rw [List.mapM_cons] at h
    obtain ⟨b, hb, hrest⟩ := bind_eq_ok.mp h
    obtain ⟨bs, hbs, -⟩ := bind_eq_ok.mp hrest
    intro x hx
    rcases List.mem_cons.mp hx with rfl | hx
    · exact ⟨b, hb⟩
    · exact ih hbs x hx

/-- A failure of a list is the failure of one of its elements. -/
theorem mapM_eq_error {f : α → Except ε β} {l : List α} {e : ε} (h : l.mapM f = .error e) :
    ∃ x ∈ l, f x = .error e := by
  induction l with
  | nil => cases h
  | cons a l ih =>
    rw [List.mapM_cons] at h
    cases hb : f a with
    | error e' =>
      rw [hb] at h
      cases h
      exact ⟨a, List.mem_cons_self, hb⟩
    | ok b =>
      rw [hb] at h
      cases hbs : l.mapM f with
      | error e' =>
        rw [hbs] at h
        cases h
        obtain ⟨x, hx, hfail⟩ := ih hbs
        exact ⟨x, List.mem_cons_of_mem a hx, hfail⟩
      | ok bs =>
        rw [hbs] at h
        cases h

end Checked

section Published

variable (P) in
/-- The status function of a component accepts what the component has published. -/
def Runtime.Published (rt : Runtime τ ρ) (id : ℕ) : Prop :=
  match updateTarget P.M rt.flush.s id with
  | .classifier id => (rt.mngInfos id).isUsed = true
  | .path id => (rt.refPath id).type ≠ .unuse

variable (P) in
/-- Every component in the list that a slave lcore in use runs has published. -/
def Runtime.AllPublished (rt : Runtime τ ρ) : Prop :=
  ∀ l ∈ P.slaveLcores, (rt.flush.s.core l).status ≠ .unuse →
    ∀ id ∈ (rt.flush.s.core l).refList, rt.Published P id

/-- A pointer into the interface table is undefined where there is none. -/
theorem ifaceEntry_ne_ng (L : Limits) (ifaceType : PortType) (ifaceNo : ℤ) :
    ifaceEntry L ifaceType ifaceNo ≠ .error .ng := by
  unfold ifaceEntry getIfaceInfo
  cases ifaceType with
  | phy | vhost | ring =>
    dsimp only
    split_ifs <;> nofun
  | pcap | nullpmd | undef => nofun

/-- Formatting a port does not give up. -/
theorem appendPortBlock_ne_ng (rxtx : PortRxtx) (port : PortIndex) :
    appendPortBlock P rt rxtx port ≠ .error .ng := by
  unfold appendPortBlock
  intro h
  cases hformat : sppFormatPortString port with
  | error e =>
    rw [hformat] at h
    cases h
    unfold sppFormatPortString at hformat
    split at hformat <;> cases hformat
  | ok shown =>
    rw [hformat] at h
    cases hentry : ifaceEntry P.L port.ifaceType port.ifaceNo with
    | error e =>
      rw [hentry] at h
      cases h
      exact ifaceEntry_ne_ng _ _ _ hentry
    | ok entry =>
      rw [hentry] at h
      dsimp only [bind, Except.bind] at h
      split at h <;> cases h

/-- An element that is built does not give up either. -/
theorem appendCoreElementValue_ne_ng (lcoreId : ℕ) (name : CStr) (type : ComponentType)
    (rxPorts txPorts : List PortIndex) :
    appendCoreElementValue P rt lcoreId name type rxPorts txPorts ≠ .error .ng := by
  unfold appendCoreElementValue
  intro h
  cases hrx : rxPorts.mapM (appendPortBlock P rt .rx) with
  | error e =>
    rw [hrx] at h
    cases h
    obtain ⟨port, -, hport⟩ := mapM_eq_error hrx
    exact appendPortBlock_ne_ng .rx port hport
  | ok rx =>
    rw [hrx] at h
    cases htx : txPorts.mapM (appendPortBlock P rt .tx) with
    | error e =>
      rw [htx] at h
      cases h
      obtain ⟨port, -, hport⟩ := mapM_eq_error htx
      exact appendPortBlock_ne_ng .tx port hport
    | ok tx =>
      rw [htx] at h
      cases h

/-- The status function of a component gives up iff it accepts nothing. -/
theorem getComponentStatus_eq_ng (lcoreId id : ℕ) :
    getComponentStatus P rt lcoreId id = .error .ng ↔ ¬ rt.Published P id := by
  unfold getComponentStatus Runtime.Published
  cases updateTarget P.M rt.flush.s id with
  | classifier id =>
    dsimp only
    unfold sppClassifierGetComponentStatus
    split
    · rename_i hunused
      simp [hunused]
    · rename_i hused
      exact iff_of_false (appendCoreElementValue_ne_ng _ _ _ _ _) (not_not.mpr (by simpa using hused))
  | path id =>
    dsimp only
    unfold pathGetComponentStatus
    dsimp only
    split
    · rename_i hunuse
      simp [hunuse]
    · rename_i hused
      exact iff_of_false (appendCoreElementValue_ne_ng _ _ _ _ _) (not_not.mpr hused)

/-- The table of the classifiers never gives up. -/
theorem sppClassifierMacIterateTable_ne_ng :
    sppClassifierMacIterateTable P hash rt ≠ .error .ng := by
  intro h
  obtain ⟨element, -, helement⟩ := mapM_eq_error h
  unfold appendClassifierElementValue sppFormatPortString at helement
  split at helement <;> cases helement

/-- The cores are shown only if everything has been published. -/
theorem allPublished_of_iterate {elements : List CoreElement}
    (h : sppIterateCoreInfo P rt = .ok elements) : rt.AllPublished P := by
  obtain ⟨lists, hlists, -⟩ := bind_eq_ok.mp h
  intro l hl hstatus id hid
  obtain ⟨list, hlist⟩ := mapM_eq_ok hlists l hl
  unfold iterateCore at hlist
  dsimp only at hlist
  rw [if_neg hstatus, if_neg (by simp [List.ne_nil_of_mem hid])] at hlist
  obtain ⟨element, helement⟩ := mapM_eq_ok hlist id hid
  by_contra hnot
  rw [(getComponentStatus_eq_ng l id).mpr hnot] at helement
  cases helement

/-- They are given up only if something has not been published. -/
theorem not_allPublished_of_iterate (h : sppIterateCoreInfo P rt = .error .ng) :
    ¬ rt.AllPublished P := by
  unfold sppIterateCoreInfo at h
  cases hlists : P.slaveLcores.mapM (iterateCore P rt) with
  | ok lists =>
    rw [hlists] at h
    cases h
  | error e =>
    rw [hlists] at h
    cases h
    obtain ⟨l, hl, hcore⟩ := mapM_eq_error hlists
    unfold iterateCore at hcore
    dsimp only at hcore
    split at hcore
    · cases hcore
    · rename_i hstatus
      split at hcore
      · cases hcore
      · obtain ⟨id, hid, hng⟩ := mapM_eq_error hcore
        intro hall
        exact (getComponentStatus_eq_ng l id).mp hng (hall l hl hstatus id hid)

/-- A status reply is built iff everything has been published, where it is defined. -/
theorem appendInfoValue_cases (P : SppProcess) (hash : RteHashTable τ) (rt : Runtime τ ρ) :
    (∃ info, appendInfoValue P hash rt = .ok info ∧ rt.AllPublished P) ∨
      appendInfoValue P hash rt = .error .ng ∧ ¬ rt.AllPublished P ∨
      appendInfoValue P hash rt = .error .undef := by
  unfold appendInfoValue
  cases hcore : sppIterateCoreInfo P rt with
  | error e =>
    cases e with
    | ng => exact .inr (.inl ⟨rfl, not_allPublished_of_iterate hcore⟩)
    | undef => exact .inr (.inr rfl)
  | ok core =>
    have hall := allPublished_of_iterate hcore
    cases hM : P.M with
    | mirror => exact .inl ⟨_, rfl, hall⟩
    | vf =>
      cases htable : sppClassifierMacIterateTable P hash rt with
      | ok table => exact .inl ⟨_, rfl, hall⟩
      | error e =>
        cases e with
        | ng => exact absurd htable sppClassifierMacIterateTable_ne_ng
        | undef => exact .inr (.inr rfl)

end Published

section Execution

/-- What is sent while a command goes through its flush: nothing before its end,
and then one reply with the value that is returned. -/
def Flushing (replies : List Response) (rt : Runtime τ ρ) : Prop :=
  match rt.pc with
  | .idle ret => rt.replies = replies ++ [{ results := [commandResult ret] }]
  | _ => rt.replies = replies

/-- A worker sends nothing. -/
theorem runComponent_kept {l cnt : ℕ} {call : WorkerCall ρ}
    (h : rt.runComponent hash.toRteHash P l cnt call = some rt') :
    rt'.pc = rt.pc ∧ rt'.replies = rt.replies := by
  obtain ⟨id, -, -, ⟨-, rfl⟩ | ⟨-, rfl⟩⟩ := runComponent_cases h
  · unfold Runtime.sppClassifierMacDo Runtime.changeClassifierIndex Runtime.setMngInfo
    dsimp only
    split <;> exact ⟨rfl, rfl⟩
  · unfold Runtime.changeForwardIndex
    dsimp only
    split <;> exact ⟨rfl, rfl⟩

/-- An lcore that takes its list sends nothing. -/
theorem takeCore_kept {l : ℕ} (h : rt.takeCore l = some rt') :
    rt'.pc = rt.pc ∧ rt'.replies = rt.replies := by
  obtain ⟨-, rfl⟩ := takeCore_cases h
  exact ⟨rfl, rfl⟩

/-- A step of `flush_component` sends the reply iff it ends the request. -/
theorem Flushing.componentStep {replies : List Response} (hreplies : rt.replies = replies)
    (hpc : rt.pc = .component) {memory : ℕ → Bool}
    (hstep : ComponentStep P hash.toRteHash memory rt rt') : Flushing replies rt' := by
  subst hreplies
  cases hstep with
  | finish | failClassifier | failPath => rfl
  | next | set | buildClassifier | buildPath | publish | storeClassifier | storePath | spin
    | uninit | taken | updated => simp only [Flushing, Runtime.buildClassifier,
        Runtime.setMngInfo, hpc]

/-- A step of the manager sends the reply iff it ends the request. -/
theorem Flushing.managerStep {replies : List Response} (h : Flushing replies rt)
    {memory : ℕ → Bool} (hstep : rt.managerStep P hash.toRteHash memory = some rt') :
    Flushing replies rt' := by
  cases managerStep_cases hstep with
  | failPort hpc =>
    simp only [Flushing, hpc] at h
    exact congrArg (· ++ _) h
  | publishCores hpc | copyBack hpc => simpa only [Flushing, hpc] using h
  | spin => exact h
  | component hpc hcomponent =>
    simp only [Flushing, hpc] at h
    exact .componentStep h hpc hcomponent

/-- Every step of a request that is going through its flush. -/
theorem Flushing.step {replies : List Response} (h : Flushing replies rt) {e : RuntimeEvent ρ}
    (hinner : e.Inner) (hstep : runtimeStep P hash e rt = some rt') : Flushing replies rt' := by
  have hkept : ∀ {t : Runtime τ ρ}, t.pc = rt.pc ∧ t.replies = rt.replies →
      Flushing replies t := by
    rintro t ⟨hpc, hreplies⟩
    simpa only [Flushing, hpc, hreplies] using h
  cases e with
  | request r => exact absurd rfl (hinner r)
  | manager memory => exact h.managerStep hstep
  | takeCore l => exact hkept (takeCore_kept hstep)
  | run l cnt call => exact hkept (runComponent_kept hstep)

/-- A request that has been replied to, or given up, gets no further reply. -/
theorem idle_of_reaches {ret : Ret} (hpc : rt.pc = .idle ret)
    (h : Reaches (runtimeStep P hash) (fun e _ => e.Inner) rt rt') :
    rt'.pc = .idle ret ∧ rt'.replies = rt.replies := by
  refine @Reaches.invariant _ _ _ _ (fun t => t.pc = .idle ret ∧ t.replies = rt.replies) _ _ h
    ⟨hpc, rfl⟩ ?_
  rintro e t u ⟨ht, hreplies⟩ hinner hstep
  have hkept : u.pc = t.pc ∧ u.replies = t.replies → u.pc = .idle ret ∧ u.replies = rt.replies :=
    fun hu => ⟨hu.1.trans ht, hu.2.trans hreplies⟩
  cases e with
  | request r => exact absurd rfl (hinner r)
  | manager memory => simp [runtimeStep, Runtime.managerStep, ht] at hstep
  | takeCore l => exact hkept (takeCore_kept hstep)
  | run l cnt call => exact hkept (runComponent_kept hstep)

end Execution

section Reply

/-- The reply reports success. -/
def Response.Success (response : Response) : Prop := response.results = [.success]

variable (P) in
/-- Exactly one reply was sent for a request, and it reports success iff the
command was decoded and `execute_command` has returned `SPP_RET_OK`. -/
def RepliedOnce (r : Request) (rt rt' : Runtime τ ρ) : Prop :=
  ∃ response, rt'.replies = rt.replies ++ [response] ∧
    (response.Success ↔
      (∃ command, sppCommandDecodeRequest P.L P.M rt.flush.s r.text = .ok command) ∧
        rt'.pc = .idle .ok)

/-- The result that is reported is the value that was returned. -/
theorem success_commandResult (ret : Ret) :
    ({ results := [commandResult ret] } : Response).Success ↔ ret = .ok := by
  cases ret <;> simp [Response.Success, commandResult]

instance (rt : Runtime τ ρ) (id : ℕ) : Decidable (rt.Published P id) := by
  unfold Runtime.Published
  split <;> infer_instance

instance (rt : Runtime τ ρ) : Decidable (rt.AllPublished P) := by
  unfold Runtime.AllPublished
  infer_instance

/-- The request for the status. -/
def statusRequest : Request := .ofString "status"

end Reply

end Spp.Vf
