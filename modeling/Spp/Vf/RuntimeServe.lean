import Spp.Vf.AbilityTable
import Spp.Vf.RuntimeStep

/-!
# A request is served as if nothing else ran

The process serves a request in many steps, and the workers take lists, areas and
abilities between them. Seen between two requests its tables, the history of the
abilities and the value that was returned are those of `processRequest` on the same
requests one after the other: the only thing the workers and the memory decide is
what `spp_classifier_mac_update` returns. While `flush_core` waits, the tables are
compared with those it leaves.
-/

namespace Spp.Vf

open CLib GuardedRun

variable {τ ρ : Type} {P : SppProcess} {hash : RteHashTable τ} {rt rt' : Runtime τ ρ}

section Tables

/-- The tables once every flagged core has taken its list and the manager has
copied it back. -/
def settleCores (L : Limits) (s : MngData) : MngData :=
  { s with
    core := fun l =>
      if l < L.maxLcore ∧ s.changeCore l = true then (s.core l).takeUpdate.copyBack
      else s.core l }

/-- The tables of the process, with the wait of `flush_core` behind it. -/
def Runtime.tables (P : SppProcess) (rt : Runtime τ ρ) : MngData :=
  if rt.pc = .core then settleCores P.L rt.flush.s else rt.flush.s

theorem tables_of_core (h : rt.pc = .core) : rt.tables P = settleCores P.L rt.flush.s := if_pos h

theorem tables_of_ne (h : rt.pc ≠ .core) : rt.tables P = rt.flush.s := if_neg h

@[simp] theorem tables_component (rt : Runtime τ ρ) :
    (rt.tables P).component = rt.flush.s.component := by
  unfold Runtime.tables
  split <;> rfl

@[simp] theorem tables_iface (rt : Runtime τ ρ) : (rt.tables P).iface = rt.flush.s.iface := by
  unfold Runtime.tables
  split <;> rfl

@[simp] theorem tables_changeComponent (rt : Runtime τ ρ) :
    (rt.tables P).changeComponent = rt.flush.s.changeComponent := by
  unfold Runtime.tables
  split <;> rfl

@[simp] theorem tables_changeCore (rt : Runtime τ ρ) :
    (rt.tables P).changeCore = rt.flush.s.changeCore := by
  unfold Runtime.tables
  split <;> rfl

/-- Taking a list twice is taking it once. -/
theorem takeUpdate_takeUpdate (c : CoreMngInfo) : c.takeUpdate.takeUpdate = c.takeUpdate := by
  refine takeUpdate_of_ne ?_
  unfold CoreMngInfo.takeUpdate
  split
  · dsimp only
    omega
  · assumption

/-- Once the flagged cores are published, what is left is `flushCore`. -/
theorem settleCores_publishCores (L : Limits) (s : MngData) :
    settleCores L { s with core := publishCores L s } = flushCore L s := by
  unfold settleCores flushCore publishCores
  congr 1
  funext l
  dsimp only
  split <;> rfl

/-- A worker that takes its list takes no other and changes nothing that is left. -/
theorem settleCores_takeCore {L : Limits} {s : MngData} {l : ℕ}
    (h : ¬ (l < L.maxLcore ∧ s.changeCore l = true) → (s.core l).refIndex ≠ (s.core l).updIndex) :
    settleCores L { s with core := Function.update s.core l (s.core l).takeUpdate } =
      settleCores L s := by
  unfold settleCores
  congr 1
  funext l'
  dsimp only
  by_cases hl : l' = l
  · subst hl
    rw [Function.update_self, takeUpdate_takeUpdate]
    split
    · rfl
    · rename_i hflag
      exact takeUpdate_of_ne (h hflag)
  · rw [Function.update_of_ne hl]

/-- When every flagged core has taken its list, the copies are all that is left. -/
theorem settleCores_of_taken {L : Limits} {s : MngData} (h : CoresTaken L s) :
    settleCores L s = copyBackCores L s := by
  unfold settleCores copyBackCores
  congr 1
  funext l
  split
  · rename_i hflag
    rw [takeUpdate_of_ne (h l hflag.1 hflag.2)]
  · rfl

/-- How a step that is no request changes the tables. -/
inductive TablesStep (P : SppProcess) (rt rt' : Runtime τ ρ) : Prop
  | same (hpc : rt'.pc = rt.pc ∨ rt.pc = .core ∧ rt'.pc = .component)
      (htables : rt'.tables P = rt.tables P)
  | failPort (hpc : rt.pc = .update) (hpc' : rt'.pc = .idle .ng)
      (hport : flushPort P.L rt.flush.dev rt.flush.s = (.ng, rt'.flush.s))
  | publishCores {s : MngData} (hpc : rt.pc = .update) (hpc' : rt'.pc = .core)
      (hport : flushPort P.L rt.flush.dev rt.flush.s = (.ok, s))
      (htables : rt'.tables P = flushCore P.L s)
  | finish {ret : Ret} (hpc : rt.pc = .component) (hpc' : rt'.pc = .idle ret)
      (htables : rt'.flush.s = backupMngInfo P.L rt.flush.s)

/-- Where the tables are not told from the copies that are left, they change as a whole. -/
theorem tables_congr (hpc : rt'.pc = rt.pc) (hs : rt'.flush.s = rt.flush.s) :
    rt'.tables P = rt.tables P := by
  unfold Runtime.tables
  rw [hpc, hs]

/-- A step of `flush_component` leaves the tables, and clears the flags at its end. -/
theorem tablesStep_component {memory : ℕ → Bool} (hpc : rt.pc = .component)
    (h : ComponentStep P hash.toRteHash memory rt rt') : TablesStep P rt rt' := by
  cases h with
  | finish | failClassifier | failPath => exact .finish hpc rfl rfl
  | next | set | buildPath | publish | storePath | spin | taken | updated =>
    exact .same (.inl rfl) (tables_congr rfl rfl)
  | buildClassifier | storeClassifier | uninit => exact .same (.inl rfl) (tables_congr rfl rfl)

/-- Every step that is no request changes the tables in one of these ways. -/
theorem tablesStep_of_inner (hsynced : CoreListsSynced (rt.tables P)) {e : RuntimeEvent ρ}
    (hinner : e.Inner) (h : runtimeStep P hash e rt = some rt') : TablesStep P rt rt' := by
  cases e with
  | request r => exact absurd rfl (hinner r)
  | manager memory =>
    cases managerStep_cases h with
    | failPort hpc hport => exact .failPort hpc rfl hport
    | publishCores hpc hport =>
      refine .publishCores hpc rfl hport ?_
      rw [tables_of_core rfl]
      exact settleCores_publishCores P.L _
    | copyBack hpc htaken =>
      refine .same (.inr ⟨hpc, rfl⟩) ?_
      rw [tables_of_core hpc, settleCores_of_taken htaken, tables_of_ne (by simp)]
    | spin => exact .same (.inl rfl) rfl
    | component hpc hstep => exact tablesStep_component hpc hstep
  | takeCore l =>
    obtain ⟨-, rfl⟩ := takeCore_cases h
    refine .same (.inl rfl) ?_
    have hne := hsynced.indices_ne l
    unfold Runtime.tables at hne ⊢
    dsimp only
    split at hne
    · rename_i hpc
      rw [if_pos hpc, if_pos hpc]
      refine settleCores_takeCore fun hflag => ?_
      simpa only [settleCores, if_neg hflag] using hne
    · rename_i hpc
      rw [if_neg hpc, if_neg hpc]
      simp only [takeUpdate_of_ne hne, Function.update_eq_self]
  | run l cnt call =>
    obtain ⟨hpc, hs⟩ : rt'.pc = rt.pc ∧ rt'.flush.s = rt.flush.s := by
      obtain ⟨id, -, -, ⟨-, rfl⟩ | ⟨-, rfl⟩⟩ := runComponent_cases h
      · rcases sppClassifierMacDo_cases rt hash.toRteHash call id rfl with
          ⟨-, hrun⟩ | ⟨-, hrun⟩ <;> rw [hrun] <;> exact ⟨rfl, rfl⟩
      · unfold Runtime.changeForwardIndex
        dsimp only
        split <;> exact ⟨rfl, rfl⟩
    exact .same (.inl hpc) (tables_congr hpc hs)

end Tables

section Updates

/-- The request with other values of `spp_classifier_mac_update`. -/
def Request.withUpdates (r : Request) (updates : ℕ → Ret) : Request :=
  { r with dev := { r.dev with classifierMacUpdate := updates } }

/-- The flagged components that the update functions have not accepted yet. -/
def FlushPc.left : FlushPc → List ℕ
  | .idle => []
  | .loop rest => rest
  | .setting id _ rest => id :: rest
  | .publish _ rest => rest
  | .store _ _ rest => rest
  | .wait _ rest => rest
  | .updated _ rest => rest

/-- The update functions have accepted the flagged components up to those that are
left, if `updates` is what `spp_classifier_mac_update` returns. -/
structure UpdatesDone (P : SppProcess) (updates : ℕ → Ret) (r : Request) (s : MngData)
    (left : List ℕ) : Prop where
  nodup : left.Nodup
  mem : ∀ id ∈ left, id < P.L.maxLcore ∧ s.changeComponent id = true
  accepted : ∀ id < P.L.maxLcore, s.changeComponent id = true → id ∉ left →
    componentUpdateRet P.M (r.withUpdates updates).dev s id = .ok

variable {updates : ℕ → Ret} {r : Request} {s : MngData} {left : List ℕ}

/-- For a classifier the update returns what the device says. -/
theorem componentUpdateRet_classifier {dev : Devices} {M : SppModule} {id : ℕ}
    (h : updateTarget M s id = .classifier id) :
    componentUpdateRet M dev s id = dev.classifierMacUpdate id := by
  obtain ⟨-, rfl, htype⟩ | ⟨hpath, -⟩ := updateTarget_cases M s id
  · simp [componentUpdateRet, htype]
  · rw [h] at hpath
    cases hpath

/-- For any other component the update does not ask a device. -/
theorem componentUpdateRet_path {id : ℕ} (h : updateTarget P.M rt.flush.s id = .path id)
    (dev : Devices) :
    componentUpdateRet P.M dev rt.flush.s id = if (rt.madePath P id).isSome then .ok else .ng := by
  obtain ⟨hclassifier, -⟩ | ⟨-, hne⟩ := updateTarget_cases P.M rt.flush.s id
  · rw [h] at hclassifier
    cases hclassifier
  · unfold componentUpdateRet Runtime.madePath
    cases hM : P.M with
    | vf =>
      have htype : (rt.flush.s.component id).type ≠ .classifierMac := fun htype => hne ⟨hM, htype⟩
      simp [htype]
    | mirror => simp

/-- At the begin of `flush_component` every flagged component is left. -/
theorem updatesDone_begin (P : SppProcess) (updates : ℕ → Ret) (r : Request) (s : MngData) :
    UpdatesDone P updates r s ((List.range P.L.maxLcore).filter s.changeComponent) := by
  refine ⟨List.nodup_range.filter _, fun id hid => ?_, fun id hlt hflag hnot => ?_⟩
  · obtain ⟨hlt, hflag⟩ := List.mem_filter.mp hid
    exact ⟨List.mem_range.mp hlt, hflag⟩
  · exact absurd (List.mem_filter.mpr ⟨List.mem_range.mpr hlt, hflag⟩) hnot

/-- One more component is accepted. -/
theorem UpdatesDone.next {id : ℕ} (h : UpdatesDone P updates r s (id :: left)) (value : Ret)
    (haccepted : componentUpdateRet P.M
      (r.withUpdates (Function.update updates id value)).dev s id = .ok) :
    UpdatesDone P (Function.update updates id value) r s left := by
  obtain ⟨hnot, hnodup⟩ := List.nodup_cons.mp h.nodup
  refine ⟨hnodup, fun j hj => h.mem j (List.mem_cons_of_mem id hj), fun j hlt hflag hj => ?_⟩
  by_cases hid : j = id
  · rw [hid]
    exact haccepted
  · have hold := h.accepted j hlt hflag (by simp [hid, hj])
    unfold componentUpdateRet Request.withUpdates at hold ⊢
    simpa only [Function.update_of_ne hid] using hold

/-- When none is left, `flush_component` returns `SPP_RET_OK`. -/
theorem UpdatesDone.ok (h : UpdatesDone P updates r s []) :
    flushComponent P.L P.M (r.withUpdates updates).dev s = .ok :=
  if_pos fun id hlt hflag => h.accepted id hlt hflag List.not_mem_nil

/-- A component that is refused makes it return `SPP_RET_NG`. -/
theorem UpdatesDone.ng {id : ℕ} (h : UpdatesDone P updates r s (id :: left)) (value : Ret)
    (hrefused : componentUpdateRet P.M
      (r.withUpdates (Function.update updates id value)).dev s id = .ng) :
    flushComponent P.L P.M (r.withUpdates (Function.update updates id value)).dev s = .ng := by
  refine if_neg fun hall => ?_
  obtain ⟨hlt, hflag⟩ := h.mem id List.mem_cons_self
  rw [hall id hlt hflag] at hrefused
  cases hrefused

/-- A step of `flush_component` accepts at most one more component, or ends with the
value that `flush_component` returns. -/
theorem updatesDone_componentStep {memory : ℕ → Bool}
    (h : UpdatesDone P updates r rt.flush.s rt.flush.manager.left) (hpc : rt.pc = .component)
    (hstep : ComponentStep P hash.toRteHash memory rt rt') :
    rt'.given = rt.given ∧ ((rt'.pc = .component ∧ rt'.flush.s = rt.flush.s ∧
        ∃ updates', UpdatesDone P updates' r rt.flush.s rt'.flush.manager.left) ∨
      ∃ ret updates', rt'.pc = .idle ret ∧ rt'.flush.s = backupMngInfo P.L rt.flush.s ∧
        flushComponent P.L P.M (r.withUpdates updates').dev rt.flush.s = ret) := by
  cases hstep with
  | finish hm =>
    rw [hm] at h
    exact ⟨rfl, .inr ⟨_, updates, rfl, rfl, h.ok⟩⟩
  | next hm =>
    rw [hm] at h
    exact ⟨rfl, .inl ⟨hpc, rfl, updates, h⟩⟩
  | set hm =>
    rw [hm] at h
    exact ⟨rfl, .inl ⟨hpc, rfl, updates, h⟩⟩
  | buildClassifier hm htarget =>
    rw [hm] at h
    refine ⟨rfl, .inl ⟨hpc, rfl, _, h.next .ok ?_⟩⟩
    rw [componentUpdateRet_classifier htarget]
    simp [Request.withUpdates]
  | failClassifier hm htarget =>
    rw [hm] at h
    refine ⟨rfl, .inr ⟨_, _, rfl, rfl, h.ng .ng ?_⟩⟩
    rw [componentUpdateRet_classifier htarget]
    simp [Request.withUpdates]
  | buildPath hm htarget hmade =>
    rw [hm] at h
    refine ⟨rfl, .inl ⟨hpc, rfl, _, h.next .ok ?_⟩⟩
    rw [componentUpdateRet_path htarget, hmade]
    rfl
  | failPath hm htarget hmade =>
    rw [hm] at h
    refine ⟨rfl, .inr ⟨_, _, rfl, rfl, h.ng .ng ?_⟩⟩
    rw [componentUpdateRet_path htarget, hmade]
    rfl
  | publish hm | storePath hm | taken hm | updated hm =>
    rw [hm] at h
    exact ⟨rfl, .inl ⟨hpc, rfl, updates, h⟩⟩
  | storeClassifier hm | uninit hm =>
    rw [hm] at h
    exact ⟨rfl, .inl ⟨hpc, rfl, updates, h⟩⟩
  | spin => exact ⟨rfl, .inl ⟨hpc, rfl, updates, h⟩⟩

end Updates

section Serving

/-- Requests served one after the other, with the value that was returned last. -/
def serveInTurn (L : Limits) (M : SppModule) (r : Request) (st : AbilityState × Ret) :
    Option (AbilityState × Ret) :=
  (processRequest L M r st.1.s).map fun reply =>
    (⟨reply.2, recordGiven L M r.text st.1⟩, reply.1)

/-- What the process is doing with a request, if any, seen from the state `st` that the
requests before it have left. -/
inductive Serves (P : SppProcess) (rt : Runtime τ ρ) (st : AbilityState × Ret) :
    Option Request → Prop
  | idle (hpc : rt.pc = .idle st.2) (hs : rt.flush.s = st.1.s) (hgiven : rt.given = st.1.given) :
      Serves P rt st none
  | update {r : Request} {command : SppCommand} (hpc : rt.pc = .update)
      (hdecode : sppCommandDecodeRequest P.L P.M st.1.s r.text = .ok command)
      (hupdate : updateCommand P.L st.1.s command = some (.ok rt.flush.s))
      (hdev : rt.flush.dev = r.dev) (hgiven : rt.given = recordGiven P.L P.M r.text st.1) :
      Serves P rt st (some r)
  | flush {r : Request} {command : SppCommand} {s₁ s₂ : MngData}
      (hpc : rt.pc = .core ∨ rt.pc = .component)
      (hdecode : sppCommandDecodeRequest P.L P.M st.1.s r.text = .ok command)
      (hupdate : updateCommand P.L st.1.s command = some (.ok s₁))
      (hport : flushPort P.L r.dev s₁ = (.ok, s₂)) (htables : rt.tables P = flushCore P.L s₂)
      (hgiven : rt.given = recordGiven P.L P.M r.text st.1)
      (hdone : rt.pc = .component →
        ∃ updates, UpdatesDone P updates r rt.flush.s rt.flush.manager.left) :
      Serves P rt st (some r)

variable {st : AbilityState × Ret}

/-- `flush_port` asks for vhost and ring devices only. -/
theorem flushPort_withUpdates (L : Limits) (r : Request) (updates : ℕ → Ret) (s : MngData) :
    flushPort L (r.withUpdates updates).dev s = flushPort L r.dev s := rfl

/-- A request whose command has passed its update function goes through the flush. -/
theorem processRequest_of_update {L : Limits} {M : SppModule} {s s₁ : MngData} {r : Request}
    {command : SppCommand} (hdecode : sppCommandDecodeRequest L M s r.text = .ok command)
    (hupdate : updateCommand L s command = some (.ok s₁)) :
    processRequest L M r s = some (sppFlush L M r.dev s₁) := by
  simp only [processRequest, hdecode, executeCommand, hupdate]

/-- A flush that gets past `flush_port`. -/
theorem sppFlush_of_port {L : Limits} {M : SppModule} {dev : Devices} {s₁ s₂ : MngData}
    (hport : flushPort L dev s₁ = (.ok, s₂)) :
    sppFlush L M dev s₁ =
      (flushComponent L M dev (flushCore L s₂), backupMngInfo L (flushCore L s₂)) := by
  simp only [sppFlush, hport]

/-- A request that is refused, or asks for information only, is served at once. -/
theorem serves_processRequest {r : Request} (h : Serves P rt st none)
    (hstep : rt.processRequest P hash r = some rt') :
    Serves P rt' st (some r) ∨
      ∃ st', serveInTurn P.L P.M r st = some st' ∧ Serves P rt' st' none := by
  cases h with
  | idle hpc hs hgiven =>
    unfold Runtime.processRequest at hstep
    rw [hpc, hs] at hstep
    dsimp only at hstep
    -- Nothing is recorded for a request that changes no table.
    have hrefused : ∀ ret, processRequest P.L P.M r st.1.s = some (ret, st.1.s) →
        recordGiven P.L P.M r.text st.1 = st.1.given → rt'.pc = .idle ret →
        rt'.flush.s = st.1.s → rt'.given = st.1.given →
        ∃ st', serveInTurn P.L P.M r st = some st' ∧ Serves P rt' st' none := by
      intro ret hreply hsame hpc' hs' hgiven'
      refine ⟨(⟨st.1.s, recordGiven P.L P.M r.text st.1⟩, ret), ?_, .idle hpc' hs' ?_⟩
      · simp [serveInTurn, hreply]
      · rw [hsame]
        exact hgiven'
    split at hstep
    · cases hstep
    · rename_i e hdecode
      cases hstep
      refine .inr (hrefused .ng ?_ ?_ rfl hs hgiven)
      · simp only [processRequest, hdecode]
      · simp only [recordGiven, hdecode]
    · rename_i command hdecode
      cases hupdate : updateCommand P.L st.1.s command with
      | none =>
        simp only [hupdate] at hstep
        have hpc' : rt'.pc = .idle .ok ∧ rt'.flush.s = rt.flush.s ∧ rt'.given = rt.given := by
          unfold Runtime.reply at hstep
          split at hstep <;> cases hstep <;> exact ⟨rfl, rfl, rfl⟩
        refine .inr (hrefused .ok ?_ ?_ hpc'.1 (hpc'.2.1.trans hs) (hpc'.2.2.trans hgiven))
        · simp only [processRequest, hdecode, executeCommand, hupdate]
        · exact recordGiven_of_not_port hdecode fun c hc => by simp [hc, updateCommand] at hupdate
      | some result =>
        cases result with
        | error stop =>
          cases stop with
          | undef =>
            simp only [hupdate] at hstep
            cases hstep
          | ng =>
            simp only [hupdate] at hstep
            cases hstep
            refine .inr (hrefused .ng ?_ ?_ rfl hs hgiven)
            · simp only [processRequest, hdecode, executeCommand, hupdate]
            · unfold recordGiven
              rw [hdecode]
              cases command with
              | port c =>
                have hc : sppUpdatePort P.L st.1.s c = .error .ng := Option.some.inj hupdate
                simp only [hc]
              | _ => rfl
        | ok s₁ =>
          simp only [hupdate] at hstep
          cases hstep
          refine .inl (.update rfl hdecode hupdate rfl ?_)
          dsimp only
          rw [hgiven]

/-- The two sides of the core lists are in order while a command is executed. -/
theorem Serves.synced {asked : Option Request} (h : Serves P rt st asked)
    (hsynced : CoreListsSynced st.1.s) : CoreListsSynced (rt.tables P) := by
  have hupdated : ∀ {command : SppCommand} {s : MngData},
      updateCommand P.L st.1.s command = some (.ok s) → CoreListsSynced s := by
    intro command s hupdate
    rcases updateCommand_slots hupdate with hk | ⟨c, -, hc⟩
    · exact hsynced.of_slotsKept hk
    · exact hsynced.sppUpdateComponent hc
  cases h with
  | idle hpc hs =>
    rw [tables_of_ne (by simp [hpc]), hs]
    exact hsynced
  | update hpc _ hupdate =>
    rw [tables_of_ne (by simp [hpc])]
    exact hupdated hupdate
  | @flush _ _ s₁ s₂ _ _ hupdate hport htables =>
    obtain ⟨iface', -, hsnd⟩ := flushPort_snd P.L _ s₁
    rw [hport] at hsnd
    obtain rfl := hsnd
    obtain ⟨hne, heq⟩ := hupdated hupdate
    rw [htables]
    refine ⟨fun l => flushCore_indices_ne (hne l), fun l hflag => ?_⟩
    have hflag' : s₁.changeCore l = false := hflag
    simpa [flushCore, hflag'] using heq l hflag'

/-- What a worker leaves alone. -/
theorem worker_kept {e : RuntimeEvent ρ} (hinner : e.Inner)
    (hworker : ∀ memory, e ≠ .manager memory) (h : runtimeStep P hash e rt = some rt') :
    rt'.pc = rt.pc ∧ rt'.given = rt.given ∧
      rt'.flush.manager = rt.flush.manager ∧ rt'.flush.dev = rt.flush.dev := by
  cases e with
  | request r => exact absurd rfl (hinner r)
  | manager memory => exact absurd rfl (hworker memory)
  | takeCore l =>
    obtain ⟨-, rfl⟩ := takeCore_cases h
    exact ⟨rfl, rfl, rfl, rfl⟩
  | run l cnt call =>
    obtain ⟨id, -, -, ⟨-, rfl⟩ | ⟨-, rfl⟩⟩ := runComponent_cases h
    · rcases sppClassifierMacDo_cases rt hash.toRteHash call id rfl with
        ⟨-, hrun⟩ | ⟨-, hrun⟩ <;> rw [hrun] <;> exact ⟨rfl, rfl, rfl, rfl⟩
    · unfold Runtime.changeForwardIndex
      dsimp only
      split <;> exact ⟨rfl, rfl, rfl, rfl⟩

/-- A step that changes neither the tables nor the place of the manager. -/
theorem Serves.congr {asked : Option Request} (h : Serves P rt st asked) (hpc : rt'.pc = rt.pc)
    (htables : rt'.tables P = rt.tables P) (hgiven : rt'.given = rt.given)
    (hmanager : rt'.flush.manager = rt.flush.manager) (hdev : rt'.flush.dev = rt.flush.dev) :
    Serves P rt' st asked := by
  have hs : rt.pc ≠ .core → rt'.flush.s = rt.flush.s := fun hne => by
    rwa [tables_of_ne hne, tables_of_ne (by rw [hpc]; exact hne)] at htables
  cases h with
  | idle h₁ h₂ h₃ => exact .idle (hpc.trans h₁) ((hs (by simp [h₁])).trans h₂) (hgiven.trans h₃)
  | update h₁ h₂ h₃ h₄ h₅ =>
    refine .update (hpc.trans h₁) h₂ ?_ (hdev.trans h₄) (hgiven.trans h₅)
    rw [hs (by simp [h₁])]
    exact h₃
  | flush h₁ h₂ h₃ h₄ h₅ h₆ h₇ =>
    refine .flush (by rwa [hpc]) h₂ h₃ h₄ (htables.trans h₅) (hgiven.trans h₆) fun hcomponent => ?_
    rw [hpc] at hcomponent
    rw [hs (by simp [hcomponent]), hmanager]
    exact h₇ hcomponent

/-- A flush that has ended leaves what the request leaves when it is served at once. -/
theorem serves_of_flush {r : Request} (updates : ℕ → Ret) {command : SppCommand} {s₁ : MngData}
    {ret : Ret} (hdecode : sppCommandDecodeRequest P.L P.M st.1.s r.text = .ok command)
    (hupdate : updateCommand P.L st.1.s command = some (.ok s₁))
    (hflush : sppFlush P.L P.M (r.withUpdates updates).dev s₁ = (ret, rt'.flush.s))
    (hpc : rt'.pc = .idle ret) (hgiven : rt'.given = recordGiven P.L P.M r.text st.1) :
    ∃ r' updates st', some r = some r' ∧
      serveInTurn P.L P.M (r'.withUpdates updates) st = some st' ∧ Serves P rt' st' none := by
  refine ⟨r, updates, (⟨rt'.flush.s, rt'.given⟩, ret), rfl, ?_, .idle hpc rfl rfl⟩
  have hreply :
      processRequest P.L P.M (r.withUpdates updates) st.1.s = some (ret, rt'.flush.s) := by
    rw [← hflush]
    exact processRequest_of_update hdecode hupdate
  simp only [serveInTurn, hreply, Option.map_some, hgiven]
  rfl

/-- A step that is no request goes on with the request that is being served, or ends it
with the tables and the value that `processRequest` gives. -/
theorem Serves.inner {asked : Option Request} (h : Serves P rt st asked)
    (hsynced : CoreListsSynced st.1.s) {e : RuntimeEvent ρ} (hinner : e.Inner)
    (hstep : runtimeStep P hash e rt = some rt') :
    Serves P rt' st asked ∨ ∃ r updates st', asked = some r ∧
      serveInTurn P.L P.M (r.withUpdates updates) st = some st' ∧ Serves P rt' st' none := by
  have htablesStep := tablesStep_of_inner (h.synced hsynced) hinner hstep
  by_cases hworker : ∀ memory, e ≠ .manager memory
  · obtain ⟨hpc, hgiven, hmanager, hdev⟩ := worker_kept hinner hworker hstep
    refine .inl (h.congr hpc ?_ hgiven hmanager hdev)
    cases htablesStep with
    | same _ htables => exact htables
    | failPort h₁ h₂ | publishCores h₁ h₂ | finish h₁ h₂ => simp [hpc, h₁] at h₂
  · obtain ⟨memory, rfl⟩ := not_forall_not.mp hworker
    cases managerStep_cases hstep with
    | failPort hpc hport =>
      cases h with
      | idle h₁ | flush h₁ => simp [hpc] at h₁
      | @update r _ _ hdecode hupdate hdev hgiven =>
        refine .inr (serves_of_flush r.dev.classifierMacUpdate hdecode hupdate ?_ rfl hgiven)
        rw [hdev] at hport
        simp only [sppFlush, flushPort_withUpdates, hport]
        rfl
    | @publishCores s hpc hport =>
      cases h with
      | idle h₁ | flush h₁ => simp [hpc] at h₁
      | update _ hdecode hupdate hdev hgiven =>
        rw [hdev] at hport
        refine .inl (.flush (.inl rfl) hdecode hupdate hport ?_ hgiven (by simp))
        rw [tables_of_core rfl]
        exact settleCores_publishCores P.L s
    | copyBack hpc htaken =>
      cases h with
      | idle h₁ | update h₁ => simp [hpc] at h₁
      | @flush r _ _ _ _ hdecode hupdate hport htables hgiven _ =>
        refine .inl (.flush (.inr rfl) hdecode hupdate hport ?_ hgiven fun _ => ?_)
        · rw [tables_of_core hpc, settleCores_of_taken htaken] at htables
          exact htables
        · exact ⟨r.dev.classifierMacUpdate, updatesDone_begin P _ r _⟩
    | spin => exact .inl h
    | component hpc hcomponent =>
      cases h with
      | idle h₁ | update h₁ => simp [hpc] at h₁
      | flush _ hdecode hupdate hport htables hgiven hdone =>
        rw [tables_of_ne (by simp [hpc])] at htables
        obtain ⟨updates, hdone⟩ := hdone hpc
        obtain ⟨hgiven', ⟨hpc', hs, hdone'⟩ | ⟨ret, updates', hpc', hs, hret⟩⟩ :=
          updatesDone_componentStep hdone hpc hcomponent
        · refine .inl
            (.flush (.inr hpc') hdecode hupdate hport ?_ (hgiven'.trans hgiven) fun _ => ?_)
          · rw [tables_of_ne (by simp [hpc']), hs]
            exact htables
          · rw [hs]
            exact hdone'
        · refine .inr (serves_of_flush updates' hdecode hupdate ?_ hpc' (hgiven'.trans hgiven))
          rw [← flushPort_withUpdates _ _ updates'] at hport
          rw [sppFlush_of_port hport, ← htables, hret, hs]

end Serving

section Run

/-- The request that an event is. -/
def RuntimeEvent.request? : RuntimeEvent ρ → Option Request
  | .request r => some r
  | _ => none

/-- The same request, whose classifier updates may return something else. -/
def Answered (r r' : Request) : Prop := ∃ updates, r' = r.withUpdates updates

theorem answered_refl (r : Request) : Answered r r := ⟨r.dev.classifierMacUpdate, rfl⟩

variable {st : AbilityState × Ret}

/-- A request can be taken up between two requests only. -/
theorem Serves.asked_eq_none {asked : Option Request} (h : Serves P rt st asked) {r : Request}
    (hstep : rt.processRequest P hash r = some rt') : asked = none := by
  obtain ⟨ret, hpc, -⟩ := processRequest_step hstep
  cases h with
  | idle => rfl
  | update h₁ | flush h₁ => simp [hpc] at h₁

/-- Serving in turn keeps the two sides of the core lists in order. -/
theorem synced_serveInTurn {r : Request} {st' : AbilityState × Ret}
    (h : serveInTurn P.L P.M r st = some st') (hsynced : CoreListsSynced st.1.s) :
    CoreListsSynced st'.1.s := by
  obtain ⟨reply, hreply, rfl⟩ := Option.map_eq_some_iff.mp h
  exact hsynced.serve (serve_eq_some.mpr ⟨reply.1, hreply⟩)

/-- Every run of events serves the requests among them in turn, the last one perhaps
not to its end. -/
theorem serves_of_run {es : List (RuntimeEvent ρ)} {asked : Option Request}
    (h : Serves P rt st asked) (hsynced : CoreListsSynced st.1.s)
    (hrun : runAll (runtimeStep P hash) es rt = some rt') :
    ∃ rs st' asked', runAll (serveInTurn P.L P.M) rs st = some st' ∧ Serves P rt' st' asked' ∧
      List.Forall₂ Answered (asked.toList ++ es.filterMap RuntimeEvent.request?)
        (rs ++ asked'.toList) := by
  induction es generalizing rt st asked with
  | nil =>
    cases hrun
    refine ⟨[], st, asked, rfl, h, ?_⟩
    simp [List.forall₂_same, answered_refl]
  | cons e es ih =>
    obtain ⟨rt₁, hstep, hrest⟩ := Option.bind_eq_some_iff.mp hrun
    by_cases hinner : e.Inner
    · have hnone : e.request? = none := by
        cases e with
        | request r => exact absurd rfl (hinner r)
        | _ => rfl
      rw [List.filterMap_cons_none hnone]
      rcases h.inner hsynced hinner hstep with hsame | ⟨r, updates, st₁, rfl, hserve, hidle⟩
      · exact ih hsame hsynced hrest
      · obtain ⟨rs, st', asked', hruns, hserves, hanswered⟩ :=
          ih hidle (synced_serveInTurn hserve hsynced) hrest
        refine ⟨r.withUpdates updates :: rs, st', asked', ?_, hserves, ?_⟩
        · simp only [runAll, hserve, Option.bind_some, hruns]
        · exact .cons ⟨updates, rfl⟩ hanswered
    · obtain ⟨r, rfl⟩ : ∃ r, e = .request r := not_forall_not.mp hinner
      obtain rfl := h.asked_eq_none hstep
      have hsome : (RuntimeEvent.request r : RuntimeEvent ρ).request? = some r := rfl
      rw [List.filterMap_cons_some hsome]
      rcases serves_processRequest h hstep with hstart | ⟨st₁, hserve, hidle⟩
      · exact ih hstart hsynced hrest
      · obtain ⟨rs, st', asked', hruns, hserves, hanswered⟩ :=
          ih hidle (synced_serveInTurn hserve hsynced) hrest
        refine ⟨r :: rs, st', asked', ?_, hserves, ?_⟩
        · simp only [runAll, hserve, Option.bind_some, hruns]
        · exact .cons (answered_refl r) hanswered

/-- Between two requests the process has the tables, the history and the return value that
the same requests leave when they are served one after the other, in whatever order its
manager and workers have made their steps. -/
theorem served_of_run {numNic mainLcore : ℕ} {es : List (RuntimeEvent ρ)} {ret : Ret}
    (hrun : runAll (runtimeStep P hash) es (Runtime.initial P numNic mainLcore) = some rt)
    (hpc : rt.pc = .idle ret) :
    ∃ rs, List.Forall₂ Answered (es.filterMap RuntimeEvent.request?) rs ∧
      runAll (serveInTurn P.L P.M) rs (startHistory (startForwarding P.slave mainLcore
        (initMngData P.L P.slave numNic)), .ng) = some (⟨rt.flush.s, rt.given⟩, ret) := by
  have hstart : Serves P (Runtime.initial P numNic mainLcore : Runtime τ ρ)
      (startHistory (startForwarding P.slave mainLcore (initMngData P.L P.slave numNic)), .ng)
      none := .idle rfl rfl rfl
  obtain ⟨rs, st', asked', hruns, hserves, hanswered⟩ :=
    serves_of_run hstart (coreListsSynced_initMngData P.L P.slave numNic mainLcore) hrun
  cases hserves with
  | idle hpc' hs hgiven =>
    refine ⟨rs, by simpa using hanswered, hruns.trans ?_⟩
    rw [hs, hgiven, ← ProcPc.idle.inj (hpc'.symm.trans hpc)]
  | update h₁ | flush h₁ => simp [hpc] at h₁

/-- A forwarder is started while lcore 1 calls it between the steps of the flush. -/
theorem served_of_run_startForwarder :
    ∃ rt : Runtime (List (ℕ × ℕ)) ℕ,
      runAll (runtimeStep oneSlave assocHashTable)
        (flushEvents "component start f1 1 forward" 0 0) bootRuntime = some rt ∧
      ∃ rs, List.Forall₂ Answered [.ofString "component start f1 1 forward"] rs ∧
        runAll (serveInTurn .default .vf) rs (startHistory bootState, .ng) =
          some (⟨rt.flush.s, rt.given⟩, .ok) := by
  obtain ⟨rt, hrun, hpc⟩ : ∃ rt : Runtime (List (ℕ × ℕ)) ℕ,
      runAll (runtimeStep oneSlave assocHashTable)
        (flushEvents "component start f1 1 forward" 0 0) bootRuntime = some rt ∧
      rt.pc = .idle .ok := by
    simpa [Option.any_eq_true] using (by decide +kernel :
      (runAll (runtimeStep oneSlave assocHashTable)
        (flushEvents "component start f1 1 forward" 0 0) bootRuntime).any fun rt =>
          rt.pc = .idle .ok)
  exact ⟨rt, hrun, served_of_run hrun hpc⟩

end Run

end Spp.Vf
