import Spp.Vf.CommandReply

/-!
# What a step of the process can do

One inversion lemma for a request, for a worker and for the manager. They name
every change that a step makes, so that an invariant of the process is kept as
soon as these few changes keep it.
-/

namespace Spp.Vf

open CLib GuardedRun

variable {τ ρ : Type} {P : SppProcess} {hash : RteHash τ} {rt rt' : Runtime τ ρ}

section Worker

/-- A buffer that is updated for a component is one of that component. -/
theorem updateTarget_cases (M : SppModule) (s : MngData) (id : ℕ) :
    updateTarget M s id = .classifier id ∧ M = .vf ∧ (s.component id).type = .classifierMac ∨
      updateTarget M s id = .path id ∧ ¬ (M = .vf ∧ (s.component id).type = .classifierMac) := by
  unfold updateTarget
  split
  · rename_i h
    exact .inl ⟨rfl, h⟩
  · rename_i h
    exact .inr ⟨rfl, h⟩

/-- The buffer depends on the type of the component only. -/
theorem updateTarget_congr {M : SppModule} {s s' : MngData} {id : ℕ}
    (h : (s'.component id).type = (s.component id).type) :
    updateTarget M s' id = updateTarget M s id := by
  unfold updateTarget
  rw [h]

/-- A worker of a forwarding lcore calls the function of a component in its list. -/
theorem runComponent_cases {l cnt : ℕ} {call : WorkerCall ρ}
    (h : rt.runComponent hash P l cnt call = some rt') :
    ∃ id, (rt.flush.s.core l).status = .forward ∧ id ∈ (rt.flush.s.core l).refList ∧
      (updateTarget P.M rt.flush.s id = .classifier id ∧
          rt' = rt.sppClassifierMacDo hash call id ∨
        updateTarget P.M rt.flush.s id = .path id ∧ rt' = rt.changeForwardIndex id) := by
  unfold Runtime.runComponent at h
  dsimp only at h
  split at h
  · rename_i hstatus
    obtain ⟨id, hid, rfl⟩ := Option.map_eq_some_iff.mp h
    refine ⟨id, hstatus, List.mem_of_getElem? hid, ?_⟩
    rcases updateTarget_cases P.M rt.flush.s id with ⟨ht, -⟩ | ⟨ht, -⟩
    · exact .inl ⟨ht, by rw [ht]⟩
    · exact .inr ⟨ht, by rw [ht]⟩
  · cases h

/-- A call of a classifier hands over all packets and moves the index if the
manager has moved its own, and classifies on the area that it refers to then. -/
theorem sppClassifierMacDo_cases (rt : Runtime τ ρ) (hash : RteHash τ) (call : WorkerCall ρ) (id : ℕ) {index : AreaIndex}
    (hindex : rt.flush.index (.classifier id) = index) :
    index.refIndex ≠ index.updIndex ∧
        rt.sppClassifierMacDo hash call id =
          rt.setMngInfo id ((rt.mngInfos id).classify hash call index.refIndex) ∨
      index.refIndex = index.updIndex ∧
        rt.sppClassifierMacDo hash call id =
          { rt.setMngInfo id
              (((rt.mngInfos id).setTx index.refIndex
                (((rt.mngInfos id).tx index.refIndex).transmitAll call.room
                  ((rt.mngInfos id).cmpInfos index.refIndex).nClassifiedDataTx)).classify hash call
                (index.updIndex + 1)) with
            flush := rt.flush.takeOver (.classifier id) } := by
  subst hindex
  unfold Runtime.sppClassifierMacDo Runtime.changeClassifierIndex
  dsimp only
  split
  · rename_i heq
    right
    refine ⟨heq, ?_⟩
    simp [Runtime.setMngInfo, FlushWorld.takeOver]
  · rename_i hne
    exact .inl ⟨hne, rfl⟩

/-- A forwarding lcore takes the list that was handed over. -/
theorem takeCore_cases {l : ℕ} (h : rt.takeCore l = some rt') :
    (rt.flush.s.core l).status = .forward ∧
      rt' = { rt with
        flush.s.core := Function.update rt.flush.s.core l (rt.flush.s.core l).takeUpdate } := by
  unfold Runtime.takeCore at h
  dsimp only at h
  split at h
  · rename_i hstatus
    cases h
    exact ⟨hstatus, rfl⟩
  · cases h

end Worker

section Component

variable (P hash) in
/-- What a step of `flush_component` does, by the place of the manager. -/
inductive ComponentStep (memory : ℕ → Bool) (rt : Runtime τ ρ) : Runtime τ ρ → Prop
  | finish (h : rt.flush.manager = .loop []) :
      ComponentStep memory rt ({ rt with flush.manager := .idle }.finishFlush P .ok)
  | next {id : ℕ} {rest : List ℕ} (h : rt.flush.manager = .loop (id :: rest)) :
      ComponentStep memory rt
        { rt with
          flush.manager := .setting id (rt.flush.s.component id).portDirections rest }
  | set {id : ℕ} {p : PortRef × PortRxtx} {todo : List (PortRef × PortRxtx)} {rest : List ℕ}
      {table : PortAbilityTable} (h : rt.flush.manager = .setting id (p :: todo) rest)
      (hset : portAbilitySetAbility P.L rt.flush.table (rt.flush.s.iface p.1) p.2 = some table) :
      ComponentStep memory rt
        { rt with flush.table := table, flush.manager := .setting id todo rest }
  | buildClassifier {id : ℕ} {rest : List ℕ} (h : rt.flush.manager = .setting id [] rest)
      (htarget : updateTarget P.M rt.flush.s id = .classifier id)
      (hmade : (rt.initArea hash memory id).1 = .ok) :
      ComponentStep memory rt
        { rt.buildClassifier hash memory id with flush.manager := .publish id rest }
  | failClassifier {id : ℕ} {rest : List ℕ} (h : rt.flush.manager = .setting id [] rest)
      (htarget : updateTarget P.M rt.flush.s id = .classifier id)
      (hmade : (rt.initArea hash memory id).1 = .ng) :
      ComponentStep memory rt
        ({ rt.buildClassifier hash memory id with flush.manager := .idle }.finishFlush P .ng)
  | buildPath {id : ℕ} {rest : List ℕ} {path : DataPath}
      (h : rt.flush.manager = .setting id [] rest)
      (htarget : updateTarget P.M rt.flush.s id = .path id)
      (hmade : rt.madePath P id = some path) :
      ComponentStep memory rt
        { rt with
          paths := Function.update rt.paths id
            (Function.update (rt.paths id) (rt.flush.index (.path id)).updIndex path)
          flush.manager := .publish id rest }
  | failPath {id : ℕ} {rest : List ℕ} (h : rt.flush.manager = .setting id [] rest)
      (htarget : updateTarget P.M rt.flush.s id = .path id) (hmade : rt.madePath P id = none) :
      ComponentStep memory rt ({ rt with flush.manager := .idle }.finishFlush P .ng)
  | publish {id : ℕ} {rest : List ℕ} (h : rt.flush.manager = .publish id rest) :
      ComponentStep memory rt
        { rt with
          flush.manager :=
            .store id (rt.flush.index (updateTarget P.M rt.flush.s id)).refIndex rest }
  | storeClassifier {id : ℕ} {ref : Fin 2} {rest : List ℕ}
      (h : rt.flush.manager = .store id ref rest)
      (htarget : updateTarget P.M rt.flush.s id = .classifier id) :
      ComponentStep memory rt
        { rt.setMngInfo id { rt.mngInfos id with isUsed := true } with
          flush.index := Function.update rt.flush.index (.classifier id)
            { rt.flush.index (.classifier id) with updIndex := ref }
          flush.manager := .wait id rest }
  | storePath {id : ℕ} {ref : Fin 2} {rest : List ℕ} (h : rt.flush.manager = .store id ref rest)
      (htarget : updateTarget P.M rt.flush.s id = .path id) :
      ComponentStep memory rt
        { rt with
          flush.index := Function.update rt.flush.index (.path id)
            { rt.flush.index (.path id) with updIndex := ref }
          flush.manager := .wait id rest }
  | spin : ComponentStep memory rt rt
  | uninit {id : ℕ} {rest : List ℕ} (h : rt.flush.manager = .wait id rest)
      (htarget : updateTarget P.M rt.flush.s id = .classifier id)
      (hindex : (rt.flush.index (.classifier id)).refIndex ≠
        (rt.flush.index (.classifier id)).updIndex) :
      ComponentStep memory rt
        { rt.setMngInfo id
            { rt.mngInfos id with
              cmpInfos := Function.update (rt.mngInfos id).cmpInfos
                (rt.flush.index (.classifier id)).updIndex {}
              pkts := Function.update (rt.mngInfos id).pkts
                (rt.flush.index (.classifier id)).updIndex fun _ => [] } with
          flush.manager := .updated id rest }
  | taken {id : ℕ} {rest : List ℕ} (h : rt.flush.manager = .wait id rest)
      (htarget : updateTarget P.M rt.flush.s id = .path id)
      (hindex : (rt.flush.index (.path id)).refIndex ≠ (rt.flush.index (.path id)).updIndex) :
      ComponentStep memory rt { rt with flush.manager := .updated id rest }
  | updated {id : ℕ} {rest : List ℕ} (h : rt.flush.manager = .updated id rest) :
      ComponentStep memory rt { rt with flush.manager := .loop rest }

/-- The update function of a component fails iff its area cannot be built. -/
theorem componentUpdateRet_flushWorld (P : SppProcess) (hash : RteHash τ) (rt : Runtime τ ρ)
    (memory : ℕ → Bool) (id : ℕ) :
    componentUpdateRet P.M (rt.flushWorld hash memory).dev (rt.flushWorld hash memory).s id =
      match updateTarget P.M rt.flush.s id with
      | .classifier id => (rt.initArea hash memory id).1
      | .path id => if (rt.madePath P id).isSome then .ok else .ng := by
  unfold componentUpdateRet updateTarget Runtime.madePath Runtime.flushWorld
  cases hM : P.M with
  | vf =>
    by_cases htype : (rt.flush.s.component id).type = .classifierMac <;> simp [htype]
  | mirror => simp

/-- A step of `flush_component` is one of these. -/
theorem componentStep_cases {memory : ℕ → Bool} (h : rt.componentStep P hash memory = some rt') :
    ComponentStep P hash memory rt rt' := by
  obtain ⟨w, hw, rfl⟩ := Option.map_eq_some_iff.mp h
  have hret := componentUpdateRet_flushWorld P hash rt memory
  unfold flushManagerStep at hw
  unfold Runtime.areaStep
  cases hm : rt.flush.manager with
  | idle => simp [Runtime.flushWorld, hm] at hw
  | loop ids =>
    cases ids with
    | nil =>
      simp only [Runtime.flushWorld, hm, Option.some.injEq] at hw
      subst hw
      exact .finish hm
    | cons id rest =>
      simp only [Runtime.flushWorld, hm, Option.some.injEq] at hw
      subst hw
      exact .next hm
  | setting id todo rest =>
    cases todo with
    | cons p todo =>
      simp only [Runtime.flushWorld, hm] at hw
      obtain ⟨table, hset, rfl⟩ := Option.map_eq_some_iff.mp hw
      exact .set hm hset
    | nil =>
      have hmanager : (rt.flushWorld hash memory).manager = .setting id [] rest := hm
      simp only [hmanager, hret] at hw
      rcases updateTarget_cases P.M rt.flush.s id with ⟨ht, -⟩ | ⟨ht, -⟩
      · simp only [ht] at hw ⊢
        split at hw
        · rename_i hok
          cases hw
          exact .buildClassifier hm ht hok
        · rename_i hng
          cases hw
          refine .failClassifier hm ht ?_
          cases hmade : (rt.initArea hash memory id).1 with
          | ok => exact absurd hmade hng
          | ng => rfl
      · simp only [ht] at hw ⊢
        unfold Runtime.buildPath
        cases hpath : rt.madePath P id with
        | none =>
          simp only [hpath] at hw
          cases hw
          exact .failPath hm ht hpath
        | some path =>
          simp only [hpath] at hw
          cases hw
          exact .buildPath hm ht hpath
  | publish id rest =>
    simp only [Runtime.flushWorld, hm, Option.some.injEq] at hw
    subst hw
    exact .publish hm
  | store id ref rest =>
    simp only [Runtime.flushWorld, hm, Option.some.injEq] at hw
    subst hw
    rcases updateTarget_cases P.M rt.flush.s id with ⟨ht, -⟩ | ⟨ht, -⟩
    · simp only [ht]
      exact .storeClassifier hm ht
    · simp only [ht]
      exact .storePath hm ht
  | wait id rest =>
    simp only [Runtime.flushWorld, hm] at hw
    rcases updateTarget_cases P.M rt.flush.s id with ⟨ht, -⟩ | ⟨ht, -⟩
    · simp only [ht] at hw ⊢
      split at hw
      · rename_i hindex
        cases hw
        rw [if_pos hindex, if_neg (by simp), ← hm]
        exact .spin
      · rename_i hindex
        cases hw
        rw [if_neg hindex]
        exact .uninit hm ht hindex
    · simp only [ht] at hw ⊢
      split at hw
      · cases hw
        rw [if_neg (by simp), ← hm]
        exact .spin
      · rename_i hindex
        cases hw
        exact .taken hm ht hindex
  | updated id rest =>
    simp only [Runtime.flushWorld, hm, Option.some.injEq] at hw
    subst hw
    exact .updated hm

end Component

section Manager

variable (P hash) in
/-- What a step of the manager does within `spp_flush`. -/
inductive ManagerStep (memory : ℕ → Bool) (rt : Runtime τ ρ) : Runtime τ ρ → Prop
  | failPort {s : MngData} (h : rt.pc = .update)
      (hport : flushPort P.L rt.flush.dev rt.flush.s = (.ng, s)) :
      ManagerStep memory rt ({ rt with flush.s := s }.finish .ng)
  | publishCores {s : MngData} (h : rt.pc = .update)
      (hport : flushPort P.L rt.flush.dev rt.flush.s = (.ok, s)) :
      ManagerStep memory rt
        { rt with flush.s := { s with core := Vf.publishCores P.L s }, pc := .core }
  | copyBack (h : rt.pc = .core) (htaken : CoresTaken P.L rt.flush.s) :
      ManagerStep memory rt
        { rt with
          flush.s := copyBackCores P.L rt.flush.s
          flush.manager := .loop ((List.range P.L.maxLcore).filter rt.flush.s.changeComponent)
          pc := .component }
  | spin : ManagerStep memory rt rt
  | component {rt' : Runtime τ ρ} (h : rt.pc = .component)
      (hstep : ComponentStep P hash memory rt rt') : ManagerStep memory rt rt'

/-- A step of the manager is one of these. -/
theorem managerStep_cases {memory : ℕ → Bool} (h : rt.managerStep P hash memory = some rt') :
    ManagerStep P hash memory rt rt' := by
  unfold Runtime.managerStep at h
  split at h
  · cases h
  · rename_i hpc
    split at h
    · rename_i s hport
      cases h
      exact .failPort hpc hport
    · rename_i s hport
      cases h
      exact .publishCores hpc hport
  · rename_i hpc
    split at h
    · rename_i htaken
      cases h
      exact .copyBack hpc htaken
    · cases h
      exact .spin
  · rename_i hpc
    exact .component hpc (componentStep_cases h)

end Manager

section Request

/-- A request changes no more than the replies, or its update function accepts
it and the flush begins. -/
theorem processRequest_step {hash : RteHashTable τ} {r : Request}
    (h : rt.processRequest P hash r = some rt') :
    ∃ ret, rt.pc = .idle ret ∧
      ((∃ ret' replies, rt' = { rt with pc := .idle ret', replies := replies }) ∨
        ∃ command s, sppCommandDecodeRequest P.L P.M rt.flush.s r.text = .ok command ∧
          updateCommand P.L rt.flush.s command = some (.ok s) ∧
          rt' = { rt with
            flush.s := s
            flush.dev := r.dev
            given := recordGiven P.L P.M r.text ⟨rt.flush.s, rt.given⟩
            pc := .update }) := by
  unfold Runtime.processRequest at h
  split at h
  · rename_i ret hpc
    refine ⟨ret, hpc, ?_⟩
    split at h
    · cases h
    · cases h
      exact .inl ⟨_, _, rfl⟩
    · rename_i command hdecode
      split at h
      · left
        unfold Runtime.reply at h
        split at h <;> cases h <;> exact ⟨_, _, rfl⟩
      · cases h
      · cases h
        exact .inl ⟨_, _, rfl⟩
      · rename_i s hupdate
        cases h
        exact .inr ⟨command, s, hdecode, hupdate, rfl⟩
  · cases h

/-- Only a request changes the components. -/
theorem component_of_inner {hash : RteHashTable τ} {e : RuntimeEvent ρ} (hinner : e.Inner)
    (h : runtimeStep P hash e rt = some rt') :
    rt'.flush.s.component = rt.flush.s.component := by
  cases e with
  | request r => exact absurd rfl (hinner r)
  | manager memory =>
    cases managerStep_cases h with
    | failPort hpc hport | publishCores hpc hport =>
      obtain ⟨iface', -, hsnd⟩ := flushPort_snd P.L rt.flush.dev rt.flush.s
      rw [hport] at hsnd
      obtain rfl := hsnd
      rfl
    | copyBack | spin => rfl
    | component hpc hstep => cases hstep <;> rfl
  | takeCore l =>
    obtain ⟨-, rfl⟩ := takeCore_cases h
    rfl
  | run l cnt call =>
    obtain ⟨id, -, -, ⟨-, rfl⟩ | ⟨-, rfl⟩⟩ := runComponent_cases h
    · rcases sppClassifierMacDo_cases rt hash.toRteHash call id rfl with
        ⟨-, hrun⟩ | ⟨-, hrun⟩ <;> rw [hrun] <;> rfl
    · unfold Runtime.changeForwardIndex
      dsimp only
      split <;> rfl

end Request

end Spp.Vf
