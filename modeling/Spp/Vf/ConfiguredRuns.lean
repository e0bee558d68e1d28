import Spp.Vf.Configuration
import Spp.Vf.RuntimeServe

/-!
# The tables keep the configuration in every run

A run of the process is watched together with the configuration that its accepted
requests describe. Whatever the manager and the workers do between two requests, the
tables keep the configuration: flushing changes what the workers read, and the flags.
-/

namespace Spp.Vf

open CLib GuardedRun

variable {τ ρ : Type}

section System

/-- The process and the configuration that its accepted requests describe. -/
structure ConfiguredProcess (τ ρ : Type) where
  rt : Runtime τ ρ
  cfg : Configuration

/-- The command of a request that its update function accepts. -/
def acceptedCommand (L : Limits) (M : SppModule) (s : MngData) (r : Request) :
    Option SppCommand :=
  (sppCommandDecodeRequest L M s r.text).toOption.filter fun command =>
    ((updateCommand L s command).bind Except.toOption).isSome

/-- A step of the process, after which an accepted request is part of the
configuration. -/
def configStep (P : SppProcess) (hash : RteHashTable τ) (e : RuntimeEvent ρ)
    (x : ConfiguredProcess τ ρ) : Option (ConfiguredProcess τ ρ) :=
  (runtimeStep P hash e x.rt).map fun rt =>
    ⟨rt, (e.request?.bind (acceptedCommand P.L P.M x.rt.flush.s)).elim x.cfg
      fun command => x.cfg.execute command⟩

/-- Every request meets what the configuration asks for. -/
def RequestsInOrder (P : SppProcess) (e : RuntimeEvent ρ) (x : ConfiguredProcess τ ρ) : Prop :=
  ∀ r, e = .request r → ConfigOrder P.L P.M r ⟨x.rt.flush.s, x.rt.given⟩

/-- The process before its first request, with nothing configured. -/
def ConfiguredProcess.initial (P : SppProcess) (numNic mainLcore : ℕ) : ConfiguredProcess τ ρ :=
  ⟨.initial P numNic mainLcore, []⟩

end System

section Steps

variable {P : SppProcess} {hash : RteHashTable τ} {rt rt' : Runtime τ ρ} {cfg : Configuration}

/-- A request that its update function accepts. -/
theorem acceptedCommand_of_update {L : Limits} {M : SppModule} {s s' : MngData} {r : Request}
    {command : SppCommand} (hdecode : sppCommandDecodeRequest L M s r.text = .ok command)
    (hupdate : updateCommand L s command = some (.ok s')) :
    acceptedCommand L M s r = some command := by
  simp [acceptedCommand, hdecode, hupdate, Except.toOption]

/-- A request that has changed nothing has not been accepted. -/
theorem acceptedCommand_eq_none {L : Limits} {M : SppModule} {s : MngData} {r : Request}
    (h : ∀ command s', sppCommandDecodeRequest L M s r.text = .ok command →
      updateCommand L s command ≠ some (.ok s')) : acceptedCommand L M s r = none := by
  unfold acceptedCommand
  cases hdecode : sppCommandDecodeRequest L M s r.text with
  | error e => rfl
  | ok command =>
    refine Option.filter_eq_none_iff.mpr fun c hc => ?_
    obtain rfl := Option.some.inj hc
    cases hupdate : updateCommand L s command with
    | none => simp
    | some result =>
      cases result with
      | error stop => simp [Except.toOption]
      | ok s' => exact absurd hupdate (h command s' hdecode)

/-- Only a request records an ability. -/
theorem given_of_inner {e : RuntimeEvent ρ} (hinner : e.Inner)
    (h : runtimeStep P hash e rt = some rt') : rt'.given = rt.given := by
  by_cases hworker : ∀ memory, e ≠ .manager memory
  · exact (worker_kept hinner hworker h).2.1
  · obtain ⟨memory, rfl⟩ := not_forall_not.mp hworker
    cases managerStep_cases h with
    | failPort | publishCores | copyBack | spin => rfl
    | component hpc hstep => cases hstep <;> rfl

variable (P) in
/-- The tables keep the configuration, and the lists that `flush_core` publishes are in
step by the time at which the flags are cleared. -/
structure InConfiguration (cfg : Configuration) (rt : Runtime τ ρ) : Prop where
  configured : Configured P.L cfg ⟨rt.tables P, rt.given⟩
  settled : rt.pc = .core ∨ rt.pc = .component →
    CoreListsSynced (backupMngInfo P.L (rt.tables P))

/-- Publishing the lists keeps them and leaves the flags. -/
theorem coreListsSynced_flushCore {L : Limits} {s : MngData} (h : CoreListsSynced s) :
    CoreListsSynced (flushCore L s) := by
  refine ⟨fun l => flushCore_indices_ne (h.indices_ne l), fun l hflag => ?_⟩
  have hflag' : s.changeCore l = false := hflag
  simpa [flushCore, hflag'] using h.synced l hflag'

/-- Whatever changes devices, published lists or flags keeps the configuration. -/
theorem Configured.flushed {L : Limits} {st st' : AbilityState} (h : Configured L cfg st)
    (hsynced : CoreListsSynced st'.s) (hcomponent : st'.s.component = st.s.component)
    (hupd : ∀ l, (st'.s.core l).updList = (st.s.core l).updList)
    (hiface : DeviceUpdate st.s.iface st'.s.iface) (hgiven : st'.given = st.given) :
    Configured L cfg st' := by
  refine h.congr hsynced hcomponent hupd (fun port => ?_) hgiven
  rcases hiface port with hsame | ⟨-, -, d, -, hsame⟩
  · rw [hsame]
    exact ⟨rfl, rfl, rfl⟩
  · rw [hsame]
    exact ⟨rfl, rfl, rfl⟩

/-- No step between two requests takes the tables from the configuration. -/
theorem InConfiguration.inner (h : InConfiguration P cfg rt) {e : RuntimeEvent ρ}
    (hinner : e.Inner) (hstep : runtimeStep P hash e rt = some rt') :
    InConfiguration P cfg rt' := by
  have hconfigured := h.configured
  have hgiven := given_of_inner hinner hstep
  cases tablesStep_of_inner hconfigured.synced hinner hstep with
  | same hpc htables =>
    refine ⟨by rwa [htables, hgiven], fun hpc' => ?_⟩
    rw [htables]
    refine h.settled ?_
    rcases hpc with hpc | ⟨hpc, -⟩
    · rwa [← hpc]
    · exact .inl hpc
  | failPort hpc hpc' hport =>
    obtain ⟨iface', hdev, hsnd⟩ := flushPort_snd P.L rt.flush.dev rt.flush.s
    rw [hport] at hsnd
    dsimp only at hsnd
    rw [tables_of_ne (by simp [hpc])] at hconfigured
    refine ⟨?_, fun h => by simp [hpc'] at h⟩
    rw [tables_of_ne (by simp [hpc']), hgiven, hsnd]
    exact hconfigured.flushed ⟨hconfigured.synced.indices_ne, hconfigured.synced.synced⟩ rfl
      (fun _ => rfl) hdev rfl
  | publishCores hpc hpc' hport htables =>
    obtain ⟨iface', hdev, hsnd⟩ := flushPort_snd P.L rt.flush.dev rt.flush.s
    rw [hport] at hsnd
    rw [tables_of_ne (by simp [hpc])] at hconfigured
    have hsynced := hconfigured.synced
    have hsynced' : CoreListsSynced { rt.flush.s with iface := iface' } :=
      ⟨hsynced.indices_ne, hsynced.synced⟩
    dsimp only at hsnd
    subst hsnd
    refine ⟨?_, fun _ => ?_⟩
    · rw [htables, hgiven]
      exact hconfigured.flushed (coreListsSynced_flushCore hsynced') rfl
        (fun l => updList_flushCore (s := { rt.flush.s with iface := iface' })
          (hsynced.indices_ne l)) hdev rfl
    · rw [htables]
      exact hsynced'.flushCore
  | finish hpc hpc' htables =>
    have hsettled := h.settled (.inr hpc)
    rw [tables_of_ne (by simp [hpc])] at hconfigured hsettled
    refine ⟨?_, fun h => by simp [hpc'] at h⟩
    rw [tables_of_ne (by simp [hpc']), hgiven, htables]
    exact hconfigured.flushed hsettled rfl (fun _ => rfl) (.refl _) rfl

/-- A request changes the configuration iff its update function accepts it. -/
theorem InConfiguration.request (h : InConfiguration P cfg rt) {r : Request}
    (horder : ConfigOrder P.L P.M r ⟨rt.flush.s, rt.given⟩)
    (hstep : rt.processRequest P hash r = some rt') :
    InConfiguration P ((acceptedCommand P.L P.M rt.flush.s r).elim cfg
      fun command => cfg.execute command) rt' := by
  have hconfigured := h.configured
  unfold Runtime.processRequest at hstep
  split at hstep
  · rename_i ret hpc
    rw [tables_of_ne (by simp [hpc])] at hconfigured
    have hkept : ∀ ret' replies, acceptedCommand P.L P.M rt.flush.s r = none →
        rt' = { rt with pc := .idle ret', replies := replies } →
        InConfiguration P ((acceptedCommand P.L P.M rt.flush.s r).elim cfg
          fun command => cfg.execute command) rt' := by
      rintro ret' replies hnone rfl
      rw [hnone]
      refine ⟨?_, fun h => by simp at h⟩
      rw [tables_of_ne (by simp)]
      exact hconfigured
    split at hstep
    · cases hstep
    · rename_i e hdecode
      cases hstep
      exact hkept _ _ (acceptedCommand_eq_none fun _ _ h => by simp [hdecode] at h) rfl
    · rename_i command hdecode
      have hnone : ∀ result, updateCommand P.L rt.flush.s command = result →
          (∀ s', result ≠ some (.ok s')) → acceptedCommand P.L P.M rt.flush.s r = none := by
        rintro _ rfl hne
        refine acceptedCommand_eq_none fun command' s' h => ?_
        rw [hdecode] at h
        cases h
        exact hne s'
      split at hstep
      · rename_i hupdate
        unfold Runtime.reply at hstep
        split at hstep <;> cases hstep <;>
          exact hkept _ _ (hnone _ hupdate (by simp)) rfl
      · cases hstep
      · rename_i hupdate
        cases hstep
        exact hkept _ _ (hnone _ hupdate (by simp)) rfl
      · rename_i s' hupdate
        cases hstep
        rw [acceptedCommand_of_update hdecode hupdate]
        refine ⟨?_, fun h => by simp at h⟩
        rw [tables_of_ne (by simp)]
        exact hconfigured.update hdecode horder hupdate
  · cases hstep

/-- Every step of the process keeps tables and configuration together. -/
theorem InConfiguration.step {x y : ConfiguredProcess τ ρ} (h : InConfiguration P x.cfg x.rt)
    {e : RuntimeEvent ρ} (horder : RequestsInOrder P e x)
    (hstep : configStep P hash e x = some y) : InConfiguration P y.cfg y.rt := by
  obtain ⟨rt', hrt, rfl⟩ := Option.map_eq_some_iff.mp hstep
  by_cases hinner : e.Inner
  · have hnone : e.request? = none := by
      cases e with
      | request r => exact absurd rfl (hinner r)
      | _ => rfl
    simp only [hnone, Option.bind_none, Option.elim_none]
    exact h.inner hinner hrt
  · obtain ⟨r, rfl⟩ : ∃ r, e = .request r := not_forall_not.mp hinner
    exact h.request (horder r rfl) hrt

end Steps

section Run

variable {P : SppProcess} {hash : RteHashTable τ} {x : ConfiguredProcess τ ρ}

/-- Before the first request nothing is configured. -/
theorem inConfiguration_initial (P : SppProcess) (numNic mainLcore : ℕ) :
    InConfiguration P [] (.initial P numNic mainLcore : Runtime τ ρ) := by
  refine ⟨?_, fun h => ?_⟩
  · rw [tables_of_ne (by simp [Runtime.initial])]
    exact configured_start P.L P.slave numNic mainLcore
  · simp [Runtime.initial] at h

/-- The tables keep the configuration in every reachable state. -/
theorem inConfiguration_of_reaches {numNic mainLcore : ℕ}
    (h : Reaches (configStep P hash) (RequestsInOrder P) (.initial P numNic mainLcore) x) :
    InConfiguration P x.cfg x.rt := by
  have hstep : ∀ (e : RuntimeEvent ρ) (x y : ConfiguredProcess τ ρ),
      InConfiguration P x.cfg x.rt → RequestsInOrder P e x → configStep P hash e x = some y →
        InConfiguration P y.cfg y.rt := fun _ _ _ hinv horder hstep => hinv.step horder hstep
  exact h.invariant (inConfiguration_initial P numNic mainLcore) hstep

/-- A test that is enough for a request to be in order: a start that names its type, or
an add while no component has a port in the direction. -/
def typedAttaches (P : SppProcess) (e : RuntimeEvent ρ) (x : ConfiguredProcess τ ρ) : Bool :=
  e.request?.all fun r => startsOrAttaches P.L P.M r ⟨x.rt.flush.s, x.rt.given⟩ &&
    decide (5 ≤ (strtok ' ' r.text).length)

theorem requestsInOrder_of_typedAttaches {e : RuntimeEvent ρ}
    (h : typedAttaches P e x = true) : RequestsInOrder P e x := by
  rintro r rfl
  obtain ⟨hattach, hlength⟩ : startsOrAttaches P.L P.M r ⟨x.rt.flush.s, x.rt.given⟩ = true ∧
      5 ≤ (strtok ' ' r.text).length := by
    simpa [typedAttaches, RuntimeEvent.request?] using h
  refine ⟨fun c hdecode _ => .inl ?_, abilityInOrder_of_startsOrAttaches hattach⟩
  obtain ⟨args, hargs, -, hmax, -⟩ := decodeRequest_component hdecode
  rw [hargs, List.length_cons] at hlength ⊢
  omega

/-- A forwarder is started, and receives on a port whose frames are tagged. -/
def startThenAttach : List (RuntimeEvent ℕ) :=
  flushEvents "component start f1 1 forward" 0 0 ++
    flushEvents "port add phy:0 rx f1 add_vlantag 10 3" 0 1

end Run

end Spp.Vf
