import Spp.Vf.PortDevice
import Spp.Vf.PublishedRuns

/-!
# What the process publishes in every run

The invariant of the flush asks for the devices of the ports. They come from the scan at
the start and from `flush_port`, and no two ports share one as long as DPDK gives every
new port a device of its own. With them every run of the process keeps what is published
in step with the configuration.
-/

namespace Spp.Vf

open CLib GuardedRun

variable {τ ρ : Type} {P : SppProcess} {rt rt' : Runtime τ ρ}

section Devices

variable {L : Limits} {M : SppModule} {s s' : MngData} {dev : Devices} {numNic : ℕ}

/-- The device that `flush_port` is given for a port. -/
def Devices.create (dev : Devices) (port : PortRef) : ℤ :=
  if port.array = .vhost then dev.addVhostPmd port.no else dev.addRingPmd port.no

/-- `flush_port` asks for a device for this port. -/
def MngData.Lacks (s : MngData) (L : Limits) (port : PortRef) : Prop :=
  port.array ≠ .nic ∧ port.no < L.maxEthports ∧ (s.iface port).ifaceType ≠ .undef ∧
    (s.iface port).dpdkPort < 0

/-- The devices that are created are other ones than those that exist. -/
structure DevicesFresh (L : Limits) (dev : Devices) (s : MngData) : Prop where
  unused : ∀ port, s.Lacks L port → 0 ≤ dev.create port →
    ∀ q, (s.iface q).dpdkPort ≠ dev.create port
  apart : ∀ p q, s.Lacks L p → s.Lacks L q → dev.create p = dev.create q → p = q

/-- No device belongs to two ports. -/
def DevicesApart (s : MngData) : Prop :=
  ∀ p q, 0 ≤ (s.iface p).dpdkPort → (s.iface p).dpdkPort = (s.iface q).dpdkPort → p = q

/-- A loop of `flush_port` gives a port of its array the device that it is given for it,
and leaves all others. -/
theorem flushPortArray_device (addPmd : ℕ → ℤ) (ports : List PortRef) (s : MngData)
    (port : PortRef) :
    ((flushPortArray addPmd ports s).2.iface port).dpdkPort = (s.iface port).dpdkPort ∨
      port ∈ ports ∧ (s.iface port).ifaceType ≠ .undef ∧ (s.iface port).dpdkPort < 0 ∧
        0 ≤ addPmd (s.iface port).ifaceNo ∧
        ((flushPortArray addPmd ports s).2.iface port).dpdkPort =
          addPmd (s.iface port).ifaceNo := by
  induction ports generalizing s with
  | nil => exact .inl rfl
  | cons p ports ih =>
    have hentry : (flushPortEntry addPmd p s).2.iface port = s.iface port ∨
        port = p ∧ (s.iface p).ifaceType ≠ .undef ∧ (s.iface p).dpdkPort < 0 ∧
          0 ≤ addPmd (s.iface p).ifaceNo ∧
          (flushPortEntry addPmd p s).2.iface port =
            { s.iface p with dpdkPort := addPmd (s.iface p).ifaceNo } := by
      unfold flushPortEntry
      dsimp only
      split
      · rename_i hadded
        split
        · exact .inl rfl
        · rename_i hret
          by_cases hport : port = p
          · subst hport
            exact .inr ⟨rfl, hadded.1, hadded.2, Int.not_lt.mp hret, by simp⟩
          · exact .inl (by simp [hport])
      · exact .inl rfl
    have hfirst : ((flushPortEntry addPmd p s).2.iface port).dpdkPort =
          (s.iface port).dpdkPort ∨
        port ∈ p :: ports ∧ (s.iface port).ifaceType ≠ .undef ∧ (s.iface port).dpdkPort < 0 ∧
          0 ≤ addPmd (s.iface port).ifaceNo ∧
          ((flushPortEntry addPmd p s).2.iface port).dpdkPort =
            addPmd (s.iface port).ifaceNo := by
      rcases hentry with hsame | ⟨rfl, hadded, hneg, hret, hnew⟩
      · exact .inl (by rw [hsame])
      · exact .inr ⟨List.mem_cons_self, hadded, hneg, hret, by rw [hnew]⟩
    unfold flushPortArray
    split
    · rename_i t ht
      rw [ht] at hfirst
      exact hfirst
    · rename_i t ht
      rw [ht] at hentry
      dsimp only at hentry
      rcases hentry with hsame | ⟨rfl, hadded, hneg, hret, hnew⟩
      · rcases ih t with hkept | ⟨hmem, hrest⟩
        · exact .inl (by rw [hkept, hsame])
        · rw [hsame] at hrest
          exact .inr ⟨List.mem_cons_of_mem p hmem, hrest⟩
      · rcases ih t with hkept | ⟨-, -, hneg', -⟩
        · exact .inr ⟨List.mem_cons_self, hadded, hneg, hret, by rw [hkept, hnew]⟩
        · rw [hnew] at hneg'
          dsimp only at hneg'
          omega

/-- `flush_port` gives a device to the ports that lack one only. -/
theorem flushPort_device (L : Limits) (dev : Devices) {s : MngData}
    (hno : ∀ port, (s.iface port).ifaceNo = port.no) (port : PortRef) :
    ((flushPort L dev s).2.iface port).dpdkPort = (s.iface port).dpdkPort ∨
      s.Lacks L port ∧ 0 ≤ dev.create port ∧
        ((flushPort L dev s).2.iface port).dpdkPort = dev.create port := by
  have hmem : ∀ {array : IfaceArray},
      port ∈ (List.range L.maxEthports).map (PortRef.mk array) →
        port.array = array ∧ port.no < L.maxEthports := by
    intro array h
    obtain ⟨i, hi, rfl⟩ := List.mem_map.mp h
    exact ⟨rfl, List.mem_range.mp hi⟩
  have hvhost := flushPortArray_device dev.addVhostPmd
    ((List.range L.maxEthports).map (PortRef.mk .vhost)) s port
  obtain ⟨iface₁, h₁, hsnd⟩ := flushPortArray_snd dev.addVhostPmd
    ((List.range L.maxEthports).map (PortRef.mk .vhost)) s
  have hfirst : (iface₁ port).dpdkPort = (s.iface port).dpdkPort ∨
      s.Lacks L port ∧ 0 ≤ dev.create port ∧ (iface₁ port).dpdkPort = dev.create port := by
    rw [hsnd, hno] at hvhost
    rcases hvhost with hsame | ⟨hport, hadded, hneg, hret, hnew⟩
    · exact .inl hsame
    · obtain ⟨harray, hlt⟩ := hmem hport
      have hcreate : dev.create port = dev.addVhostPmd port.no := if_pos harray
      rw [hcreate]
      exact .inr ⟨⟨by simp [harray], hlt, hadded, hneg⟩, hret, hnew⟩
  unfold flushPort
  split
  · rename_i t ht
    rw [ht] at hsnd
    dsimp only at hsnd
    subst hsnd
    exact hfirst
  · rename_i t ht
    rw [ht] at hsnd
    dsimp only at hsnd
    subst hsnd
    have htype := h₁.ifaceType port
    have hno₁ : (iface₁ port).ifaceNo = port.no := by
      rcases h₁ port with hsame | ⟨-, -, d, -, hsame⟩ <;> rw [hsame] <;> exact hno port
    have hring := flushPortArray_device dev.addRingPmd
      ((List.range L.maxEthports).map (PortRef.mk .ring)) { s with iface := iface₁ } port
    dsimp only at hring
    rw [hno₁, htype] at hring
    rcases hring with hsame | ⟨hport, hadded, hneg, hret, hnew⟩
    · rwa [hsame]
    · obtain ⟨harray, hlt⟩ := hmem hport
      have hcreate : dev.create port = dev.addRingPmd port.no := if_neg (by simp [harray])
      have hneg' : (s.iface port).dpdkPort < 0 := by
        rcases hfirst with hsame | ⟨⟨-, -, -, hneg'⟩, -⟩
        · rwa [hsame] at hneg
        · exact hneg'
      rw [hcreate]
      exact .inr ⟨⟨by simp [harray], hlt, hadded, hneg'⟩, hret, hnew⟩

/-- `flush_port` keeps the devices apart. -/
theorem DevicesApart.flushPort (h : DevicesApart s) (hno : ∀ port, (s.iface port).ifaceNo = port.no)
    (hfresh : DevicesFresh L dev s) : DevicesApart (flushPort L dev s).2 := by
  intro p q hnonneg hsame
  rcases flushPort_device L dev hno p with hp | ⟨hlacks, hret, hp⟩
  · rcases flushPort_device L dev hno q with hq | ⟨hlacks', hret', hq⟩
    · rw [hp] at hnonneg hsame
      exact h p q hnonneg (by rw [hsame, hq])
    · rw [hp, hq] at hsame
      exact absurd hsame (hfresh.unused q hlacks' hret' p)
  · rcases flushPort_device L dev hno q with hq | ⟨hlacks', hret', hq⟩
    · rw [hp, hq] at hsame
      exact absurd hsame.symm (hfresh.unused p hlacks hret q)
    · rw [hp, hq] at hsame
      exact hfresh.apart p q hlacks hlacks' hsame

/-- What is known of the devices speaks of components and interfaces only. -/
theorem DevicesOk.congr (h : DevicesOk L numNic s) (hcomponent : s'.component = s.component)
    (hiface : s'.iface = s.iface) : DevicesOk L numNic s' := by
  refine h.update (fun port => by rw [hiface]) (fun port hne => by rwa [hiface])
    fun port hport => .inl ?_
  unfold MngData.Attached at hport
  rwa [hcomponent] at hport

/-- `flush_port` keeps what is known of the devices. -/
theorem DevicesOk.flushPort (h : DevicesOk L numNic s) (hdev : dev.InRange L) :
    DevicesOk L numNic (flushPort L dev s).2 := by
  obtain ⟨iface', hupdate, hsnd⟩ := flushPort_snd L dev s
  have hlt := flushPort_lt hdev h.lt
  rw [hsnd] at hlt ⊢
  refine ⟨fun port hport => ?_, hlt, fun port harray hno hmax => ?_⟩
  · dsimp only
    rw [hupdate.ifaceType]
    exact h.attached port hport
  · exact hupdate.nonneg (h.nic port harray hno hmax)

/-- After a `flush_port` that succeeds every attached port has a device of its own. -/
theorem devicesGiven_flushPort (h : DevicesOk L numNic s) (hdev : dev.InRange L)
    (hapart : DevicesApart s') (hflush : flushPort L dev s = (.ok, s')) : DevicesGiven L s' := by
  obtain ⟨iface', hupdate, hsnd⟩ := flushPort_snd L dev s
  have hok := h.flushPort hdev
  rw [hflush] at hok hsnd
  dsimp only at hok hsnd
  refine ⟨fun id d port hin => ?_, fun p q portId hp hq => ?_⟩
  · obtain ⟨hmax, hadded, hnic⟩ := hok.attached port ⟨id, hin.1, hin.2.1, d, hin.2.2⟩
    have hnonneg : 0 ≤ (s'.iface port).dpdkPort := by
      by_cases harray : port.array = .nic
      · exact hok.nic port harray (hnic harray) hmax
      · refine flushPort_created hflush harray hmax ?_
        rw [hsnd] at hadded
        dsimp only at hadded
        rwa [hupdate.ifaceType] at hadded
    exact ⟨_, if_pos ⟨hnonneg, hok.lt port⟩⟩
  · have hindex : ∀ {port : PortRef}, portMngIndex L (s'.iface port) = some portId →
        (s'.iface port).dpdkPort = portId := by
      intro port hport
      unfold portMngIndex at hport
      split at hport
      · rename_i hrange
        have hnat := Option.some.inj hport
        omega
      · cases hport
    refine hapart p q ?_ ((hindex hp).trans (hindex hq).symm)
    rw [hindex hp]
    exact Int.natCast_nonneg portId

end Devices

section Known

variable {hash : RteHashTable τ} {numNic : ℕ}

variable (P numNic) in
/-- What is known of the devices at every place of the process. -/
structure DevicesKnown (rt : Runtime τ ρ) : Prop where
  ok : DevicesOk P.L numNic rt.flush.s
  apart : DevicesApart rt.flush.s
  inRange : rt.pc = .update → rt.flush.dev.InRange P.L

/-- The devices are known while components and interfaces stay. -/
theorem DevicesKnown.congr (h : DevicesKnown P numNic rt)
    (hcomponent : rt'.flush.s.component = rt.flush.s.component)
    (hiface : rt'.flush.s.iface = rt.flush.s.iface)
    (hinRange : rt'.pc = .update → rt'.flush.dev.InRange P.L) : DevicesKnown P numNic rt' := by
  refine ⟨h.ok.congr hcomponent hiface, ?_, hinRange⟩
  unfold DevicesApart
  rw [hiface]
  exact h.apart

/-- A request gives no device away. -/
theorem DevicesKnown.request (h : DevicesKnown P numNic rt) {r : Request}
    (hdev : r.dev.InRange P.L) (hfound : NicFound P.L P.M numNic r rt.flush.s)
    (hstep : rt.processRequest P hash r = some rt') : DevicesKnown P numNic rt' := by
  obtain ⟨ret, hpc, ⟨ret', replies, rfl⟩ | ⟨command, s', hdecode, hupdate, rfl⟩⟩ :=
    processRequest_step hstep
  · exact h.congr rfl rfl (by simp)
  · refine ⟨?_, fun p q => ?_, fun _ => hdev⟩
    · rcases updateCommand_cases hupdate with ⟨c, rfl, hc⟩ | ⟨c, rfl, hc⟩ | ⟨c, -, hc⟩
      · exact h.ok.sppUpdateComponent hc
      · exact h.ok.sppUpdatePort hdecode hfound hc
      · exact h.ok.sppUpdateClassifierTable hc
    · dsimp only
      rw [updateCommand_dpdkPort hupdate, updateCommand_dpdkPort hupdate]
      exact h.apart p q

/-- Manager and workers keep the devices, and `flush_port` creates other ones. -/
theorem DevicesKnown.inner (h : DevicesKnown P numNic rt)
    (hno : ∀ port, (rt.flush.s.iface port).ifaceNo = port.no) {e : RuntimeEvent ρ}
    (hinner : e.Inner)
    (hfresh : ∀ memory, e = .manager memory → rt.pc = .update →
      DevicesFresh P.L rt.flush.dev rt.flush.s)
    (hstep : runtimeStep P hash e rt = some rt') : DevicesKnown P numNic rt' := by
  cases e with
  | request r => exact absurd rfl (hinner r)
  | manager memory =>
    have hflush : ∀ {ret : Ret} {s : MngData}, rt.pc = .update →
        flushPort P.L rt.flush.dev rt.flush.s = (ret, s) →
        DevicesOk P.L numNic s ∧ DevicesApart s := by
      intro ret s hpc hport
      have hok := h.ok.flushPort (h.inRange hpc)
      have hapart := h.apart.flushPort hno (hfresh memory rfl hpc)
      rw [hport] at hok hapart
      exact ⟨hok, hapart⟩
    cases managerStep_cases hstep with
    | failPort hpc hport =>
      obtain ⟨hok, hapart⟩ := hflush hpc hport
      exact ⟨hok, hapart, by simp [Runtime.finish]⟩
    | publishCores hpc hport =>
      obtain ⟨hok, hapart⟩ := hflush hpc hport
      exact ⟨hok.congr rfl rfl, hapart, by simp⟩
    | copyBack => exact h.congr rfl rfl (by simp)
    | spin => exact h
    | component hpc hcomponent =>
      refine h.congr (component_of_inner hinner hstep) ?_ fun hpc' => ?_
      · cases hcomponent <;> rfl
      · cases hcomponent <;>
          simp [hpc, Runtime.finishFlush, Runtime.finish, Runtime.buildClassifier,
            Runtime.setMngInfo] at hpc'
  | takeCore l =>
    obtain ⟨-, rfl⟩ := takeCore_cases hstep
    exact h.congr rfl rfl h.inRange
  | run l cnt call =>
    obtain ⟨hpc, -, -, hflush | ⟨target, -, hflush⟩⟩ := run_effect hstep
    · exact h.congr (by rw [hflush]) (by rw [hflush]) (by rw [hflush, hpc]; exact h.inRange)
    · refine h.congr (by rw [hflush]; rfl) (by rw [hflush]; rfl) ?_
      rw [hflush, hpc]
      exact h.inRange

/-- Before the first request the physical ports of the scan have a device. -/
theorem dpdkPort_initial (P : SppProcess) (numNic mainLcore : ℕ) (port : PortRef) :
    ((Runtime.initial P numNic mainLcore : Runtime τ ρ).flush.s.iface port).dpdkPort =
      if port.array = .nic ∧ port.no < min numNic P.L.maxEthports then (port.no : ℤ) else -1 := by
  simp only [Runtime.initial, FlushWorld.initial, startForwarding, initMngData, initIfaceInfo]
  split <;> rfl

/-- The scan gives every physical port a device of its own. -/
theorem devicesKnown_initial (P : SppProcess) (numNic mainLcore : ℕ) :
    DevicesKnown P numNic (.initial P numNic mainLcore : Runtime τ ρ) := by
  refine ⟨devicesOk_start P.slave mainLcore, fun p q hnonneg hsame => ?_, by simp [Runtime.initial]⟩
  rw [dpdkPort_initial] at hnonneg hsame
  rw [dpdkPort_initial] at hsame
  split at hnonneg
  · rename_i hp
    rw [if_pos hp] at hsame
    split at hsame
    · rename_i hq
      obtain ⟨array, no⟩ := p
      obtain ⟨array', no'⟩ := q
      obtain rfl : array = .nic := hp.1
      obtain rfl : array' = .nic := hq.1
      obtain rfl : no = no' := Int.natCast_inj.mp hsame
      rfl
    · omega
  · omega

end Known

section Run

variable {hash : RteHashTable τ} {numNic : ℕ} {x y : ConfiguredProcess τ ρ}

variable (P hash numNic) in
/-- What a step has to meet for the workers to read what is configured. -/
structure PublishesInOrder (e : RuntimeEvent ρ) (x : ConfiguredProcess τ ρ) : Prop where
  request : RequestsInOrder P e x
  /-- Devices are those of the table, and an attached physical port has one. -/
  found : ∀ r, e = .request r → r.dev.InRange P.L ∧ NicFound P.L P.M numNic r x.rt.flush.s
  fresh : ∀ memory, e = .manager memory → x.rt.pc = .update →
    DevicesFresh P.L x.rt.flush.dev x.rt.flush.s
  updates : ∀ memory, e = .manager memory → x.rt.pc = .component →
    UpdatesInOrder P hash.toRteHash memory x.rt

variable (P hash numNic) in
/-- Tables, published areas and devices are in step. -/
structure Publishing (x : ConfiguredProcess τ ρ) : Prop where
  configuration : InConfiguration P x.cfg x.rt
  inStep : InStep P hash.toRteHash x.rt
  devices : DevicesKnown P numNic x.rt

/-- Before the first request there is nothing to publish. -/
theorem inStep_initial (P : SppProcess) (hash : RteHash τ) (numNic mainLcore : ℕ) :
    InStep P hash (.initial P numNic mainLcore : Runtime τ ρ) := by
  refine ⟨flushInv_initial _ _, fun _ => rfl, fun _ => rfl, by simp [Runtime.initial],
    fun id hlt hflag => (by cases hflag), List.nodup_nil, fun id hid => (by cases hid),
    fun d portId hport => (by cases hport), fun id rest hm => ?_, fun id rest hm => (by cases hm),
    fun id _ vid => rfl, fun id hlt hused => absurd rfl hused⟩
  rcases hm with hm | ⟨ref, hm⟩ <;> cases hm

/-- Every step of the process keeps tables, published areas and devices in step. -/
theorem Publishing.step (h : Publishing P hash numNic x) {e : RuntimeEvent ρ}
    (horder : PublishesInOrder P hash numNic e x) (hstep : configStep P hash e x = some y) :
    Publishing P hash numNic y := by
  have hconfiguration := h.configuration.step horder.request hstep
  have hslots := h.configuration.slots
  have hno := hslots.typed.ifaceNo
  obtain ⟨rt', hrt, rfl⟩ := Option.map_eq_some_iff.mp hstep
  refine ⟨hconfiguration, ?_, ?_⟩
  · cases e with
    | request r => exact h.inStep.request h.configuration (horder.request r rfl) hrt
    | manager memory =>
      cases hpc : x.rt.pc with
      | idle ret => simp [runtimeStep, Runtime.managerStep, hpc] at hrt
      | update =>
        refine h.inStep.update hpc (fun s hflush => ?_) hrt
        have hapart := h.devices.apart.flushPort hno (horder.fresh memory rfl hpc)
        rw [hflush] at hapart
        exact devicesGiven_flushPort h.devices.ok (h.devices.inRange hpc) hapart hflush
      | core => exact h.inStep.core hpc hrt
      | component =>
        refine h.inStep.component hslots hpc (horder.updates memory rfl hpc) ?_
        simpa [runtimeStep, Runtime.managerStep, hpc] using hrt
    | takeCore l => exact h.inStep.takeCore hrt
    | run l cnt call => exact h.inStep.run hslots hrt
  · by_cases hinner : e.Inner
    · exact h.devices.inner hno hinner horder.fresh hrt
    · obtain ⟨r, rfl⟩ : ∃ r, e = .request r := not_forall_not.mp hinner
      obtain ⟨hdev, hfound⟩ := horder.found r rfl
      exact h.devices.request hdev hfound hrt

/-- Tables, published areas and devices are in step before the first request. -/
theorem publishing_initial (P : SppProcess) (hash : RteHashTable τ) (numNic mainLcore : ℕ) :
    Publishing P hash numNic (.initial P numNic mainLcore : ConfiguredProcess τ ρ) :=
  ⟨inConfiguration_initial P numNic mainLcore, inStep_initial P _ numNic mainLcore,
    devicesKnown_initial P numNic mainLcore⟩

/-- Tables, published areas and devices are in step in every reachable state. -/
theorem publishing_of_reaches {mainLcore : ℕ}
    (h : Reaches (configStep P hash) (PublishesInOrder P hash numNic)
      (.initial P numNic mainLcore) x) : Publishing P hash numNic x :=
  h.invariant (publishing_initial P hash numNic mainLcore)
    fun _ _ _ hinv horder hstep => hinv.step horder hstep

/-- No vhost or ring port has been added. -/
def noPortLacks (L : Limits) (s : MngData) : Bool :=
  (List.range L.maxEthports).all fun i =>
    (s.iface ⟨.vhost, i⟩).ifaceType = .undef && (s.iface ⟨.ring, i⟩).ifaceType = .undef

theorem devicesFresh_of_noPortLacks {L : Limits} {dev : Devices} {s : MngData}
    (h : noPortLacks L s = true) : DevicesFresh L dev s := by
  have hnone : ∀ port, ¬ s.Lacks L port := by
    rintro ⟨array, no⟩ ⟨hnic, hlt, hadded, -⟩
    have hundef := List.all_eq_true.mp h no (List.mem_range.mpr hlt)
    simp only [Bool.and_eq_true, decide_eq_true_eq] at hundef
    cases array with
    | nic => exact hnic rfl
    | vhost => exact hadded hundef.1
    | ring => exact hadded hundef.2
  exact ⟨fun port hport => absurd hport (hnone port), fun p q hp => absurd hp (hnone p)⟩

instance (port : PortInfo) : Decidable (ClassIdOk port) :=
  inferInstanceAs (Decidable (_ ∧ _ ∧ _))

/-- A test that decides whether a step of `flush_component` is in order. -/
def updatesTest (P : SppProcess) (hash : RteHash τ) (memory : ℕ → Bool) (rt : Runtime τ ρ) :
    Bool :=
  match rt.flush.manager with
  | .setting id [] _ =>
    componentUpdateRet P.M (rt.flushWorld hash memory).dev rt.flush.s id = .ok ∧
      ∀ port ∈ (rt.flush.s.component id).txPorts, ClassIdOk (rt.flush.s.iface port)
  | .publish id _ =>
    (rt.flush.index (updateTarget P.M rt.flush.s id)).refIndex ≠
      (rt.flush.index (updateTarget P.M rt.flush.s id)).updIndex
  | _ => true

theorem updatesInOrder_of_test {hash : RteHash τ} {memory : ℕ → Bool}
    (h : updatesTest P hash memory rt = true) : UpdatesInOrder P hash memory rt := by
  unfold updatesTest at h
  refine ⟨fun id rest hm => ?_, fun id rest hm _ => ?_, fun id rest hm => ?_⟩
  · rw [hm] at h
    exact (of_decide_eq_true h).1
  · rw [hm] at h
    exact (of_decide_eq_true h).2
  · rw [hm] at h
    exact of_decide_eq_true h

/-- A test that is enough for a step to be in order while no vhost or ring port is added. -/
def publishesTest (P : SppProcess) (hash : RteHashTable τ) (numNic : ℕ) (e : RuntimeEvent ρ)
    (x : ConfiguredProcess τ ρ) : Bool :=
  typedAttaches P e x && (e.request?.all fun r => nicFoundTest P.L P.M numNic r x.rt.flush.s) &&
    match e with
    | .manager memory =>
      (x.rt.pc ≠ .update || noPortLacks P.L x.rt.flush.s) &&
        (x.rt.pc ≠ .component || updatesTest P hash.toRteHash memory x.rt)
    | _ => true

theorem publishesInOrder_of_test {e : RuntimeEvent ρ}
    (hdev : ∀ r, e = .request r → r.dev.InRange P.L)
    (h : publishesTest P hash numNic e x = true) : PublishesInOrder P hash numNic e x := by
  unfold publishesTest at h
  rw [Bool.and_eq_true, Bool.and_eq_true] at h
  obtain ⟨⟨hrequest, hfound⟩, hmanager⟩ := h
  refine ⟨requestsInOrder_of_typedAttaches hrequest, fun r he => ⟨hdev r he, ?_⟩,
    fun memory he hpc => ?_, fun memory he hpc => ?_⟩
  · subst he
    exact nicFound_of_test (by simpa [RuntimeEvent.request?] using hfound)
  · subst he
    simp only [hpc, ne_eq, not_true_eq_false, decide_false, Bool.false_or, Bool.and_eq_true]
      at hmanager
    exact devicesFresh_of_noPortLacks hmanager.1
  · subst he
    simp only [hpc, ne_eq, not_true_eq_false, decide_false, Bool.false_or, Bool.and_eq_true]
      at hmanager
    exact updatesInOrder_of_test hmanager.2

/-- A request whose flush updates the component of lcore 1, which is called once before. -/
def calledFlush (text : String) (ports : ℕ) : List (RuntimeEvent ℕ) :=
  [.request (.ofString text), managerEvent, .takeCore 1, managerEvent, runEvent 0 [],
    managerEvent] ++ List.replicate ports managerEvent ++
    [managerEvent, managerEvent, managerEvent, runEvent 0 [], managerEvent, managerEvent,
      managerEvent]

/-- A classifier gets a transmit port, and an address is registered for it. -/
def startClassifier : List (RuntimeEvent ℕ) :=
  calledFlush "component start c1 1 classifier_mac" 0 ++ calledFlush "port add phy:0 tx c1" 1 ++
    calledFlush "classifier_table add mac 00:11:22:33:44:55 phy:0" 1

/-- A run that passes the test is in order when its requests are written as texts. -/
theorem reaches_of_texts {events : List (RuntimeEvent ℕ)} (texts : List String)
    {x : ConfiguredProcess (List (ℕ × ℕ)) ℕ}
    (hrun : runAll
      (tested (configStep oneSlave assocHashTable) (publishesTest oneSlave assocHashTable 1))
      events (.initial oneSlave 1 0) = some x)
    (htexts : events.filterMap RuntimeEvent.request? = texts.map Request.ofString) :
    Reaches (configStep oneSlave assocHashTable) (PublishesInOrder oneSlave assocHashTable 1)
      (.initial oneSlave 1 0) x := by
  refine reaches_of_runAll_tested hrun fun e he _ htest => publishesInOrder_of_test ?_ htest
  rintro r rfl
  have hmem : r ∈ events.filterMap RuntimeEvent.request? :=
    List.mem_filterMap.mpr ⟨_, he, rfl⟩
  rw [htexts] at hmem
  obtain ⟨text, -, rfl⟩ := List.mem_map.mp hmem
  exact ofString_inRange text

end Run

end Spp.Vf
