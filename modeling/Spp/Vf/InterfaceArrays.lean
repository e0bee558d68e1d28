import Spp.Vf.TableFaithful

/-!
# What the reply shows of the interfaces

The arrays `phy`, `vhost` and `ring` list the interfaces that have a device. The physical
ones are those that the scan has found, a device is given once and kept for good, and
every port that the array `core` shows with a component is listed.
-/

namespace Spp.Vf

open CLib GuardedRun

variable {τ ρ : Type} {P : SppProcess} {rt rt' : Runtime τ ρ} {hash : RteHashTable τ}
  {numNic : ℕ} {x y z : ConfiguredProcess τ ρ}

section Stay

/-- Devices are kept, and only a port of another array than `nic` may get one. -/
def DevicesStay (s s' : MngData) : Prop :=
  ∀ port, (s'.iface port).dpdkPort = (s.iface port).dpdkPort ∨
    port.array ≠ .nic ∧ (s.iface port).dpdkPort < 0

variable {s s' s'' : MngData}

theorem devicesStay_of_iface (h : s'.iface = s.iface) : DevicesStay s s' :=
  fun port => .inl (by rw [h])

theorem DevicesStay.trans (h : DevicesStay s s') (h' : DevicesStay s' s'') :
    DevicesStay s s'' := by
  intro port
  rcases h port with hsame | hnew
  · rcases h' port with hsame' | hnew'
    · exact .inl (hsame'.trans hsame)
    · rw [hsame] at hnew'
      exact .inr hnew'
  · exact .inr hnew

/-- A device that a port has is kept. -/
theorem DevicesStay.eq_of_nonneg (h : DevicesStay s s') {port : PortRef}
    (hnonneg : 0 ≤ (s.iface port).dpdkPort) :
    (s'.iface port).dpdkPort = (s.iface port).dpdkPort := by
  rcases h port with hsame | ⟨-, hneg⟩
  · exact hsame
  · omega

/-- Physical ports keep what the scan has given to them. -/
theorem DevicesStay.eq_of_nic (h : DevicesStay s s') {port : PortRef} (hnic : port.array = .nic) :
    (s'.iface port).dpdkPort = (s.iface port).dpdkPort := by
  rcases h port with hsame | ⟨hother, -⟩
  · exact hsame
  · exact absurd hnic hother

/-- `flush_port` creates what is missing only. -/
theorem devicesStay_flushPort (L : Limits) (dev : Devices)
    (hno : ∀ port, (s.iface port).ifaceNo = port.no) : DevicesStay s (flushPort L dev s).2 := by
  intro port
  rcases flushPort_device L dev hno port with hsame | ⟨⟨hnic, -, -, hneg⟩, -⟩
  · exact .inl hsame
  · exact .inr ⟨hnic, hneg⟩

/-- Every step of the process. -/
theorem devicesStay_of_step (hno : ∀ port, (rt.flush.s.iface port).ifaceNo = port.no)
    {e : RuntimeEvent ρ} (hstep : runtimeStep P hash e rt = some rt') :
    DevicesStay rt.flush.s rt'.flush.s := by
  cases e with
  | request r =>
    obtain ⟨ret, hpc, ⟨ret', replies, rfl⟩ | ⟨command, s', hdecode, hupdate, rfl⟩⟩ :=
      processRequest_step hstep
    · exact devicesStay_of_iface rfl
    · exact fun port => .inl (updateCommand_dpdkPort hupdate port)
  | manager memory =>
    have hflush := devicesStay_flushPort P.L rt.flush.dev hno
    cases managerStep_cases hstep with
    | failPort hpc hport | publishCores hpc hport =>
      rw [hport] at hflush
      exact hflush
    | copyBack | spin => exact devicesStay_of_iface rfl
    | component hpc hcomponent => cases hcomponent <;> exact devicesStay_of_iface rfl
  | takeCore l =>
    obtain ⟨-, rfl⟩ := takeCore_cases hstep
    exact devicesStay_of_iface rfl
  | run l cnt call =>
    obtain ⟨-, -, -, hflush | ⟨target, -, hflush⟩⟩ := run_effect hstep
    · exact devicesStay_of_iface (by rw [hflush])
    · rw [hflush]
      exact devicesStay_of_iface rfl

/-- Devices stay from one state of a run to every later one. -/
theorem Publishing.devicesStay (h : Publishing P hash numNic x)
    (hreaches : Reaches (configStep P hash) (PublishesInOrder P hash numNic) x y) :
    Publishing P hash numNic y ∧ DevicesStay x.rt.flush.s y.rt.flush.s := by
  have hstep : ∀ (e : RuntimeEvent ρ) (u v : ConfiguredProcess τ ρ),
      Publishing P hash numNic u ∧ DevicesStay x.rt.flush.s u.rt.flush.s →
      PublishesInOrder P hash numNic e u → configStep P hash e u = some v →
      Publishing P hash numNic v ∧ DevicesStay x.rt.flush.s v.rt.flush.s := by
    rintro e u v ⟨hinv, hstay⟩ horder hstep
    refine ⟨hinv.step horder hstep, hstay.trans ?_⟩
    obtain ⟨rt', hrt, rfl⟩ := Option.map_eq_some_iff.mp hstep
    exact devicesStay_of_step hinv.configuration.slots.typed.ifaceNo hrt
  exact hreaches.invariant ⟨h, devicesStay_of_iface rfl⟩ hstep

end Stay

section Arrays

/-- The array of the reply for an array of interfaces. -/
def StatusInfo.interfaces (info : StatusInfo) : IfaceArray → List ℕ
  | .nic => info.phy
  | .vhost => info.vhost
  | .ring => info.ring

/-- The ports that are shown with a component. -/
def CoreElement.blocks : CoreElement → List PortBlock
  | .unuse _ => []
  | .component _ _ _ rxPort txPort => rxPort ++ txPort

theorem interfaces_of_appendInfoValue {info : StatusInfo}
    (h : appendInfoValue P hash rt = .ok info) (array : IfaceArray) :
    info.interfaces array = appendInterfaceArray P rt array := by
  unfold appendInfoValue at h
  obtain ⟨core, -, h⟩ := bind_eq_ok.mp h
  dsimp only at h
  split at h <;>
    obtain ⟨table, -, h⟩ := bind_eq_ok.mp h <;> cases h <;> cases array <;> rfl

theorem mem_appendInterfaceArray {array : IfaceArray} {i : ℕ} :
    i ∈ appendInterfaceArray P rt array ↔
      i < P.L.maxEthports ∧ 0 ≤ (rt.flush.s.iface ⟨array, i⟩).dpdkPort := by
  simp [appendInterfaceArray]

/-- The physical interfaces are those of the scan. -/
theorem appendInterfaceArray_nic {mainLcore : ℕ}
    (h : DevicesStay (.initial P numNic mainLcore : Runtime τ ρ).flush.s rt.flush.s) :
    appendInterfaceArray P rt .nic =
      (List.range P.L.maxEthports).filter fun i => i < numNic := by
  unfold appendInterfaceArray
  refine List.filter_congr fun i hi => ?_
  have hlt := List.mem_range.mp hi
  rw [h.eq_of_nic rfl, dpdkPort_initial]
  by_cases hfound : i < numNic
  · simp [hfound, hlt]
  · simp [hfound]

/-- What the configuration shows of a component has a device. -/
theorem Publishing.block_shown (h : Publishing P hash numNic x) (hquiet : Quiet P x.rt)
    {element : CoreElement} (helement : element ∈ coreArray P x.cfg) {block : PortBlock}
    (hblock : block ∈ element.blocks) :
    ∃ port : PortRef, block.port = port.index ∧
      port.no ∈ appendInterfaceArray P x.rt port.array := by
  obtain ⟨ret, hpc⟩ := hquiet.idle
  have hconfigured := h.configuration.configured
  rw [tables_of_ne (by simp [hpc])] at hconfigured
  obtain ⟨l, -, helement⟩ := List.mem_flatMap.mp helement
  unfold Configuration.coreElements at helement
  dsimp only at helement
  split at helement
  · rw [List.mem_singleton.mp helement] at hblock
    cases hblock
  · obtain ⟨m, hm, rfl⟩ := List.mem_map.mp helement
    obtain ⟨id, hid, rfl⟩ := hconfigured.shows.exists_of_mem (List.mem_of_mem_filter hm)
    obtain ⟨hlt, hnamed⟩ := hconfigured.table.mem_updList _ id hid
    have hused := (hconfigured.table.named_iff id hlt).mp hnamed
    have hpublished := h.inStep.published id hlt hused
      (not_due_of_flag (by simp [hpc]) (hquiet.component id hlt))
    obtain ⟨p, hp, hindex⟩ : ∃ p ∈ (x.rt.flush.s.component id).portDirections,
        block.port = p.1.index := by
      rcases List.mem_append.mp hblock with hrx | htx
      · obtain ⟨port, hport, rfl⟩ := List.mem_map.mp hrx
        exact ⟨(port, .rx), List.mem_append_left _ (List.mem_map_of_mem hport), rfl⟩
      · obtain ⟨port, hport, rfl⟩ := List.mem_map.mp htx
        exact ⟨(port, .tx), List.mem_append_right _ (List.mem_map_of_mem hport), rfl⟩
    obtain ⟨portId, hportId, -⟩ := hpublished.ability p hp
    have hin := (holds_of_portDirections hlt hused hp).1
    have hnonneg : 0 ≤ (x.rt.flush.s.iface p.1).dpdkPort := by
      unfold portMngIndex at hportId
      split at hportId
      · rename_i hrange
        exact hrange.1
      · cases hportId
    exact ⟨p.1, hindex, mem_appendInterfaceArray.mpr
      ⟨(h.configuration.slots.typed.placed id p.2 p.1 hin).1, hnonneg⟩⟩

/-- In every run, in whatever order manager and workers have made their steps, the reply to
a `status` request that is processed while no change is pending lists as `phy` the physical
interfaces that the scan has found, lists every interface that was shown in any state
before, and lists every port that it shows with a component. -/
theorem interfaces_of_reaches {mainLcore : ℕ}
    (hx : Reaches (configStep P hash) (PublishesInOrder P hash numNic)
      (.initial P numNic mainLcore) x)
    (hy : Reaches (configStep P hash) (PublishesInOrder P hash numNic) x y)
    (hquiet : Quiet P y.rt) {r : Request}
    (hdecode : sppCommandDecodeRequest P.L P.M y.rt.flush.s r.text = .ok .status)
    (hstep : configStep P hash (.request r) y = some z) :
    ∃ info : StatusInfo,
      z.rt.replies = y.rt.replies ++ [{ results := [.success], info := some info }] ∧
        info.phy = ((List.range P.L.maxEthports).filter fun i => i < numNic) ∧
        (∀ array, appendInterfaceArray P x.rt array ⊆ info.interfaces array) ∧
        ∀ element ∈ info.core, ∀ block ∈ element.blocks, ∃ port : PortRef,
          block.port = port.index ∧ port.no ∈ info.interfaces port.array := by
  obtain ⟨hpublishing, hstay⟩ := (publishing_of_reaches hx).devicesStay hy
  obtain ⟨-, hstart⟩ := (publishing_initial P hash numNic mainLcore).devicesStay (hx.trans hy)
  have hrun := coresRun_of_reaches (hx.trans hy)
  obtain ⟨ret, hpc⟩ := hquiet.idle
  obtain ⟨-, info, hinfo, hcore, hreplies⟩ :=
    status_reply (hpublishing.sppIterateCoreInfo hrun hquiet) hpc hdecode hstep
  have harrays := interfaces_of_appendInfoValue hinfo
  refine ⟨info, hreplies, (harrays .nic).trans (appendInterfaceArray_nic hstart),
    fun array i hi => ?_, fun element helement block hblock => ?_⟩
  · obtain ⟨hlt, hnonneg⟩ := mem_appendInterfaceArray.mp hi
    rw [harrays]
    refine mem_appendInterfaceArray.mpr ⟨hlt, ?_⟩
    rw [hstay.eq_of_nonneg hnonneg]
    exact hnonneg
  · rw [hcore] at helement
    obtain ⟨port, hindex, hmem⟩ := hpublishing.block_shown hquiet helement hblock
    exact ⟨port, hindex, by rwa [harrays]⟩

/-- The reply lists the one physical port, which the forwarder receives from. -/
theorem interfaces_startThenAttach :
    ∃ (x y : ConfiguredProcess (List (ℕ × ℕ)) ℕ) (info : StatusInfo),
      configStep oneSlave assocHashTable (.request (.ofString "status")) x = some y ∧
        y.rt.replies = x.rt.replies ++ [{ results := [.success], info := some info }] ∧
        info.phy = (List.range oneSlave.L.maxEthports).filter fun i => i < 1 := by
  obtain ⟨x, y, hreaches, hquiet, hdecode, hstep, -⟩ := reaches_startThenAttach
  obtain ⟨info, hreplies, hphy, -, -⟩ :=
    interfaces_of_reaches hreaches .refl hquiet hdecode hstep
  exact ⟨x, y, info, hstep, hreplies, hphy⟩

end Arrays

end Spp.Vf
