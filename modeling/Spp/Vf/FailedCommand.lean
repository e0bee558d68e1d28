import Spp.Vf.ComponentTable

/-!
# What a failed command leaves behind

A request that fails while it is decoded or in its update function leaves the
tables as they were. There is no way back once the update function is done: a
request that fails in the flush keeps its edit, and differs from a successful
one only in the devices that are missing and in the change flags.
-/

namespace Spp.Vf

open CLib GuardedRun

variable {L : Limits} {M : SppModule} {s s' : MngData}

/-- The tables after a failed flush of the tables `s₁`: the edit stays. -/
structure UpdateKept (L : Limits) (dev : Devices) (s₁ s' : MngData) : Prop where
  /-- The component slots are those of the update. -/
  component : s'.component = s₁.component
  /-- So are the id lists on the update side. -/
  updList : ∀ l, (s'.core l).updList = (s₁.core l).updList
  /-- So are the interfaces, apart from devices created before the failure. -/
  iface : DeviceUpdate s₁.iface s'.iface
  /-- If a device is missing, the cores are not told and the flags stay set. -/
  notPublished : (flushPort L dev s₁).1 = .ng →
    s'.core = s₁.core ∧ s'.changeCore = s₁.changeCore ∧
      s'.changeComponent = s₁.changeComponent
  /-- If a component cannot be updated, its core runs it all the same, and all
  flags are cleared. -/
  published : (flushPort L dev s₁).1 = .ok →
    (∀ l < L.maxLcore, s₁.changeCore l = true → (s'.core l).refList = (s₁.core l).updList) ∧
      (∀ l < L.maxLcore, s'.changeCore l = false) ∧
      ∀ i < L.maxLcore, s'.changeComponent i = false

/-- A flush keeps the update, whether it fails or not. -/
theorem sppFlush_updateKept {dev : Devices} {ret : Ret} (hs : CoreListsSynced s)
    (h : sppFlush L M dev s = (ret, s')) : UpdateKept L dev s s' := by
  obtain ⟨iface', hiface, ⟨hport, -, rfl⟩ | ⟨hport, -, rfl⟩⟩ := sppFlush_cases h
  · exact ⟨rfl, fun _ => rfl, hiface, fun _ => ⟨rfl, rfl, rfl⟩, by simp [hport]⟩
  · refine ⟨rfl, fun l => updList_flushCore (s := { s with iface := iface' }) (hs.indices_ne l),
      hiface, by simp [hport], fun _ => ⟨fun l hl hflag => ?_, fun l hl => ?_, fun i hi => ?_⟩⟩
    · exact refList_flushCore (s := { s with iface := iface' }) hl hflag (hs.indices_ne l)
    · simp [backupMngInfo, hl]
    · simp [backupMngInfo, hi]

/-- A vhost is attached to a forwarder, and cannot be created. -/
def attachVhost : Request :=
  ⟨"port add vhost:0 rx f1".toList, ⟨fun _ => -1, fun _ => 0, fun _ => .ok⟩⟩

/-- The request fails for want of its device, with the vhost attached. -/
theorem processRequest_attachVhost :
    ∃ s s', runAll (serve .default .vf) [.ofString "component start f1 1 forward"] bootState =
        some s ∧ processRequest .default .vf attachVhost s = some (.ng, s') ∧
      (s.component 0).rxPorts = [] ∧ (s'.component 0).rxPorts = [⟨.vhost, 0⟩] := by
  have hrun : (runAll (serve .default .vf) [.ofString "component start f1 1 forward"]
      bootState).any fun s => (processRequest .default .vf attachVhost s).any fun p =>
        p.1 = .ng ∧ (s.component 0).rxPorts = [] ∧ (p.2.component 0).rxPorts = [⟨.vhost, 0⟩] := by
    decide +kernel
  obtain ⟨s, hs, hany⟩ := (Option.any_eq_true ..).mp hrun
  obtain ⟨⟨ret, s'⟩, hp, hfacts⟩ := (Option.any_eq_true ..).mp hany
  obtain ⟨rfl, hbefore, hafter⟩ := of_decide_eq_true hfacts
  exact ⟨s, s', hs, hp, hbefore, hafter⟩

end Spp.Vf
