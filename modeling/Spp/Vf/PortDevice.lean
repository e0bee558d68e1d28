import Spp.Vf.PortAbility
import Spp.Vf.PortOwnership

/-!
# The devices of the attached ports

A physical port has a device if the scan at the start has found one; a vhost or
ring port gets its device in the flush after it was attached. The tables of
`spp_port.c` are indexed by the device of a port without a test.
-/

namespace Spp.Vf

open CLib GuardedRun

variable {L : Limits} {M : SppModule} {s s' : MngData} {numNic : ℕ}

section Attached

/-- Some used component holds the port. -/
def MngData.Attached (s : MngData) (L : Limits) (port : PortRef) : Prop :=
  ∃ id < L.maxLcore, (s.component id).type ≠ .unuse ∧ ∃ d, port ∈ (s.component id).ports d

/-- A pointer into the interface table is to the array of its type, at the
given number. -/
theorem ifaceEntry_eq_ok {ifaceType : PortType} {ifaceNo : ℤ} {port : PortRef}
    (h : ifaceEntry L ifaceType ifaceNo = .ok port) :
    port.no < L.maxEthports ∧ ifaceType ≠ .undef ∧ (port.no : ℤ) = ifaceNo ∧
      (port.array = .nic → ifaceType = .phy) := by
  have hentry : ∀ array, (if 0 ≤ ifaceNo ∧ ifaceNo < L.maxEthports then
      (Except.ok (some ⟨array, ifaceNo.toNat⟩) : Except Stop (Option PortRef))
        else .error .undef) = .ok (some port) →
      port.no < L.maxEthports ∧ (port.no : ℤ) = ifaceNo ∧ port.array = array := by
    intro array hok
    split at hok
    · rename_i hrange
      cases hok
      exact ⟨by dsimp only; omega, Int.toNat_of_nonneg hrange.1, rfl⟩
    · cases hok
  unfold ifaceEntry getIfaceInfo at h
  cases ifaceType with
  | phy =>
    obtain ⟨hlt, hno, harray⟩ := hentry .nic (by revert h; dsimp only; split <;> simp_all)
    exact ⟨hlt, by simp, hno, fun _ => rfl⟩
  | vhost =>
    obtain ⟨hlt, hno, harray⟩ := hentry .vhost (by revert h; dsimp only; split <;> simp_all)
    exact ⟨hlt, by simp, hno, by simp [harray]⟩
  | ring =>
    obtain ⟨hlt, hno, harray⟩ := hentry .ring (by revert h; dsimp only; split <;> simp_all)
    exact ⟨hlt, by simp, hno, by simp [harray]⟩
  | pcap | nullpmd | undef => cases h

variable (L numNic) in
/-- What is known of the devices between two requests. A vhost or ring port may
have none, if the request that attached it has failed in its flush. -/
structure DevicesOk (s : MngData) : Prop where
  /-- An attached port has been added, and a physical one was found by the scan. -/
  attached : ∀ port, s.Attached L port → port.no < L.maxEthports ∧
    (s.iface port).ifaceType ≠ .undef ∧ (port.array = .nic → port.no < numNic)
  /-- A device that a port has is one of the table. -/
  lt : ∀ port, (s.iface port).dpdkPort < L.maxEthports
  /-- The physical ports of the scan have a device. -/
  nic : ∀ port, port.array = .nic → port.no < numNic → port.no < L.maxEthports →
    0 ≤ (s.iface port).dpdkPort

/-- A change that keeps all devices and attaches at most a usable port. -/
theorem DevicesOk.update (h : DevicesOk L numNic s)
    (hdevice : ∀ port, (s'.iface port).dpdkPort = (s.iface port).dpdkPort)
    (htype : ∀ port, (s.iface port).ifaceType ≠ .undef → (s'.iface port).ifaceType ≠ .undef)
    (hattached : ∀ port, s'.Attached L port → s.Attached L port ∨ port.no < L.maxEthports ∧
      (s'.iface port).ifaceType ≠ .undef ∧ (port.array = .nic → port.no < numNic)) :
    DevicesOk L numNic s' := by
  constructor
  · intro port hport
    rcases hattached port hport with hold | hnew
    · obtain ⟨hlt, hadded, hnic⟩ := h.attached port hold
      exact ⟨hlt, htype port hadded, hnic⟩
    · exact hnew
  · intro port
    rw [hdevice]
    exact h.lt port
  · intro port harray hno hlt
    rw [hdevice]
    exact h.nic port harray hno hlt

/-- The attached ports after one slot is replaced. -/
theorem attached_update {id : ℕ} {c : ComponentInfo} {port : PortRef}
    (hcomp : s'.component = Function.update s.component id c) (h : s'.Attached L port) :
    s.Attached L port ∨ c.type ≠ .unuse ∧ id < L.maxLcore ∧ ∃ d, port ∈ c.ports d := by
  obtain ⟨j, hj, hused, d, hmem⟩ := h
  rw [hcomp] at hused hmem
  by_cases hjd : j = id
  · subst hjd
    rw [Function.update_self] at hused hmem
    exact .inr ⟨hused, hj, d, hmem⟩
  · rw [Function.update_of_ne hjd] at hused hmem
    exact .inl ⟨j, hj, hused, d, hmem⟩

end Attached

section Update

/-- A start or a stop attaches no port. -/
theorem DevicesOk.sppUpdateComponent (h : DevicesOk L numNic s) {c : CommandComponent}
    (hc : sppUpdateComponent L s c = .ok s') : DevicesOk L numNic s' := by
  have hempty : ∀ (t : MngData) (id : ℕ) (d : ComponentInfo), (∀ rxtx, d.ports rxtx = []) →
      t.component = Function.update s.component id d → t.iface = s.iface →
      DevicesOk L numNic t := by
    intro t id d hports hcomp hiface
    refine h.update (by simp [hiface]) (by simp [hiface]) fun port hport => ?_
    rcases attached_update hcomp hport with hold | ⟨-, -, rxtx, hmem⟩
    · exact .inl hold
    · rw [hports rxtx] at hmem
      cases hmem
  cases haction : c.action with
  | start =>
    obtain ⟨-, -, id, -, rfl⟩ := sppUpdateComponent_start c haction hc
    exact hempty _ id _ (fun rxtx => by simp [ComponentInfo.ports]) rfl rfl
  | stop =>
    obtain ⟨-, rfl⟩ | ⟨id, -, rfl⟩ := sppUpdateComponent_stop c haction hc
    · exact h
    · exact hempty _ id _ (fun rxtx => by simp [ComponentInfo.ports]) rfl rfl
  | none | add | del => simp [Spp.Vf.sppUpdateComponent, haction] at hc

/-- A `port del` attaches no port. -/
theorem DevicesOk.sppUpdatePortDel (h : DevicesOk L numNic s) {id : ℕ} (hid : id < L.maxLcore)
    (port : PortRef) (rxtx : PortRxtx) : DevicesOk L numNic (sppUpdatePortDel s id port rxtx) := by
  have hiface : ∀ p, ((Vf.sppUpdatePortDel s id port rxtx).iface p).dpdkPort =
      (s.iface p).dpdkPort ∧ ((Vf.sppUpdatePortDel s id port rxtx).iface p).ifaceType =
        (s.iface p).ifaceType := by
    intro p
    unfold Vf.sppUpdatePortDel
    dsimp only
    split <;> by_cases hp : p = port <;> simp [hp, PortInfo.clearAbility]
  refine h.update (fun p => (hiface p).1) (fun p hne => by rwa [(hiface p).2]) ?_
  intro p hp
  left
  unfold Vf.sppUpdatePortDel at hp
  dsimp only at hp
  split at hp
  · rename_i ports hports
    obtain ⟨k, -, rfl⟩ := Option.map_eq_some_iff.mp hports
    rcases attached_update (s := s) (by rfl) hp with hold | ⟨hused, -, d, hmem⟩
    · exact hold
    · rw [setPorts_type] at hused
      rw [setPorts_ports] at hmem
      split at hmem
      · exact ⟨id, hid, hused, rxtx, List.mem_of_mem_eraseIdx hmem⟩
      · exact ⟨id, hid, hused, d, hmem⟩
  · exact hp

variable (L M numNic) in
/-- A `port add` that attaches a physical port names one that the scan at the
start has found. -/
def NicFound (r : Request) (s : MngData) : Prop :=
  ∀ c id port, sppCommandDecodeRequest L M s r.text = .ok (.port c) → c.action = .add →
    sppGetComponentId L s c.name = some id →
    ifaceEntry L c.port.ifaceType c.port.ifaceNo = .ok port →
    checkPortCount (s.component id).type c.rxtx (s.component id).rxPorts.length
      (s.component id).txPorts.length = .ok →
    port ∉ (s.component id).ports c.rxtx →
    ((s.component id).ports c.rxtx).length < L.maxEthports →
    (c.ability.ope ≠ .none → (findAbility (s.iface port) .none).isSome) →
    c.port.ifaceType = .phy → c.port.ifaceNo < numNic

/-- A `port` command attaches at most a port that the scan has found. -/
theorem DevicesOk.sppUpdatePort (h : DevicesOk L numNic s) {r : Request} {c : CommandPort}
    (hdecode : sppCommandDecodeRequest L M s r.text = .ok (.port c))
    (hfound : NicFound L M numNic r s) (hc : sppUpdatePort L s c = .ok s') :
    DevicesOk L numNic s' := by
  obtain ⟨id, port, hid, hport, ⟨haction, hadd⟩ | ⟨-, rfl⟩⟩ := sppUpdatePort_cases hc
  · obtain ⟨hcount, hcases⟩ := sppUpdatePortAdd_cases hadd
    rcases hcases with ⟨-, -, cnt, -, rfl⟩ | ⟨-, -, rfl⟩ | ⟨hnot, hroom, info, rfl, hinfo⟩
    · have hiface : ∀ p, (((s.setIface port ((s.iface port).setAbility cnt c.ability)
          ).setChangeComponent id true).iface p).dpdkPort = (s.iface p).dpdkPort ∧
          (((s.setIface port ((s.iface port).setAbility cnt c.ability)
            ).setChangeComponent id true).iface p).ifaceType = (s.iface p).ifaceType := by
        intro p
        by_cases hp : p = port
        · subst hp
          simp [PortInfo.setAbility]
        · simp [hp]
      exact h.update (fun p => (hiface p).1) (fun p hne => by rwa [(hiface p).2])
        fun p hp => .inl hp
    · exact h
    · obtain ⟨hlt, hadded, hno, hphy⟩ := ifaceEntry_eq_ok hport
      have hdevice : info.dpdkPort = (s.iface port).dpdkPort := by
        rcases hinfo with ⟨-, rfl⟩ | ⟨-, cnt, -, rfl⟩ <;> rfl
      refine h.update (fun p => ?_) (fun p hp => ?_) fun p hp => ?_
      · by_cases heq : p = port
        · subst heq
          simp [attachEdit, hdevice]
        · simp [attachEdit, heq]
      · by_cases heq : p = port
        · subst heq
          simpa [attachEdit] using hadded
        · simpa [attachEdit, heq] using hp
      · rcases attached_update (s := s) (by rfl) hp with hold | ⟨hused, hid', d, hmem⟩
        · exact .inl hold
        · rw [setPorts_type] at hused
          rw [setPorts_ports] at hmem
          split at hmem
          · rcases List.mem_append.mp hmem with hmem | hmem
            · exact .inl ⟨id, hid', hused, c.rxtx, hmem⟩
            · obtain rfl := List.mem_singleton.mp hmem
              refine .inr ⟨hlt, by simpa [attachEdit] using hadded, fun harray => ?_⟩
              have hfound := hfound c id p hdecode haction hid hport hcount hnot hroom ?_
                (hphy harray)
              · omega
              · rcases hinfo with ⟨hope, -⟩ | ⟨-, cnt, hcnt, -⟩
                · exact fun hne => absurd hope hne
                · exact fun _ => by simp [hcnt]
          · exact .inl ⟨id, hid', hused, d, hmem⟩
  · exact h.sppUpdatePortDel (sppGetComponentId_eq_some hid).1 port c.rxtx

/-- A `classifier_table` command attaches no port. -/
theorem DevicesOk.sppUpdateClassifierTable (h : DevicesOk L numNic s)
    {table : CommandClassifierTable} (hc : sppUpdateClassifierTable L s table = .ok s') :
    DevicesOk L numNic s' := by
  obtain ⟨port, classId, t, ht, hs⟩ := sppUpdateClassifierTable_cases hc
  have hcomp : s'.component = s.component := by
    rcases ht with rfl | rfl
    · rcases hs with rfl | ⟨id, -, -, rfl⟩ <;> rfl
    · rcases hs with rfl | ⟨id, -, -, rfl⟩ <;> rfl
  have hiface : s'.iface = t.iface := by
    rcases hs with rfl | ⟨id, -, -, rfl⟩ <;> rfl
  have hsame : ∀ p, (t.iface p).dpdkPort = (s.iface p).dpdkPort ∧
      (t.iface p).ifaceType = (s.iface p).ifaceType := by
    intro p
    rcases ht with rfl | rfl
    · exact ⟨rfl, rfl⟩
    · by_cases hp : p = port
      · subst hp
        simp
      · simp [hp]
  refine h.update (fun p => ?_) (fun p hne => ?_) fun p hp => .inl ?_
  · rw [hiface]
    exact (hsame p).1
  · rwa [hiface, (hsame p).2]
  · unfold MngData.Attached at hp
    rwa [hcomp] at hp

end Update

section Flush

/-- The devices that are created are devices of the table. -/
structure Devices.InRange (dev : Devices) (L : Limits) : Prop where
  vhost : ∀ n, dev.addVhostPmd n < L.maxEthports
  ring : ∀ n, dev.addRingPmd n < L.maxEthports

/-- A loop of `flush_port` gives a port no device outside the table. -/
theorem flushPortArray_lt {addPmd : ℕ → ℤ} {max : ℤ} (hpmd : ∀ n, addPmd n < max)
    (ports : List PortRef) (s : MngData) (h : ∀ port, (s.iface port).dpdkPort < max)
    (port : PortRef) : ((flushPortArray addPmd ports s).2.iface port).dpdkPort < max := by
  induction ports generalizing s with
  | nil => exact h port
  | cons p ports ih =>
    have hentry : ∀ q, ((flushPortEntry addPmd p s).2.iface q).dpdkPort < max := by
      intro q
      unfold flushPortEntry
      dsimp only
      split
      · split
        · exact h q
        · by_cases hq : q = p
          · subst hq
            simpa using hpmd _
          · simpa [hq] using h q
      · exact h q
    unfold flushPortArray
    split
    · rename_i t ht
      rw [ht] at hentry
      exact hentry port
    · rename_i t ht
      rw [ht] at hentry
      exact ih t hentry

/-- A port that has a device keeps it. -/
theorem DeviceUpdate.nonneg {iface iface' : PortRef → PortInfo} (h : DeviceUpdate iface iface')
    {port : PortRef} (hport : 0 ≤ (iface port).dpdkPort) : 0 ≤ (iface' port).dpdkPort := by
  rcases h port with heq | ⟨-, hneg, -⟩
  · rwa [heq]
  · omega

/-- The interface types do not change. -/
theorem DeviceUpdate.ifaceType {iface iface' : PortRef → PortInfo} (h : DeviceUpdate iface iface')
    (port : PortRef) : (iface' port).ifaceType = (iface port).ifaceType := by
  rcases h port with heq | ⟨-, -, d, -, heq⟩ <;> rw [heq]

/-- A loop of `flush_port` that succeeds leaves no added port of its array
without a device. -/
theorem flushPortArray_created {addPmd : ℕ → ℤ} {ports : List PortRef}
    (h : flushPortArray addPmd ports s = (.ok, s')) {port : PortRef} (hmem : port ∈ ports)
    (hadded : (s.iface port).ifaceType ≠ .undef) : 0 ≤ (s'.iface port).dpdkPort := by
  induction ports generalizing s with
  | nil => cases hmem
  | cons p ports ih =>
    obtain ⟨iface₁, h₁, hentry⟩ := flushPortEntry_snd addPmd p s
    unfold flushPortArray at h
    split at h
    · cases h
    · rename_i t ht
      rw [ht] at hentry
      dsimp only at hentry
      subst hentry
      rcases List.mem_cons.mp hmem with rfl | hmem
      · have hcreated : 0 ≤ (iface₁ port).dpdkPort := by
          unfold flushPortEntry at ht
          dsimp only at ht
          split at ht
          · split at ht
            · cases ht
            · rename_i hret
              have hiface := congrArg MngData.iface (congrArg Prod.snd ht)
              have hport := congrFun hiface port
              simp only [MngData.setIface_iface, Function.update_self] at hport
              rw [← hport]
              exact Int.not_lt.mp hret
          · rename_i hskip
            have hiface := congrArg MngData.iface (congrArg Prod.snd ht)
            have hport := congrFun hiface port
            dsimp only at hport
            rw [← hport]
            have hskip := not_and.mp hskip hadded
            omega
        obtain ⟨iface₂, h₂, hrest⟩ := flushPortArray_snd addPmd ports { s with iface := iface₁ }
        rw [h] at hrest
        dsimp only at hrest
        subst hrest
        exact h₂.nonneg hcreated
      · refine ih h hmem ?_
        dsimp only
        rw [h₁.ifaceType]
        exact hadded

/-- After a `flush_port` that succeeds every added vhost and ring port has a device. -/
theorem flushPort_created {dev : Devices} (h : flushPort L dev s = (.ok, s')) {port : PortRef}
    (harray : port.array ≠ .nic) (hlt : port.no < L.maxEthports)
    (hadded : (s.iface port).ifaceType ≠ .undef) : 0 ≤ (s'.iface port).dpdkPort := by
  unfold flushPort at h
  split at h
  · cases h
  · rename_i t ht
    obtain ⟨iface₁, h₁, hvhost⟩ := flushPortArray_snd dev.addVhostPmd
      ((List.range L.maxEthports).map (PortRef.mk .vhost)) s
    rw [ht] at hvhost
    dsimp only at hvhost
    subst hvhost
    obtain ⟨array, no⟩ := port
    cases array with
    | nic => exact absurd rfl harray
    | vhost =>
      have hcreated := flushPortArray_created ht
        (List.mem_map_of_mem (List.mem_range.mpr hlt)) hadded
      obtain ⟨iface₂, h₂, hring⟩ := flushPortArray_snd dev.addRingPmd
        ((List.range L.maxEthports).map (PortRef.mk .ring)) { s with iface := iface₁ }
      rw [h] at hring
      dsimp only at hring
      subst hring
      exact h₂.nonneg hcreated
    | ring =>
      refine flushPortArray_created h (List.mem_map_of_mem (List.mem_range.mpr hlt)) ?_
      dsimp only
      rw [h₁.ifaceType]
      exact hadded

/-- `flush_port` gives a port no device outside the table. -/
theorem flushPort_lt {dev : Devices} (hdev : dev.InRange L)
    (h : ∀ port, (s.iface port).dpdkPort < L.maxEthports) (port : PortRef) :
    ((flushPort L dev s).2.iface port).dpdkPort < L.maxEthports := by
  have hvhost := flushPortArray_lt hdev.vhost
    ((List.range L.maxEthports).map (PortRef.mk .vhost)) s h
  unfold flushPort
  split
  · rename_i t ht
    rw [ht] at hvhost
    exact hvhost port
  · rename_i t ht
    rw [ht] at hvhost
    exact flushPortArray_lt hdev.ring _ t hvhost port

/-- A flush keeps what is known of the devices. -/
theorem DevicesOk.sppFlush (h : DevicesOk L numNic s) {dev : Devices} (hdev : dev.InRange L)
    {ret : Ret} (hflush : sppFlush L M dev s = (ret, s')) : DevicesOk L numNic s' := by
  obtain ⟨iface', hupdate, hcases⟩ := sppFlush_cases hflush
  have hiface : s'.iface = iface' := by
    rcases hcases with ⟨-, -, hs⟩ | ⟨-, -, hs⟩ <;> simp only [hs, backupMngInfo, flushCore]
  have hlt : ∀ port, (iface' port).dpdkPort < L.maxEthports := by
    intro port
    have hport := flushPort_lt hdev h.lt port
    rcases hcases with ⟨hfail, -, hs⟩ | ⟨hok, -, -⟩
    · rw [hfail] at hport
      rwa [hs] at hport
    · rwa [hok] at hport
  constructor
  · intro port hport
    unfold MngData.Attached at hport
    rw [sppFlush_component hflush] at hport
    rw [hiface, hupdate.ifaceType]
    exact h.attached port hport
  · rwa [hiface]
  · intro port harray hno hmax
    rw [hiface]
    exact hupdate.nonneg (h.nic port harray hno hmax)

end Flush

section Run

/-- Every port of a used component has a device of the table. -/
def PortsUsable (L : Limits) (s : MngData) : Prop :=
  ∀ id < L.maxLcore, (s.component id).type ≠ .unuse → ∀ d, ∀ port ∈ (s.component id).ports d,
    0 ≤ (s.iface port).dpdkPort ∧ (s.iface port).dpdkPort < L.maxEthports

/-- After a flush whose `flush_port` succeeds every attached port has a device. -/
theorem DevicesOk.portsUsable (h : DevicesOk L numNic s) {dev : Devices} (hdev : dev.InRange L)
    (hflush : Vf.sppFlush L M dev s = (.ok, s')) : PortsUsable L s' := by
  have hs' := h.sppFlush hdev hflush
  obtain ⟨iface', hupdate, ⟨-, hret, -⟩ | ⟨hok, -, hs⟩⟩ := sppFlush_cases hflush
  · cases hret
  have hiface : s'.iface = iface' := by simp only [hs, backupMngInfo, flushCore]
  intro id hid hused d port hport
  obtain ⟨hlt, hadded, hnic⟩ := hs'.attached port ⟨id, hid, hused, d, hport⟩
  refine ⟨?_, hs'.lt port⟩
  by_cases harray : port.array = .nic
  · exact hs'.nic port harray (hnic harray) hlt
  · rw [hiface, hupdate.ifaceType] at hadded
    rw [hiface]
    exact flushPort_created hok harray hlt hadded

/-- One request that attaches no physical port without a device keeps what is
known of the devices. -/
theorem DevicesOk.serve (h : DevicesOk L numNic s) {r : Request} (hdev : r.dev.InRange L)
    (hfound : NicFound L M numNic r s) (hr : serve L M r s = some s') :
    DevicesOk L numNic s' := by
  obtain ⟨ret, hr⟩ := serve_eq_some.mp hr
  obtain rfl | ⟨command, s₁, hdecode, hupdate, hflush⟩ := processRequest_cases hr
  · exact h
  · refine DevicesOk.sppFlush ?_ hdev hflush
    rcases updateCommand_cases hupdate with ⟨c, rfl, hc⟩ | ⟨c, rfl, hc⟩ | ⟨c, -, hc⟩
    · exact h.sppUpdateComponent hc
    · exact h.sppUpdatePort hdecode hfound hc
    · exact h.sppUpdateClassifierTable hc

/-- Nothing is attached before the first request, and the scan has given a
device to every physical port it has found. -/
theorem devicesOk_start (slave : ℕ → Bool) (mainLcore : ℕ) :
    DevicesOk L numNic (startForwarding slave mainLcore (initMngData L slave numNic)) := by
  constructor
  · rintro port ⟨id, -, hused, -⟩
    exact absurd rfl hused
  · intro port
    simp only [startForwarding, initMngData, initIfaceInfo]
    split
    · dsimp only
      omega
    · dsimp only
      omega
  · intro port harray hno hlt
    simp only [startForwarding, initMngData, initIfaceInfo]
    rw [if_pos ⟨harray, by omega⟩]
    dsimp only
    omega

/-- In every run in which no physical port is attached that the scan has not
found, after every `port` request that is replied to with success each port of a
used component has a device of the table, so that setting the abilities of the
component accesses the table of the devices in range. -/
theorem portsUsable_of_reaches (slave : ℕ → Bool) (mainLcore : ℕ)
    (h : Reaches (Vf.serve L M) (fun r s => r.dev.InRange L ∧ NicFound L M numNic r s)
      (startForwarding slave mainLcore (initMngData L slave numNic)) s) {r : Request}
    (hguard : r.dev.InRange L ∧ NicFound L M numNic r s) {c : CommandPort}
    (hdecode : sppCommandDecodeRequest L M s r.text = .ok (.port c))
    (hr : processRequest L M r s = some (.ok, s')) :
    PortsUsable L s' ∧ ∀ id < L.maxLcore, (s'.component id).type ≠ .unuse →
      ∀ p ∈ (s'.component id).portDirections, (portMngIndex L (s'.iface p.1)).isSome := by
  have hinv : DevicesOk L numNic s := h.invariant (devicesOk_start slave mainLcore)
    fun _ _ _ hinv hguard hstep => hinv.serve hguard.1 hguard.2 hstep
  have husable : PortsUsable L s' := by
    simp only [processRequest, hdecode, executeCommand, updateCommand] at hr
    split at hr
    · rename_i hnone
      cases hnone
    · cases hr
    · cases hr
    · rename_i s₁ hok
      exact (hinv.sppUpdatePort hdecode hguard.2 (Option.some.inj hok)).portsUsable hguard.1
        (Option.some.inj hr)
  refine ⟨husable, fun id hid hused p hp => ?_⟩
  have hmem : p.1 ∈ (s'.component id).ports p.2 := by
    rcases List.mem_append.mp hp with hp | hp
    · obtain ⟨port, hport, rfl⟩ := List.mem_map.mp hp
      exact hport
    · obtain ⟨port, hport, rfl⟩ := List.mem_map.mp hp
      exact hport
  obtain ⟨hnonneg, hlt⟩ := husable id hid hused p.2 p.1 hmem
  simp [portMngIndex, hnonneg, hlt]

/-- A test that decides whether an attached physical port was found. -/
def nicFoundTest (L : Limits) (M : SppModule) (numNic : ℕ) (r : Request) (s : MngData) : Bool :=
  match sppCommandDecodeRequest L M s r.text with
  | .ok (.port c) => c.port.ifaceNo < numNic
  | _ => true

theorem nicFound_of_test {r : Request} (h : nicFoundTest L M numNic r s = true) :
    NicFound L M numNic r s := by
  intro c id port hdecode _ _ _ _ _ _ _ _
  simpa [nicFoundTest, hdecode] using h

/-- The devices of a request that can all be created are in range. -/
theorem ofString_inRange (text : String) : (Request.ofString text).dev.InRange .default := by
  have hlt : (0 : ℤ) < (Limits.default.maxEthports : ℕ) := by decide
  constructor
  · exact fun _ => hlt
  · exact fun _ => hlt

/-- A forwarder is started. -/
def startOne : List Request := [.ofString "component start f1 1 forward"]

/-- The request that gives the forwarder the one physical port. -/
def attachFound : Request := .ofString "port add phy:0 rx f1"

/-- The forwarder can use the port. -/
theorem portsUsable_attachFound :
    ∃ s s', processRequest .default .vf attachFound s = some (.ok, s') ∧
      (s'.component 0).rxPorts = [⟨.nic, 0⟩] ∧ PortsUsable .default s' := by
  obtain ⟨s, hs, htest, hreply, hdecode⟩ : ∃ s,
      runAll (tested (serve .default .vf) (nicFoundTest .default .vf 1)) startOne bootState =
        some s ∧ nicFoundTest .default .vf 1 attachFound s = true ∧
      (processRequest .default .vf attachFound s).any (fun reply =>
        reply.1 = .ok ∧ (reply.2.component 0).rxPorts = [⟨.nic, 0⟩]) = true ∧
      sppCommandDecodeRequest .default .vf s attachFound.text =
        .ok (.port { action := .add, rxtx := .rx, name := "f1".toList }) :=
    exists_of_runAll (by decide +kernel)
  obtain ⟨⟨ret, s'⟩, hr, hok⟩ := (Option.any_eq_true ..).mp hreply
  obtain ⟨rfl, hports⟩ := of_decide_eq_true hok
  have hreaches : Reaches (serve .default .vf)
      (fun r s => r.dev.InRange .default ∧ NicFound .default .vf 1 r s) bootState s := by
    refine reaches_of_runAll_tested hs fun r hr s htest => ?_
    obtain rfl := List.mem_singleton.mp hr
    exact ⟨ofString_inRange _, nicFound_of_test htest⟩
  exact ⟨s, s', hr, hports, (portsUsable_of_reaches _ _ hreaches
    ⟨ofString_inRange _, nicFound_of_test htest⟩ hdecode hr).1⟩

/-- The request for a physical port that the scan has not found. -/
def attachMissing : Request := .ofString "port add phy:1 rx f1"

/-- The request is replied to with success, and the port has no device. -/
theorem not_portsUsable_attachMissing :
    ∃ s s', Reaches (serve .default .vf) (fun r s => r.dev.InRange .default ∧
        accepted .default .vf r s = true) bootState s ∧
      processRequest .default .vf attachMissing s = some (.ok, s') ∧
      ¬ PortsUsable .default s' := by
  obtain ⟨s, hs, hreply⟩ : ∃ s,
      runAll (tested (serve .default .vf) (accepted .default .vf)) startOne bootState = some s ∧
      (processRequest .default .vf attachMissing s).any (fun reply =>
        reply.1 = .ok ∧ (reply.2.component 0).type = .forward ∧
          ⟨.nic, 1⟩ ∈ (reply.2.component 0).rxPorts ∧
            (reply.2.iface ⟨.nic, 1⟩).dpdkPort = -1) = true :=
    exists_of_runAll (by decide +kernel)
  obtain ⟨⟨ret, s'⟩, hr, hok⟩ := (Option.any_eq_true ..).mp hreply
  obtain ⟨rfl, htype, hport, hdevice⟩ := of_decide_eq_true hok
  dsimp only at htype hport hdevice
  refine ⟨s, s', reaches_of_runAll_tested hs fun r hr s htest => ?_, hr, fun husable => ?_⟩
  · obtain rfl := List.mem_singleton.mp hr
    exact ⟨ofString_inRange _, htest⟩
  · have hdev := husable 0 (by decide) (by simp [htype]) .rx _ hport
    omega

end Run

end Spp.Vf
