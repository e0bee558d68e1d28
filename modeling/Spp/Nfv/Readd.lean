import Spp.Nfv.Rejected

/-!
# Adding a port again after it was deleted

A `del` is to undo the `add` of its port, so that the port can be added again. The
tables are only half of that: what `add` has attached is a device of DPDK, and the
branches of `do_del` release it in three different ways.
-/

namespace Spp.Nfv

open CLib
open Spp.Vf (PortType)

section Attach

variable (b : Build) (next : (ℕ → Option EthDev) → ℕ)

/-- The port id under which a device of the name is attached, as
`rte_eth_dev_get_port_by_name` finds it. -/
def State.portByName (s : State) (name : CStr) : Option ℕ :=
  (List.range b.maxEthports).find? fun i => s.deviceName? i = some name

/-- The result of the `add_*_pmd` function of a type where an attach fails iff a device of
the name is attached and the other DPDK calls succeed. `add_ring_pmd` looks for the device
first and starts it. `next` is the port id that a new device gets. -/
def attachPmd (s : State) (type : PortType) (id : ℤ) : Pmd :=
  match s.portByName b (deviceName type id) with
  | some k => if type = .ring then .found k true else .failed
  | none => .attached (next s.ethDevices)

/-- The state after an `add` that succeeds. -/
def added (s : State) (uid : CStr) (type : PortType) (id : ℤ) : Option State :=
  match (attachPmd b next s type id).portId,
      runCommand b s (attachPmd b next s type id) true (.add uid) with
  | some _, .ok stores => some (applyAll s stores)
  | _, _ => none

/-- The state after a `del` that succeeds: the port is in the tables. -/
def deleted (s : State) (uid : CStr) (type : PortType) (id : ℤ) : Option State :=
  if findPortId b s id type = portReset then none
  else
    match runCommand b s .failed true (.del uid) with
    | .ok stores => some (applyAll s stores)
    | .error _ => none

/-- The entries of a port id are those of no port. -/
structure State.Vacant (s : State) (k : ℕ) : Prop where
  map : s.portMap k = ⟨portReset, .undef, .defaultStats k⟩
  inPort : (s.portsFwdArray k).inPortId = portReset
  outPort : (s.portsFwdArray k).outPortId = portReset
  /-- No other entry is patched to it. -/
  unpatched : sources b s k = []

/-- Adding, deleting and adding again succeeds: the deletion undoes the first `add`, and
after the second the port is added once and the other entries are as after the first. -/
def Readdable (s : State) (uid : CStr) (type : PortType) (id : ℤ) : Prop :=
  ∃ s₁ s₂ s₃, added b next s uid type id = some s₁ ∧ deleted b s₁ uid type id = some s₂ ∧
    added b next s₂ uid type id = some s₃ ∧ s.SameTables s₂ ∧
    ∃ k < b.maxEthports, ((s₃.portMap k).portType = type ∧ (s₃.portMap k).id = id ∧
        (s₃.portsFwdArray k).inPortId = k) ∧
      (∀ j < b.maxEthports, (s₃.portMap j).portType = type → (s₃.portMap j).id = id → j = k) ∧
      ∀ j, j ≠ k → s₃.portMap j = s₁.portMap j ∧ s₃.portsFwdArray j = s₁.portsFwdArray j

end Attach

section Steps

variable {b : Build} {next : (ℕ → Option EthDev) → ℕ} {s : State} {uid : CStr}
  {type : PortType} {id : ℤ}

/-- A well-formed resource UID is parsed to its type and id. -/
theorem parse_of_names (huid : Names clientTypes uid type id)
    (hint : -2 ^ 31 ≤ id ∧ id < 2 ^ 31) :
    ∃ word, parseResourceUid uid = .ok (some ⟨word, id, true⟩) ∧ resourceType word = some type := by
  obtain ⟨word, number, rfl, hword, hnumber⟩ := huid
  obtain ⟨htype, hne, hcolon⟩ := resourceType_client hword
  exact ⟨word, parseResourceUid_of_decimal hne hcolon hnumber hint, htype⟩

/-- An `add` succeeds iff there is a device, and enters the port in the tables. -/
theorem added_eq (huid : Names clientTypes uid type id) (hint : -2 ^ 31 ≤ id ∧ id < 2 ^ 31) :
    added b next s uid type id = (attachPmd b next s type id).portId.map fun k =>
      (applyAll s ((attachPmd b next s type id).stores type id)).registered k id type := by
  obtain ⟨word, hparse, htype⟩ := parse_of_names huid hint
  unfold added
  cases hk : (attachPmd b next s type id).portId with
  | none => rfl
  | some k =>
    simp [runCommand, doAdd, hparse, htype, hk, bind, Except.bind, pure, Except.pure,
      registerPort_state]

/-- The device after a `del`, for each type. -/
def State.released (s : State) (type : PortType) (k : ℕ) : State :=
  applyAll { s with cmd := .stop } (releaseDevice type k true)

/-- A `del` of a port at one port id releases the device and resets the entries. -/
theorem deleted_eq (huid : Names clientTypes uid type id) (hint : -2 ^ 31 ≤ id ∧ id < 2 ^ 31)
    {k : ℕ} (hfind : findPortId b s id type = k) (hk : k < b.maxEthports) :
    deleted b s uid type id = some ((s.released type k).removed b k) := by
  obtain ⟨word, hparse, htype⟩ := parse_of_names huid hint
  have hlt := b.lt_reset
  have hne : k ≠ portReset := by omega
  have hfind' : findPortId b { s with cmd := .stop } id type = k := hfind
  have hremove : ∃ stores, removePort b (s.released type k) k = .ok stores := ⟨_, if_pos hk⟩
  obtain ⟨stores, hstores⟩ := hremove
  unfold deleted
  rw [if_neg (by rw [hfind]; exact hne)]
  have hrun : runCommand b s .failed true (.del uid) =
      .ok (.cmd .stop :: (releaseDevice type k true ++ stores)) := by
    simp only [runCommand, doDel, hparse, htype, bind, Except.bind, pure, Except.pure,
      hfind', hne, if_false]
    rw [State.released] at hstores
    simp [hstores]
  simp only [hrun, applyAll_cons, applyAll_append]
  exact congrArg some (removePort_state hstores).2

/-- A port that is in no other entry is found where it has been entered. -/
theorem findPortId_registered {t : State} {k : ℕ} (hmap : t.portMap = s.portMap)
    (hnot : ¬ s.HasPort b type id) (hk : k < b.maxEthports) :
    findPortId b (t.registered k id type) id type = k := by
  have hspec := findPortId_spec b (t.registered k id type) id type
  have hreset : findPortId b (t.registered k id type) id type = portReset ↔
      ¬ (t.registered k id type).HasPort b type id := findPortId_eq_reset
  generalize findPortId b (t.registered k id type) id type = j at hspec hreset ⊢
  have hhas : (t.registered k id type).HasPort b type id := ⟨k, hk, by simp [State.registered]⟩
  rcases hspec with hj | ⟨hlt, htype, hid⟩
  · exact absurd hhas (hreset.mp hj)
  · by_contra hne
    simp only [State.registered, Function.update_of_ne hne, hmap] at htype hid
    exact hnot ⟨j, hlt, htype, hid⟩

/-- A deletion undoes the entry of a port iff the entries were those of no port. -/
theorem sameTables_removed {t : State} {k : ℕ} (hk : k < b.maxEthports)
    (hports : t.portsFwdArray = (s.registered k id type).portsFwdArray)
    (hmap : t.portMap = (s.registered k id type).portMap) :
    s.SameTables (t.removed b k) ↔ s.Vacant b k := by
  have hsources : sources b t k = sources b s k := by
    refine List.filter_congr fun i _ => ?_
    by_cases hi : i = k
    · simp [hi]
    · simp [hports, State.registered, hi]
  have hlt := b.lt_reset
  constructor
  · rintro ⟨hsame, hsameMap⟩
    have hport := congrFun hsame k
    have hentry := congrFun hsameMap k
    simp only [State.removed, true_or, if_true, Function.update_self] at hport hentry
    refine ⟨hentry.symm, by rw [← hport], by rw [← hport], ?_⟩
    cases hhead : sources b s k with
    | nil => rfl
    | cons i rest =>
      have hi : i ∈ sources b s k := by
        rw [hhead]
        exact List.mem_cons_self
      obtain ⟨-, hne, -, hout⟩ := by simpa [sources] using hi
      have hfirst : (sources b t k).head? = some i := by rw [hsources, hhead, List.head?_cons]
      have hcut := congrArg Port.outPortId (congrFun hsame i)
      simp only [State.removed, hfirst, or_true, if_true] at hcut
      omega
  · rintro ⟨hfree, hin, hout, hun⟩
    refine ⟨funext fun j => ?_, ?_⟩
    · simp only [State.removed, hsources, hun, List.head?_nil, reduceCtorEq, or_false, hports,
        State.registered]
      by_cases hj : j = k
      · subst hj
        simp only [if_true, Function.update_self]
        rw [← hin]
        cases hentry : s.portsFwdArray j
        rw [hentry] at hin hout
        simp_all
      · simp [hj]
    · simp only [State.removed, hmap, State.registered, Function.update_idem]
      exact Function.update_eq_self_iff.mpr hfree.symm

/-- A device is found under the only port id that has its name. -/
theorem portByName_eq {name : CStr} {k : ℕ} (hk : k < b.maxEthports)
    (hname : s.deviceName? k = some name)
    (honly : ∀ j < b.maxEthports, s.deviceName? j = some name → j = k) :
    s.portByName b name = some k := by
  unfold State.portByName
  cases hfind : (List.range b.maxEthports).find? fun i => s.deviceName? i = some name with
  | none =>
    rw [List.find?_eq_none] at hfind
    exact absurd hname (by simpa using hfind k (List.mem_range.mpr hk))
  | some j =>
    have hj := List.mem_range.mp (List.mem_of_find?_eq_some hfind)
    rw [honly j hj (by simpa using List.find?_some hfind)]

/-- A name that is not found is that of no device. -/
theorem portByName_eq_none {name : CStr} (h : s.portByName b name = none) {j : ℕ}
    (hj : j < b.maxEthports) : s.deviceName? j ≠ some name := by
  unfold State.portByName at h
  rw [List.find?_eq_none] at h
  simpa using h j (List.mem_range.mpr hj)

/-- The search only looks at the names. -/
theorem portByName_congr {t : State} {name : CStr} (h : ∀ j, t.deviceName? j = s.deviceName? j) :
    t.portByName b name = s.portByName b name := by
  unfold State.portByName
  simp only [h]

/-- The devices after the first `add`. -/
def State.withDevice (b : Build) (next : (ℕ → Option EthDev) → ℕ) (s : State) (type : PortType)
    (id : ℤ) : State :=
  applyAll s ((attachPmd b next s type id).stores type id)

/-- A new device is stored under the port id it gets. -/
theorem withDevice_attached {k : ℕ} (hpmd : attachPmd b next s type id = .attached k) :
    s.withDevice b next type id = s.setDev k (some ⟨deviceName type id, (type, id), true⟩) := by
  rw [State.withDevice, hpmd]
  rfl

/-- A device that is started, stopped or closed keeps its name. -/
theorem deviceName?_running (running : Bool) (k i : ℕ) :
    (s.setDev k ((s.ethDevices k).map fun d => { d with running := running })).deviceName? i =
      s.deviceName? i := by
  unfold State.setDev State.deviceName?
  by_cases hi : i = k
  · subst hi
    cases hdev : s.ethDevices i with
    | none => simp
    | some d => simp
  · simp [hi]

/-- A ring is stopped and closed, and a vhost device is left alone: both keep their names. -/
theorem deviceName?_released (hpcap : type ≠ .pcap) (hnull : type ≠ .nullpmd) (k i : ℕ) :
    (s.released type k).deviceName? i = s.deviceName? i := by
  unfold State.released releaseDevice
  cases type with
  | ring =>
    simp only [applyAll_cons, applyAll_nil, Store.apply]
    rw [deviceName?_running, deviceName?_running]
    rfl
  | vhost | phy | undef => rfl
  | pcap => exact absurd rfl hpcap
  | nullpmd => exact absurd rfl hnull

/-- What `add` comes to again after a `del`: a ring is found, a device that was detached is
attached again, and a vhost device is still there. -/
theorem attachPmd_deleted (htype : ∃ word, (word, type) ∈ clientTypes)
    (hnext : s.portByName b (deviceName type id) = none →
      next s.ethDevices < b.maxEthports ∧ s.ethDevices (next s.ethDevices) = none)
    {k : ℕ} (hk : (attachPmd b next s type id).portId = some k) {t : State}
    (ht : t.ethDevices = ((s.withDevice b next type id).released type k).ethDevices) :
    (attachPmd b next t type id).portId = if type = .vhost then none else some k := by
  have hnames : ∀ i, t.deviceName? i =
      ((s.withDevice b next type id).released type k).deviceName? i := by
    intro i
    rw [State.deviceName?, State.deviceName?, ht]
  cases hfind : s.portByName b (deviceName type id) with
  | some j =>
    -- only a ring is looked for first
    have hring : type = .ring := by
      by_contra hring
      simp [attachPmd, hfind, hring, Pmd.portId] at hk
    subst hring
    have hpmd : attachPmd b next s .ring id = .found j true := by simp [attachPmd, hfind]
    have hsame : ∀ i, t.deviceName? i = s.deviceName? i := by
      intro i
      rw [hnames, deviceName?_released (by decide) (by decide), State.withDevice, hpmd]
      exact deviceName?_running true j i
    have hagain : t.portByName b (deviceName .ring id) = some j := by
      rw [portByName_congr hsame, hfind]
    rw [hpmd] at hk
    simpa [attachPmd, hagain, Pmd.portId] using hk
  | none =>
    obtain ⟨hlt, hfree⟩ := hnext hfind
    have hpmd : attachPmd b next s type id = .attached (next s.ethDevices) := by
      simp [attachPmd, hfind]
    obtain rfl : next s.ethDevices = k := by simpa [hpmd, Pmd.portId] using hk
    by_cases hdetach : type = .pcap ∨ type = .nullpmd
    · -- the device is gone, so the second attach is the first one again
      have hback : t.ethDevices = s.ethDevices := by
        rw [ht, withDevice_attached hpmd]
        rcases hdetach with rfl | rfl <;>
          simp [State.released, releaseDevice, Store.apply, State.setDev, hfree]
      have hagain : attachPmd b next t type id = attachPmd b next s type id := by
        unfold attachPmd
        rw [hback, portByName_congr (s := s) fun i => by
          rw [State.deviceName?, State.deviceName?, hback]]
      have hvhost : type ≠ .vhost := by rcases hdetach with rfl | rfl <;> decide
      rw [hagain, hk, if_neg hvhost]
    · have hkept : ∀ i, t.deviceName? i = (s.withDevice b next type id).deviceName? i := by
        intro i
        rw [hnames, deviceName?_released (fun h => hdetach (.inl h)) (fun h => hdetach (.inr h))]
      have hagain : t.portByName b (deviceName type id) = some (next s.ethDevices) := by
        refine portByName_eq hlt ?_ fun j hj hname => ?_
        · rw [hkept, withDevice_attached hpmd]
          simp [State.deviceName?, State.setDev]
        · by_contra hne
          rw [hkept, withDevice_attached hpmd] at hname
          refine portByName_eq_none hfind hj ?_
          simpa [State.deviceName?, State.setDev, hne] using hname
      simp only [not_or] at hdetach
      obtain ⟨word, hword⟩ := htype
      simp only [clientTypes, List.mem_cons, Prod.mk.injEq, List.not_mem_nil, or_false] at hword
      rcases hword with ⟨-, rfl⟩ | ⟨-, rfl⟩ | ⟨-, rfl⟩ | ⟨-, rfl⟩
      · simp [attachPmd, hagain, Pmd.portId]
      · simp [attachPmd, hagain, Pmd.portId]
      · exact absurd rfl hdetach.1
      · exact absurd rfl hdetach.2

/-- The port id of a device is within the tables. -/
theorem attachPmd_lt (hnext : s.portByName b (deviceName type id) = none →
      next s.ethDevices < b.maxEthports ∧ s.ethDevices (next s.ethDevices) = none)
    {k : ℕ} (hk : (attachPmd b next s type id).portId = some k) : k < b.maxEthports := by
  unfold attachPmd at hk
  cases hfind : s.portByName b (deviceName type id) with
  | none =>
    obtain rfl : next s.ethDevices = k := by simpa [hfind, Pmd.portId] using hk
    exact (hnext hfind).1
  | some j =>
    have hj : j < b.maxEthports := List.mem_range.mp (List.mem_of_find?_eq_some hfind)
    by_cases hring : type = .ring
    · subst hring
      obtain rfl : j = k := by simpa only [hfind, if_true, Pmd.portId, Option.some.injEq] using hk
      exact hj
    · simp [hfind, hring, Pmd.portId] at hk

end Steps

section Main

variable {b : Build} {next : (ℕ → Option EthDev) → ℕ} {s : State} {uid : CStr}
  {type : PortType} {id : ℤ}

/-- A port that is not added can be added, deleted and added again iff its device can be
made, the port id it gets has no entries of another port, and it is not a vhost device,
which `do_del` does not detach. A new device gets a free port id within the tables. -/
theorem readd_iff (huid : Names clientTypes uid type id) (hint : -2 ^ 31 ≤ id ∧ id < 2 ^ 31)
    (hnot : ¬ s.HasPort b type id)
    (hnext : s.portByName b (deviceName type id) = none →
      next s.ethDevices < b.maxEthports ∧ s.ethDevices (next s.ethDevices) = none) :
    Readdable b next s uid type id ↔
      type ≠ .vhost ∧ ∃ k, (attachPmd b next s type id).portId = some k ∧ s.Vacant b k := by
  have htype : ∃ word, (word, type) ∈ clientTypes := by
    obtain ⟨word, number, -, hword, -⟩ := huid
    exact ⟨word, hword⟩
  cases hk : (attachPmd b next s type id).portId with
  | none =>
    refine iff_of_false ?_ (by simp)
    rintro ⟨s₁, s₂, s₃, hfirst, -⟩
    rw [added_eq huid hint, hk] at hfirst
    cases hfirst
  | some k =>
    have hlt := attachPmd_lt hnext hk
    obtain ⟨hports, hmap⟩ := pmd_tables (s := s) (attachPmd b next s type id) type id
    -- the states after the first `add` and after the `del`
    obtain ⟨s₁, hs₁⟩ : ∃ s₁, s₁ = (s.withDevice b next type id).registered k id type := ⟨_, rfl⟩
    have hfirst : added b next s uid type id = some s₁ := by
      rw [added_eq huid hint, hk, hs₁]
      rfl
    have htables : s₁.portsFwdArray = (s.registered k id type).portsFwdArray ∧
        s₁.portMap = (s.registered k id type).portMap := by
      rw [hs₁]
      simp only [State.registered, State.withDevice, hports, hmap, and_self]
    have hfind : findPortId b s₁ id type = k := by
      rw [hs₁]
      exact findPortId_registered hmap hnot hlt
    have hdel : deleted b s₁ uid type id = some ((s₁.released type k).removed b k) :=
      deleted_eq huid hint hfind hlt
    obtain ⟨hrelPorts, hrelMap⟩ :=
      releaseDevice_tables (s := { s₁ with cmd := .stop }) type k true
    have hsame : s.SameTables ((s₁.released type k).removed b k) ↔ s.Vacant b k :=
      sameTables_removed hlt (hrelPorts.trans htables.1) (hrelMap.trans htables.2)
    have hdev : ((s₁.released type k).removed b k).ethDevices =
        ((s.withDevice b next type id).released type k).ethDevices := by
      rw [hs₁]
      unfold State.released releaseDevice
      cases type <;> rfl
    have hagain := attachPmd_deleted htype hnext hk hdev
    generalize (s₁.released type k).removed b k = s₂ at hdel hsame hdev hagain
    constructor
    · rintro ⟨t₁, t₂, t₃, ht₁, ht₂, ht₃, htab, -⟩
      obtain rfl := Option.some.inj (hfirst.symm.trans ht₁)
      obtain rfl := Option.some.inj (hdel.symm.trans ht₂)
      refine ⟨?_, k, rfl, hsame.mp htab⟩
      rintro rfl
      rw [added_eq huid hint, hagain] at ht₃
      cases ht₃
    · rintro ⟨hvhost, k', hk', hvacant⟩
      obtain rfl := Option.some.inj hk'
      obtain ⟨hsamePorts, hsameMap⟩ := hsame.mpr hvacant
      rw [if_neg hvhost] at hagain
      obtain ⟨hports₂, hmap₂⟩ := pmd_tables (s := s₂) (attachPmd b next s₂ type id) type id
      -- the third state has the tables of the first
      obtain ⟨s₃, hs₃⟩ : ∃ s₃, s₃ = (applyAll s₂
          ((attachPmd b next s₂ type id).stores type id)).registered k id type := ⟨_, rfl⟩
      have hlast : added b next s₂ uid type id = some s₃ := by
        rw [added_eq huid hint, hagain, hs₃]
        rfl
      have htables₃ : s₃.portsFwdArray = (s.registered k id type).portsFwdArray ∧
          s₃.portMap = (s.registered k id type).portMap := by
        rw [hs₃]
        simp only [State.registered, hports₂, hmap₂, hsamePorts, hsameMap, and_self]
      refine ⟨s₁, s₂, s₃, hfirst, hdel, hlast, ⟨hsamePorts, hsameMap⟩, k, hlt, ?_,
        fun j hj htyped hided => ?_, fun j hj => ?_⟩
      · rw [htables₃.1, htables₃.2]
        simp [State.registered]
      · by_contra hne
        rw [htables₃.2] at htyped hided
        simp only [State.registered, Function.update_of_ne hne] at htyped hided
        exact hnot ⟨j, hj, htyped, hided⟩
      · rw [htables₃.1, htables₃.2, htables.1, htables.2]
        exact ⟨rfl, rfl⟩

end Main

/-- A ring is added again under the port id that it had. -/
theorem readd_ring :
    Readdable .default (fun _ => 2) (started twoPhys) "ring:5".toList .ring 5 ↔
      PortType.ring ≠ .vhost ∧
        ∃ k, (attachPmd .default (fun _ => 2) (started twoPhys) .ring 5).portId = some k ∧
          (started twoPhys).Vacant .default k := by
  have hnot : ¬ (started twoPhys).HasPort .default .ring 5 :=
    findPortId_eq_reset.mp (by decide +kernel)
  exact readd_iff ⟨"ring".toList, "5".toList, by decide, by decide, by decide⟩ (by decide) hnot
    fun _ => ⟨by decide, by decide +kernel⟩

/-- A vhost port cannot be added again: its device is still attached. -/
theorem not_readdable_vhost :
    Names clientTypes "vhost:0".toList .vhost 0 ∧
      ¬ (started twoPhys).HasPort .default .vhost 0 ∧
      ¬ Readdable .default (fun _ => 2) (started twoPhys) "vhost:0".toList .vhost 0 := by
  refine ⟨⟨"vhost".toList, "0".toList, by decide, by decide, by decide⟩,
    findPortId_eq_reset.mp (by decide +kernel), ?_⟩
  rintro ⟨s₁, s₂, s₃, hfirst, hdel, hagain, -⟩
  have hruns : ((added .default (fun _ => 2) (started twoPhys) "vhost:0".toList .vhost 0).bind
      fun t => (deleted .default t "vhost:0".toList .vhost 0).bind fun t =>
        added .default (fun _ => 2) t "vhost:0".toList .vhost 0).isSome = false := by
    decide +kernel
  rw [hfirst, Option.bind_some, hdel, Option.bind_some, hagain] at hruns
  cases hruns

end Spp.Nfv
