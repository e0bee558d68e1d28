import Mathlib.Data.List.Nodup
import Mathlib.Tactic.IntervalCases
import Spp.Lib.GuardedRun
import Spp.Nfv.Tables

/-!
# The forwarding table of spp_nfv between commands

The two tables agree: an entry of `ports_fwd_array` is in use exactly when
`port_map` knows a port there, and a patch leads from one such port to another.
Every command keeps this but for the few uses that `Input.meets` rules out, and
each of those breaks it.
-/

namespace Spp.Nfv

open CLib GuardedRun
open Spp.Vf (PortType)

/-- `port_map[i]` holds a port: it has an id and a type. -/
def State.Added (s : State) (i : ℕ) : Prop :=
  (s.portMap i).id ≠ portReset ∧ (s.portMap i).portType ≠ (.undef)

/-- Both function pointers of entry `i` are set. -/
def State.Callable (s : State) (i : ℕ) : Prop :=
  (s.portsFwdArray i).rxFunc = true ∧ (s.portsFwdArray i).txFunc = true

instance (s : State) (i : ℕ) : Decidable (s.Added i) := inferInstanceAs (Decidable (_ ∧ _))
instance (s : State) (i : ℕ) : Decidable (s.Callable i) := inferInstanceAs (Decidable (_ ∧ _))

/-- The tables are consistent. -/
structure TableInv (b : Build) (s : State) : Prop where
  /-- An entry holds no port or its own. -/
  own : ∀ i < b.maxEthports,
    (s.portsFwdArray i).inPortId = portReset ∨ (s.portsFwdArray i).inPortId = i
  /-- An entry is in use exactly when its port has been added. -/
  inUse : ∀ i < b.maxEthports, (s.portsFwdArray i).inPortId ≠ portReset ↔ s.Added i
  /-- A patch leads from an added port to an added port, and both can be called. -/
  patched : ∀ i < b.maxEthports, (s.portsFwdArray i).outPortId ≠ portReset →
    (s.Added i ∧ s.Callable i) ∧ (s.portsFwdArray i).outPortId < b.maxEthports ∧
      s.Added (s.portsFwdArray i).outPortId ∧ s.Callable (s.portsFwdArray i).outPortId
  /-- A resource is added once. -/
  unique : ∀ i < b.maxEthports, ∀ j < b.maxEthports, s.Added i → s.Added j →
    (s.portMap i).portType = (s.portMap j).portType → (s.portMap i).id = (s.portMap j).id → i = j

/-- The name of the device at a port id. -/
def State.deviceName? (s : State) (i : ℕ) : Option CStr := (s.ethDevices i).map EthDev.name

/-- What links the tables to the devices. It survives every command. -/
structure DeviceInv (b : Build) (s : State) : Prop where
  /-- An entry with an id is in use. -/
  idle : ∀ i < b.maxEthports,
    (s.portsFwdArray i).inPortId = portReset → (s.portMap i).id = portReset
  /-- A physical port is known by its port id. -/
  phy : ∀ i < b.maxEthports, s.Added i → (s.portMap i).portType = .phy → (s.portMap i).id = i
  /-- Any other port is known by the resource its device is named after. -/
  named : ∀ i < b.maxEthports, s.Added i → (s.portMap i).portType ≠ .phy →
    s.deviceName? i = some (deviceName (s.portMap i).portType (s.portMap i).id)
  /-- A device has a port id within the tables. -/
  bounded : ∀ i name, s.deviceName? i = some name → i < b.maxEthports
  /-- No two devices have one name. -/
  distinct : ∀ i j name, s.deviceName? i = some name → s.deviceName? j = some name → i = j

/-! ## The inputs of a command -/

/-- A command line with the results of the DPDK calls it leads to. -/
structure Input where
  command : CStr
  pmd : Pmd
  detached : Bool
  deriving Repr

/-- The resource that a command line asks to add. -/
def requested (command : CStr) : Option (PortType × ℤ) :=
  match commandOf command with
  | .ok (.add resUid) =>
    match parseResourceUid resUid with
    | .ok (some uid) =>
      if uid.valid then (resourceType uid.portType).map fun type => (type, uid.portId) else none
    | _ => none
  | _ => none

/-- What DPDK guarantees of a device: a new one gets a free port id and a name
that no other device has, and a look-up finds the device of that name. -/
def Pmd.Allowed (b : Build) (s : State) (type : PortType) (id : ℤ) : Pmd → Prop
  | .failed => True
  | .attached k => k < b.maxEthports ∧ s.ethDevices k = none ∧
      ∀ i < b.maxEthports, s.deviceName? i ≠ some (deviceName type id)
  | .found k _ => k < b.maxEthports ∧ type = .ring ∧
      s.deviceName? k = some (deviceName type id)

/-- The DPDK calls of an input did what DPDK guarantees. -/
def Input.Allowed (b : Build) (s : State) (i : Input) : Prop :=
  ∀ type id, requested i.command = some (type, id) → i.pmd.Allowed b s type id

/-- The entries other than its own that are patched to a port. -/
def sources (b : Build) (s : State) (portId : ℕ) : List ℕ :=
  (List.range b.maxEthports).filter fun i =>
    i ≠ portId ∧ (s.portsFwdArray i).inPortId ≠ portReset ∧
      (s.portsFwdArray i).outPortId = portId

/-- The uses of `add` that the code copes with: the resource UID is complete and
of one of the four types, and the id of a port that is added is not the number
that stands for no id. -/
def addMeets (pmd : Pmd) (resUid : CStr) : Bool :=
  match parseResourceUid resUid with
  | .error _ => false
  | .ok none => true
  | .ok (some uid) => !uid.valid ||
      (resourceType uid.portType).isSome && (pmd.portId.isNone || uid.portId ≠ portReset)

/-- The uses of `del`: the resource UID is complete and of one of the four types,
and at most one other entry is patched to the port if there is one. -/
def delMeets (b : Build) (s : State) (resUid : CStr) : Bool :=
  match parseResourceUid resUid with
  | .error _ => false
  | .ok none => true
  | .ok (some uid) => !uid.valid ||
      (resourceType uid.portType).any fun type =>
        findPortId b s uid.portId type = portReset ∨
          (sources b s (findPortId b s uid.portId type)).length ≤ 1

/-- The uses of `patch`: both resource UIDs are complete, and the message for
ports that are not found fits its buffer. -/
def patchMeets (b : Build) (s : State) (src dst : CStr) : Bool :=
  match patchArgument src, patchArgument dst with
  | .ok inUid, .ok outUid =>
    (patchMessage inUid outUid (findPortId b s inUid.portId (getPortType inUid.portType))
      (findPortId b s outUid.portId (getPortType outUid.portType))).length < 128
  | _, _ => false

/-- The uses of a command that the code copes with. -/
def Command.meets (b : Build) (s : State) (pmd : Pmd) : Command → Bool
  | .add resUid => addMeets pmd resUid
  | .del resUid => delMeets b s resUid
  | .patch src dst => patchMeets b s src dst
  | _ => true

/-- The condition on a command line. -/
def Input.meets (b : Build) (s : State) (i : Input) : Bool :=
  match commandOf i.command with
  | .error _ => false
  | .ok command => command.meets b s i.pmd

/-- One command, where it is defined. -/
def step (b : Build) (i : Input) (s : State) : Option State :=
  (parseCommand b s i.pmd i.detached i.command).toOption.map (applyAll s)

/-! ## What the functions do to the tables -/

section Effects

variable {b : Build} {s : State}

/-- The port id a look-up returns is that of an entry with the type and id. -/
theorem findPortId_spec (b : Build) (s : State) (id : ℤ) (type : PortType) :
    findPortId b s id type = portReset ∨
      findPortId b s id type < b.maxEthports ∧
        (s.portMap (findPortId b s id type)).portType = type ∧
        (s.portMap (findPortId b s id type)).id = id := by
  unfold findPortId
  cases hfind : (List.range b.maxEthports).find? fun i =>
      (s.portMap i).portType = type ∧ (s.portMap i).id = id with
  | none => exact .inl rfl
  | some i =>
    right
    have hmem := List.mem_of_find?_eq_some hfind
    have hp := List.find?_some hfind
    exact ⟨List.mem_range.mp hmem, by simpa using hp⟩

/-- A port id within the tables whose entry has an id. -/
def State.ValidPort (b : Build) (s : State) (k : ℕ) : Prop :=
  k < b.maxEthports ∧ (s.portMap k).id ≠ portReset

instance (b : Build) (s : State) (k : ℕ) : Decidable (s.ValidPort b k) :=
  inferInstanceAs (Decidable (_ ∧ _))

/-- The code's test, for a port id that a look-up returned. Only an id just past
the tables would make it read out of bounds. -/
theorem isValidPort_eq {k : ℕ} (h : k = portReset ∨ k < b.maxEthports) :
    isValidPort b s k = .ok (decide (s.ValidPort b k)) := by
  have hlt := b.lt_reset
  unfold isValidPort State.ValidPort
  rcases h with rfl | h
  · have hnot : ¬ portReset < b.maxEthports := by omega
    simp only [if_pos hlt, hnot, false_and, decide_false]
  · have hle : ¬ b.maxEthports < k := by omega
    have hne : k ≠ b.maxEthports := by omega
    simp only [if_neg hle, if_neg hne, h, true_and]

/-- `add_patch` between ports that a look-up returned. -/
theorem addPatch_eq {i o : ℕ} (hi : i = portReset ∨ i < b.maxEthports)
    (ho : o = portReset ∨ o < b.maxEthports) :
    addPatch b s i o = .ok (if s.ValidPort b i ∧ s.ValidPort b o then
      some [.inPortId i i, .rxFunc i, .txFunc i, .outPortId i o,
        .inPortId o o, .rxFunc o, .txFunc o] else none) := by
  unfold addPatch
  rw [isValidPort_eq hi, isValidPort_eq ho]
  by_cases h1 : s.ValidPort b i
  · by_cases h2 : s.ValidPort b o
    · simp [h1, h2, bind, Except.bind, pure, Except.pure]
    · simp [h1, h2, bind, Except.bind, pure, Except.pure]
  · simp [h1, bind, Except.bind, pure, Except.pure]

/-- The state after a patch. -/
def State.patchedTo (s : State) (i o : ℕ) : State :=
  { s with portsFwdArray := fun k =>
      { inPortId := if k = i ∨ k = o then k else (s.portsFwdArray k).inPortId
        outPortId := if k = i then o else (s.portsFwdArray k).outPortId
        rxFunc := decide (k = i ∨ k = o) || (s.portsFwdArray k).rxFunc
        txFunc := decide (k = i ∨ k = o) || (s.portsFwdArray k).txFunc } }

/-- The stores of `add_patch`. -/
theorem addPatch_state (i o : ℕ) :
    applyAll s [.inPortId i i, .rxFunc i, .txFunc i, .outPortId i o,
      .inPortId o o, .rxFunc o, .txFunc o] = s.patchedTo i o := by
  simp only [applyAll_cons, applyAll_nil, Store.apply, State.setPort, State.patchedTo]
  congr 1
  funext k
  by_cases hi : k = i
  · subst hi
    by_cases ho : k = o
    · subst ho
      simp
    · simp [ho]
  · by_cases ho : k = o
    · subst ho
      simp [hi]
    · simp [hi, ho]

/-- Resetting the targets of a list of entries. -/
theorem resetAll_eq (l : List ℕ) :
    applyAll s (l.map fun i => .outPortId i portReset) =
      { s with portsFwdArray := fun k =>
          if k ∈ l then { s.portsFwdArray k with outPortId := portReset }
          else s.portsFwdArray k } := by
  induction l generalizing s with
  | nil => rfl
  | cons i l ih =>
    simp only [List.map_cons, applyAll_cons, ih, Store.apply, State.setPort]
    congr 1
    funext k
    by_cases hk : k = i
    · subst hk
      by_cases hl : k ∈ l <;> simp [hl]
    · simp [hk]

/-- The state after `forward_array_reset`. -/
def State.unpatched (b : Build) (s : State) : State :=
  { s with portsFwdArray := fun k =>
      if k < b.maxEthports ∧ (s.portsFwdArray k).inPortId ≠ portReset then
        { s.portsFwdArray k with outPortId := portReset }
      else s.portsFwdArray k }

/-- The stores of `forward_array_reset`. -/
theorem forwardArrayReset_state : applyAll s (forwardArrayReset b s) = s.unpatched b := by
  unfold forwardArrayReset State.unpatched
  rw [resetAll_eq]
  simp

/-- A call into DPDK leaves the tables alone. -/
theorem releaseDevice_tables (type : PortType) (k : ℕ) (detached : Bool) :
    (applyAll s (releaseDevice type k detached)).portsFwdArray = s.portsFwdArray ∧
      (applyAll s (releaseDevice type k detached)).portMap = s.portMap := by
  unfold releaseDevice
  cases type <;> cases detached <;> exact ⟨rfl, rfl⟩

/-- The entry whose target `forward_array_remove` resets is the first source of the port. -/
theorem forwardArrayRemove_eq (k : ℕ) :
    forwardArrayRemove b s k = forwardArrayInitOne k ++
      ((sources b s k).head?.map fun i => Store.outPortId i portReset).toList := by
  unfold forwardArrayRemove sources
  have hcongr : (List.range b.maxEthports).find? (fun i =>
        ((applyAll s (forwardArrayInitOne k)).portsFwdArray i).inPortId ≠ portReset ∧
          ((applyAll s (forwardArrayInitOne k)).portsFwdArray i).outPortId = k) =
      (List.range b.maxEthports).find? fun i =>
        i ≠ k ∧ (s.portsFwdArray i).inPortId ≠ portReset ∧
          (s.portsFwdArray i).outPortId = k := by
    congr 1
    funext i
    by_cases hi : i = k
    · subst hi
      simp [forwardArrayInitOne, Store.apply, State.setPort]
    · simp [forwardArrayInitOne, Store.apply, State.setPort, hi]
  rw [hcongr, List.head?_filter]
  congr 1
  generalize (List.range b.maxEthports).find? _ = r
  cases r <;> rfl

/-- The state after a port has been deleted. -/
def State.removed (b : Build) (s : State) (k : ℕ) : State :=
  { s with
    portsFwdArray := fun j =>
      { s.portsFwdArray j with
        inPortId := if j = k then portReset else (s.portsFwdArray j).inPortId
        outPortId := if j = k ∨ some j = (sources b s k).head? then portReset
          else (s.portsFwdArray j).outPortId }
    portMap := Function.update s.portMap k ⟨portReset, .undef, .defaultStats k⟩ }

/-- The stores of `do_del` to the tables. -/
theorem removePort_state {k : ℕ} {stores : List Store} (h : removePort b s k = .ok stores) :
    k < b.maxEthports ∧ applyAll s stores = s.removed b k := by
  unfold removePort at h
  split at h
  · rename_i hk
    cases h
    refine ⟨hk, ?_⟩
    rw [forwardArrayRemove_eq]
    have hmap : ∀ t : State, t.portMap = s.portMap →
        (applyAll t (portMapInitOne k)).portMap =
          Function.update s.portMap k ⟨portReset, .undef, .defaultStats k⟩ := by
      intro t ht
      simp [portMapInitOne, Store.apply, State.setMap, ht]
    unfold State.removed
    cases (sources b s k).head? with
    | none =>
      simp only [Option.map_none, Option.toList_none, List.append_nil, applyAll_append]
      rw [← hmap (applyAll s (forwardArrayInitOne k)) rfl]
      simp only [forwardArrayInitOne, portMapInitOne, applyAll_cons, applyAll_nil, Store.apply,
        State.setPort, State.setMap]
      congr 1
      funext j
      by_cases hj : j = k
      · subst hj
        simp
      · simp [hj]
    | some i =>
      simp only [Option.map_some, Option.toList_some, applyAll_append]
      rw [← hmap (applyAll (applyAll s (forwardArrayInitOne k)) [.outPortId i portReset]) rfl]
      simp only [forwardArrayInitOne, portMapInitOne, applyAll_cons, applyAll_nil, Store.apply,
        State.setPort, State.setMap]
      congr 1
      funext j
      by_cases hj : j = k <;> by_cases hji : j = i
      · subst hj hji
        simp
      · subst hj
        simp [hji]
      · subst hji
        simp [hj]
      · simp [hj, hji]
  · cases h

/-- The state after a port has been entered in the tables. -/
def State.registered (s : State) (k : ℕ) (id : ℤ) (type : PortType) : State :=
  { s with
    portsFwdArray := Function.update s.portsFwdArray k { s.portsFwdArray k with inPortId := k }
    portMap := Function.update s.portMap k ⟨id, type, .clientStats id⟩ }

/-- The stores of `do_add` to the tables. -/
theorem registerPort_state (k : ℕ) (id : ℤ) (type : PortType) :
    applyAll s (registerPort k id type) = s.registered k id type := by
  simp [registerPort, State.registered, Store.apply, State.setPort, State.setMap]

/-- The types that `do_add` and `do_del` know. -/
theorem resourceType_known {text : CStr} {type : PortType} (h : resourceType text = some type) :
    type ≠ .undef ∧ type ≠ .phy := by
  unfold resourceType at h
  repeat' split at h
  all_goals cases h
  all_goals decide

end Effects

/-! ## Preservation -/

section Preservation

variable {b : Build} {s t : State}

/-- The invariant is about the two tables only. -/
theorem TableInv.congr (hs : TableInv b s) (hports : t.portsFwdArray = s.portsFwdArray)
    (hmap : t.portMap = s.portMap) : TableInv b t := by
  obtain ⟨tp, tm, td, tc⟩ := t
  dsimp only at hports hmap
  subst hports hmap
  exact ⟨hs.own, hs.inUse, hs.patched, hs.unique⟩

/-- `cmd` plays no part in the link to the devices. -/
theorem DeviceInv.congr (hs : DeviceInv b s) (hports : t.portsFwdArray = s.portsFwdArray)
    (hmap : t.portMap = s.portMap) (hdev : t.ethDevices = s.ethDevices) : DeviceInv b t := by
  obtain ⟨tp, tm, td, tc⟩ := t
  dsimp only at hports hmap hdev
  subst hports hmap hdev
  exact ⟨hs.idle, hs.phy, hs.named, hs.bounded, hs.distinct⟩

/-- A valid port has been added. -/
theorem State.ValidPort.added {i : ℕ} (h : s.ValidPort b i) (hs : TableInv b s)
    (hd : DeviceInv b s) : s.Added i := by
  apply (hs.inUse i h.1).mp
  intro hreset
  exact h.2 (hd.idle i h.1 hreset)

/-- A patch between added ports keeps the tables consistent. -/
theorem TableInv.patchedTo {i o : ℕ} (hs : TableInv b s) (hi : i < b.maxEthports)
    (ho : o < b.maxEthports) (hai : s.Added i) (hao : s.Added o) :
    TableInv b (s.patchedTo i o) := by
  have hlt := b.lt_reset
  have hadded : ∀ k, (s.patchedTo i o).Added k ↔ s.Added k := fun k => Iff.rfl
  have hcall : ∀ k, k = i ∨ k = o ∨ s.Callable k → (s.patchedTo i o).Callable k := by
    intro k hk
    unfold State.patchedTo State.Callable
    rcases hk with rfl | rfl | hk
    · simp
    · simp
    · simp [hk.1, hk.2]
  constructor
  · intro k hk
    by_cases h : k = i ∨ k = o
    · right
      simp [State.patchedTo, h]
    · simpa [State.patchedTo, h] using hs.own k hk
  · intro k hk
    rw [hadded]
    by_cases h : k = i ∨ k = o
    · have hak : s.Added k := by
        rcases h with rfl | rfl
        · exact hai
        · exact hao
      have hne : k ≠ portReset := by omega
      simpa [State.patchedTo, h, hak] using hne
    · simpa [State.patchedTo, h] using hs.inUse k hk
  · intro k hk hout
    rw [hadded, hadded]
    by_cases h : k = i
    · subst h
      have htarget : ((s.patchedTo k o).portsFwdArray k).outPortId = o := by simp [State.patchedTo]
      rw [htarget]
      exact ⟨⟨hai, hcall k (.inl rfl)⟩, ho, hao, hcall o (.inr (.inl rfl))⟩
    · have htarget : ((s.patchedTo i o).portsFwdArray k).outPortId =
          (s.portsFwdArray k).outPortId := by simp [State.patchedTo, h]
      rw [htarget] at hout ⊢
      obtain ⟨⟨hak, hck⟩, hlt, hat, hct⟩ := hs.patched k hk hout
      exact ⟨⟨hak, hcall k (.inr (.inr hck))⟩, hlt, hat, hcall _ (.inr (.inr hct))⟩
  · exact hs.unique

/-- A reset of the patches keeps the tables consistent. -/
theorem TableInv.unpatched (hs : TableInv b s) : TableInv b (s.unpatched b) := by
  have hin : ∀ k, ((s.unpatched b).portsFwdArray k).inPortId = (s.portsFwdArray k).inPortId := by
    intro k
    unfold State.unpatched
    dsimp only
    split <;> rfl
  constructor
  · intro k hk
    rw [hin]
    exact hs.own k hk
  · intro k hk
    rw [hin]
    exact hs.inUse k hk
  · intro k hk hout
    exfalso
    by_cases h : (s.portsFwdArray k).inPortId ≠ portReset
    · exact hout (by simp [State.unpatched, hk, h])
    · have hout' : (s.portsFwdArray k).outPortId ≠ portReset := by
        simpa [State.unpatched, h] using hout
      exact h ((hs.inUse k hk).mpr (hs.patched k hk hout').1.1)
  · exact hs.unique

/-- A new port keeps the tables consistent. -/
theorem TableInv.registered {k : ℕ} {id : ℤ} {type : PortType} (hs : TableInv b s)
    (hk : k < b.maxEthports) (htype : type ≠ .undef) (hid : id ≠ portReset)
    (hfresh : ∀ j < b.maxEthports, s.Added j → (s.portMap j).portType = type →
      (s.portMap j).id = id → j = k) : TableInv b (s.registered k id type) := by
  have hlt := b.lt_reset
  have hself : (s.registered k id type).Added k := by
    constructor
    · simpa [State.registered] using hid
    · simpa [State.registered] using htype
  have hother : ∀ j, j ≠ k → ((s.registered k id type).Added j ↔ s.Added j) := by
    intro j hj
    simp [State.registered, State.Added, hj]
  have hadded : ∀ j, s.Added j → (s.registered k id type).Added j := by
    intro j hj
    by_cases h : j = k
    · subst h
      exact hself
    · exact (hother j h).mpr hj
  have hmap : ∀ j, j ≠ k → (s.registered k id type).portMap j = s.portMap j := by
    intro j hj
    simp [State.registered, hj]
  have hmapk : (s.registered k id type).portMap k = ⟨id, type, .clientStats id⟩ := by
    simp [State.registered]
  have hport : ∀ j, (s.registered k id type).portsFwdArray j =
      { s.portsFwdArray j with inPortId := if j = k then k else (s.portsFwdArray j).inPortId } := by
    intro j
    by_cases h : j = k
    · subst h
      simp [State.registered]
    · simp [State.registered, h]
  have hcall : ∀ j, (s.registered k id type).Callable j ↔ s.Callable j := by
    intro j
    unfold State.Callable
    rw [hport]
  constructor
  · intro j hj
    rw [hport]
    by_cases h : j = k
    · right
      simp [h]
    · simpa [h] using hs.own j hj
  · intro j hj
    rw [hport]
    by_cases h : j = k
    · subst h
      have hne : j ≠ portReset := by omega
      simpa [hself] using hne
    · rw [hother j h]
      simpa [h] using hs.inUse j hj
  · intro j hj hout
    rw [hport] at hout ⊢
    obtain ⟨⟨haj, hcj⟩, hlt, hat, hct⟩ := hs.patched j hj hout
    exact ⟨⟨hadded j haj, (hcall j).mpr hcj⟩, hlt, hadded _ hat, (hcall _).mpr hct⟩
  · intro i hi j hj hai haj htypes hids
    by_cases h : i = k <;> by_cases h' : j = k
    · rw [h, h']
    · subst h
      rw [hmapk, hmap j h'] at htypes hids
      exact (hfresh j hj ((hother j h').mp haj) htypes.symm hids.symm).symm
    · subst h'
      rw [hmapk, hmap i h] at htypes hids
      exact hfresh i hi ((hother i h).mp hai) htypes hids
    · rw [hmap i h, hmap j h'] at htypes hids
      exact hs.unique i hi j hj ((hother i h).mp hai) ((hother j h').mp haj) htypes hids

/-- An entry without a port type, or with the id that stands for none, is in use
without a port. -/
theorem not_tableInv_registered {k : ℕ} {id : ℤ} {type : PortType} (hk : k < b.maxEthports)
    (h : type = .undef ∨ id = portReset) : ¬ TableInv b (s.registered k id type) := by
  have hlt := b.lt_reset
  intro hinv
  have hne : k ≠ portReset := by omega
  have hin : ((s.registered k id type).portsFwdArray k).inPortId ≠ portReset := by
    simpa [State.registered] using hne
  have hadded := (hinv.inUse k hk).mp hin
  simp only [State.Added, State.registered, Function.update_self] at hadded
  rcases h with h | h
  · exact hadded.2 h
  · exact hadded.1 h

/-- The sources of a port are exactly the entries that would be left dangling. -/
theorem mem_sources {k i : ℕ} : i ∈ sources b s k ↔ i < b.maxEthports ∧ i ≠ k ∧
    (s.portsFwdArray i).inPortId ≠ portReset ∧ (s.portsFwdArray i).outPortId = k := by
  simp [sources]

/-- Deleting a port keeps the tables consistent exactly when it has at most one
other source. -/
theorem tableInv_removed {k : ℕ} (hs : TableInv b s) (hk : k < b.maxEthports) :
    TableInv b (s.removed b k) ↔ (sources b s k).length ≤ 1 := by
  have hlt := b.lt_reset
  have hself : ¬ (s.removed b k).Added k := by
    simp [State.removed, State.Added]
  have hother : ∀ j, j ≠ k → ((s.removed b k).Added j ↔ s.Added j) := by
    intro j hj
    simp [State.removed, State.Added, hj]
  have hcall : ∀ j, (s.removed b k).Callable j ↔ s.Callable j := fun j => Iff.rfl
  constructor
  · intro hinv
    by_contra hmany
    cases hl : sources b s k with
    | nil => simp [hl] at hmany
    | cons i l =>
      cases l with
      | nil => simp [hl] at hmany
      | cons j l =>
        -- the second source keeps its target, which is no longer added
        have hnodup : (sources b s k).Nodup := List.nodup_range.filter _
        have hij : j ≠ i := by
          rw [hl] at hnodup
          rintro rfl
          simp at hnodup
        have hj : j ∈ sources b s k := by simp [hl]
        obtain ⟨hjlt, hjk, -, hout⟩ := mem_sources.mp hj
        have htarget : ((s.removed b k).portsFwdArray j).outPortId = k := by
          simp [State.removed, hl, hij, hjk, hout]
        have hpatched := hinv.patched j hjlt (by rw [htarget]; omega)
        rw [htarget] at hpatched
        exact hself hpatched.2.2.1
  · intro hfew
    constructor
    · intro j hj
      by_cases h : j = k
      · left
        simp [State.removed, h]
      · simpa [State.removed, h] using hs.own j hj
    · intro j hj
      by_cases h : j = k
      · subst h
        have hin : ((s.removed b j).portsFwdArray j).inPortId = portReset := by
          simp [State.removed]
        exact iff_of_false (not_not_intro hin) hself
      · rw [hother j h]
        simpa [State.removed, h] using hs.inUse j hj
    · intro j hj hout
      have hcond : ¬ (j = k ∨ some j = (sources b s k).head?) := by
        intro h
        exact hout (by simp [State.removed, h])
      have htarget : ((s.removed b k).portsFwdArray j).outPortId =
          (s.portsFwdArray j).outPortId := by simp [State.removed, hcond]
      rw [htarget] at hout ⊢
      obtain ⟨hjk, hhead⟩ := not_or.mp hcond
      obtain ⟨⟨haj, hcj⟩, htlt, hat, hct⟩ := hs.patched j hj hout
      have htk : (s.portsFwdArray j).outPortId ≠ k := by
        intro heq
        have hmem : j ∈ sources b s k :=
          mem_sources.mpr ⟨hj, hjk, (hs.inUse j hj).mpr haj, heq⟩
        cases hl : sources b s k with
        | nil => simp [hl] at hmem
        | cons i l =>
          have hnil : l = [] := by
            rw [hl, List.length_cons] at hfew
            exact List.length_eq_zero_iff.mp (by omega)
          subst hnil
          rw [hl] at hmem hhead
          exact hhead (by simpa using hmem)
      exact ⟨⟨(hother j hjk).mpr haj, (hcall j).mpr hcj⟩, htlt, (hother _ htk).mpr hat,
        (hcall _).mpr hct⟩
    · intro i hi j hj hai haj htypes hids
      have hik : i ≠ k := by
        rintro rfl
        exact hself hai
      have hjk : j ≠ k := by
        rintro rfl
        exact hself haj
      simp only [State.removed, Function.update_of_ne hik, Function.update_of_ne hjk] at htypes hids
      exact hs.unique i hi j hj ((hother i hik).mp hai) ((hother j hjk).mp haj) htypes hids

/-- A patch does not change what is known of the devices. -/
theorem DeviceInv.patchedTo {i o : ℕ} (hd : DeviceInv b s) : DeviceInv b (s.patchedTo i o) := by
  have hlt := b.lt_reset
  constructor
  · intro k hk hin
    by_cases h : k = i ∨ k = o
    · exfalso
      have hreset : k = portReset := by simpa [State.patchedTo, h] using hin
      omega
    · apply hd.idle k hk
      simpa [State.patchedTo, h] using hin
  · exact hd.phy
  · exact hd.named
  · exact hd.bounded
  · exact hd.distinct

/-- Nor does a reset of the patches. -/
theorem DeviceInv.unpatched (hd : DeviceInv b s) : DeviceInv b (s.unpatched b) := by
  constructor
  · intro k hk hin
    apply hd.idle k hk
    rw [← hin]
    unfold State.unpatched
    dsimp only
    split <;> rfl
  · exact hd.phy
  · exact hd.named
  · exact hd.bounded
  · exact hd.distinct

/-- A deleted port may lose its device. -/
theorem DeviceInv.removed {k : ℕ} (hd : DeviceInv b s) (hports : t.portsFwdArray = s.portsFwdArray)
    (hmap : t.portMap = s.portMap) (hother : ∀ j, j ≠ k → t.deviceName? j = s.deviceName? j)
    (hself : ∀ name, t.deviceName? k = some name → s.deviceName? k = some name) :
    DeviceInv b (t.removed b k) := by
  have hadded : ∀ j, (t.removed b k).Added j → j ≠ k ∧ s.Added j := by
    intro j hj
    by_cases h : j = k
    · subst h
      exact absurd (by simp [State.removed]) hj.2
    · refine ⟨h, ?_⟩
      simpa [State.removed, State.Added, h, hmap] using hj
  have hname : ∀ j name, t.deviceName? j = some name → s.deviceName? j = some name := by
    intro j name hj
    by_cases h : j = k
    · subst h
      exact hself name hj
    · rw [← hother j h]
      exact hj
  constructor
  · intro j hj hin
    by_cases h : j = k
    · subst h
      simp [State.removed]
    · simp only [State.removed, h, if_false, hports] at hin
      simp only [State.removed, Function.update_of_ne h, hmap]
      exact hd.idle j hj hin
  · intro j hj haj htype
    obtain ⟨h, haj⟩ := hadded j haj
    simp only [State.removed, Function.update_of_ne h, hmap] at htype ⊢
    exact hd.phy j hj haj htype
  · intro j hj haj htype
    obtain ⟨h, haj⟩ := hadded j haj
    simp only [State.removed, Function.update_of_ne h, hmap] at htype ⊢
    exact (hother j h).trans (hd.named j hj haj htype)
  · intro j name hj
    exact hd.bounded j name (hname j name hj)
  · intro i j name hi hj
    exact hd.distinct i j name (hname i name hi) (hname j name hj)

/-- A new port is known by the resource of its device. -/
theorem DeviceInv.registered {k : ℕ} {id : ℤ} {type : PortType} (hd : DeviceInv b s)
    (hports : t.portsFwdArray = s.portsFwdArray) (hmap : t.portMap = s.portMap)
    (hk : k < b.maxEthports) (hphy : type ≠ .phy)
    (hother : ∀ j, j ≠ k → t.deviceName? j = s.deviceName? j)
    (hself : type = .undef ∧ t.deviceName? k = s.deviceName? k ∨
      t.deviceName? k = some (deviceName type id) ∧
        ∀ j, s.deviceName? j = some (deviceName type id) → j = k) :
    DeviceInv b (t.registered k id type) := by
  have hlt := b.lt_reset
  have hmapj : ∀ j, j ≠ k → (t.registered k id type).portMap j = s.portMap j := by
    intro j h
    simp [State.registered, h, hmap]
  have hadded : ∀ j, j ≠ k → ((t.registered k id type).Added j ↔ s.Added j) := by
    intro j h
    unfold State.Added
    rw [hmapj j h]
  have hmapk : (t.registered k id type).portMap k = ⟨id, type, .clientStats id⟩ := by
    simp [State.registered]
  constructor
  · intro j hj hin
    by_cases h : j = k
    · exfalso
      subst h
      have hreset : j = portReset := by simpa [State.registered] using hin
      omega
    · rw [hmapj j h]
      apply hd.idle j hj
      simpa [State.registered, h, hports] using hin
  · intro j hj haj htype
    by_cases h : j = k
    · subst h
      rw [hmapk] at htype
      exact absurd htype hphy
    · rw [hmapj j h] at htype ⊢
      exact hd.phy j hj ((hadded j h).mp haj) htype
  · intro j hj haj htype
    by_cases h : j = k
    · subst h
      have hundef : type ≠ .undef := by
        have h2 := haj.2
        rwa [hmapk] at h2
      rw [hmapk]
      rcases hself with ⟨hu, -⟩ | ⟨hname, -⟩
      · exact absurd hu hundef
      · exact hname
    · rw [hmapj j h] at htype ⊢
      exact (hother j h).trans (hd.named j hj ((hadded j h).mp haj) htype)
  · intro j name hj
    by_cases h : j = k
    · rw [h]
      exact hk
    · exact hd.bounded j name ((hother j h).symm.trans hj)
  · intro i j name hi hj
    have hdev : ∀ j, (t.registered k id type).deviceName? j = t.deviceName? j := fun _ => rfl
    rw [hdev] at hi hj
    rcases hself with ⟨-, hk'⟩ | ⟨hname, huniq⟩
    · have hsame : ∀ j, t.deviceName? j = s.deviceName? j := by
        intro j
        by_cases h : j = k
        · rw [h]
          exact hk'
        · exact hother j h
      rw [hsame] at hi hj
      exact hd.distinct i j name hi hj
    · by_cases h : i = k <;> by_cases h' : j = k
      · rw [h, h']
      · subst h
        obtain rfl : deviceName type id = name := Option.some.inj (hname.symm.trans hi)
        exact (huniq j ((hother j h').symm.trans hj)).symm
      · subst h'
        obtain rfl : deviceName type id = name := Option.some.inj (hname.symm.trans hj)
        exact huniq i ((hother i h).symm.trans hi)
      · exact hd.distinct i j name ((hother i h).symm.trans hi) ((hother j h').symm.trans hj)

end Preservation

/-! ## One command -/

section Commands

variable {b : Build} {s : State}

/-- What is to be shown of a command: the link to the devices survives it, and
the tables are consistent after it exactly when its condition holds. -/
def Settles (b : Build) (s : State) (meets : Bool) : Except Fault (List Store) → Prop
  | .error _ => meets = false
  | .ok stores => DeviceInv b (applyAll s stores) ∧
      (TableInv b (applyAll s stores) ↔ meets = true)

/-- A command that stores nothing. -/
theorem Settles.nothing (hs : TableInv b s) (hd : DeviceInv b s) : Settles b s true (.ok []) :=
  ⟨hd, iff_of_true hs rfl⟩

/-- The devices after the calls of an `add_*_pmd` function. -/
theorem pmd_stores {type : PortType} {id : ℤ} {pmd : Pmd} {k : ℕ} (hk : pmd.portId = some k)
    (hallowed : pmd.Allowed b s type id) (hd : DeviceInv b s) :
    k < b.maxEthports ∧ (applyAll s (pmd.stores type id)).portsFwdArray = s.portsFwdArray ∧
      (applyAll s (pmd.stores type id)).portMap = s.portMap ∧
      (∀ j, j ≠ k → (applyAll s (pmd.stores type id)).deviceName? j = s.deviceName? j) ∧
      (applyAll s (pmd.stores type id)).deviceName? k = some (deviceName type id) ∧
      ∀ j, s.deviceName? j = some (deviceName type id) → j = k := by
  cases pmd with
  | failed => cases hk
  | attached k' =>
    cases hk
    obtain ⟨hlt, -, hfresh⟩ := hallowed
    refine ⟨hlt, rfl, rfl, ?_, ?_, ?_⟩
    · intro j hj
      simp [Pmd.stores, Store.apply, State.setDev, State.deviceName?, hj]
    · simp [Pmd.stores, Store.apply, State.setDev, State.deviceName?]
    · intro j hj
      exact absurd hj (hfresh j (hd.bounded j _ hj))
  | found k' started =>
    cases hk
    obtain ⟨hlt, -, hname⟩ := hallowed
    have huniq : ∀ j, s.deviceName? j = some (deviceName type id) → j = k :=
      fun j hj => hd.distinct j k _ hj hname
    cases started with
    | false => exact ⟨hlt, rfl, rfl, fun _ _ => rfl, hname, huniq⟩
    | true =>
      refine ⟨hlt, rfl, rfl, ?_, ?_, huniq⟩
      · intro j hj
        simp [Pmd.stores, Store.apply, State.setDev, State.deviceName?, hj]
      · rw [← hname]
        simp [Pmd.stores, Store.apply, State.setDev, State.deviceName?, Function.comp_def]

/-- `add`. -/
theorem settles_add {pmd : Pmd} {resUid : CStr} (hs : TableInv b s) (hd : DeviceInv b s)
    (hallowed : ∀ uid type, parseResourceUid resUid = .ok (some uid) → uid.valid = true →
      resourceType uid.portType = some type → pmd.Allowed b s type uid.portId) :
    Settles b s (addMeets pmd resUid) (doAdd pmd resUid) := by
  cases hparse : parseResourceUid resUid with
  | error _ =>
    simp only [doAdd, addMeets, hparse, bind, Except.bind]
    exact rfl
  | ok r =>
    cases r with
    | none =>
      simp only [doAdd, addMeets, hparse, bind, Except.bind]
      exact .nothing hs hd
    | some uid =>
      cases hvalid : uid.valid with
      | false =>
        simp only [doAdd, addMeets, hparse, bind, Except.bind, hvalid]
        exact .nothing hs hd
      | true =>
        cases htype : resourceType uid.portType with
        | none =>
          -- port 0 is entered as a port of no type
          simp only [doAdd, addMeets, hparse, bind, Except.bind, pure, Except.pure, hvalid, htype,
            Bool.not_true, Bool.false_eq_true, if_false, Option.isSome_none, Bool.false_and,
            Bool.or_self]
          constructor
          · rw [registerPort_state]
            exact hd.registered rfl rfl b.pos (by decide) (fun _ _ => rfl) (.inl ⟨rfl, rfl⟩)
          · rw [registerPort_state]
            exact iff_of_false (not_tableInv_registered b.pos (.inl rfl)) Bool.false_ne_true
        | some type =>
          obtain ⟨hundef, hphy⟩ := resourceType_known htype
          cases hk : pmd.portId with
          | none =>
            simp only [doAdd, addMeets, hparse, bind, Except.bind, hvalid, htype, hk]
            exact .nothing hs hd
          | some k =>
            obtain ⟨hlt, hports, hmap, hother, hself, huniq⟩ :=
              pmd_stores hk (hallowed uid type hparse hvalid htype) hd
            simp only [doAdd, addMeets, hparse, bind, Except.bind, pure, Except.pure, hvalid, htype,
              hk, Bool.not_true, Bool.false_eq_true, if_false, Option.isSome_some,
              Option.isNone_some, Bool.false_or, Bool.true_and]
            constructor
            · rw [applyAll_append, registerPort_state]
              exact hd.registered hports hmap hlt hphy hother (.inr ⟨hself, huniq⟩)
            · rw [applyAll_append, registerPort_state, decide_eq_true_iff]
              constructor
              · intro hinv hid
                exact not_tableInv_registered hlt (.inr hid) hinv
              · intro hid
                apply (hs.congr hports hmap).registered hlt hundef hid
                intro j hj haj htype' hid'
                have haj' : s.Added j := by
                  unfold State.Added at haj ⊢
                  rwa [hmap] at haj
                rw [hmap] at htype' hid'
                apply huniq
                rw [hd.named j hj haj' (by rwa [htype']), htype', hid']

/-- The device of a port after the calls of `do_del`. -/
theorem releaseDevice_dev (type : PortType) (k : ℕ) (detached : Bool) :
    (∀ j, j ≠ k →
      (applyAll s (releaseDevice type k detached)).deviceName? j = s.deviceName? j) ∧
    ∀ name, (applyAll s (releaseDevice type k detached)).deviceName? k = some name →
      s.deviceName? k = some name := by
  unfold releaseDevice
  cases type with
  | ring =>
    constructor
    · intro j hj
      simp [Store.apply, State.setDev, State.deviceName?, hj]
    · intro name h
      simpa [Store.apply, State.setDev, State.deviceName?, Function.comp_def] using h
  | pcap | nullpmd =>
    cases detached with
    | false => exact ⟨fun _ _ => rfl, fun _ h => h⟩
    | true =>
      constructor
      · intro j hj
        simp [Store.apply, State.setDev, State.deviceName?, hj]
      · intro name h
        simp [Store.apply, State.setDev, State.deviceName?] at h
  | phy | vhost | undef => exact ⟨fun _ _ => rfl, fun _ h => h⟩

/-- `del`. -/
theorem settles_del (detached : Bool) (resUid : CStr) (hs : TableInv b s)
    (hd : DeviceInv b s) :
    Settles b s (delMeets b s resUid) (doDel b s detached resUid) := by
  have hlt := b.lt_reset
  cases hparse : parseResourceUid resUid with
  | error _ =>
    simp only [doDel, delMeets, hparse, bind, Except.bind]
    exact rfl
  | ok r =>
    cases r with
    | none =>
      simp only [doDel, delMeets, hparse, bind, Except.bind]
      exact .nothing hs hd
    | some uid =>
      cases hvalid : uid.valid with
      | false =>
        simp only [doDel, delMeets, hparse, bind, Except.bind, hvalid]
        exact .nothing hs hd
      | true =>
        cases htype : resourceType uid.portType with
        | none =>
          -- the port id is still `PORT_RESET`, which is past the end of the tables
          have hpast : removePort b s portReset = .error .outOfBounds := by
            unfold removePort
            exact if_neg (by omega)
          simp only [doDel, delMeets, hparse, bind, Except.bind, hvalid, htype, Bool.not_true,
            Bool.false_eq_true, if_false, Option.any_none, Bool.or_self, hpast]
          exact rfl
        | some type =>
          have hspec := findPortId_spec b s uid.portId type
          generalize hfind : findPortId b s uid.portId type = k at hspec
          rcases hspec with rfl | ⟨hk, -, -⟩
          · simp only [doDel, delMeets, hparse, bind, Except.bind, hvalid, htype, hfind,
              Option.any_some, true_or, decide_true, Bool.or_true]
            exact .nothing hs hd
          · have hne : k ≠ portReset := by omega
            obtain ⟨hports, hmap⟩ := releaseDevice_tables (s := s) type k detached
            obtain ⟨hother, hself⟩ := releaseDevice_dev (s := s) type k detached
            cases hrem : removePort b (applyAll s (releaseDevice type k detached)) k with
            | error _ =>
              unfold removePort at hrem
              rw [if_pos hk] at hrem
              cases hrem
            | ok stores =>
              obtain ⟨-, hstate⟩ := removePort_state hrem
              have hsources :
                  sources b (applyAll s (releaseDevice type k detached)) k = sources b s k := by
                unfold sources
                rw [hports]
              simp only [doDel, delMeets, hparse, bind, Except.bind, pure, Except.pure, hvalid,
                htype, hfind, hne, hrem, Bool.not_true, Bool.false_eq_true, if_false,
                Option.any_some, false_or, Bool.false_or]
              constructor
              · rw [applyAll_append, hstate]
                exact hd.removed hports hmap hother hself
              · rw [applyAll_append, hstate, tableInv_removed (hs.congr hports hmap) hk, hsources,
                  decide_eq_true_iff]

/-- `patch`. -/
theorem settles_patch {src dst : CStr} (hs : TableInv b s) (hd : DeviceInv b s) :
    Settles b s (patchMeets b s src dst) (patchPorts b s src dst) := by
  cases hsrc : patchArgument src with
  | error _ =>
    simp only [patchPorts, patchMeets, hsrc, bind, Except.bind]
    exact rfl
  | ok inUid =>
    cases hdst : patchArgument dst with
    | error _ =>
      simp only [patchPorts, patchMeets, hsrc, hdst, bind, Except.bind]
      exact rfl
    | ok outUid =>
      have hin := findPortId_spec b s inUid.portId (getPortType inUid.portType)
      have hout := findPortId_spec b s outUid.portId (getPortType outUid.portType)
      simp only [patchPorts, patchMeets, hsrc, hdst, bind, Except.bind, pure, Except.pure]
      generalize findPortId b s inUid.portId (getPortType inUid.portType) = i at hin ⊢
      generalize findPortId b s outUid.portId (getPortType outUid.portType) = o at hout ⊢
      by_cases hfit : 128 ≤ (patchMessage inUid outUid i o).length
      · simp only [if_pos hfit, decide_eq_false (Nat.not_lt.mpr hfit)]
        exact rfl
      · simp only [if_neg hfit, decide_eq_true (Nat.not_le.mp hfit)]
        rw [addPatch_eq (hin.imp_right And.left) (hout.imp_right And.left)]
        by_cases hvalid : s.ValidPort b i ∧ s.ValidPort b o
        · simp only [if_pos hvalid, Option.getD_some]
          constructor
          · rw [addPatch_state]
            exact hd.patchedTo
          · rw [addPatch_state]
            apply iff_of_true _ rfl
            exact hs.patchedTo hvalid.1.1 hvalid.2.1 (hvalid.1.added hs hd) (hvalid.2.added hs hd)
        · simp only [if_neg hvalid, Option.getD_none]
          exact .nothing hs hd

/-- Any command line. -/
theorem settles_input {i : Input} (hs : TableInv b s) (hd : DeviceInv b s)
    (hallowed : i.Allowed b s) :
    Settles b s (i.meets b s) (parseCommand b s i.pmd i.detached i.command) := by
  cases hcmd : commandOf i.command with
  | error _ =>
    simp only [Input.meets, parseCommand, hcmd, bind, Except.bind]
    exact rfl
  | ok command =>
    simp only [Input.meets, parseCommand, hcmd, bind, Except.bind]
    cases command with
    | other => exact .nothing hs hd
    | stop => exact ⟨hd.congr rfl rfl rfl, iff_of_true (hs.congr rfl rfl) rfl⟩
    | forward => exact ⟨hd.congr rfl rfl rfl, iff_of_true (hs.congr rfl rfl) rfl⟩
    | add resUid =>
      apply settles_add hs hd
      intro uid type hparse hvalid htype
      apply hallowed type uid.portId
      simp [requested, hcmd, hparse, hvalid, htype]
    | reset =>
      constructor
      · rw [forwardArrayReset_state]
        exact hd.unpatched
      · rw [forwardArrayReset_state]
        exact iff_of_true hs.unpatched rfl
    | patch src dst => exact settles_patch hs hd
    | del resUid =>
      have hs' : TableInv b { s with cmd := .stop } := hs.congr rfl rfl
      have hdel := settles_del i.detached resUid hs' (hd.congr rfl rfl rfl)
      cases hstores : doDel b { s with cmd := .stop } i.detached resUid with
      | error _ =>
        rw [hstores] at hdel
        simp only [runCommand, hstores, bind, Except.bind]
        exact hdel
      | ok stores =>
        rw [hstores] at hdel
        simp only [runCommand, hstores, bind, Except.bind, pure, Except.pure]
        exact hdel

end Commands

/-! ## Start-up -/

section Startup

variable {b : Build} {s : State}

/-- `forward_array_init_one` on a list of entries. -/
theorem forwardArrayInit_state (l : List ℕ) :
    applyAll s (l.flatMap forwardArrayInitOne) =
      { s with portsFwdArray := fun k =>
          if k ∈ l then { s.portsFwdArray k with inPortId := portReset, outPortId := portReset }
          else s.portsFwdArray k } := by
  induction l generalizing s with
  | nil => rfl
  | cons i l ih =>
    rw [List.flatMap_cons, applyAll_append, ih]
    simp only [forwardArrayInitOne, applyAll_cons, applyAll_nil, Store.apply, State.setPort]
    congr 1
    funext k
    by_cases hk : k = i
    · subst hk
      by_cases hl : k ∈ l <;> simp [hl]
    · simp [hk]

/-- `port_map_init_one` on a list of entries. -/
theorem portMapInit_state (l : List ℕ) :
    applyAll s (l.flatMap portMapInitOne) =
      { s with portMap := fun k =>
          if k ∈ l then ⟨portReset, .undef, .defaultStats k⟩ else s.portMap k } := by
  induction l generalizing s with
  | nil => rfl
  | cons i l ih =>
    rw [List.flatMap_cons, applyAll_append, ih]
    simp only [portMapInitOne, applyAll_cons, applyAll_nil, Store.apply, State.setMap]
    congr 1
    funext k
    by_cases hk : k = i
    · subst hk
      by_cases hl : k ∈ l <;> simp [hl]
    · simp [hk]

/-- The physical ports of a list entered in the tables. -/
theorem registerPhy_state (l : List ℕ) :
    applyAll s (l.flatMap registerPhy) =
      { s with
        portsFwdArray := fun k =>
          if k ∈ l then { s.portsFwdArray k with inPortId := k } else s.portsFwdArray k
        portMap := fun k => if k ∈ l then ⟨k, .phy, .portStats k⟩ else s.portMap k } := by
  induction l generalizing s with
  | nil => rfl
  | cons i l ih =>
    rw [List.flatMap_cons, applyAll_append, ih]
    simp only [registerPhy, applyAll_cons, applyAll_nil, Store.apply, State.setPort, State.setMap]
    congr 1
    · funext k
      by_cases hk : k = i
      · subst hk
        by_cases hl : k ∈ l <;> simp [hl]
      · simp [hk]
    · funext k
      by_cases hk : k = i
      · subst hk
        by_cases hl : k ∈ l <;> simp [hl]
      · simp [hk]

/-- The physical ports that `main` enters. -/
def registeredPhys (phys : PhysicalPorts b) : List ℕ :=
  (List.range (nbPorts phys)).filter fun i => (phys.name i).isSome

/-- The tables left by `main`. -/
theorem started_eq (phys : PhysicalPorts b) (k : ℕ) (hk : k < b.maxEthports) :
    (started phys).portsFwdArray k =
        ⟨if k ∈ registeredPhys phys then k else portReset, portReset, false, false⟩ ∧
      (started phys).portMap k =
        if k ∈ registeredPhys phys then ⟨k, .phy, .portStats k⟩
        else ⟨portReset, .undef, .defaultStats k⟩ := by
  unfold started mainStores
  rw [applyAll_append, applyAll_append, forwardArrayInit_state, portMapInit_state,
    registerPhy_state]
  dsimp only
  unfold registeredPhys
  by_cases h : k ∈ (List.range (nbPorts phys)).filter fun i => (phys.name i).isSome
  · simp only [if_pos h, List.mem_range, if_pos hk, zeroed, and_self]
  · simp only [if_neg h, List.mem_range, if_pos hk, zeroed, and_self]

/-- `main` leaves the devices as DPDK has probed them. -/
theorem started_dev (phys : PhysicalPorts b) (k : ℕ) :
    (started phys).deviceName? k = phys.name k := by
  unfold started mainStores State.deviceName?
  rw [applyAll_append, applyAll_append, forwardArrayInit_state, portMapInit_state,
    registerPhy_state]
  simp [zeroed, physicalDevices, Function.comp_def]

/-- The ports that `main` has added. -/
theorem started_added (phys : PhysicalPorts b) {k : ℕ} (hk : k < b.maxEthports) :
    (started phys).Added k ↔ k ∈ registeredPhys phys := by
  have hlt := b.lt_reset
  unfold State.Added
  rw [(started_eq phys k hk).2]
  by_cases h : k ∈ registeredPhys phys
  · have hne : (k : ℤ) ≠ portReset := by omega
    simpa [h] using hne
  · simp [h]

/-- The tables left by `main` are consistent. -/
theorem tableInv_started (phys : PhysicalPorts b) : TableInv b (started phys) := by
  have hlt := b.lt_reset
  constructor
  · intro k hk
    rw [(started_eq phys k hk).1]
    by_cases h : k ∈ registeredPhys phys
    · exact .inr (if_pos h)
    · exact .inl (if_neg h)
  · intro k hk
    rw [started_added phys hk, (started_eq phys k hk).1]
    by_cases h : k ∈ registeredPhys phys
    · have hne : k ≠ portReset := by omega
      simpa [h] using hne
    · simp [h]
  · intro k hk hout
    rw [(started_eq phys k hk).1] at hout
    exact absurd rfl hout
  · intro i hi j hj hai haj _ hids
    rw [started_added phys hi] at hai
    rw [started_added phys hj] at haj
    rw [(started_eq phys i hi).2, (started_eq phys j hj).2, if_pos hai, if_pos haj] at hids
    exact Int.ofNat_inj.mp hids

/-- The tables left by `main` are linked to the physical ports. -/
theorem deviceInv_started (phys : PhysicalPorts b) : DeviceInv b (started phys) := by
  have hlt := b.lt_reset
  constructor
  · intro k hk hin
    rw [(started_eq phys k hk).1] at hin
    rw [(started_eq phys k hk).2]
    by_cases h : k ∈ registeredPhys phys
    · rw [if_pos h] at hin
      dsimp only at hin
      omega
    · rw [if_neg h]
  · intro k hk hadded _
    rw [(started_eq phys k hk).2, if_pos ((started_added phys hk).mp hadded)]
  · intro k hk hadded hphy
    rw [(started_eq phys k hk).2, if_pos ((started_added phys hk).mp hadded)] at hphy
    exact absurd rfl hphy
  · intro k name hname
    rw [started_dev] at hname
    exact phys.lt hname
  · intro i j name hi hj
    rw [started_dev] at hi hj
    exact phys.name_inj hi hj

end Startup

/-! ## Every run -/

section Runs

variable {b : Build}

/-- A run of commands in which DPDK does what it guarantees and every command
line meets the condition. -/
abbrev Runs (b : Build) : State → State → Prop :=
  Reaches (step b) fun i s => i.Allowed b s ∧ i.meets b s = true

/-- A step on an input is defined and keeps the tables consistent exactly when
the input meets the condition. -/
theorem step_consistent_iff {s : State} {i : Input} (hs : TableInv b s) (hd : DeviceInv b s)
    (hallowed : i.Allowed b s) :
    i.meets b s = true ↔ ∃ t, step b i s = some t ∧ TableInv b t := by
  have hsettles := settles_input hs hd hallowed
  unfold step
  cases hstores : parseCommand b s i.pmd i.detached i.command with
  | error _ =>
    rw [hstores] at hsettles
    have hfalse : i.meets b s = false := hsettles
    simp [hfalse, Except.toOption]
  | ok stores =>
    rw [hstores] at hsettles
    simp [Except.toOption, hsettles.2]

/-- Both invariants hold in every state of a run. -/
theorem Runs.invariants {phys : PhysicalPorts b} {s : State} (h : Runs b (started phys) s) :
    TableInv b s ∧ DeviceInv b s := by
  apply Reaches.invariant h ⟨tableInv_started phys, deviceInv_started phys⟩
  rintro i u v ⟨hs, hd⟩ ⟨hallowed, hmeets⟩ hstep
  have hsettles := settles_input hs hd hallowed
  unfold step at hstep
  cases hstores : parseCommand b u i.pmd i.detached i.command with
  | error _ =>
    rw [hstores] at hstep
    cases hstep
  | ok stores =>
    rw [hstores] at hstep hsettles
    cases hstep
    exact ⟨hsettles.2.mpr hmeets, hsettles.1⟩

/-- In every run whose command lines meet the condition, the tables are
consistent in every state between commands. In each of these states the
condition is exact: the next command is defined and leaves consistent tables
just when it meets the condition. -/
theorem tables_consistent_exactly {phys : PhysicalPorts b} {s : State}
    (h : Runs b (started phys) s) :
    TableInv b s ∧ ∀ i : Input, i.Allowed b s →
      (i.meets b s = true ↔ ∃ t, step b i s = some t ∧ TableInv b t) := by
  obtain ⟨hs, hd⟩ := h.invariants
  exact ⟨hs, fun i hallowed => step_consistent_iff hs hd hallowed⟩

/-- Two physical ports. -/
def twoPhys : PhysicalPorts Build.default where
  name := fun i => if i < 2 then some (["0000:00:08.0".toList, "0000:00:09.0".toList].getD i [])
    else none
  name_inj := by
    intro i j n hi hj
    split at hi <;> split at hj
    · rename_i hi2 hj2
      interval_cases i <;> interval_cases j
      · rfl
      · exact absurd (hi.trans hj.symm) (by decide)
      · exact absurd (hi.trans hj.symm) (by decide)
      · rfl
    all_goals contradiction
  lt := by
    intro i n h
    split at h
    · rename_i hi
      exact hi.trans (by decide)
    · cases h

/-- A command line whose `add` attaches a device at a port id. -/
def attach (command : String) (k : ℕ) : Input := ⟨command.toList, .attached k, true⟩

/-- A command line that is no `add`. -/
def line (command : String) : Input := ⟨command.toList, .failed, true⟩

instance (b : Build) (s : State) (type : PortType) (id : ℤ) (pmd : Pmd) :
    Decidable (pmd.Allowed b s type id) :=
  match pmd with
  | .failed => inferInstanceAs (Decidable True)
  | .attached _ => inferInstanceAs (Decidable (_ ∧ _ ∧ _))
  | .found _ _ => inferInstanceAs (Decidable (_ ∧ _ ∧ _))

/-- A test for `Input.Allowed`. -/
def Input.allowed (b : Build) (i : Input) (s : State) : Bool :=
  (requested i.command).all fun r => decide (i.pmd.Allowed b s r.1 r.2)

/-- The test is sound. -/
theorem Input.allowed_sound {i : Input} {s : State} (h : i.allowed b s = true) :
    i.Allowed b s := by
  intro type id hreq
  simpa [Input.allowed, hreq] using h

/-- A ring between two physical ports is patched both ways and deleted. -/
def ringRun : List Input :=
  [attach "add ring:0" 2, line "patch phy:0 ring:0", line "patch ring:0 phy:1", line "forward",
    line "del ring:0"]

/-- The ring of `ringRun` is the target of one patch only, so the tables stay
consistent. -/
theorem tables_consistent_two_patches :
    ∃ s, runAll (tested (step .default) fun i s => i.allowed .default s && i.meets .default s)
        ringRun (started twoPhys) = some s ∧ TableInv .default s := by
  have hrun : ∃ s, runAll (tested (step .default) fun i s =>
      i.allowed .default s && i.meets .default s) ringRun (started twoPhys) = some s ∧ True :=
    exists_of_runAll (by decide +kernel)
  obtain ⟨s, hs, -⟩ := hrun
  refine ⟨s, hs, (tables_consistent_exactly (reaches_of_runAll_tested hs ?_)).1⟩
  intro i _ t htest
  obtain ⟨hallowed, hmeets⟩ := Bool.and_eq_true_iff.mp htest
  exact ⟨Input.allowed_sound hallowed, hmeets⟩

/-- Two physical ports are patched to one ring, and the ring is deleted. -/
def sharedRingRun : List Input :=
  [attach "add ring:0" 2, line "patch phy:0 ring:0", line "patch phy:1 ring:0", line "del ring:0"]

/-- After `sharedRingRun` the second patch still leads to the ring, which is no
longer a port. -/
theorem delete_leaves_dangling_patch :
    ∃ s, runAll (tested (step .default) fun i s => i.allowed .default s) sharedRingRun
        (started twoPhys) = some s ∧ ¬ TableInv .default s := by
  have hrun : ∃ s, runAll (tested (step .default) fun i s => i.allowed .default s) sharedRingRun
      (started twoPhys) = some s ∧ (s.portsFwdArray 1).outPortId = 2 ∧ ¬ s.Added 2 :=
    exists_of_runAll (by decide +kernel)
  obtain ⟨s, hs, hout, hadded⟩ := hrun
  refine ⟨s, hs, ?_⟩
  intro hinv
  have hpatched := hinv.patched 1 (by decide) (by rw [hout]; decide)
  rw [hout] at hpatched
  exact hadded hpatched.2.2.1

end Runs

end Spp.Nfv
