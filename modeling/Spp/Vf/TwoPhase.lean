import Mathlib.Data.List.FinRange
import Spp.Lib.Handoff
import Spp.Vf.DataPath

/-!
# The update of data paths and core lists

`spp_forward_update`, `spp_mirror_update` and the edits of a core list followed
by `flush_core` hand their areas over by the two indices. Each is given here as
the stores it makes, one after the other, and what its stores amount to.
-/

namespace Spp.Vf

open GuardedRun Handoff

section Path

/-- Paths are not copied back, and a pass reads the reference index anew. -/
def pathProtocol : Protocol DataPath := { after := [], cached := false }

/-- The path after `memset`. -/
def zeroPath : DataPath := {}

/-- The receive port of one entry is stored. -/
def DataPath.setRx (cnt : ℕ) (info : PortInfo) (path : DataPath) : DataPath :=
  { path with ports := Function.update path.ports cnt { path.ports cnt with rx := info } }

/-- The transmit port of one entry is stored. -/
def DataPath.setTx (cnt : ℕ) (info : PortInfo) (path : DataPath) : DataPath :=
  { path with ports := Function.update path.ports cnt { path.ports cnt with tx := info } }

/-- The stores to a path: it is zeroed, its scalar fields are set, and the ports
are copied entry by entry, `max` of them on the transmit side. -/
def pathStores (iface : PortRef → PortInfo) (component : ComponentInfo) (max : ℕ)
    (tx : ℕ → PortInfo) : List (DataPath → DataPath) :=
  [fun _ => zeroPath,
   fun path => { path with name := component.name },
   fun path => { path with type := component.type },
   fun path => { path with numRx := component.rxPorts.length },
   fun path => { path with numTx := component.txPorts.length }] ++
    (List.range component.rxPorts.length).map
      (fun cnt => DataPath.setRx cnt (portCopy iface component.rxPorts cnt)) ++
    (List.range max).map fun cnt => DataPath.setTx cnt (tx cnt)

/-- A call of `spp_forward_update`; a component it refuses is not stored. -/
def forwardCall (iface : PortRef → PortInfo) (component : ComponentInfo) : Call DataPath :=
  let numRx := component.rxPorts.length
  let numTx := component.txPorts.length
  let max := if numRx > numTx then numRx * numTx else numTx
  if (sppForwardUpdate iface component).isSome then
    ⟨pathStores iface component max fun _ => portCopy iface component.txPorts 0, true⟩
  else ⟨[], false⟩

/-- A call of `spp_mirror_update`; a component it refuses is not stored. -/
def mirrorCall (iface : PortRef → PortInfo) (component : ComponentInfo) : Call DataPath :=
  if (sppMirrorUpdate iface component).isSome then
    ⟨pathStores iface component component.txPorts.length (portCopy iface component.txPorts), true⟩
  else ⟨[], false⟩

@[simp] theorem runStores_append {α : Type*} (f g : List (α → α)) (a : α) :
    runStores (f ++ g) a = runStores g (runStores f a) :=
  List.foldl_append ..

/-- The loop over the receive ports. -/
theorem runStores_setRx (n : ℕ) (rx : ℕ → PortInfo) (path : DataPath) :
    runStores ((List.range n).map fun cnt => DataPath.setRx cnt (rx cnt)) path =
      { path with
        ports := fun cnt => if cnt < n then { path.ports cnt with rx := rx cnt }
          else path.ports cnt } := by
  induction n with
  | zero => simp
  | succ n ih =>
    rw [List.range_succ, List.map_append, runStores_append, ih]
    simp only [List.map_cons, List.map_nil, runStores_cons, runStores_nil, DataPath.setRx,
      DataPath.mk.injEq, true_and]
    funext cnt
    by_cases hcnt : cnt = n
    · subst hcnt
      simp
    · have hlt : cnt < n + 1 ↔ cnt < n := by omega
      simp [hcnt, hlt]

/-- The loop over the transmit ports. -/
theorem runStores_setTx (n : ℕ) (tx : ℕ → PortInfo) (path : DataPath) :
    runStores ((List.range n).map fun cnt => DataPath.setTx cnt (tx cnt)) path =
      { path with
        ports := fun cnt => if cnt < n then { path.ports cnt with tx := tx cnt }
          else path.ports cnt } := by
  induction n with
  | zero => simp
  | succ n ih =>
    rw [List.range_succ, List.map_append, runStores_append, ih]
    simp only [List.map_cons, List.map_nil, runStores_cons, runStores_nil, DataPath.setTx,
      DataPath.mk.injEq, true_and]
    funext cnt
    by_cases hcnt : cnt = n
    · subst hcnt
      simp
    · have hlt : cnt < n + 1 ↔ cnt < n := by omega
      simp [hcnt, hlt]

/-- A copy beyond the array is zero bytes. -/
theorem portCopy_of_ge (iface : PortRef → PortInfo) {array : List PortRef} {cnt : ℕ}
    (h : array.length ≤ cnt) : portCopy iface array cnt = zeroPortInfo := by
  simp [portCopy, List.getElem?_eq_none h]

/-- What the stores make of any area. -/
theorem runStores_pathStores (iface : PortRef → PortInfo) (component : ComponentInfo) (max : ℕ)
    (tx : ℕ → PortInfo) (path : DataPath) :
    runStores (pathStores iface component max tx) path =
      { name := component.name
        type := component.type
        numRx := component.rxPorts.length
        numTx := component.txPorts.length
        ports := fun cnt =>
          ⟨portCopy iface component.rxPorts cnt, if cnt < max then tx cnt else zeroPortInfo⟩ } := by
  unfold pathStores
  rw [runStores_append, runStores_append, runStores_setTx, runStores_setRx]
  simp only [runStores_cons, runStores_nil, zeroPath, DataPath.mk.injEq, true_and]
  funext cnt
  by_cases hrx : cnt < component.rxPorts.length
  · simp only [hrx, if_true]
    split <;> rfl
  · simp only [hrx, if_false, portCopy_of_ge iface (Nat.le_of_not_lt hrx)]
    split <;> rfl

/-- A call of `spp_forward_update` stores the path it is specified to store. -/
theorem forwardCall_spec {iface : PortRef → PortInfo} {component : ComponentInfo} {path : DataPath}
    (h : sppForwardUpdate iface component = some path) (old : DataPath) :
    (forwardCall iface component).publishes = true ∧
      runStores (forwardCall iface component).stores old = path := by
  have hsome : (sppForwardUpdate iface component).isSome := by simp [h]
  simp only [forwardCall, hsome, if_true, runStores_pathStores, true_and]
  unfold sppForwardUpdate at h
  dsimp only at h
  split at h
  · cases h
  · split at h
    · cases h
    · exact Option.some.inj h

/-- A call of `spp_mirror_update` stores the path it is specified to store. -/
theorem mirrorCall_spec {iface : PortRef → PortInfo} {component : ComponentInfo} {path : DataPath}
    (h : sppMirrorUpdate iface component = some path) (old : DataPath) :
    (mirrorCall iface component).publishes = true ∧
      runStores (mirrorCall iface component).stores old = path := by
  have hsome : (sppMirrorUpdate iface component).isSome := by simp [h]
  simp only [mirrorCall, hsome, if_true, runStores_pathStores, true_and]
  unfold sppMirrorUpdate at h
  split at h
  · cases h
  · split at h
    · cases h
    · rw [← Option.some.inj h]
      simp only [DataPath.mk.injEq, true_and]
      funext cnt
      split
      · rfl
      · rename_i hcnt
        rw [portCopy_of_ge iface (Nat.le_of_not_lt hcnt)]

end Path

section Core

/-- `struct core_info` of a build with `n` lcores. -/
structure CoreInfo (n : ℕ) where
  num : ℕ := 0
  id : Fin n → ℕ := fun _ => 0

/-- `flush_core` copies the reference side of a core back, and `slave_main`
keeps its pointer until it takes a list. -/
def coreProtocol (n : ℕ) : Protocol (CoreInfo n) :=
  { after := (fun src dst => { dst with num := src.num }) ::
      (List.finRange n).map fun k src dst => { dst with id := Function.update dst.id k (src.id k) }
    cached := true }

/-- The calls on a core list: `spp_update_component` stores without handing
over, and `flush_core` hands over without storing. -/
def CoreCall {n : ℕ} (c : Call (CoreInfo n)) : Prop := c.publishes = true → c.stores = []

/-- Copying entries one by one. -/
theorem runPieces_id {n : ℕ} (ks : List (Fin n)) (src dst : CoreInfo n) :
    runPieces (ks.map fun k (src dst : CoreInfo n) =>
      { dst with id := Function.update dst.id k (src.id k) }) src dst =
        { dst with id := fun k => if k ∈ ks then src.id k else dst.id k } := by
  induction ks generalizing dst with
  | nil => simp
  | cons a ks ih =>
    rw [List.map_cons, runPieces_cons, ih]
    simp only [CoreInfo.mk.injEq, true_and]
    funext k
    by_cases hk : k = a
    · subst hk
      simp
    · simp [hk]

/-- The copy that ends `flush_core` is complete. -/
theorem coreProtocol_copies (n : ℕ) : (coreProtocol n).Copies := by
  intro src dst
  simp [coreProtocol, runPieces_id]

end Core

section Safety

/-- The calls of a run. -/
def Calls {α : Type*} (call : Call α → Prop) (i : Act α) (_ : St α) : Prop :=
  ∀ c, i = .call c → call c

/-- Two-phase update is safe for calls of the given kind, from the areas left
by initialisation, with reference index 0 and update index 1. -/
structure TwoPhaseSafe {α : Type*} (P : Protocol α) (call : Call α → Prop) (area : Fin 2 → α) :
    Prop where
  /-- The manager stores to an area only while no pass reads it. -/
  writes_ne : ∀ st, Reaches (step P) (Calls call) (St.initial 0 1 area) st →
    ∀ a, st.manager.writes = some a → st.worker = .reading → st.pointer ≠ a
  /-- After a call has returned, and until the next hand-over, the worker reads
  what the call has stored. -/
  reads_last : ∀ st₀ st₁ st₂ st c, Reaches (step P) (Calls call) (St.initial 0 1 area) st₀ →
    call c → c.publishes = true → step P (.call c) st₀ = some st₁ →
    Reaches (step P) NoCall st₁ st₂ → st₂.manager = .idle →
    Reaches (step P) (fun i u => Calls call i u ∧ NoPublish i u) st₂ st → st.worker = .reading →
      st.area st.pointer = runStores c.stores (st₀.area st₀.upd)
  /-- Where the update area is filled from the reference area, both are equal
  when the call returns. -/
  areas_eq : P.Copies → ∀ st₀ st₁ st₂ c,
    Reaches (step P) (Calls call) (St.initial 0 1 area) st₀ →
    call c → c.publishes = true → step P (.call c) st₀ = some st₁ →
    Reaches (step P) NoCall st₁ st₂ → st₂.manager = .idle → st₂.area 0 = st₂.area 1

/-- Any protocol of this kind that starts with the indices apart is safe. -/
theorem twoPhaseSafe {α : Type*} (P : Protocol α) (call : Call α → Prop) (area : Fin 2 → α) :
    TwoPhaseSafe P call area := by
  have hreach : ∀ st, Reaches (step P) (Calls call) (St.initial 0 1 area) st →
      Inv P st ∧ st.Parted := fun st h => inv_of_reaches_of_ne (by decide) h
  refine ⟨fun st h => (hreach st h).1.safe.writes_ne, ?_, ?_⟩
  · intro st₀ st₁ st₂ st c h₀ _ hpublishes hcall hrun hidle hlater hr
    obtain ⟨hinv, hparted⟩ := hreach st₀ h₀
    obtain ⟨hrun, hinv₂, hparted₂⟩ := reaches_publishApart
      (hinv.step (.call c) trivial hcall) (hparted.step hinv (.call c) hcall) hrun
    obtain ⟨hlater, -, -⟩ := reaches_publishApart hinv₂ hparted₂ hlater
    refine ((reads_last_call hinv hpublishes hcall hrun hidle).2.2 st ?_ hr).2
    exact Relation.ReflTransGen.mono
      (fun _ _ ⟨i, ⟨⟨_, hpub⟩, hap⟩, hs⟩ => ⟨i, ⟨hpub, hap⟩, hs⟩) _ _ hlater
  · intro hcopy st₀ st₁ st₂ c h₀ _ hpublishes hcall hrun hidle
    obtain ⟨hinv, hparted⟩ := hreach st₀ h₀
    obtain ⟨hrun, -, -⟩ := reaches_publishApart
      (hinv.step (.call c) trivial hcall) (hparted.step hinv (.call c) hcall) hrun
    have hc := (inCall_of_reaches hinv hpublishes hcall hrun).2
    simp only [InCall, hidle] at hc
    exact hc.2.2 hcopy 0 1

/-- Two-phase update is safe for the paths of forwarders and mergers, for those
of mirrors and for core lists. What a worker reads after a path has been
updated is the path of the updated component; after a core has been flushed,
both of its lists are equal. -/
theorem twoPhaseUpdate_safe (n : ℕ) :
    (TwoPhaseSafe pathProtocol (fun c => ∃ iface component, c = forwardCall iface component)
        (fun _ => zeroPath) ∧
      ∀ iface component path old, sppForwardUpdate iface component = some path →
        (forwardCall iface component).publishes = true ∧
          runStores (forwardCall iface component).stores old = path) ∧
    (TwoPhaseSafe pathProtocol (fun c => ∃ iface component, c = mirrorCall iface component)
        (fun _ => zeroPath) ∧
      ∀ iface component path old, sppMirrorUpdate iface component = some path →
        (mirrorCall iface component).publishes = true ∧
          runStores (mirrorCall iface component).stores old = path) ∧
    TwoPhaseSafe (coreProtocol n) CoreCall (fun _ => {}) ∧ (coreProtocol n).Copies :=
  ⟨⟨twoPhaseSafe .., fun _ _ _ old h => forwardCall_spec h old⟩,
    ⟨twoPhaseSafe .., fun _ _ _ old h => mirrorCall_spec h old⟩,
    twoPhaseSafe .., coreProtocol_copies n⟩

end Safety

end Spp.Vf
