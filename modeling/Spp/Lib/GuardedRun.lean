import Mathlib.Data.Nat.Notation
import Mathlib.Logic.Relation

/-!
# Runs of a partial step function

A system whose step on an input may be undefined, together with a condition
that every step of a run has to meet. A run is a chain of such steps, and a
property that one step preserves holds at its end.
-/

namespace GuardedRun

variable {σ ι : Type*} {step : ι → σ → Option σ} {guard : ι → σ → Prop}

/-- One defined step on an input that meets the condition in the state before it. -/
def Step (step : ι → σ → Option σ) (guard : ι → σ → Prop) (s t : σ) : Prop :=
  ∃ i, guard i s ∧ step i s = some t

/-- `t` is reached from `s` by finitely many steps that all meet the condition. -/
abbrev Reaches (step : ι → σ → Option σ) (guard : ι → σ → Prop) (s t : σ) : Prop :=
  Relation.ReflTransGen (Step step guard) s t

/-- A property of the start that every step preserves holds in every reached state. -/
theorem Reaches.invariant {inv : σ → Prop} {s t : σ} (h : Reaches step guard s t) (hs : inv s)
    (hstep : ∀ i u v, inv u → guard i u → step i u = some v → inv v) : inv t := by
  induction h with
  | refl => exact hs
  | tail _ hlast ih =>
    obtain ⟨i, hguard, hi⟩ := hlast
    exact hstep i _ _ ih hguard hi

/-- The state after a list of inputs, if every step on the way is defined. -/
def runAll (step : ι → σ → Option σ) : List ι → σ → Option σ
  | [], s => some s
  | i :: is, s => (step i s).bind (runAll step is)

/-- A run that can be evaluated ends in a state with the property it is tested for. -/
theorem exists_of_runAll {P : σ → Prop} [DecidablePred P] {is : List ι} {s : σ}
    (h : (runAll step is s).any (fun t => P t) = true) : ∃ t, runAll step is s = some t ∧ P t := by
  obtain ⟨t, ht, hP⟩ := (Option.any_eq_true ..).mp h
  exact ⟨t, ht, of_decide_eq_true hP⟩

/-- A step that is taken only where a test passes. -/
def tested (step : ι → σ → Option σ) (test : ι → σ → Bool) (i : ι) (s : σ) : Option σ :=
  if test i s then step i s else none

/-- Inputs that pass a test on the way make a run. -/
theorem reaches_of_runAll_tested {test : ι → σ → Bool} {is : List ι} {s t : σ}
    (h : runAll (tested step test) is s = some t)
    (hguard : ∀ i ∈ is, ∀ s, test i s = true → guard i s) : Reaches step guard s t := by
  induction is generalizing s with
  | nil =>
    cases h
    exact .refl
  | cons i is ih =>
    obtain ⟨u, hu, hrest⟩ := Option.bind_eq_some_iff.mp h
    unfold tested at hu
    split at hu
    · rename_i htest
      exact .head ⟨i, hguard i List.mem_cons_self s htest, hu⟩
        (ih hrest fun j hj => hguard j (List.mem_cons_of_mem i hj))
    · cases hu

/-- Inputs that meet the condition in every state make a run. -/
theorem reaches_of_runAll {is : List ι} {s t : σ} (h : runAll step is s = some t)
    (hguard : ∀ i ∈ is, ∀ s, guard i s) : Reaches step guard s t := by
  induction is generalizing s with
  | nil =>
    cases h
    exact .refl
  | cons i is ih =>
    obtain ⟨u, hu, hrest⟩ := Option.bind_eq_some_iff.mp h
    exact .head ⟨i, hguard i List.mem_cons_self s, hu⟩
      (ih hrest fun j hj => hguard j (List.mem_cons_of_mem i hj))

/-- A quantity that no step raises and that each step of a kind lowers bounds the number of
the steps of that kind in a run. -/
theorem runAll_countP (inv : σ → Prop) (left : σ → ℕ) (p : ι → Bool) {is : List ι} {s t : σ}
    (hstep : ∀ i u v, inv u → step i u = some v →
      inv v ∧ left v ≤ left u ∧ (p i = true → left v < left u))
    (hs : inv s) (h : runAll step is s = some t) : inv t ∧ left t + is.countP p ≤ left s := by
  induction is generalizing s with
  | nil =>
    cases h
    exact ⟨hs, Nat.le_refl _⟩
  | cons i is ih =>
    obtain ⟨u, hu, hrest⟩ := Option.bind_eq_some_iff.mp h
    obtain ⟨hinv, hle, hlt⟩ := hstep i s u hs hu
    obtain ⟨ht, hcount⟩ := ih hinv hrest
    refine ⟨ht, ?_⟩
    rw [List.countP_cons]
    split
    · rename_i hp
      have := hlt hp
      omega
    · omega

end GuardedRun
