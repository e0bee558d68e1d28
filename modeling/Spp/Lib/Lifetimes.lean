import Mathlib.Data.List.Induction

/-!
# Lifetimes of resources

A trace of what a program does with its resources: it acquires them, uses them and releases
them. A resource is in order if it is acquired once, used only after that, and released at
most once, after its last use. Here this is followed along a trace that grows at its end.
-/

namespace Lifetimes

/-- What is done with a resource. -/
inductive Op
  | acquire
  | use
  | release
  deriving DecidableEq

/-- How far a resource has come. -/
inductive Stage
  | fresh
  | held
  | released
  deriving DecidableEq

/-- The stage after an operation, if the operation is in order. -/
def Stage.next : Stage → Op → Option Stage
  | .fresh, .acquire => some .held
  | .held, .use => some .held
  | .held, .release => some .released
  | _, _ => none

section Traces

variable {α : Type*} [DecidableEq α] {t : List (Op × α)} {r r' : α}

/-- What has been done with one resource, in order. -/
def events (t : List (Op × α)) (r : α) : List Op := (t.filter fun e => e.2 = r).map Prod.fst

/-- The stage of a resource after a trace, if all was in order. -/
def stage (t : List (Op × α)) (r : α) : Option Stage := (events t r).foldlM Stage.next .fresh

/-- The resource was acquired once, then used any number of times. -/
def Held (t : List (Op × α)) (r : α) : Prop := ∃ n, events t r = .acquire :: List.replicate n .use

/-- The resource was acquired once, then used, and released once as the last of all. -/
def Released (t : List (Op × α)) (r : α) : Prop :=
  ∃ n, events t r = .acquire :: (List.replicate n .use ++ [.release])

/-- All was in order with the resource. -/
def InOrder (t : List (Op × α)) (r : α) : Prop := events t r = [] ∨ Held t r ∨ Released t r

theorem events_concat (op : Op) :
    events (t ++ [(op, r)]) r' = if r = r' then events t r' ++ [op] else events t r' := by
  unfold events
  rw [List.filter_append]
  by_cases h : r = r' <;> simp [h]

/-- One more operation concerns one resource. -/
theorem stage_concat (op : Op) : stage (t ++ [(op, r)]) r' =
    if r = r' then (stage t r').bind fun s => s.next op else stage t r' := by
  unfold stage
  rw [events_concat]
  by_cases h : r = r'
  · rw [if_pos h, if_pos h, List.foldlM_append]
    cases (events t r').foldlM Stage.next .fresh with
    | none => rfl
    | some s => simp
  · rw [if_neg h, if_neg h]

/-- A held resource may be used. -/
theorem stage_use (h : stage t r = some .held) : stage (t ++ [(.use, r)]) r' = stage t r' := by
  rw [stage_concat]
  by_cases heq : r = r'
  · subst heq
    rw [if_pos rfl, h]
    rfl
  · rw [if_neg heq]

/-- Held resources may be used one after another. -/
theorem stage_uses {rs : List α} (h : ∀ r ∈ rs, stage t r = some .held) :
    stage (t ++ rs.map (Op.use, ·)) r' = stage t r' := by
  induction rs generalizing t with
  | nil => rw [List.map_nil, List.append_nil]
  | cons r rs ih =>
    obtain ⟨hr, hrs⟩ := List.forall_mem_cons.mp h
    rw [List.map_cons, List.append_cons, ih fun r'' hr'' => (stage_use hr).trans (hrs r'' hr''),
      stage_use hr]

/-- A fresh resource may be acquired. -/
theorem stage_acquire (h : stage t r = some .fresh) :
    stage (t ++ [(.acquire, r)]) r' = if r = r' then some .held else stage t r' := by
  rw [stage_concat]
  by_cases heq : r = r'
  · subst heq
    rw [if_pos rfl, if_pos rfl, h]
    rfl
  · rw [if_neg heq, if_neg heq]

/-- A held resource may be released. -/
theorem stage_release (h : stage t r = some .held) :
    stage (t ++ [(.release, r)]) r' = if r = r' then some .released else stage t r' := by
  rw [stage_concat]
  by_cases heq : r = r'
  · subst heq
    rw [if_pos rfl, if_pos rfl, h]
    rfl
  · rw [if_neg heq, if_neg heq]

/-- The operations that lead to each stage. -/
theorem foldlM_next {ops : List Op} {s : Stage} (h : ops.foldlM Stage.next .fresh = some s) :
    (s = .fresh ∧ ops = []) ∨ (s = .held ∧ ∃ n, ops = .acquire :: List.replicate n .use) ∨
      s = .released ∧ ∃ n, ops = .acquire :: (List.replicate n .use ++ [.release]) := by
  induction ops using List.reverseRecOn generalizing s with
  | nil => exact .inl ⟨(Option.some.inj h).symm, rfl⟩
  | append_singleton ops op ih =>
    rw [List.foldlM_append] at h
    obtain ⟨s', hs', hlast⟩ := Option.bind_eq_some_iff.mp h
    have hnext : s'.next op = some s := by simpa using hlast
    rcases ih hs' with ⟨rfl, rfl⟩ | ⟨rfl, n, rfl⟩ | ⟨rfl, n, rfl⟩
    · cases op with
      | acquire => exact .inr (.inl ⟨(Option.some.inj hnext).symm, 0, rfl⟩)
      | use | release => cases hnext
    · cases op with
      | acquire => cases hnext
      | use =>
        refine .inr (.inl ⟨(Option.some.inj hnext).symm, n + 1, ?_⟩)
        rw [List.replicate_succ', List.cons_append]
      | release => exact .inr (.inr ⟨(Option.some.inj hnext).symm, n, rfl⟩)
    · cases op <;> cases hnext

/-- A resource with a stage is in order. -/
theorem inOrder_of_stage {s : Stage} (h : stage t r = some s) : InOrder t r := by
  rcases foldlM_next h with ⟨-, h⟩ | ⟨-, h⟩ | ⟨-, h⟩
  · exact .inl h
  · exact .inr (.inl h)
  · exact .inr (.inr h)

/-- The stage of a resource that has been acquired and not released. -/
theorem stage_of_held (h : Held t r) : stage t r = some .held := by
  obtain ⟨n, hn⟩ := h
  unfold stage
  rw [hn]
  show (List.replicate n Op.use).foldlM Stage.next .held = some .held
  clear hn
  induction n with
  | zero => rfl
  | succ n ih => exact ih

theorem held_of_stage (h : stage t r = some .held) : Held t r := by
  rcases foldlM_next h with ⟨h, -⟩ | ⟨-, h⟩ | ⟨h, -⟩
  · cases h
  · exact h
  · cases h

end Traces

end Lifetimes
