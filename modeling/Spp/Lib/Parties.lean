import Mathlib.Algebra.BigOperators.Fin
import Mathlib.Algebra.Order.BigOperators.Group.Finset

/-!
# Contributions of the parties of a system

Finitely many parties, each with a state of its own, and a number that every
party contributes to a total. A step of one party changes the total by the
change of its own contribution.
-/

namespace Parties

variable {ι β : Type*} {c : β → ℕ} {w : ι → β}

section Total

variable [Fintype ι]

/-- The sum of the contributions of all parties. -/
def total (c : β → ℕ) (w : ι → β) : ℕ := ∑ i, c (w i)

/-- If no party contributes, the total is zero. -/
theorem total_eq_zero (h : ∀ i, c (w i) = 0) : total c w = 0 :=
  Finset.sum_eq_zero fun i _ => h i

/-- The contribution of one party is part of the total. -/
theorem le_total (i : ι) : c (w i) ≤ total c w :=
  Finset.single_le_sum (f := fun j => c (w j)) (fun _ _ => Nat.zero_le _) (Finset.mem_univ i)

/-- Where every contribution is at most one and the total reaches the number of
parties, every party contributes. -/
theorem eq_one_of_card_le_total (hle : ∀ i, c (w i) ≤ 1) (h : Fintype.card ι ≤ total c w) (i : ι) :
    c (w i) = 1 := by
  have hsum : total c w = ∑ _j : ι, 1 := by
    have hupper : total c w ≤ ∑ _j : ι, 1 := Finset.sum_le_sum fun j _ => hle j
    have hcard : ∑ _j : ι, 1 = Fintype.card ι := by simp
    omega
  exact (Finset.sum_eq_sum_iff_of_le fun j _ => hle j).mp hsum i (Finset.mem_univ i)

end Total

section Step

variable [DecidableEq ι]

/-- One party's step changes the total by the change of its own contribution. -/
theorem total_update [Fintype ι] (i : ι) (v : β) :
    total c (Function.update w i v) + c (w i) = total c w + c v := by
  have hupd : (fun j => c (Function.update w i v j)) = Function.update (c ∘ w) i (c v) := by
    funext j
    rw [← Function.comp_update]
    rfl
  have hnew : total c (Function.update w i v) = c v + ∑ j ∈ Finset.univ.erase i, c (w j) := by
    unfold total
    rw [hupd, Finset.sum_update_of_mem (Finset.mem_univ i), Finset.sdiff_singleton_eq_erase]
    rfl
  have hold : c (w i) + ∑ j ∈ Finset.univ.erase i, c (w j) = total c w :=
    Finset.add_sum_erase _ (fun j => c (w j)) (Finset.mem_univ i)
  omega

/-- A property of every party is kept by a step of one of them. -/
theorem forall_update {P : β → Prop} {i : ι} {v : β} (h : ∀ j, P (w j)) (hv : P v) (j : ι) :
    P (Function.update w i v j) := by
  by_cases hj : j = i
  · subst hj
    rwa [Function.update_self]
  · rw [Function.update_of_ne hj]
    exact h j

end Step

end Parties
