import Mathlib.Data.List.Basic
import Mathlib.Data.List.Count
import Mathlib.Data.List.Perm.Basic
import Mathlib.Data.Nat.Notation

/-!
# Arrays with a counter, as lists

A C array together with the number of entries in use is the list of those
entries. A search that remembers the last match and a deletion that shifts the
rest down become `lastIdxOf?` and `List.eraseIdx`. Deleting the last
occurrence is, up to order, `List.erase`.
-/

namespace CLib

variable {α : Type*} [DecidableEq α]

/-- The index of the last occurrence of `a`, as found by a loop that
overwrites its result at each match. -/
def lastIdxOf? (a : α) : List α → Option ℕ
  | [] => none
  | b :: l =>
    match lastIdxOf? a l with
    | some k => some (k + 1)
    | none => if b = a then some 0 else none

/-- The search fails exactly when the value does not occur. -/
@[simp] theorem lastIdxOf?_eq_none {a : α} {l : List α} : lastIdxOf? a l = none ↔ a ∉ l := by
  induction l with
  | nil => simp [lastIdxOf?]
  | cons b l ih =>
    cases h : lastIdxOf? a l with
    | some k =>
      have hmem : a ∈ l := by
        by_contra hnot
        rw [ih.mpr hnot] at h
        cases h
      simp [lastIdxOf?, h, hmem]
    | none =>
      have hnot : a ∉ l := ih.mp h
      by_cases hb : b = a
      · simp [lastIdxOf?, h, hb]
      · simp [lastIdxOf?, h, hb, hnot, Ne.symm hb]

/-- Deleting the last occurrence leaves the same entries as deleting the first. -/
theorem eraseIdx_lastIdxOf?_perm {a : α} {l : List α} {k : ℕ} (h : lastIdxOf? a l = some k) :
    (l.eraseIdx k).Perm (l.erase a) := by
  induction l generalizing k with
  | nil => simp [lastIdxOf?] at h
  | cons b l ih =>
    cases hl : lastIdxOf? a l with
    | none =>
      by_cases hb : b = a
      · have hk : 0 = k := by simpa [lastIdxOf?, hl, hb] using h
        subst hk
        simp [hb]
      · simp [lastIdxOf?, hl, hb] at h
    | some j =>
      have hk : j + 1 = k := by simpa [lastIdxOf?, hl] using h
      subst hk
      rw [List.eraseIdx_cons_succ]
      by_cases hb : b = a
      · subst hb
        rw [List.erase_cons_head]
        have hmem : b ∈ l := by
          by_contra hnot
          rw [lastIdxOf?_eq_none.mpr hnot] at hl
          cases hl
        exact ((ih hl).cons b).trans (List.perm_cons_erase hmem).symm
      · rw [List.erase_cons_tail (by simpa using hb)]
        exact (ih hl).cons b

/-- In an array without repetitions the last occurrence is the first. -/
theorem eraseIdx_lastIdxOf?_of_nodup {a : α} {l : List α} (hnodup : l.Nodup) {k : ℕ}
    (h : lastIdxOf? a l = some k) : l.eraseIdx k = l.erase a := by
  induction l generalizing k with
  | nil => simp [lastIdxOf?] at h
  | cons b l ih =>
    obtain ⟨hb, hnodup⟩ := List.nodup_cons.mp hnodup
    cases hl : lastIdxOf? a l with
    | none =>
      by_cases heq : b = a
      · have hk : 0 = k := by simpa [lastIdxOf?, hl, heq] using h
        subst hk
        simp [heq]
      · simp [lastIdxOf?, hl, heq] at h
    | some j =>
      have hk : j + 1 = k := by simpa [lastIdxOf?, hl] using h
      subst hk
      have hne : b ≠ a := by
        rintro rfl
        rw [lastIdxOf?_eq_none.mpr hb] at hl
        cases hl
      rw [List.eraseIdx_cons_succ, List.erase_cons_tail (by simpa using hne), ih hnodup hl]

end CLib
