import Mathlib.Data.List.Basic

/-!
# A roster kept in slots

A roster lists records in the order in which they were enrolled; every record has a name
and a place. A program may keep the records in slots and, for every place, a list of the
slots that belong there. The two describe the same roster as long as the lists show it
place by place, and enrolling, dismissing and revising a record carry this over.
-/

namespace Roster

variable {ι π κ α : Type*} {place : α → π} {name : α → κ}

/-- The slots listed at every place hold the records of the roster that belong there, in
the order of the roster. -/
def Shows [DecidableEq π] (place : α → π) (record : ι → α) (listed : π → List ι)
    (roster : List α) : Prop :=
  ∀ p, (listed p).map record = roster.filter fun a => place a = p

/-- Different listed slots hold records of different names. -/
def NamesApart (name : α → κ) (record : ι → α) (listed : π → List ι) : Prop :=
  ∀ p q, ∀ i ∈ listed p, ∀ j ∈ listed q, name (record i) = name (record j) → i = j

variable [DecidableEq π] {record record' : ι → α} {listed listed' : π → List ι}
  {roster : List α} {i : ι}

/-- A listed slot holds a record of the place that lists it. -/
theorem Shows.place_eq (h : Shows place record listed roster) {p : π} (hi : i ∈ listed p) :
    place (record i) = p := by
  have hmem : record i ∈ roster.filter fun a => place a = p := by
    rw [← h p]
    exact List.mem_map_of_mem hi
  simpa using (List.mem_filter.mp hmem).2

/-- Every record of the roster is held by a slot of its place. -/
theorem Shows.exists_of_mem (h : Shows place record listed roster) {a : α} (ha : a ∈ roster) :
    ∃ i ∈ listed (place a), record i = a := by
  have hmem : a ∈ (listed (place a)).map record := by
    rw [h (place a)]
    exact List.mem_filter.mpr ⟨ha, by simp⟩
  exact List.mem_map.mp hmem

/-- Only the records in listed slots count. -/
theorem Shows.congr (h : Shows place record listed roster) (hlisted : ∀ p, listed' p = listed p)
    (hrecord : ∀ p, ∀ i ∈ listed p, record' i = record i) :
    Shows place record' listed' roster := by
  intro p
  rw [hlisted p, ← h p]
  exact List.map_congr_left (hrecord p)

/-- A record in a slot that is not listed yet is enrolled. -/
theorem Shows.enrol (h : Shows place record listed roster) (hfree : ∀ p, i ∉ listed p)
    (hlisted : ∀ p, listed' p = if p = place (record' i) then listed p ++ [i] else listed p)
    (hrecord : ∀ j, j ≠ i → record' j = record j) :
    Shows place record' listed' (roster ++ [record' i]) := by
  have hkept : ∀ p, (listed p).map record' = roster.filter fun a => place a = p := by
    intro p
    rw [← h p]
    refine List.map_congr_left fun j hj => hrecord j ?_
    rintro rfl
    exact hfree p hj
  intro p
  rw [hlisted p, List.filter_append]
  split
  · rename_i hp
    simp [hkept, hp]
  · rename_i hp
    simp [hkept, Ne.symm hp]

variable [DecidableEq κ]

/-- A slot is taken out of the lists, and its record out of the roster. -/
theorem Shows.dismiss [DecidableEq ι] (h : Shows place record listed roster)
    (hapart : NamesApart name record listed) {q : π} (hi : i ∈ listed q)
    (hlisted : ∀ p, listed' p = (listed p).filter fun j => j ≠ i)
    (hrecord : ∀ j, j ≠ i → record' j = record j) :
    Shows place record' listed' (roster.filter fun a => name a ≠ name (record i)) := by
  intro p
  have hsame : ∀ j ∈ listed p, (decide (name (record j) ≠ name (record i))) = decide (j ≠ i) := by
    intro j hj
    refine decide_eq_decide.mpr (not_congr ⟨fun heq => hapart p q j hj i hi heq, ?_⟩)
    rintro rfl
    rfl
  calc (listed' p).map record'
      = ((listed p).filter fun j => j ≠ i).map record := by
        rw [hlisted p]
        refine List.map_congr_left fun j hj => hrecord j ?_
        simpa using (List.mem_filter.mp hj).2
    _ = ((listed p).map record).filter fun a => name a ≠ name (record i) := by
        rw [List.filter_map]
        exact congrArg _ (List.filter_congr fun j hj => (hsame j hj).symm)
    _ = (roster.filter fun a => name a ≠ name (record i)).filter fun a => place a = p := by
        rw [h p, List.filter_filter, List.filter_filter]
        exact List.filter_congr fun a _ => Bool.and_comm ..

/-- The record of a listed slot is revised at its place. -/
theorem Shows.revise (h : Shows place record listed roster)
    (hapart : NamesApart name record listed) {q : π} (hi : i ∈ listed q) (f : α → α)
    (hplace : ∀ a, place (f a) = place a) (hrevised : record' i = f (record i))
    (hrecord : ∀ j, j ≠ i → record' j = record j) :
    Shows place record' listed
      (roster.map fun a => if name a = name (record i) then f a else a) := by
  intro p
  have hrecords : ∀ j ∈ listed p,
      record' j = if name (record j) = name (record i) then f (record j) else record j := by
    intro j hj
    split
    · rename_i heq
      obtain rfl := hapart p q j hj i hi heq
      exact hrevised
    · rename_i hne
      exact hrecord j fun heq => hne (by rw [heq])
  calc (listed p).map record'
      = ((listed p).map record).map fun a => if name a = name (record i) then f a else a := by
        rw [List.map_map]
        exact List.map_congr_left hrecords
    _ = (roster.map fun a => if name a = name (record i) then f a else a).filter
          fun a => place a = p := by
        rw [h p, List.filter_map]
        refine congrArg _ (List.filter_congr fun a _ => ?_)
        dsimp only [Function.comp]
        split
        · rw [hplace]
        · rfl

end Roster
