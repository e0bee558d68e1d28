import Mathlib.Data.List.Nodup
import Mathlib.Data.List.Perm.Subperm
import Mathlib.Data.Nat.Notation

/-!
# Options of a command line

The options among the tokens of a command line with their values, a dictionary in
which the last value of an option stays, and the selection of the options of a
table from it. A selection keeps all options exactly if each of them is in the
table and occurs once.
-/

namespace Options

variable {α β : Type*}

section Occurrences

variable (isOption : α → Bool)

/-- The options in their order. The value of an option is the token after it, if
that is no option; other tokens belong to no option. -/
def occurrences : List α → List (α × Option α)
  | [] => []
  | t :: rest =>
    if isOption t then (t, rest.head?.filter fun v => !isOption v) :: occurrences rest
    else occurrences rest

/-- The tokens of options and their values. -/
def words (os : List (α × Option α)) : List α := os.flatMap fun o => o.1 :: o.2.toList

/-- The tokens are the options and their values. -/
theorem mem_words {t : α} {os : List (α × Option α)} :
    t ∈ words os ↔ ∃ o ∈ os, t = o.1 ∨ t ∈ o.2 := by
  simp [words, List.mem_flatMap]

/-- Options have tokens. -/
theorem words_ne_nil {os : List (α × Option α)} (h : os ≠ []) : words os ≠ [] := by
  obtain ⟨o, os, rfl⟩ := List.exists_cons_of_ne_nil h
  simp [words]

/-- The order of options is the order of their tokens. -/
theorem words_perm {os os' : List (α × Option α)} (h : os.Perm os') : (words os).Perm (words os') :=
  h.flatMap_right _

/-- Options that are options, with values that are none. -/
def WellFormed (os : List (α × Option α)) : Prop :=
  ∀ o ∈ os, isOption o.1 = true ∧ ∀ v ∈ o.2, isOption v = false

variable {isOption}

/-- What occurs on a command line is well formed. -/
theorem wellFormed_occurrences (l : List α) : WellFormed isOption (occurrences isOption l) := by
  induction l with
  | nil => exact fun _ ho => absurd ho List.not_mem_nil
  | cons t rest ih =>
    intro o ho
    by_cases ht : isOption t = true
    · rw [occurrences, if_pos ht, List.mem_cons] at ho
      obtain rfl | ho := ho
      · refine ⟨ht, fun v hv => ?_⟩
        have hfilter := (Option.filter_eq_some_iff.mp hv).2
        simpa using hfilter
      · exact ih o ho
    · rw [occurrences, if_neg ht] at ho
      exact ih o ho

/-- The options that occur are the tokens that are options. -/
theorem mem_keys_occurrences {t : α} {l : List α} :
    t ∈ (occurrences isOption l).map Prod.fst ↔ t ∈ l ∧ isOption t = true := by
  induction l with
  | nil => simp [occurrences]
  | cons u rest ih =>
    by_cases hu : isOption u = true
    · rw [occurrences, if_pos hu, List.map_cons, List.mem_cons, ih, List.mem_cons]
      constructor
      · rintro (rfl | ⟨ht, hopt⟩)
        · exact ⟨.inl rfl, hu⟩
        · exact ⟨.inr ht, hopt⟩
      · rintro ⟨rfl | ht, hopt⟩
        · exact .inl rfl
        · exact .inr ⟨ht, hopt⟩
    · rw [occurrences, if_neg hu, ih, List.mem_cons]
      constructor
      · rintro ⟨ht, hopt⟩
        exact ⟨.inr ht, hopt⟩
      · rintro ⟨rfl | ht, hopt⟩
        · exact absurd hopt hu
        · exact ⟨ht, hopt⟩

/-- The tokens of the options that occur are tokens of the command line. -/
theorem mem_of_mem_words_occurrences {t : α} {l : List α}
    (h : t ∈ words (occurrences isOption l)) : t ∈ l := by
  induction l with
  | nil => exact absurd h List.not_mem_nil
  | cons u rest ih =>
    by_cases hu : isOption u = true
    · rw [occurrences, if_pos hu, words, List.flatMap_cons, List.mem_append, List.mem_cons] at h
      obtain (rfl | hvalue) | hrest := h
      · exact List.mem_cons_self
      · have hhead := (Option.filter_eq_some_iff.mp (Option.mem_toList.mp hvalue)).1
        exact List.mem_cons_of_mem u (List.mem_of_head? hhead)
      · exact List.mem_cons_of_mem u (ih hrest)
    · rw [occurrences, if_neg hu] at h
      exact List.mem_cons_of_mem u (ih h)

/-- Options that follow do not change the ones before. -/
theorem occurrences_append (l : List α) {r : List α} (h : ∀ t ∈ r.head?, isOption t = true) :
    occurrences isOption (l ++ r) = occurrences isOption l ++ occurrences isOption r := by
  induction l with
  | nil => rfl
  | cons t l ih =>
    have hhead : ((l ++ r).head?.filter fun v => !isOption v) =
        l.head?.filter fun v => !isOption v := by
      cases l with
      | nil =>
        cases hr : r.head? with
        | none => simp [hr]
        | some v => simp [hr, h v hr, Option.filter]
      | cons v l => rfl
    by_cases ht : isOption t = true
    · simp only [List.cons_append, occurrences, if_pos ht, hhead, ih]
    · simp only [List.cons_append, occurrences, if_neg ht, ih]

/-- There are as many options among the tokens as options. -/
theorem countP_words {os : List (α × Option α)} (h : WellFormed isOption os) :
    (words os).countP isOption = os.length := by
  induction os with
  | nil => rfl
  | cons o os ih =>
    obtain ⟨hkey, hvalue⟩ := h o List.mem_cons_self
    have hrest := ih fun x hx => h x (List.mem_cons_of_mem o hx)
    have hnone : o.2.toList.countP isOption = 0 := by
      rw [List.countP_eq_zero]
      intro v hv
      simp [hvalue v (Option.mem_toList.mp hv)]
    unfold words at hrest ⊢
    rw [List.flatMap_cons, List.countP_append, List.countP_cons_of_pos hkey, hnone, hrest,
      List.length_cons]
    omega

end Occurrences

section Dictionary

variable [BEq α]

/-- `d[k] = v` in a dictionary that keeps the order of its keys. -/
def setItem : List (α × β) → α → β → List (α × β)
  | [], k, v => [(k, v)]
  | (key, old) :: d, k, v => if key == k then (key, v) :: d else (key, old) :: setItem d k v

/-- The last value of an option. -/
def lastValue (os : List (α × β)) (k : α) : Option β := os.reverse.lookup k

/-- The options of a table that occur, each with its last value. -/
def select (table : List α) (os : List (α × β)) : List (α × β) :=
  table.filterMap fun k => (lastValue os k).map fun v => (k, v)

variable {table : List α} {os : List (α × β)}

/-- A later option overrides. -/
theorem lastValue_append (k key : α) (v : β) :
    lastValue (os ++ [(k, v)]) key = if key == k then some v else lastValue os key := by
  simp only [lastValue, List.reverse_append, List.reverse_singleton, List.singleton_append,
    List.lookup_cons]
  cases key == k <;> rfl

/-- An earlier value stays if there is no later one. -/
theorem lastValue_cons (o : α × β) (os : List (α × β)) (k : α) :
    lastValue (o :: os) k = (lastValue os k).or (if k == o.1 then some o.2 else none) := by
  obtain ⟨key, v⟩ := o
  simp only [lastValue, List.reverse_cons, List.lookup_append, List.lookup_cons, List.lookup_nil]
  cases k == key <;> rfl

/-- The selected keys are those of the table that occur. -/
theorem keys_select :
    (select table os).map Prod.fst = table.filter fun k => (lastValue os k).isSome := by
  induction table with
  | nil => rfl
  | cons k table ih =>
    unfold select at ih ⊢
    cases hk : lastValue os k with
    | none => simp [hk, ih]
    | some v => simp [hk, ih]

/-- No option is selected twice. -/
theorem nodup_keys_select (htable : table.Nodup) : ((select table os).map Prod.fst).Nodup := by
  rw [keys_select]
  exact htable.filter _

variable [LawfulBEq α]

/-- Only the key that is set changes. -/
theorem lookup_setItem (d : List (α × β)) (k key : α) (v : β) :
    (setItem d k v).lookup key = if key == k then some v else d.lookup key := by
  induction d with
  | nil =>
    simp only [setItem, List.lookup_cons, List.lookup_nil]
    cases key == k <;> rfl
  | cons item d ih =>
    obtain ⟨other, old⟩ := item
    by_cases hk : other = k
    · subst hk
      simp only [setItem, beq_self_eq_true, if_true, List.lookup_cons]
      cases key == other <;> rfl
    · have hne : (other == k) = false := by simpa using hk
      simp only [setItem, hne, Bool.false_eq_true, if_false, List.lookup_cons, ih]
      by_cases hkey : key = other
      · subst hkey
        simp [hne]
      · have hkey' : (key == other) = false := by simpa using hkey
        simp [hkey']

/-- The options other than `k` do not tell the values of `k`. -/
theorem lastValue_filter {k key : α} (h : key ≠ k) (os : List (α × β)) :
    lastValue (os.filter fun o => !(o.1 == k)) key = lastValue os key := by
  induction os with
  | nil => rfl
  | cons o os ih =>
    by_cases ho : (o.1 == k) = true
    · have hother : (key == o.1) = false := by
        rw [beq_iff_eq.mp ho]
        simpa using h
      rw [List.filter_cons_of_neg (by simp [ho]), ih, lastValue_cons, hother]
      simp
    · rw [List.filter_cons_of_pos (by simpa using ho), lastValue_cons, lastValue_cons, ih]

/-- The last value of an option is one of its values. -/
theorem mem_of_lastValue {k : α} {v : β} (h : lastValue os k = some v) : (k, v) ∈ os := by
  obtain ⟨before, after, hos, -⟩ := List.lookup_eq_some_iff.mp h
  rw [← List.mem_reverse, hos]
  exact List.mem_append_right before List.mem_cons_self

/-- An option has a last value if it occurs. -/
theorem isSome_lastValue {k : α} : (lastValue os k).isSome ↔ k ∈ os.map Prod.fst := by
  simp only [lastValue, List.lookup_isSome_iff, List.mem_reverse, List.mem_map, beq_iff_eq]
  exact exists_congr fun o => and_congr_right fun _ => eq_comm

/-- A selection selects options of the table that occur. -/
theorem mem_select {o : α × β} (h : o ∈ select table os) : o.1 ∈ table ∧ o ∈ os := by
  obtain ⟨k, hk, ho⟩ := List.mem_filterMap.mp h
  obtain ⟨v, hv, rfl⟩ := Option.map_eq_some_iff.mp ho
  exact ⟨hk, mem_of_lastValue hv⟩

/-- The selected keys are keys that occur. -/
theorem keys_select_subset : (select table os).map Prod.fst ⊆ os.map Prod.fst := by
  intro k hk
  obtain ⟨o, ho, rfl⟩ := List.mem_map.mp hk
  exact List.mem_map_of_mem (mem_select ho).2

/-- A selection has at most as many options. -/
theorem length_select_le (htable : table.Nodup) : (select table os).length ≤ os.length := by
  have hsub : (select table os).map Prod.fst ⊆ os.map Prod.fst := keys_select_subset
  simpa using ((nodup_keys_select htable).subperm hsub).length_le

/-- A selection with as many options means that all of them are in the table and
occur once. -/
theorem known_once_of_length_le (htable : table.Nodup) (h : os.length ≤ (select table os).length) :
    (∀ o ∈ os, o.1 ∈ table) ∧ (os.map Prod.fst).Nodup := by
  have hnodup : ((select table os).map Prod.fst).Nodup := nodup_keys_select htable
  have hsub : (select table os).map Prod.fst ⊆ os.map Prod.fst := keys_select_subset
  have hperm := (hnodup.subperm hsub).perm_of_length_le (by simpa using h)
  refine ⟨fun o ho => ?_, hperm.nodup_iff.mp hnodup⟩
  have hkey := hperm.mem_iff.mpr (List.mem_map_of_mem ho)
  rw [keys_select] at hkey
  exact List.mem_of_mem_filter hkey

/-- If all options are in the table and occur once, all are selected. -/
theorem select_perm (htable : table.Nodup) (hknown : ∀ o ∈ os, o.1 ∈ table)
    (honce : (os.map Prod.fst).Nodup) : (select table os).Perm os := by
  have hsub : (select table os) ⊆ os := fun o ho => (mem_select ho).2
  have hnodup : (select table os).Nodup := List.Nodup.of_map Prod.fst (nodup_keys_select htable)
  refine (hnodup.subperm hsub).perm_of_length_le ?_
  have hkeys : os.map Prod.fst ⊆ (select table os).map Prod.fst := by
    intro k hk
    obtain ⟨o, ho, rfl⟩ := List.mem_map.mp hk
    rw [keys_select]
    exact List.mem_filter.mpr ⟨hknown o ho, isSome_lastValue.mpr (List.mem_map_of_mem ho)⟩
  simpa using (honce.subperm hkeys).length_le

end Dictionary

end Options
