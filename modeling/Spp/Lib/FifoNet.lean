import Mathlib.Data.List.Perm.Subperm
import Mathlib.Logic.Function.Basic
import Mathlib.Logic.Relation

/-!
# Queues and carriers

A network of queues. A carrier takes items from the head of a queue, hands the
first of them to the back of another queue or out of the network, and drops the
others. If no two carriers hold items of one queue at a time, then every item
that has entered a queue is accounted for once, in the order of the queue, and
items that go through the same chain of queues do not overtake each other.
-/

namespace FifoNet

variable {π ρ κ : Type*}

/-- The queues, and what each carrier holds of which queue. The other fields are history:
what has entered a queue, what has left it and where to, and what was handed to a port
and from which queue. -/
structure Net (π ρ κ : Type*) where
  queue : π → List ρ
  hand : κ → π × List ρ
  entered : π → List ρ
  left : π → List (ρ × Option π)
  given : π → List (π × ρ)

/-- The items that went from one port to the other, in the order of the queue. -/
def Net.handed [DecidableEq π] (n : Net π ρ κ) (p q : π) : List ρ :=
  (n.left p).filterMap fun item => if item.2 = some q then some item.1 else none

/-- What was given to one port from the other. -/
def Net.givenFrom [DecidableEq π] (n : Net π ρ κ) (p q : π) : List ρ :=
  (n.given q).filterMap fun item => if item.1 = p then some item.2 else none

variable [DecidableEq π] [DecidableEq κ]

section Steps

/-- Items come in at the back of a queue. -/
def Net.enter (p : π) (xs : List ρ) (n : Net π ρ κ) : Net π ρ κ :=
  { n with
    queue := Function.update n.queue p (n.queue p ++ xs)
    entered := Function.update n.entered p (n.entered p ++ xs) }

/-- A carrier takes items from the head of a queue. -/
def Net.take (w : κ) (p : π) (k : ℕ) (n : Net π ρ κ) : Net π ρ κ :=
  { n with
    queue := Function.update n.queue p ((n.queue p).drop k)
    hand := Function.update n.hand w (p, (n.queue p).take k) }

/-- A carrier with an empty hand turns to a queue. -/
def Net.turn (w : κ) (p : π) (n : Net π ρ κ) : Net π ρ κ :=
  { n with hand := Function.update n.hand w (p, []) }

/-- The first items in a hand leave for good. -/
def Net.settle (w : κ) (k : ℕ) (dest : Option π) (n : Net π ρ κ) : Net π ρ κ :=
  { n with
    hand := Function.update n.hand w ((n.hand w).1, (n.hand w).2.drop k)
    left := Function.update n.left (n.hand w).1
      (n.left (n.hand w).1 ++ ((n.hand w).2.take k).map (·, dest)) }

/-- A port has accepted items of a queue. -/
def Net.note (p q : π) (xs : List ρ) (n : Net π ρ κ) : Net π ρ κ :=
  { n with given := Function.update n.given q (n.given q ++ xs.map (p, ·)) }

/-- The first items in a hand are given to a port, and come back in if it is a queue. -/
def Net.give (loops : π → Bool) (w : κ) (q : π) (k : ℕ) (n : Net π ρ κ) : Net π ρ κ :=
  let xs := (n.hand w).2.take k
  let n' := (n.settle w k (some q)).note (n.hand w).1 q xs
  if loops q then n'.enter q xs else n'

/-- A carrier drops what it still holds. -/
def Net.drop (w : κ) (n : Net π ρ κ) : Net π ρ κ := n.settle w (n.hand w).2.length none

/-- What is dropped leaves as a whole. -/
theorem Net.drop_eq (w : κ) (n : Net π ρ κ) :
    n.drop w = { n with
      hand := Function.update n.hand w ((n.hand w).1, [])
      left := Function.update n.left (n.hand w).1
        (n.left (n.hand w).1 ++ (n.hand w).2.map (·, none)) } := by
  simp only [Net.drop, Net.settle, List.drop_length, List.take_length]

/-- No carrier holds items of a queue. -/
def Net.Untouched (n : Net π ρ κ) (p : π) : Prop := ∀ w, (n.hand w).1 = p → (n.hand w).2 = []

/-- One step. Items of a queue are taken by a carrier with an empty hand, and only if no
carrier holds items of it. -/
inductive Step (loops : π → Bool) (n : Net π ρ κ) : Net π ρ κ → Prop
  | enter (p : π) (xs : List ρ) : Step loops n (n.enter p xs)
  | take (w : κ) (p : π) (k : ℕ) (hempty : (n.hand w).2 = []) (hsole : n.Untouched p) :
    Step loops n (n.take w p k)
  | turn (w : κ) (p : π) (hempty : (n.hand w).2 = []) : Step loops n (n.turn w p)
  | give (w : κ) (q : π) (k : ℕ) : Step loops n (n.give loops w q k)
  | drop (w : κ) : Step loops n (n.drop w)

end Steps

section Account

/-- Each queue keeps its order, and has one carrier at a time. -/
structure InOrder (n : Net π ρ κ) : Prop where
  held : ∀ w, (n.hand w).2 ≠ [] → n.entered (n.hand w).1 =
    (n.left (n.hand w).1).map Prod.fst ++ (n.hand w).2 ++ n.queue (n.hand w).1
  free : ∀ p, n.Untouched p → n.entered p = (n.left p).map Prod.fst ++ n.queue p
  sole : ∀ w w', (n.hand w).1 = (n.hand w').1 → (n.hand w).2 ≠ [] → (n.hand w').2 ≠ [] → w = w'

/-- Every item is accounted for once: it has left its queue, a carrier holds it, or it
waits. A port has been given what left for it, and a queue has it back. -/
structure Accounted (loops : π → Bool) (n : Net π ρ κ) : Prop extends InOrder n where
  given : ∀ p q, n.givenFrom p q = n.handed p q
  loop : ∀ q, loops q → ((n.given q).map Prod.snd).Sublist (n.entered q)

variable {loops : π → Bool} {n m : Net π ρ κ}

omit [DecidableEq π] [DecidableEq κ] in
/-- Items that leave are the ones that were held. -/
theorem map_fst_pair (xs : List ρ) (dest : Option π) : (xs.map (·, dest)).map Prod.fst = xs := by
  rw [List.map_map]
  exact List.map_id xs

omit [DecidableEq κ] in
/-- Items that come in wait at the back. -/
theorem InOrder.enter (h : InOrder n) (p : π) (xs : List ρ) : InOrder (n.enter p xs) where
  held w hw := by
    have hheld := h.held w hw
    by_cases heq : (n.hand w).1 = p
    · subst heq
      simp [Net.enter, hheld]
    · simpa [Net.enter, Function.update_of_ne heq] using hheld
  free p' hfree := by
    have haccount := h.free p' hfree
    by_cases heq : p' = p
    · subst heq
      simp [Net.enter, haccount]
    · simpa [Net.enter, Function.update_of_ne heq] using haccount
  sole := h.sole

/-- Items that leave a hand stand at the end of what has left. -/
theorem InOrder.settle (h : InOrder n) (w : κ) (k : ℕ) (dest : Option π) :
    InOrder (n.settle w k dest) := by
  -- The hands hold no more than before, of the same queues.
  have hport : ∀ w', ((n.settle w k dest).hand w').1 = (n.hand w').1 := by
    intro w'
    by_cases heq : w' = w
    · subst heq
      simp [Net.settle]
    · simp [Net.settle, Function.update_of_ne heq]
  have hempty : ∀ w', (n.hand w').2 = [] → ((n.settle w k dest).hand w').2 = [] := by
    intro w' hw'
    by_cases heq : w' = w
    · subst heq
      simp [Net.settle, hw']
    · simpa [Net.settle, Function.update_of_ne heq] using hw'
  have hleft : ∀ p, p ≠ (n.hand w).1 ∨ (n.hand w).2 = [] → (n.settle w k dest).left p = n.left p := by
    rintro p (hne | hnil)
    · simp [Net.settle, Function.update_of_ne hne]
    · simp [Net.settle, hnil]
  have hself : ((n.settle w k dest).left (n.hand w).1).map Prod.fst ++
      ((n.settle w k dest).hand w).2 = (n.left (n.hand w).1).map Prod.fst ++ (n.hand w).2 := by
    simp only [Net.settle, Function.update_self, List.map_append, map_fst_pair, List.append_assoc,
      List.take_append_drop]
  refine ⟨fun w' hw' => ?_, fun p hfree => ?_, fun w₁ w₂ heq h₁ h₂ => ?_⟩
  · have hheld := h.held w' fun h => hw' (hempty w' h)
    rw [hport]
    by_cases heq : w' = w
    · subst heq
      rw [hself]
      exact hheld
    · have hne : (n.hand w').1 ≠ (n.hand w).1 ∨ (n.hand w).2 = [] := by
        by_contra hcon
        obtain ⟨hsame, hnil⟩ := not_or.mp hcon
        exact heq (h.sole w' w (not_not.mp hsame) (fun h => hw' (hempty w' h)) hnil)
      rw [hleft _ hne, show ((n.settle w k dest).hand w').2 = (n.hand w').2 by
        simp [Net.settle, Function.update_of_ne heq]]
      exact hheld
  · by_cases hw : (n.hand w).1 = p ∧ (n.hand w).2 ≠ []
    · obtain ⟨rfl, hne⟩ := hw
      have hall := hself
      rw [hfree w (hport w), List.append_nil] at hall
      rw [hall]
      exact h.held w hne
    · have hne : p ≠ (n.hand w).1 ∨ (n.hand w).2 = [] := by
        by_contra hcon
        obtain ⟨hsame, hnil⟩ := not_or.mp hcon
        exact hw ⟨(not_not.mp hsame).symm, hnil⟩
      rw [hleft p hne]
      refine h.free p fun w' hw' => ?_
      by_cases heq : w' = w
      · subst heq
        obtain hne | hnil := hne
        · exact absurd hw'.symm hne
        · exact hnil
      · have hnil := hfree w' ((hport w').trans hw')
        simpa [Net.settle, Function.update_of_ne heq] using hnil
  · rw [hport, hport] at heq
    exact h.sole w₁ w₂ heq (fun h => h₁ (hempty w₁ h)) fun h => h₂ (hempty w₂ h)

/-- A carrier takes over the head of a queue that no carrier holds items of. -/
theorem InOrder.take (h : InOrder n) {w : κ} {p : π} (k : ℕ) (hempty : (n.hand w).2 = [])
    (hsole : n.Untouched p) : InOrder (n.take w p k) := by
  have hfree := h.free p hsole
  have hother : ∀ w' ≠ w, (n.take w p k).hand w' = n.hand w' := fun w' hne =>
    Function.update_of_ne hne ..
  have hself : (n.take w p k).hand w = (p, (n.queue p).take k) := Function.update_self ..
  have hqueue : ∀ p' ≠ p, (n.take w p k).queue p' = n.queue p' := fun p' hne =>
    Function.update_of_ne hne ..
  have hrest : (n.take w p k).queue p = (n.queue p).drop k := Function.update_self ..
  have haccount : n.entered p = (n.left p).map Prod.fst ++ (n.queue p).take k ++ (n.queue p).drop k := by
    rw [List.append_assoc, List.take_append_drop, hfree]
  refine ⟨fun w' hw' => ?_, fun p' hfree' => ?_, fun w₁ w₂ heq h₁ h₂ => ?_⟩
  · by_cases heq : w' = w
    · subst heq
      rw [hself, hrest]
      exact haccount
    · rw [hother w' heq] at hw' ⊢
      rw [hqueue _ fun hp => hw' (hsole w' hp)]
      exact h.held w' hw'
  · by_cases hp : p' = p
    · subst hp
      have hnil : (n.queue p').take k = [] := by simpa [hself] using hfree' w (by rw [hself])
      rw [hrest]
      rwa [hnil, List.append_nil] at haccount
    · rw [hqueue p' hp]
      refine h.free p' fun w' hw' => ?_
      by_cases heq : w' = w
      · rw [heq, hempty]
      · have hnil := hfree' w' (by rwa [hother w' heq])
        rwa [hother w' heq] at hnil
  · by_cases hw₁ : w₁ = w
    · by_cases hw₂ : w₂ = w
      · rw [hw₁, hw₂]
      · rw [hw₁, hself, hother w₂ hw₂] at heq
        rw [hother w₂ hw₂] at h₂
        exact absurd (hsole w₂ heq.symm) h₂
    · by_cases hw₂ : w₂ = w
      · rw [hw₂, hself, hother w₁ hw₁] at heq
        rw [hother w₁ hw₁] at h₁
        exact absurd (hsole w₁ heq) h₁
      · rw [hother w₁ hw₁] at heq h₁
        rw [hother w₂ hw₂] at heq h₂
        exact h.sole w₁ w₂ heq h₁ h₂

omit [DecidableEq π] in
/-- An empty hand is of no queue. -/
theorem InOrder.turn (h : InOrder n) {w : κ} (p : π) (hempty : (n.hand w).2 = []) :
    InOrder (n.turn w p) := by
  have hother : ∀ w' ≠ w, (n.turn w p).hand w' = n.hand w' := fun w' hne =>
    Function.update_of_ne hne ..
  have hself : (n.turn w p).hand w = (p, []) := Function.update_self ..
  have hne : ∀ w', ((n.turn w p).hand w').2 ≠ [] → w' ≠ w := by
    rintro w' hw' rfl
    exact hw' (by rw [hself])
  refine ⟨fun w' hw' => ?_, fun p' hfree => h.free p' fun w' hw' => ?_, fun w₁ w₂ heq h₁ h₂ => ?_⟩
  · have hne' := hne w' hw'
    rw [hother w' hne'] at hw' ⊢
    exact h.held w' hw'
  · by_cases heq : w' = w
    · rw [heq, hempty]
    · have hnil := hfree w' (by rwa [hother w' heq])
      rwa [hother w' heq] at hnil
  · have hne₁ := hne w₁ h₁
    have hne₂ := hne w₂ h₂
    rw [hother w₁ hne₁] at heq h₁
    rw [hother w₂ hne₂] at heq h₂
    exact h.sole w₁ w₂ heq h₁ h₂

/-- What a settlement adds to the items that went to a port. -/
theorem handed_settle (n : Net π ρ κ) (w : κ) (k : ℕ) (dest : Option π) (p q : π) :
    (n.settle w k dest).handed p q =
      n.handed p q ++ if p = (n.hand w).1 ∧ dest = some q then (n.hand w).2.take k else [] := by
  unfold Net.handed Net.settle
  by_cases hp : p = (n.hand w).1
  · subst hp
    simp only [Function.update_self, List.filterMap_append, List.filterMap_map, Function.comp_def,
      true_and, List.append_cancel_left_eq]
    split
    · exact List.filterMap_some
    · exact List.filterMap_eq_nil_iff.mpr fun _ _ => rfl
  · simp [hp]

omit [DecidableEq κ] in
/-- What a note adds to the items that a port was given. -/
theorem givenFrom_note (n : Net π ρ κ) (p' q' : π) (xs : List ρ) (p q : π) :
    (n.note p' q' xs).givenFrom p q = n.givenFrom p q ++ if p = p' ∧ q' = q then xs else [] := by
  unfold Net.givenFrom Net.note
  by_cases hq : q = q'
  · subst hq
    simp only [Function.update_self, List.filterMap_append, List.filterMap_map, Function.comp_def,
      and_true, eq_comm (a := p), List.append_cancel_left_eq]
    split
    · exact List.filterMap_some
    · exact List.filterMap_eq_nil_iff.mpr fun _ _ => rfl
  · simp [Function.update_of_ne hq, Ne.symm hq]

/-- Every step keeps the account. -/
theorem Accounted.step (h : Accounted loops n) (hstep : Step loops n m) : Accounted loops m := by
  cases hstep with
  | enter p xs =>
    refine ⟨h.toInOrder.enter p xs, h.given, fun q hq => ?_⟩
    by_cases heq : q = p
    · subst heq
      simpa [Net.enter] using (h.loop q hq).trans (List.sublist_append_left _ xs)
    · simpa [Net.enter, Function.update_of_ne heq] using h.loop q hq
  | take w p k hempty hsole => exact ⟨h.toInOrder.take k hempty hsole, h.given, h.loop⟩
  | turn w p hempty => exact ⟨h.toInOrder.turn p hempty, h.given, h.loop⟩
  | give w q k =>
    have hnoted : InOrder ((n.settle w k (some q)).note (n.hand w).1 q ((n.hand w).2.take k)) := by
      have hsettled := h.toInOrder.settle w k (some q)
      exact ⟨hsettled.held, hsettled.free, hsettled.sole⟩
    have hgiven : ∀ p q', ((n.settle w k (some q)).note (n.hand w).1 q ((n.hand w).2.take k)).givenFrom p q' =
        (n.settle w k (some q)).handed p q' := fun p q' => by
      simp only [givenFrom_note, handed_settle, Option.some.injEq]
      exact congrArg (· ++ _) (h.given p q')
    unfold Net.give
    dsimp only
    split
    · rename_i hq
      refine ⟨hnoted.enter q _, hgiven, fun q' hq' => ?_⟩
      by_cases heq : q' = q
      · subst heq
        simpa [Net.enter, Net.note, Net.settle, Function.comp_def] using (h.loop q' hq').append_right
          ((n.hand w).2.take k)
      · simpa [Net.enter, Net.note, Net.settle, Function.update_of_ne heq] using h.loop q' hq'
    · rename_i hq
      refine ⟨hnoted, hgiven, fun q' hq' => ?_⟩
      have hne : q' ≠ q := by
        rintro rfl
        exact hq hq'
      simpa [Net.note, Net.settle, Function.update_of_ne hne] using h.loop q' hq'
  | drop w =>
    refine ⟨h.toInOrder.settle w _ none, fun p q => ?_, h.loop⟩
    have hsame := handed_settle n w (n.hand w).2.length none p q
    simp only [reduceCtorEq, and_false, if_false, List.append_nil] at hsame
    exact (h.given p q).trans hsame.symm

/-- The empty network. -/
def Net.start (hand : κ → π) : Net π ρ κ :=
  { queue := fun _ => [], hand := fun w => (hand w, []), entered := fun _ => [], left := fun _ => []
    given := fun _ => [] }

omit [DecidableEq κ] in
/-- Nothing is to be accounted for at the start. -/
theorem accounted_start (loops : π → Bool) (hand : κ → π) :
    Accounted loops (Net.start hand : Net π ρ κ) :=
  ⟨⟨fun _ h => absurd rfl h, fun _ _ => rfl, fun _ _ _ h => absurd rfl h⟩, fun _ _ => rfl,
    fun _ _ => .refl _⟩

/-- Every state of a run accounts for all items. -/
theorem Accounted.run (h : Accounted loops n) (hrun : Relation.ReflTransGen (Step loops) n m) :
    Accounted loops m := by
  induction hrun with
  | refl => exact h
  | tail _ hstep ih => exact ih.step hstep

end Account

section Chains

variable [DecidableEq ρ]

/-- The items that go from one port through a chain of others, in the order in which they
arrive at the last one. -/
def Net.through (n : Net π ρ κ) : π → List π → List ρ
  | p, [] => n.entered p
  | p, [q] => n.handed p q
  | p, q :: r :: qs => (n.through q (r :: qs)).filter (· ∈ n.handed p q)

variable {loops : π → Bool} {n : Net π ρ κ}

omit [DecidableEq κ] [DecidableEq ρ] in
/-- What has left a queue came in before, in the same order. -/
theorem Accounted.left_sublist (h : Accounted loops n) (p : π) :
    ((n.left p).map Prod.fst).Sublist (n.entered p) := by
  by_cases hfree : n.Untouched p
  · rw [h.free p hfree]
    exact List.sublist_append_left ..
  · obtain ⟨w, hw⟩ := not_forall.mp hfree
    obtain ⟨rfl, hne⟩ := Classical.not_imp.mp hw
    rw [h.held w hne, List.append_assoc]
    exact List.sublist_append_left ..

omit [DecidableEq κ] [DecidableEq ρ] in
/-- What goes on to a port came in before, in the same order. -/
theorem Accounted.handed_sublist (h : Accounted loops n) (p q : π) :
    (n.handed p q).Sublist (n.entered p) := by
  refine .trans ?_ (h.left_sublist p)
  unfold Net.handed
  induction n.left p with
  | nil => exact .slnil
  | cons item rest ih =>
    rw [List.filterMap_cons, List.map_cons]
    split
    · exact ih.cons _
    · rename_i x heq
      split at heq
      · cases heq
        exact ih.cons_cons _
      · cases heq

omit [DecidableEq κ] [DecidableEq ρ] in
/-- What goes on to a queue is in it, in the same order. -/
theorem Accounted.handed_sublist_next (h : Accounted loops n) (p : π) {q : π} (hq : loops q) :
    (n.handed p q).Sublist (n.entered q) := by
  rw [← h.given]
  refine .trans ?_ (h.loop q hq)
  unfold Net.givenFrom
  induction n.given q with
  | nil => exact .slnil
  | cons item rest ih =>
    rw [List.filterMap_cons, List.map_cons]
    split
    · exact ih.cons _
    · rename_i x heq
      split at heq
      · cases heq
        exact ih.cons_cons _
      · cases heq

/-- The members of a part of a list without repetitions are that part. -/
theorem filter_mem_of_sublist {xs ys : List ρ} (h : xs.Sublist ys) (hnodup : ys.Nodup) :
    ys.filter (· ∈ xs) = xs := by
  have hsub : xs.Sublist (ys.filter (· ∈ xs)) := by
    have hfilter := h.filter (· ∈ xs)
    rwa [List.filter_eq_self.mpr fun x hx => decide_eq_true hx] at hfilter
  have hmem : ys.filter (· ∈ xs) ⊆ xs := fun x hx => of_decide_eq_true (List.mem_filter.mp hx).2
  exact (hsub.eq_of_length_le (List.subperm_of_subset (hnodup.filter _) hmem).length_le).symm

omit [DecidableEq κ] in
/-- Items that go through the same chain of queues arrive in the order in which they came
in, if no item comes in at one of them twice. -/
theorem Accounted.through_sublist (h : Accounted loops n) (p : π) (qs : List π)
    (hloops : ∀ q ∈ qs.dropLast, loops q ∧ (n.entered q).Nodup) :
    (n.through p qs).Sublist (n.entered p) := by
  induction qs generalizing p with
  | nil => exact .refl _
  | cons q qs ih =>
    cases qs with
    | nil => exact h.handed_sublist p q
    | cons r qs =>
      obtain ⟨hq, hnodup⟩ := hloops q List.mem_cons_self
      have hrest := ih q fun r' hr' => hloops r' (List.mem_cons_of_mem q hr')
      have hkept : (n.through p (q :: r :: qs)).Sublist (n.handed p q) := by
        rw [← filter_mem_of_sublist (h.handed_sublist_next p hq) hnodup]
        exact hrest.filter _
      exact hkept.trans (h.handed_sublist p q)

end Chains

end FifoNet
