import Spp.Lib.Python

/-!
# Words and bytes of Python strings

A string is determined by its bytes, the decimal text of an integer is read back by
`int`, and splitting at blanks goes word by word.
-/

namespace Python

section Bytes

/-- The first code point of a string is determined by the bytes of the string. -/
theorem utf8_append_inj {c d : ℕ} {x y : List UInt8} (hc : Encodable c) (hd : Encodable d)
    (h : utf8 c ++ x = utf8 d ++ y) : c = d ∧ x = y := by
  have hlt : c < 0x110000 ∧ d < 0x110000 := by
    unfold Encodable at hc hd
    omega
  unfold utf8 at h
  split_ifs at h <;>
    simp only [List.cons_append, List.nil_append, List.cons.injEq, ← UInt8.toNat_inj,
      UInt8.toNat_ofNat'] at h
  all_goals
    -- the first byte tells how many bytes there are
    first
    | exact ⟨by omega, h.2⟩
    | exact ⟨by omega, h.2.2⟩
    | exact ⟨by omega, h.2.2.2⟩
    | exact ⟨by omega, h.2.2.2.2⟩
    | omega

/-- Strings that can be encoded are determined by their bytes. -/
theorem flatMap_utf8_inj {s t : Str} (hs : ∀ c ∈ s, Encodable c) (ht : ∀ c ∈ t, Encodable c)
    (h : s.flatMap utf8 = t.flatMap utf8) : s = t := by
  have hne : ∀ c, utf8 c ≠ [] := by
    intro c
    unfold utf8
    split_ifs <;> simp
  induction s generalizing t with
  | nil =>
    cases t with
    | nil => rfl
    | cons d t => simp [hne d] at h
  | cons c s ih =>
    cases t with
    | nil => simp [hne c] at h
    | cons d t =>
      rw [List.flatMap_cons, List.flatMap_cons] at h
      obtain ⟨rfl, htail⟩ := utf8_append_inj (hs c List.mem_cons_self) (ht d List.mem_cons_self) h
      rw [ih (fun c hc => hs c (List.mem_cons_of_mem _ hc))
        (fun c hc => ht c (List.mem_cons_of_mem _ hc)) htail]

/-- A string that UTF-8 has an encoding for. -/
def IsText (s : Str) : Prop := ∀ c ∈ s, Encodable c

instance (s : Str) : Decidable (IsText s) := inferInstanceAs (Decidable (∀ c ∈ s, Encodable c))

/-- Text is what can be encoded. -/
theorem encode_eq_some {s : Str} {data : List UInt8} :
    encode s = some data ↔ IsText s ∧ s.flatMap utf8 = data := by
  unfold encode IsText
  split_ifs with h
  · exact ⟨fun hdata => ⟨h, Option.some.inj hdata⟩, fun hdata => congrArg some hdata.2⟩
  · exact ⟨fun hdata => (by cases hdata), fun hdata => absurd hdata.1 h⟩

/-- Two strings with the same bytes are the same. -/
theorem encode_injective {s t : Str} {data : List UInt8} (hs : encode s = some data)
    (ht : encode t = some data) : s = t := by
  obtain ⟨hsText, hsData⟩ := encode_eq_some.mp hs
  obtain ⟨htText, htData⟩ := encode_eq_some.mp ht
  exact flatMap_utf8_inj hsText htText (hsData.trans htData.symm)

end Bytes

/-- Literals with the same code points are the same. -/
@[simp] theorem lit_inj {s t : String} : lit s = lit t ↔ s = t := by
  constructor
  · intro h
    have hinj : Function.Injective Char.toNat := fun _ _ hc => Char.toNat_inj.mp hc
    exact String.toList_inj.mp (hinj.list_map h)
  · rintro rfl
    rfl

section Words

/-- An element other than the separator is in one of the parts. -/
theorem exists_mem_splitOn {α : Type*} [DecidableEq α] {a x : α} {l : List α} (hx : x ∈ l)
    (hne : x ≠ a) : ∃ g ∈ l.splitOn a, x ∈ g := by
  induction l with
  | nil => cases hx
  | cons y l ih =>
    rw [List.splitOn_cons_eq_if_modifyHead]
    split_ifs with hy
    · obtain rfl | hx := List.mem_cons.mp hx
      · exact absurd (eq_of_beq hy) hne
      · obtain ⟨g, hg, hmem⟩ := ih hx
        exact ⟨g, List.mem_cons_of_mem _ hg, hmem⟩
    · cases hparts : l.splitOn a with
      | nil => exact absurd hparts (List.splitOn_ne_nil a l)
      | cons first rest =>
        rw [List.modifyHead_cons]
        obtain rfl | hx := List.mem_cons.mp hx
        · exact ⟨_, List.mem_cons_self, List.mem_cons_self⟩
        · obtain ⟨g, hg, hmem⟩ := ih hx
          rw [hparts] at hg
          obtain rfl | hg := List.mem_cons.mp hg
          · exact ⟨_, List.mem_cons_self, List.mem_cons_of_mem _ hmem⟩
          · exact ⟨g, List.mem_cons_of_mem _ hg, hmem⟩

/-- The separator is in none of the parts. -/
theorem notMem_of_mem_splitOn {α : Type*} [DecidableEq α] {a : α} {g l : List α}
    (hg : g ∈ l.splitOn a) : a ∉ g := by
  induction l generalizing g with
  | nil =>
    rw [List.splitOn_nil] at hg
    rw [List.mem_singleton.mp hg]
    exact List.not_mem_nil
  | cons y l ih =>
    rw [List.splitOn_cons_eq_if_modifyHead] at hg
    split_ifs at hg with hy
    · obtain rfl | hg := List.mem_cons.mp hg
      · exact List.not_mem_nil
      · exact ih hg
    · cases hparts : l.splitOn a with
      | nil => exact absurd hparts (List.splitOn_ne_nil a l)
      | cons first rest =>
        rw [hparts, List.modifyHead_cons] at hg
        obtain rfl | hg := List.mem_cons.mp hg
        · rw [List.mem_cons, not_or]
          refine ⟨fun h => hy (beq_iff_eq.mpr h.symm), ih ?_⟩
          rw [hparts]
          exact List.mem_cons_self
        · refine ih ?_
          rw [hparts]
          exact List.mem_cons_of_mem _ hg

/-- Splitting what is joined goes part by part. -/
theorem splitOn_intercalate_flatMap {α : Type*} [DecidableEq α] (a : α) {ls : List (List α)}
    (h : ls ≠ []) : ([a].intercalate ls).splitOn a = ls.flatMap (·.splitOn a) := by
  induction ls with
  | nil => exact absurd rfl h
  | cons l ls ih =>
    cases ls with
    | nil => simp
    | cons l' ls =>
      have hjoin : [a].intercalate (l :: l' :: ls) = l ++ a :: [a].intercalate (l' :: ls) := by
        simp [List.intercalate]
      rw [hjoin, List.splitOn_append_cons_self, ih (List.cons_ne_nil _ _),
        List.flatMap_cons, List.flatMap_cons, List.flatMap_cons]

/-- The words of a string with blanks between them. -/
def wordsOf (s : Str) : List Str := (s.splitOn 32).filter (· ≠ [])

/-- A string without a blank is one word, unless it is empty. -/
theorem wordsOf_eq {s : Str} (h : 32 ∉ s) : wordsOf s = if s = [] then [] else [s] := by
  rw [wordsOf, List.splitOn_eq_singleton h]
  split_ifs with hs
  · simp [hs]
  · simp [hs]

/-- A string that is not empty and has no blank is one word. -/
theorem wordsOf_singleton {s : Str} (h : 32 ∉ s) (hne : s ≠ []) : wordsOf s = [s] := by
  rw [wordsOf_eq h, if_neg hne]

/-- No word has a blank, and none is empty. -/
theorem mem_wordsOf {s w : Str} (h : w ∈ wordsOf s) : 32 ∉ w ∧ w ≠ [] := by
  obtain ⟨hmem, hne⟩ := List.mem_filter.mp h
  exact ⟨notMem_of_mem_splitOn hmem, of_decide_eq_true hne⟩

/-- The words of strings with blanks between them. -/
theorem wordsOf_intercalate {ls : List Str} (h : ls ≠ []) :
    wordsOf ([32].intercalate ls) = ls.flatMap wordsOf := by
  rw [wordsOf, splitOn_intercalate_flatMap 32 h, List.filter_flatMap]
  rfl

/-- Strings with blanks between them can be encoded if each of them can. -/
theorem isText_intercalate {ls : List Str} :
    IsText ([32].intercalate ls) ↔ ∀ l ∈ ls, IsText l := by
  have hblank : Encodable 32 := by decide
  induction ls with
  | nil => simp [IsText]
  | cons l ls ih =>
    cases ls with
    | nil => simp [List.intercalate]
    | cons l' ls =>
      have hjoin : [32].intercalate (l :: l' :: ls) = l ++ 32 :: [32].intercalate (l' :: ls) := by
        simp [List.intercalate]
      have hparts : IsText (l ++ 32 :: [32].intercalate (l' :: ls)) ↔
          IsText l ∧ IsText ([32].intercalate (l' :: ls)) := by
        simp only [IsText, List.forall_mem_append, List.forall_mem_cons, hblank, true_and]
      rw [hjoin, hparts, List.forall_mem_cons]
      exact and_congr_right' ih

end Words

section Numbers

variable {I : Interpreter}

/-- The interpreter takes no surrogate for a digit or a blank. -/
def Interpreter.Textual (I : Interpreter) : Prop :=
  ∀ c, ¬ Encodable c → I.digit c = none ∧ I.space c = false

/-- ASCII alone has no surrogates. -/
theorem Interpreter.textual_ascii : Interpreter.ascii.Textual := fun _ _ => ⟨rfl, rfl⟩

/-- Cutting off leading elements keeps those that are not cut off. -/
theorem mem_dropWhile_of_mem {α : Type*} {p : α → Bool} {x : α} {l : List α} (hx : x ∈ l)
    (hp : p x = false) : x ∈ l.dropWhile p := by
  induction l with
  | nil => cases hx
  | cons y l ih =>
    by_cases hy : p y = true
    · rw [List.dropWhile_cons_of_pos hy]
      obtain rfl | hx := List.mem_cons.mp hx
      · rw [hp] at hy
        cases hy
      · exact ih hx
    · rw [List.dropWhile_cons_of_neg hy]
      exact hx

/-- What digits with underscores are made of. -/
theorem mem_of_scanDigits {s : Str} {n : ℕ} (h : scanDigits s = some n) :
    ∀ c ∈ s, isDigit c = true ∨ c = 95 := by
  intro c hc
  by_cases hc95 : c = 95
  · exact .inr hc95
  · obtain ⟨g, hg, hmem⟩ := exists_mem_splitOn hc hc95
    simp only [scanDigits] at h
    split_ifs at h with hgroups
    have hall := List.all_eq_true.mp hgroups g hg
    rw [Bool.and_eq_true] at hall
    exact .inl (List.all_eq_true.mp hall.2 c hmem)

/-- A sign is one of two characters. -/
theorem mem_scanSign {s : Str} {c : ℕ} (hc : c ∈ s) : c ∈ (scanSign s).2 ∨ c = 45 ∨ c = 43 := by
  unfold scanSign
  split
  · exact (List.mem_cons.mp hc).elim (fun h => .inr (.inl h)) .inl
  · exact (List.mem_cons.mp hc).elim (fun h => .inr (.inr h)) .inl
  · exact .inl hc

/-- What `int` reads can be encoded. -/
theorem isText_of_intOfStr (hI : I.Textual) {s : Str} {n : ℤ} (h : intOfStr I s = some n) :
    IsText s := by
  intro c hc
  by_contra hsurrogate
  have hascii : toAscii I c = 63 := by
    obtain ⟨hdigit, hspace⟩ := hI c hsurrogate
    have hlt : ¬ c < 128 := fun hlt => hsurrogate (.inl (by omega))
    simp only [toAscii, if_neg hlt, hspace, hdigit, Bool.false_eq_true, if_false]
  have hmem : 63 ∈ ((s.map (toAscii I)).dropWhile isBlank).rdropWhile isBlank := by
    have hmap : 63 ∈ s.map (toAscii I) := List.mem_map.mpr ⟨c, hc, hascii⟩
    have hdrop := mem_dropWhile_of_mem hmap (p := isBlank) (by decide)
    exact List.mem_reverse.mpr (mem_dropWhile_of_mem (List.mem_reverse.mpr hdrop) (by decide))
  simp only [intOfStr, Option.map_eq_some_iff] at h
  obtain ⟨m, hm, -⟩ := h
  obtain hdigits | hsign := mem_scanSign hmem
  · exact absurd (mem_of_scanDigits hm 63 hdigits) (by decide)
  · exact absurd hsign (by decide)

/-- The decimal digits of a natural number. -/
theorem digitsValue_toDigits (n : ℕ) : digitsValue ((Nat.toDigits 10 n).map Char.toNat) = n := by
  have hfold : ∀ (l : List Char) (m : ℕ),
      (l.map Char.toNat).foldl (fun n c => n * 10 + (c - 48)) m = Nat.ofDigitChars 10 l m := by
    intro l
    induction l with
    | nil => exact fun m => rfl
    | cons c l ih =>
      intro m
      rw [List.map_cons, List.foldl_cons, ih, Nat.ofDigitChars_cons, Nat.mul_comm]
      rfl
  rw [digitsValue, hfold, Nat.ofDigitChars_ten_toDigits]

/-- The decimal digits of a natural number are digits. -/
theorem isDigit_toDigits {n c : ℕ} (hc : c ∈ (Nat.toDigits 10 n).map Char.toNat) :
    isDigit c = true := by
  obtain ⟨x, hx, rfl⟩ := List.mem_map.mp hc
  have hdigit := Nat.isDigit_of_mem_toDigits (by decide) (by decide) hx
  simp only [Char.isDigit, ge_iff_le, Bool.and_eq_true, decide_eq_true_eq, UInt32.le_iff_toNat_le]
    at hdigit
  simp only [isDigit, Bool.and_eq_true, decide_eq_true_eq]
  exact hdigit

/-- The text of an integer: its digits, with a sign if it is negative. -/
theorem intText_eq (n : ℤ) : intText n =
    if 0 ≤ n then (Nat.toDigits 10 n.toNat).map Char.toNat
    else 45 :: (Nat.toDigits 10 (-n).toNat).map Char.toNat := by
  unfold intText lit
  rw [Int.toString_eq_repr, Int.repr_eq_if]
  split_ifs with h
  · rw [Nat.toList_repr]
  · rw [String.toList_append, Nat.toList_repr]
    rfl

/-- `int` reads the text of an integer back. -/
theorem intOfStr_intText (n : ℤ) : intOfStr I (intText n) = some n := by
  have hne : ∀ m, (Nat.toDigits 10 m).map Char.toNat ≠ [] := by simp [Nat.toDigits_ne_nil]
  rw [intText_eq]
  split_ifs with h
  · rw [intOfStr_digits (hne _) fun c hc => isDigit_toDigits hc, digitsValue_toDigits]
    congr 1
    omega
  · have hdigits : ∀ c ∈ (Nat.toDigits 10 (-n).toNat).map Char.toNat, isDigit c = true :=
      fun c hc => isDigit_toDigits hc
    have hmap : (45 :: (Nat.toDigits 10 (-n).toNat).map Char.toNat).map (toAscii I) =
        45 :: (Nat.toDigits 10 (-n).toNat).map Char.toNat := by
      rw [List.map_cons, List.map_congr_left fun c hc => toAscii_of_isDigit (hdigits c hc),
        List.map_id']
      rfl
    have hblank : ∀ c ∈ 45 :: (Nat.toDigits 10 (-n).toNat).map Char.toNat, isBlank c = false :=
      List.forall_mem_cons.mpr ⟨by decide, fun c hc => isBlank_of_isDigit (hdigits c hc)⟩
    simp only [intOfStr, hmap, strip_of_not_blank hblank, scanSign,
      scanDigits_digits (hne _) hdigits, digitsValue_toDigits, Option.map_some, if_true]
    congr 1
    omega

/-- The text of an integer can be encoded. -/
theorem isText_intText (n : ℤ) : IsText (intText n) := fun _ hc => encodable_lit hc

/-- The text of an integer has no blank. -/
theorem blank_notMem_intText (n : ℤ) : 32 ∉ intText n := by
  rw [intText_eq]
  intro hmem
  split_ifs at hmem with h
  · exact absurd (isDigit_toDigits hmem) (by decide)
  · obtain heq | hmem := List.mem_cons.mp hmem
    · exact absurd heq (by decide)
    · exact absurd (isDigit_toDigits hmem) (by decide)

/-- The text of an integer is not empty. -/
theorem intText_ne_nil (n : ℤ) : intText n ≠ [] := by
  rw [intText_eq]
  split_ifs <;> simp [Nat.toDigits_ne_nil]

end Numbers

end Python
