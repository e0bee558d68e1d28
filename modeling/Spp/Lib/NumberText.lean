import Spp.Lib.CText
import Spp.Lib.PyText

/-!
# Integers read twice

A text that `int` of Python reads, and that the C library reads as a number in base
zero as a whole. Both read the same digits after the same sign; they differ only in a
leading zero, which makes the digits octal for the C library.
-/

namespace Python

open CLib (CStr)

section Digits

/-- An integer from its sign and its magnitude. -/
def signed (negative : Bool) (magnitude : ℕ) : ℤ :=
  if negative then -(magnitude : ℤ) else magnitude

/-- A character with a value as a digit of a base up to ten. -/
theorem digitVal_of_isDigit {base : ℕ} (hbase : base ≤ 10) {c : Char}
    (h : CLib.isDigit base c = true) :
    isDigit c.toNat = true ∧ CLib.digitVal c = some (c.toNat - 48) ∧ c.toNat - 48 < base := by
  unfold CLib.isDigit at h
  split at h
  · rename_i v hv
    have hlt : v < base := of_decide_eq_true h
    unfold CLib.digitVal at hv
    split_ifs at hv with hdigit hlower hupper
    · obtain rfl := Option.some.inj hv
      have hlo : 48 ≤ c.toNat := hdigit.1
      have hhi : c.toNat ≤ 57 := hdigit.2
      refine ⟨?_, ?_, hlt⟩
      · simp only [isDigit, Bool.and_eq_true, decide_eq_true_eq]
        exact ⟨hlo, hhi⟩
      · rw [CLib.digitVal, if_pos hdigit]
        rfl
    · obtain rfl := Option.some.inj hv
      omega
    · obtain rfl := Option.some.inj hv
      omega
  · cases h

/-- The digits of a base up to ten have one value for both readers when the base is ten. -/
theorem digitsValue_ten {ds : CStr} (h : ∀ c ∈ ds, CLib.isDigit 10 c = true) :
    CLib.digitsValue 10 ds = digitsValue (ds.map Char.toNat) := by
  induction ds using List.reverseRecOn with
  | nil => rfl
  | append_singleton ds c ih =>
    have hc := (digitVal_of_isDigit (by decide) (h c (by simp))).2.1
    have hds := ih fun d hd => h d (by simp [hd])
    simp only [CLib.digitsValue, digitsValue] at hds
    simp only [CLib.digitsValue, digitsValue, List.foldl_append, List.map_append, List.map_cons,
      List.map_nil, List.foldl_cons, List.foldl_nil, hc, Option.getD_some, hds]

/-- Octal digits are worth no more than the same digits in base ten, and the same only
below eight. -/
theorem digitsValue_eight {ds : CStr} (h : ∀ c ∈ ds, CLib.isDigit 8 c = true) :
    CLib.digitsValue 8 ds ≤ digitsValue (ds.map Char.toNat) ∧
      (CLib.digitsValue 8 ds = digitsValue (ds.map Char.toNat) ↔
        digitsValue (ds.map Char.toNat) < 8) := by
  induction ds using List.reverseRecOn with
  | nil => exact ⟨le_rfl, by decide⟩
  | append_singleton ds c ih =>
    obtain ⟨-, hc, hlt⟩ := digitVal_of_isDigit (by decide) (h c (by simp))
    obtain ⟨hle, -⟩ := ih fun d hd => h d (by simp [hd])
    have hoctal : CLib.digitsValue 8 (ds ++ [c]) = CLib.digitsValue 8 ds * 8 + (c.toNat - 48) := by
      simp [CLib.digitsValue, List.foldl_append, hc]
    have hdecimal : digitsValue ((ds ++ [c]).map Char.toNat) =
        digitsValue (ds.map Char.toNat) * 10 + (c.toNat - 48) := by
      simp [digitsValue, List.foldl_append]
    rw [hoctal, hdecimal]
    omega

end Digits

section Literal

/-- In base zero a leading zero makes a number octal, if no `x` follows it. -/
theorem scanBase_zero {w : CStr} (hx : 'x' ∉ w ∧ 'X' ∉ w) :
    CLib.scanBase 0 w = (if w.head? = some '0' then 8 else 10, w) := by
  unfold CLib.scanBase
  split
  · rename_i x c rest
    have hne : ¬ (x = 'x' ∨ x = 'X') := by
      rintro (rfl | rfl)
      · exact hx.1 (by simp)
      · exact hx.2 (by simp)
    rw [if_neg fun h => hne h.2.1]
    simp
  · simp
  · rename_i hne
    have hhead : w.head? ≠ some '0' := by
      intro hhead
      obtain ⟨rest, rfl⟩ := List.head?_eq_some_iff.mp hhead
      exact hne rest rfl
    simp [hhead]

/-- A sign is no other character. -/
theorem scanSign_suffix (s : CStr) : (CLib.scanSign s).2 <:+ s := by
  unfold CLib.scanSign
  split
  · exact List.suffix_cons _ _
  · exact List.suffix_cons _ _
  · exact List.suffix_rfl

/-- There is at most one sign before a number. -/
theorem scanSign_cases {s w : CStr} {negative : Bool} (h : CLib.scanSign s = (negative, w)) :
    s = w ∨ s = '-' :: w ∨ s = '+' :: w := by
  unfold CLib.scanSign at h
  split at h
  · exact .inr (.inl (by rw [(Prod.mk.inj h).2]))
  · exact .inr (.inr (by rw [(Prod.mk.inj h).2]))
  · exact .inl (Prod.mk.inj h).2

/-- A number in base zero without an `x`: the digits after a sign are octal if they
begin with a zero, and decimal if not. -/
theorem intLiteral_eq_some {t : CStr} {z : ℤ} (hx : 'x' ∉ t ∧ 'X' ∉ t)
    (h : CLib.intLiteral t = some z) :
    ∃ negative w, CLib.scanSign (t.dropWhile CLib.isSpace) = (negative, w) ∧ w ≠ [] ∧
      (w.head? = some '0' ∧ (∀ c ∈ w, CLib.isDigit 8 c = true) ∧
          z = signed negative (CLib.digitsValue 8 w) ∨
        w.head? ≠ some '0' ∧ (∀ c ∈ w, CLib.isDigit 10 c = true) ∧
          z = signed negative (CLib.digitsValue 10 w)) := by
  unfold CLib.intLiteral at h
  split at h
  · rename_i negative magnitude hscan
    obtain rfl := Option.some.inj h
    unfold CLib.scanNumber at hscan
    have hsuffix := scanSign_suffix (t.dropWhile CLib.isSpace)
    generalize hsign : CLib.scanSign (t.dropWhile CLib.isSpace) = p at hscan hsuffix
    obtain ⟨negative', w⟩ := p
    have hmem : ∀ c ∈ w, c ∈ t := fun c hc =>
      (List.dropWhile_suffix _).subset (hsuffix.subset hc)
    dsimp only at hscan
    rw [scanBase_zero ⟨fun h => hx.1 (hmem _ h), fun h => hx.2 (hmem _ h)⟩] at hscan
    dsimp only at hscan
    split_ifs at hscan with hhead hempty hempty
    · simp only [Option.some.injEq, Prod.mk.injEq, List.dropWhile_eq_nil_iff] at hscan
      obtain ⟨rfl, rfl, hall⟩ := hscan
      have htake := List.takeWhile_eq_self_iff.mpr hall
      rw [htake] at hempty
      refine ⟨negative', w, rfl, by simpa using hempty, .inl ⟨hhead, hall, ?_⟩⟩
      rw [htake, signed]
    · simp only [Option.some.injEq, Prod.mk.injEq, List.dropWhile_eq_nil_iff] at hscan
      obtain ⟨rfl, rfl, hall⟩ := hscan
      have htake := List.takeWhile_eq_self_iff.mpr hall
      rw [htake] at hempty
      refine ⟨negative', w, rfl, by simpa using hempty, .inr ⟨hhead, hall, ?_⟩⟩
      rw [htake, signed]
  · cases h

end Literal

section Both

variable {I : Interpreter}

/-- A blank is one for both. -/
theorem isBlank_toNat (c : Char) : isBlank c.toNat = CLib.isSpace c := by
  have hblank : c = ' ' ↔ c.toNat = 32 :=
    ⟨fun h => by rw [h]; rfl, fun h => Char.ext (UInt32.toNat_inj.mp h)⟩
  simp only [isBlank, CLib.isSpace, hblank]

/-- A sign is one for both. -/
theorem scanSign_map (s : CStr) :
    scanSign (s.map Char.toNat) = ((CLib.scanSign s).1, (CLib.scanSign s).2.map Char.toNat) := by
  cases s with
  | nil => rfl
  | cons c s =>
    have hinj : ∀ d : Char, c.toNat = d.toNat ↔ c = d := fun d =>
      ⟨fun h => Char.ext (UInt32.toNat_inj.mp h), fun h => by rw [h]⟩
    by_cases hminus : c = '-'
    · subst hminus
      rfl
    · by_cases hplus : c = '+'
      · subst hplus
        rfl
      · have hc : CLib.scanSign (c :: s) = (false, c :: s) := by
          unfold CLib.scanSign
          split
          · rename_i heq
            exact absurd (List.cons.inj heq).1 hminus
          · rename_i heq
            exact absurd (List.cons.inj heq).1 hplus
          · rfl
        rw [hc, List.map_cons]
        unfold scanSign
        split
        · rename_i heq
          exact absurd ((hinj '-').mp (List.cons.inj heq).1) hminus
        · rename_i heq
          exact absurd ((hinj '+').mp (List.cons.inj heq).1) hplus
        · rfl

/-- Empty fields behind a text put as many delimiters behind it. -/
theorem intercalate_empty_fields (d : Char) (t : CStr) (n : ℕ) :
    [d].intercalate (t :: List.replicate n []) = t ++ List.replicate n d := by
  induction n generalizing t with
  | zero => simp
  | succ n ih =>
    have hcut : [d].intercalate (t :: [] :: List.replicate n []) =
        t ++ d :: [d].intercalate ([] :: List.replicate n []) := by
      simp [List.intercalate]
    rw [List.replicate_succ, hcut, ih, List.replicate_succ, List.nil_append]

/-- A text is a single token if nothing but delimiters stands around it. -/
theorem strtok_eq_singleton_pad {d : Char} {s t : CStr} (h : CLib.strtok d s = [t]) :
    ∃ a b, s = List.replicate a d ++ t ++ List.replicate b d := by
  have hfields : ∀ fields : List CStr, fields.filter (fun f => !f.isEmpty) = [t] →
      ∃ a b, [d].intercalate fields = List.replicate a d ++ t ++ List.replicate b d := by
    intro fields
    induction fields with
    | nil => exact fun h => by cases h
    | cons f fields ih =>
      intro hfilter
      cases f with
      | nil =>
        obtain ⟨a, b, hab⟩ := ih hfilter
        have hne : fields ≠ [] := by
          rintro rfl
          cases hfilter
        have hcut : [d].intercalate ([] :: fields) = d :: [d].intercalate fields := by
          obtain ⟨g, fields, rfl⟩ := List.exists_cons_of_ne_nil hne
          simp [List.intercalate]
        exact ⟨a + 1, b, by rw [hcut, hab, List.replicate_succ]; rfl⟩
      | cons c f =>
        have hrest : (c :: f) :: fields.filter (fun f => !f.isEmpty) = [t] := hfilter
        obtain ⟨rfl, hnil⟩ := List.cons.inj hrest
        have hempty : fields = List.replicate fields.length [] := by
          refine List.eq_replicate_of_mem fun g hg => ?_
          have := List.filter_eq_nil_iff.mp hnil g hg
          simpa using this
        exact ⟨0, fields.length, by rw [hempty, intercalate_empty_fields]; simp⟩
  rw [← @List.intercalate_splitOn _ s _ _ d]
  exact hfields _ h

/-- Characters below 128 stand for themselves. -/
theorem eq_map_toNat_of_ascii {s : Str} (hs : ∀ c ∈ s, c < 0x110000)
    (h : ∀ d ∈ cText s, d.toNat < 128) : s = (cText s).map Char.toNat := by
  induction s with
  | nil => rfl
  | cons c s ih =>
    obtain ⟨b, bs, hbytes⟩ := List.exists_cons_of_ne_nil (utf8_ne_nil c)
    have hb : b.toNat < 128 := by
      rw [← toNat_byteChar]
      exact h _ (by rw [cText_cons, hbytes]; simp)
    have hc := toNat_eq_of_mem_utf8 (hs c List.mem_cons_self) (by rw [hbytes]; simp) hb
    have htail := ih (fun d hd => hs d (List.mem_cons_of_mem c hd)) fun d hd =>
      h d (by rw [cText_cons]; exact List.mem_append_right _ hd)
    rw [cText_cons, utf8_ascii (by omega), List.map_append, ← htail]
    have hchar : (byteChar (.ofNat c)).toNat = c := by
      rw [toNat_byteChar, UInt8.toNat_ofNat', Nat.mod_eq_of_lt (by omega)]
    simp [hchar]

/-- What `int` reads is made of blanks, signs, digits, underscores, and characters
beyond ASCII. -/
theorem mem_of_intOfStr {s : Str} {n : ℤ} (h : intOfStr I s = some n) {c : ℕ} (hc : c ∈ s)
    (hlt : c < 128) : isBlank c = true ∨ isDigit c = true ∨ c = 43 ∨ c = 45 ∨ c = 95 := by
  by_cases hblank : isBlank c = true
  · exact .inl hblank
  have hmem : c ∈ ((s.map (toAscii I)).dropWhile isBlank).rdropWhile isBlank := by
    have hmap : c ∈ s.map (toAscii I) := List.mem_map.mpr ⟨c, hc, by rw [toAscii, if_pos hlt]⟩
    rw [Bool.not_eq_true] at hblank
    have hdrop := mem_dropWhile_of_mem hmap hblank
    exact List.mem_reverse.mpr (mem_dropWhile_of_mem (List.mem_reverse.mpr hdrop) hblank)
  simp only [intOfStr, Option.map_eq_some_iff] at h
  obtain ⟨m, hm, -⟩ := h
  obtain hdigits | hsign := mem_scanSign hmem
  · obtain hdigit | hunderscore := mem_of_scanDigits hm c hdigits
    · exact .inr (.inl hdigit)
    · exact .inr (.inr (.inr (.inr hunderscore)))
  · obtain hminus | hplus := hsign
    · exact .inr (.inr (.inr (.inl hminus)))
    · exact .inr (.inr (.inl hplus))

/-- The first digit of a text is a zero. -/
def LeadingZero (s : Str) : Prop := s.find? isDigit = some 48

instance (s : Str) : Decidable (LeadingZero s) := inferInstanceAs (Decidable (_ = _))

/-- Blanks behind another character are cut off. -/
theorem rdropWhile_replicate {α : Type*} {p : α → Bool} {x : α} (hx : p x = true) (l : List α)
    (n : ℕ) : (l ++ List.replicate n x).rdropWhile p = l.rdropWhile p := by
  induction n with
  | zero => simp
  | succ n ih => rw [List.replicate_succ', ← List.append_assoc, List.rdropWhile_concat_pos p _ _ hx, ih]

/-- `int` of the text that the C library reads as a number. -/
theorem intOfStr_of_literal {t : CStr} {a b : ℕ} {negative : Bool} {w : CStr}
    (hsign : CLib.scanSign (t.dropWhile CLib.isSpace) = (negative, w)) (hne : w ≠ [])
    (hdigits : ∀ c ∈ w, CLib.isDigit 10 c = true)
    (hascii : ∀ c ∈ t, c.toNat < 128) :
    intOfStr I ((List.replicate a ' ' ++ t ++ List.replicate b ' ').map Char.toNat) =
        some (signed negative (digitsValue (w.map Char.toNat))) ∧
      ((List.replicate a ' ' ++ t ++ List.replicate b ' ').map Char.toNat).find? isDigit =
        w.head?.map Char.toNat := by
  obtain ⟨c, w', rfl⟩ := List.exists_cons_of_ne_nil hne
  have hcases := scanSign_cases hsign
  have hmap : ∀ s : CStr, (∀ d ∈ s, d.toNat < 128) →
      (s.map Char.toNat).map (toAscii I) = s.map Char.toNat := by
    intro s hs
    rw [List.map_map]
    exact List.map_congr_left fun d hd => by rw [Function.comp_apply, toAscii, if_pos (hs d hd)]
  have hu : t.dropWhile CLib.isSpace ≠ [] := by
    intro hnil
    rw [hnil] at hcases
    simp at hcases
  have hfront : (List.replicate a ' ' ++ t ++ List.replicate b ' ').dropWhile CLib.isSpace =
      t.dropWhile CLib.isSpace ++ List.replicate b ' ' := by
    rw [List.append_assoc, List.dropWhile_append_of_pos, List.dropWhile_append, if_neg]
    · simpa using hu
    · intro d hd
      rw [List.eq_of_mem_replicate hd]
      rfl
  constructor
  · have hall : ∀ d ∈ List.replicate a ' ' ++ t ++ List.replicate b ' ', d.toNat < 128 := by
      intro d hd
      simp only [List.mem_append, List.mem_replicate] at hd
      obtain (⟨-, rfl⟩ | hd) | ⟨-, rfl⟩ := hd
      · decide
      · exact hascii d hd
      · decide
    have hblank : (fun d : Char => isBlank d.toNat) = CLib.isSpace := funext isBlank_toNat
    have hdrop : ((List.replicate a ' ' ++ t ++ List.replicate b ' ').map Char.toNat).dropWhile
        isBlank = (t.dropWhile CLib.isSpace ++ List.replicate b ' ').map Char.toNat := by
      rw [List.dropWhile_map]
      show List.map _ (List.dropWhile (fun d : Char => isBlank d.toNat) _) = _
      rw [hblank, hfront]
    have hlast : ∀ l : Str, (l ++ (c :: w').map Char.toNat).rdropWhile isBlank =
        l ++ (c :: w').map Char.toNat := by
      intro l
      obtain ⟨init, d, hd⟩ : ∃ init d, c :: w' = init ++ [d] :=
        ⟨_, _, (List.dropLast_append_getLast (List.cons_ne_nil c w')).symm⟩
      have hdigit := (digitVal_of_isDigit (by decide) (hdigits d (by rw [hd]; simp))).1
      rw [hd, List.map_append, List.map_singleton, ← List.append_assoc,
        List.rdropWhile_concat_neg]
      rw [isBlank_of_isDigit hdigit]
      exact Bool.false_ne_true
    have htext : (((List.replicate a ' ' ++ t ++ List.replicate b ' ').map Char.toNat).dropWhile
        isBlank).rdropWhile isBlank = (t.dropWhile CLib.isSpace).map Char.toNat := by
      rw [hdrop, List.map_append, List.map_replicate, rdropWhile_replicate rfl]
      obtain hw | hw | hw := hcases
      · rw [hw]
        exact hlast []
      · rw [hw]
        exact hlast [45]
      · rw [hw]
        exact hlast [43]
    have hscan : scanDigits ((c :: w').map Char.toNat) =
        some (digitsValue ((c :: w').map Char.toNat)) := by
      refine scanDigits_digits (by simp) fun d hd => ?_
      obtain ⟨e, he, rfl⟩ := List.mem_map.mp hd
      exact (digitVal_of_isDigit (by decide) (hdigits e he)).1
    simp only [intOfStr, hmap _ hall, htext, scanSign_map, hsign, hscan, Option.map_some, signed]
  · have hc := (digitVal_of_isDigit (by decide) (hdigits c (by simp))).1
    have hskip : ∀ l : CStr, (∀ d ∈ l, isDigit d.toNat = false) → ∀ rest : CStr,
        ((l ++ rest).map Char.toNat).find? isDigit = (rest.map Char.toNat).find? isDigit := by
      intro l hl rest
      rw [List.map_append, List.find?_append, List.find?_eq_none.mpr, Option.none_or]
      intro d hd
      obtain ⟨e, he, rfl⟩ := List.mem_map.mp hd
      rw [hl e he]
      exact Bool.false_ne_true
    have hspaces : ∀ d ∈ t.takeWhile CLib.isSpace, isDigit d.toNat = false := by
      intro d hd
      have hspace := List.mem_takeWhile_imp hd
      rw [← isBlank_toNat] at hspace
      by_contra hdigit
      rw [isBlank_of_isDigit (by simpa using hdigit)] at hspace
      cases hspace
    have hfound : ∀ rest : CStr, ((c :: w' ++ rest).map Char.toNat).find? isDigit = some c.toNat :=
      fun rest => by rw [List.cons_append, List.map_cons, List.find?_cons_of_pos hc]
    rw [List.append_assoc, hskip _ fun d hd => by rw [List.eq_of_mem_replicate hd]; rfl]
    conv_lhs => rw [← List.takeWhile_append_dropWhile (p := CLib.isSpace) (l := t)]
    rw [List.append_assoc, hskip _ hspaces]
    obtain hw | hw | hw := hcases
    · rw [hw, hfound]
      rfl
    · rw [hw]
      exact hfound _
    · rw [hw]
      exact hfound _

/-- A number in base zero as `int` reads it: they are the same exactly if no leading
zero makes it octal or it is below eight. -/
theorem literal_eq_int_iff {s : Str} {t : CStr} {n z : ℤ} (ht : CLib.strtok ' ' (cText s) = [t])
    (hs : ∀ c ∈ s, c < 0x110000) (hn : intOfStr I s = some n) (hz : CLib.intLiteral t = some z) :
    (z = n ↔ (LeadingZero s → -8 < n ∧ n < 8)) ∧ (0 ≤ n → 0 ≤ z ∧ z ≤ n) ∧
      (n < 0 → n ≤ z ∧ z ≤ 0) := by
  obtain ⟨a, b, hpad⟩ := strtok_eq_singleton_pad ht
  have hnot : ∀ d : Char, d.toNat < 128 → ¬ (isBlank d.toNat = true ∨ isDigit d.toNat = true ∨
      d.toNat = 43 ∨ d.toNat = 45 ∨ d.toNat = 95) → d ∉ t := by
    intro d hd hother hmem
    have hcmem : d ∈ cText s := by
      rw [hpad]
      simp [hmem]
    exact hother (mem_of_intOfStr hn (mem_of_mem_cText hs hd hcmem) hd)
  obtain ⟨negative, w, hsign, hne, hcases⟩ :=
    intLiteral_eq_some ⟨hnot 'x' (by decide) (by decide), hnot 'X' (by decide) (by decide)⟩ hz
  have hdigits : ∀ c ∈ w, CLib.isDigit 10 c = true := by
    obtain ⟨-, h8, -⟩ | ⟨-, h10, -⟩ := hcases
    · intro c hc
      obtain ⟨-, hval, hlt⟩ := digitVal_of_isDigit (by decide) (h8 c hc)
      simp only [CLib.isDigit, hval]
      exact decide_eq_true (by omega)
    · exact h10
  have hascii : ∀ c ∈ t, c.toNat < 128 := by
    intro c hc
    rw [← List.takeWhile_append_dropWhile (p := CLib.isSpace) (l := t), List.mem_append] at hc
    have hdigit : ∀ d ∈ w, d.toNat < 128 := by
      intro d hd
      have h := (digitVal_of_isDigit (by decide) (hdigits d hd)).1
      simp only [isDigit, Bool.and_eq_true, decide_eq_true_eq] at h
      omega
    obtain hc | hc := hc
    · have hspace := List.mem_takeWhile_imp hc
      rw [← isBlank_toNat] at hspace
      simp only [isBlank, Bool.or_eq_true, Bool.and_eq_true, decide_eq_true_eq] at hspace
      omega
    · obtain hw | hw | hw := scanSign_cases hsign
      · exact hdigit c (hw ▸ hc)
      · obtain rfl | hc := List.mem_cons.mp (hw ▸ hc)
        · decide
        · exact hdigit c hc
      · obtain rfl | hc := List.mem_cons.mp (hw ▸ hc)
        · decide
        · exact hdigit c hc
  -- Nothing but ASCII is left, so that both read the same characters.
  have hs' : s = (List.replicate a ' ' ++ t ++ List.replicate b ' ').map Char.toNat := by
    rw [← hpad]
    refine eq_map_toNat_of_ascii hs fun d hd => ?_
    rw [hpad] at hd
    simp only [List.mem_append, List.mem_replicate] at hd
    obtain (⟨-, rfl⟩ | hd) | ⟨-, rfl⟩ := hd
    · decide
    · exact hascii d hd
    · decide
  obtain ⟨hint, hfirst⟩ := intOfStr_of_literal (I := I) (a := a) (b := b) hsign hne hdigits hascii
  rw [← hs'] at hint hfirst
  obtain rfl := Option.some.inj (hn.symm.trans hint)
  have hzero : LeadingZero s ↔ w.head? = some '0' := by
    unfold LeadingZero
    rw [hfirst]
    cases w with
    | nil => exact absurd rfl hne
    | cons c w =>
      simp only [List.head?_cons, Option.map_some, Option.some.injEq]
      exact ⟨fun h => Char.ext (UInt32.toNat_inj.mp h), fun h => by rw [h]; rfl⟩
  rw [hzero]
  unfold signed at *
  obtain ⟨hhead, h8, rfl⟩ | ⟨hhead, h10, rfl⟩ := hcases
  · obtain ⟨hle, heq⟩ := digitsValue_eight h8
    simp only [hhead, true_imp_iff]
    cases negative
    · simp only [Bool.false_eq_true, if_false]
      omega
    · simp only [if_true]
      omega
  · rw [digitsValue_ten h10]
    simp only [hhead, false_imp_iff, true_and]
    omega

end Both

section Printed

/-- ASCII characters are their own text. -/
theorem cText_map_toNat {l : CStr} (h : ∀ c ∈ l, c.toNat < 128) : cText (l.map Char.toNat) = l := by
  have hself : Char.ofNat ∘ Char.toNat = id := funext Char.ofNat_toNat
  rw [cText_of_ascii fun c hc => ?_]
  · rw [List.map_map, hself, List.map_id]
  · obtain ⟨d, hd, rfl⟩ := List.mem_map.mp hc
    exact h d hd

/-- No number but zero is printed with a leading zero. -/
theorem head_toDigits {n : ℕ} (hn : 0 < n) : (Nat.toDigits 10 n).head? ≠ some '0' := by
  induction n using Nat.strongRecOn with
  | ind n ih =>
    by_cases hlt : n < 10
    · rw [Nat.toDigits_of_lt_base hlt]
      have hall : ∀ m : Fin 10, 0 < m.val → m.val.digitChar ≠ '0' := by decide
      simpa using hall ⟨n, hlt⟩ hn
    · rw [Nat.toDigits_of_base_le (by decide) (by omega), List.head?_append_of_ne_nil _
        Nat.toDigits_ne_nil]
      exact ih (n / 10) (by omega) (by omega)

/-- The C library reads decimal digits, unless a zero leads them. -/
theorem intLiteral_digits (negative : Bool) {ds : CStr} (hne : ds ≠ [])
    (hdigits : ∀ c ∈ ds, CLib.isDigit 10 c = true) (hzero : ds.head? = some '0' → ds = ['0']) :
    CLib.intLiteral (if negative then '-' :: ds else ds) =
      some (signed negative (CLib.digitsValue 10 ds)) := by
  by_cases hhead : ds.head? = some '0'
  · rw [hzero hhead]
    cases negative
    · decide
    · decide
  obtain ⟨c, ds, rfl⟩ := List.exists_cons_of_ne_nil hne
  have hc := (digitVal_of_isDigit (by decide) (hdigits c List.mem_cons_self)).1
  have hnot : ∀ d : Char, isDigit d.toNat = false → d ∉ c :: ds := by
    intro d hd hmem
    rw [(digitVal_of_isDigit (by decide) (hdigits d hmem)).1] at hd
    cases hd
  have hspace : CLib.isSpace c = false := by rw [← isBlank_toNat, isBlank_of_isDigit hc]
  have hsign : CLib.scanSign (c :: ds) = (false, c :: ds) := by
    unfold CLib.scanSign
    split
    · rename_i heq
      exact absurd (heq ▸ List.mem_cons_self) (hnot '-' (by decide))
    · rename_i heq
      exact absurd (heq ▸ List.mem_cons_self) (hnot '+' (by decide))
    · rfl
  have hscan : CLib.scanSign ((if negative then '-' :: c :: ds else c :: ds).dropWhile CLib.isSpace) =
      (negative, c :: ds) := by
    cases negative
    · rw [if_neg Bool.false_ne_true, List.dropWhile_cons_of_neg (by simp [hspace]), hsign]
    · rfl
  have htake : (c :: ds).takeWhile (CLib.isDigit 10) = c :: ds :=
    List.takeWhile_eq_self_iff.mpr hdigits
  have hdrop : (c :: ds).dropWhile (CLib.isDigit 10) = [] := List.dropWhile_eq_nil_iff.mpr hdigits
  have hbase := scanBase_zero ⟨hnot 'x' (by decide), hnot 'X' (by decide)⟩
  rw [if_neg hhead] at hbase
  simp only [CLib.intLiteral, CLib.scanNumber, hscan, hbase, htake, hdrop, List.isEmpty_cons,
    Bool.false_eq_true, if_false, signed]

/-- The C library reads the text of an integer back. -/
theorem intLiteral_intText (n : ℤ) : CLib.intLiteral (cText (intText n)) = some n := by
  have hdigit : ∀ m : ℕ, ∀ c ∈ Nat.toDigits 10 m, CLib.isDigit 10 c = true := by
    intro m c hc
    have h := Nat.isDigit_of_mem_toDigits (by decide) (by decide) hc
    simp only [Char.isDigit, ge_iff_le, Bool.and_eq_true, decide_eq_true_eq] at h
    have hrange : '0' ≤ c ∧ c ≤ '9' := h
    have hval : CLib.digitVal c = some (c.toNat - 48) := by
      rw [CLib.digitVal, if_pos hrange]
      rfl
    have hle : c.toNat ≤ 57 := h.2
    simp only [CLib.isDigit, hval]
    exact decide_eq_true (by omega)
  have hascii : ∀ m : ℕ, ∀ c ∈ Nat.toDigits 10 m, c.toNat < 128 := by
    intro m c hc
    have h := (digitVal_of_isDigit (by decide) (hdigit m c hc)).1
    simp only [isDigit, Bool.and_eq_true, decide_eq_true_eq] at h
    omega
  have hzero : ∀ m : ℕ, (Nat.toDigits 10 m).head? = some '0' → Nat.toDigits 10 m = ['0'] := by
    intro m hhead
    obtain rfl | hm := Nat.eq_zero_or_pos m
    · rfl
    · exact absurd hhead (head_toDigits hm)
  have hvalue : ∀ m : ℕ, CLib.digitsValue 10 (Nat.toDigits 10 m) = m := fun m => by
    rw [digitsValue_ten (hdigit m), digitsValue_toDigits]
  rw [intText_eq]
  split_ifs with h
  · rw [cText_map_toNat (hascii _)]
    refine (intLiteral_digits false Nat.toDigits_ne_nil (hdigit _) (hzero _)).trans ?_
    rw [hvalue, signed, if_neg Bool.false_ne_true, Int.toNat_of_nonneg h]
  · have htext : cText (45 :: (Nat.toDigits 10 (-n).toNat).map Char.toNat) =
        '-' :: Nat.toDigits 10 (-n).toNat := by
      rw [cText_cons, cText_map_toNat (hascii _)]
      rfl
    rw [htext]
    refine (intLiteral_digits true Nat.toDigits_ne_nil (hdigit _) (hzero _)).trans ?_
    rw [hvalue, signed, if_pos rfl]
    congr 1
    omega

end Printed

end Python
