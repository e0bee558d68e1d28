import Spp.Ctl.VfAgreement

/-!
# The notations of a MAC address

`netaddr` knows an address with colons, with dashes, with dots and without separators,
and `spp_vf` splits at colons only. What its decoder makes of each notation is compared
here with the octets that the notation stands for.
-/

namespace Spp.Ctl.Agreement

open Python
open CLib (CStr strtok)

section Octets

variable {s : Str}

/-- The hexadecimal digits are those of the C library. -/
theorem isDigit_ofNat {c : ℕ} (h : c < 128) :
    CLib.isDigit 16 (Char.ofNat c) = isHexDigit c := by
  have hall : ∀ c : Fin 128, CLib.isDigit 16 (Char.ofNat c) = isHexDigit c := by decide
  exact hall ⟨c, h⟩

/-- A hexadecimal digit is below 128. -/
theorem lt_of_isHexDigit {c : ℕ} (h : isHexDigit c = true) : c < 128 := by
  simp only [isHexDigit, isDigit, Bool.or_eq_true, Bool.and_eq_true, decide_eq_true_eq] at h
  omega

/-- The hexadecimal digits of a field are digits of its C text. -/
theorem isDigit_of_mem_cText {f : Str} (h : ∀ c ∈ f, isHexDigit c = true) :
    ∀ c ∈ cText f, CLib.isDigit 16 c = true := by
  rw [cText_of_ascii fun c hc => lt_of_isHexDigit (h c hc)]
  intro c hc
  obtain ⟨d, hd, rfl⟩ := List.mem_map.mp hc
  rw [isDigit_ofNat (lt_of_isHexDigit (h d hd)), h d hd]

/-- The value of a run of digits is below the power of the base for its length. -/
theorem digitsValue_lt {t : CStr} (h : ∀ c ∈ t, CLib.isDigit 16 c = true) :
    CLib.digitsValue 16 t < 16 ^ t.length := by
  induction t using List.reverseRecOn with
  | nil => decide
  | append_singleton t c ih =>
    obtain ⟨v, hv, hlt⟩ := Vf.digitVal_of_isDigit (h c (by simp))
    have htail := ih fun d hd => h d (by simp [hd])
    rw [CLib.digitsValue, List.foldl_append, List.length_append, List.length_singleton, pow_succ]
    simp only [List.foldl_cons, List.foldl_nil, hv, Option.getD_some]
    unfold CLib.digitsValue at htail
    omega

end Octets

section Single

/-- What the decoder makes of an address without colons: the number that `strtol` reads
of it as a whole, cut down to an `int`, or zero. -/
theorem sppChangeMacStrToInt64_single {t : CStr} (hne : t ≠ []) (hcolon : ':' ∉ t)
    (hlength : t.length < Vf.sppMinStrLen) :
    Vf.sppChangeMacStrToInt64 t = .ok (match CLib.strtol 16 t with
      | some (v, []) => CLib.toInt v
      | _ => 0) := by
  have htoken : strtok ':' t = [t] := CLib.strtok_eq_singleton hne hcolon
  -- Of a number that is read as a whole the low bits are kept, else nothing is.
  have hfields : Vf.macFields [t] 0 0 = .ok (match CLib.strtol 16 t with
      | some (v, []) => BitVec.ofInt 64 (CLib.toInt v)
      | _ => 0) := by
    unfold Vf.macFields
    rw [if_neg (by decide)]
    cases hscan : CLib.strtol 16 t with
    | none => rfl
    | some scanned =>
      obtain ⟨v, rest⟩ := scanned
      cases rest with
      | nil =>
        simp only [Vf.macFields, Nat.zero_mul, BitVec.shiftLeft_zero]
        exact congrArg Except.ok BitVec.zero_or
      | cons c rest => rfl
  have hint : ∀ v : ℤ, (BitVec.ofInt 64 (CLib.toInt v)).toInt = CLib.toInt v := by
    intro v
    have hle := Int.le_bmod (x := v) (m := 2 ^ 32) (by decide)
    have hlt := Int.bmod_lt (x := v) (m := 2 ^ 32) (by decide)
    unfold CLib.toInt
    rw [BitVec.toInt_ofInt, Int.bmod_eq_of_le (by omega) (by omega)]
  simp only [Vf.sppChangeMacStrToInt64, Vf.strcpy_eq_ok.mpr ⟨hlength, rfl⟩, htoken, hfields]
  split
  · rw [hint]
  · rfl

end Single

section Notations

variable {s : Str}

/-- The characters of an address in fields. -/
theorem chars_of_hexFields {separator count lo hi : ℕ} (h : HexFields separator count lo hi s) :
    ∀ c ∈ s, c = separator ∨ isHexDigit c = true := by
  intro c hc
  by_cases hsep : c = separator
  · exact .inl hsep
  · obtain ⟨g, hg, hmem⟩ := exists_mem_splitOn hc hsep
    exact .inr ((h.2 g hg).2 c hmem)

/-- An address in several fields has the separator. -/
theorem mem_of_hexFields {separator count lo hi : ℕ} (h : HexFields separator count lo hi s)
    (hcount : 1 < count) : separator ∈ s := by
  by_contra hnot
  have hlength := h.1
  rw [List.splitOn_eq_singleton hnot, List.length_singleton] at hlength
  omega

/-- An address in fields is text of characters below 128, and it is no longer than its
fields with a separator behind each. -/
theorem ascii_of_hexFields {separator count lo hi : ℕ} (h : HexFields separator count lo hi s)
    (hseparator : separator < 128) : ∀ c ∈ s, c < 128 := fun c hc => by
  obtain rfl | hdigit := chars_of_hexFields h c hc
  · exact hseparator
  · exact lt_of_isHexDigit hdigit

/-- The C text of characters below 128 is as long. -/
theorem length_cText (h : ∀ c ∈ s, c < 128) : (cText s).length = s.length := by
  rw [cText_of_ascii h, List.length_map]

/-- An address with colons is decoded to its octets. -/
theorem sppChangeMacStrToInt64_colon (h : HexFields 58 6 1 2 s) :
    Vf.sppChangeMacStrToInt64 (cText s) = .ok (Nat.ofDigits 256 (octets s) : ℤ) := by
  have hascii := ascii_of_hexFields h (by decide)
  have hsplit : (cText s).splitOn ':' = (s.splitOn 58).map cText := splitOn_cText hascii (by decide)
  have hfields : ∀ f ∈ (cText s).splitOn ':', Vf.IsHexField f := by
    rw [hsplit]
    intro f hf
    obtain ⟨g, hg, rfl⟩ := List.mem_map.mp hf
    obtain ⟨hlength, hdigits⟩ := h.2 g hg
    rw [← length_cText fun c hc => lt_of_isHexDigit (hdigits c hc)] at hlength
    exact ⟨hlength, isDigit_of_mem_cText hdigits⟩
  have hvalue := (Vf.sppChangeMacStrToInt64_eq (by rw [hsplit, List.length_map, h.1]; rfl) hfields).1
  rw [hvalue, Vf.macValue, hsplit, octets, if_pos (mem_of_hexFields h (by decide)), List.map_map,
    Nat.coe_ofDigits]
  rfl

/-- An address with other separators is decoded to zero. -/
theorem sppChangeMacStrToInt64_separated {separator count hi : ℕ}
    (h : HexFields separator count 1 hi s) (hcount : 1 < count)
    (hseparator : separator = 45 ∨ separator = 46) (hlength : s.length < Vf.sppMinStrLen) :
    Vf.sppChangeMacStrToInt64 (cText s) = .ok 0 := by
  have hascii := ascii_of_hexFields h (by omega)
  have hcolon : ':' ∉ cText s := fun hmem => by
    have hs := mem_of_mem_cText (fun c hc => (hascii c hc).trans (by decide)) (by decide) hmem
    obtain heq | hdigit := chars_of_hexFields h _ hs
    · rcases hseparator with rfl | rfl
      · simp at heq
      · simp at heq
    · simp [isHexDigit, isDigit] at hdigit
  obtain ⟨first, rest, hsplit⟩ := List.exists_cons_of_ne_nil (List.splitOn_ne_nil separator s)
  have hrest : rest ≠ [] := by
    rintro rfl
    have := h.1
    rw [hsplit, List.length_singleton] at this
    omega
  obtain ⟨hfirstLength, hfirst⟩ := h.2 first (by rw [hsplit]; exact List.mem_cons_self)
  have hcut : s = first ++ separator :: [separator].intercalate rest := by
    have hjoin : [separator].intercalate (s.splitOn separator) = s :=
      List.intercalate_splitOn separator
    rw [hsplit] at hjoin
    obtain ⟨g, gs, rfl⟩ := List.exists_cons_of_ne_nil hrest
    rw [← hjoin]
    simp [List.intercalate]
  have htext : cText s = cText first ++ (Char.ofNat separator :: cText ([separator].intercalate rest)) := by
    conv_lhs => rw [hcut]
    rw [cText_append, cText_cons, utf8_ascii (by omega)]
    simp [byteChar_ofNat (show separator < 128 by omega)]
  have hfirstNe : cText first ≠ [] := fun hnil => by
    rw [cText_eq_nil.mp hnil] at hfirstLength
    simp at hfirstLength
  have hhead : CLib.isDigit 16 (Char.ofNat separator) = false ∧ Char.ofNat separator ≠ 'x' ∧
      Char.ofNat separator ≠ 'X' := by
    rcases hseparator with rfl | rfl
    · decide
    · decide
  have hscan : CLib.strtol 16 (cText first ++
        Char.ofNat separator :: cText ([separator].intercalate rest)) = _ :=
    Vf.strtol_digits hfirstNe (isDigit_of_mem_cText hfirst) (by simpa using hhead)
  rw [← htext] at hscan
  rw [sppChangeMacStrToInt64_single (by rw [htext]; simp) hcolon (by rw [length_cText hascii]; exact hlength), hscan]

/-- The number of octets, as a natural number. -/
theorem ofDigits_int (l : List ℕ) :
    Nat.ofDigits (256 : ℤ) l = ((Nat.ofDigits 256 l : ℕ) : ℤ) := by
  rw [Nat.coe_ofDigits]
  rfl

/-- Octets that make zero are zeros. -/
theorem octets_eq_zero_iff (h : (octets s).length = 6) :
    (0 : ℤ) = Nat.ofDigits 256 (octets s) ↔ octets s = List.replicate 6 0 := by
  rw [ofDigits_int, eq_comm, Int.natCast_eq_zero]
  constructor
  · intro hzero
    exact List.eq_replicate_iff.mpr ⟨h, Nat.digits_zero_of_eq_zero (by decide) hzero⟩
  · intro heq
    rw [heq, Nat.ofDigits_replicate_zero]

/-- The low bits of a big-endian number are its octets in little-endian order only where
two equal octets stand between zeros. -/
theorem toInt_eq_ofDigits_iff {n : ℕ} (h : n < 2 ^ 48) :
    CLib.toInt n = Nat.ofDigits (256 : ℤ) ((List.range 6).map fun i => n / 256 ^ (5 - i) % 256) ↔
      ∃ k < 128, (List.range 6).map (fun i => n / 256 ^ (5 - i) % 256) = [0, 0, k, k, 0, 0] := by
  have hrange : List.range 6 = [0, 1, 2, 3, 4, 5] := rfl
  simp only [ofDigits_int, hrange, List.map_cons, List.map_nil, Nat.ofDigits_cons,
    Nat.ofDigits_nil, List.cons.injEq, and_true, CLib.toInt, Int.bmod_def]
  norm_num only
  have hn : n = 1099511627776 * (n / 1099511627776 % 256) + 4294967296 * (n / 4294967296 % 256) +
      16777216 * (n / 16777216 % 256) + 65536 * (n / 65536 % 256) + 256 * (n / 256 % 256) +
        n / 1 % 256 := by omega
  have hlt : ∀ m : ℕ, m % 256 < 256 := fun m => Nat.mod_lt m (by decide)
  have h0 := hlt (n / 1099511627776)
  have h1 := hlt (n / 4294967296)
  have h2 := hlt (n / 16777216)
  have h3 := hlt (n / 65536)
  have h4 := hlt (n / 256)
  have h5 := hlt (n / 1)
  generalize n / 1099511627776 % 256 = a at *
  generalize n / 4294967296 % 256 = b at *
  generalize n / 16777216 % 256 = c at *
  generalize n / 65536 % 256 = d at *
  generalize n / 256 % 256 = e at *
  generalize n / 1 % 256 = f at *
  subst hn
  constructor
  · intro heq
    have hzero : e = 0 ∧ f = 0 := by
      split at heq <;> omega
    have hhigh : a = 0 ∧ b = 0 := by
      split at heq <;> omega
    obtain ⟨rfl, rfl⟩ := hzero
    obtain ⟨rfl, rfl⟩ := hhigh
    rw [Int.emod_eq_of_lt (by omega) (by omega)] at heq
    obtain rfl : c = d := by
      split at heq <;> omega
    refine ⟨c, ?_, rfl, rfl, rfl, rfl, rfl, rfl⟩
    split at heq <;> omega
  · rintro ⟨k, hk, rfl, rfl, rfl, rfl, rfl, rfl⟩
    rw [Int.emod_eq_of_lt (by omega) (by omega), if_pos (by omega)]
    omega

/-- The decoder makes of a bare address the low bits of the number it is. -/
theorem sppChangeMacStrToInt64_bare (hlength : s.length = 12)
    (hdigits : ∀ c ∈ s, isHexDigit c = true) :
    Vf.sppChangeMacStrToInt64 (cText s) = .ok (CLib.toInt (hexValue s)) ∧ hexValue s < 2 ^ 48 := by
  have hascii : ∀ c ∈ s, c < 128 := fun c hc => lt_of_isHexDigit (hdigits c hc)
  have hdigit := isDigit_of_mem_cText hdigits
  have htext : (cText s).length = 12 := by rw [length_cText hascii, hlength]
  have hne : cText s ≠ [] := List.ne_nil_of_length_pos (by omega)
  have hvalue : hexValue s < 16 ^ 12 := htext ▸ digitsValue_lt hdigit
  have hlt : hexValue s < 2 ^ 48 := hvalue
  have hscan : CLib.strtol 16 (cText s ++ []) = _ := Vf.strtol_digits hne hdigit (by simp)
  rw [List.append_nil, Int.min_eq_left (by unfold hexValue at hlt; omega)] at hscan
  refine ⟨?_, hlt⟩
  rw [sppChangeMacStrToInt64_single hne (fun hmem => absurd (hdigit _ hmem) (by decide))
    (by rw [htext]; decide), hscan]
  rfl

/-- An address with dashes has six octets. -/
theorem octets_dash (h : HexFields 45 6 1 2 s) : (octets s).length = 6 ∧ 58 ∉ s ∧ 45 ∈ s := by
  have hcolon : 58 ∉ s := fun hmem => by
    obtain heq | hdigit := chars_of_hexFields h 58 hmem
    · cases heq
    · cases hdigit
  have hdash := mem_of_hexFields h (by decide)
  rw [octets, if_neg hcolon, if_pos hdash, List.length_map]
  exact ⟨h.1, hcolon, hdash⟩

/-- An address with dots has six octets. -/
theorem octets_dot (h : HexFields 46 3 1 4 s) : (octets s).length = 6 ∧ 58 ∉ s ∧ 46 ∈ s := by
  have hnot : ∀ c ∈ [58, 45], c ∉ s := by
    intro c hc hmem
    simp only [List.mem_cons, List.not_mem_nil, or_false] at hc
    rcases hc with rfl | rfl
    · simpa [isHexDigit, isDigit] using chars_of_hexFields h _ hmem
    · simpa [isHexDigit, isDigit] using chars_of_hexFields h _ hmem
  have hdot := mem_of_hexFields h (by decide)
  rw [octets, if_neg (hnot 58 (by simp)), if_neg (hnot 45 (by simp)), if_pos hdot]
  refine ⟨?_, hnot 58 (by simp), hdot⟩
  simp [List.length_flatMap, h.1]

/-- The characters of an address. -/
theorem chars_of_isEui48 (h : IsEui48 s) :
    ∀ c ∈ s, isHexDigit c = true ∨ c = 58 ∨ c = 45 ∨ c = 46 := by
  intro c hc
  obtain hcolon | hdash | hdot | ⟨-, hbare⟩ := h
  · exact (chars_of_hexFields hcolon c hc).symm.imp_right .inl
  · exact (chars_of_hexFields hdash c hc).symm.imp_right (.inr ∘ .inl)
  · exact (chars_of_hexFields hdot c hc).symm.imp_right (.inr ∘ .inr)
  · exact .inl (hbare c hc)

/-- The characters of an address are below 128. -/
theorem ascii_of_isEui48 (h : IsEui48 s) : ∀ c ∈ s, c < 128 := fun c hc => by
  obtain hdigit | rfl | rfl | rfl := chars_of_isEui48 h c hc
  · exact lt_of_isHexDigit hdigit
  · decide
  · decide
  · decide

/-- An address is one token. -/
theorem isOneToken_mac (h : s = lit "default" ∨ IsEui48 s) : IsOneToken s ∧ IsText s := by
  obtain rfl | heui := h
  · exact ⟨by decide, isText_lit "default"⟩
  refine ⟨⟨?_, fun hmem => ?_, fun hmem => ?_⟩, fun c hc => ?_⟩
  · rintro rfl
    revert heui
    decide
  · simpa [isHexDigit, isDigit] using chars_of_isEui48 heui 32 hmem
  · simpa [isHexDigit, isDigit] using chars_of_isEui48 heui 0 hmem
  · have := ascii_of_isEui48 heui c hc
    unfold Python.Encodable
    omega

/-- The decoder keeps an address exactly if it is written with colons, or its octets are
zeros, or it is written without separators and two equal octets stand between zeros. -/
theorem macIs_iff (h : s = lit "default" ∨ IsEui48 s) :
    MacIs (.str s) (Vf.macText (cText s)) ↔ MacKept (.str s) := by
  have hdefault : cText (lit "default") = "default".toList := by decide
  by_cases hs : s = lit "default"
  · subst hs
    refine iff_of_true (.inl ⟨rfl, ?_⟩) fun t ht => .inl (Json.str.inj ht).symm
    rw [hdefault, Vf.macText, if_pos rfl]
  have hchars := chars_of_isEui48 (h.resolve_left hs)
  have hascii := ascii_of_isEui48 (h.resolve_left hs)
  have htext : Vf.macText (cText s) = cText s := by
    refine if_neg fun heq => ?_
    have hu : 'u' ∈ cText s := by
      rw [heq]
      decide
    have := hchars _ (mem_of_mem_cText (fun c hc => (hascii c hc).trans (by decide)) (by decide) hu)
    revert this
    decide
  have hmac : MacIs (.str s) (Vf.macText (cText s)) ↔
      Vf.sppChangeMacStrToInt64 (cText s) = .ok (Nat.ofDigits 256 (octets s) : ℤ) := by
    rw [htext]
    constructor
    · rintro (⟨heq, -⟩ | ⟨t, heq, -, hvalue⟩)
      · exact absurd (Json.str.inj heq) hs
      · obtain rfl := Json.str.inj heq
        exact hvalue
    · exact fun hvalue => .inr ⟨s, rfl, h.resolve_left hs, hvalue⟩
  have hkept : MacKept (.str s) ↔ 58 ∈ s ∨ octets s = List.replicate 6 0 ∨
      45 ∉ s ∧ 46 ∉ s ∧ ∃ k < 128, octets s = [0, 0, k, k, 0, 0] := by
    constructor
    · exact fun hk => (hk s rfl).resolve_left hs
    · intro hk t ht
      obtain rfl := Json.str.inj ht
      exact .inr hk
  rw [hmac, hkept]
  obtain hcolon | hdash | hdot | ⟨hlength, hbare⟩ := h.resolve_left hs
  · exact iff_of_true (sppChangeMacStrToInt64_colon hcolon) (.inl (mem_of_hexFields hcolon (by decide)))
  · obtain ⟨hsix, hnot, hmem⟩ := octets_dash hdash
    have hlength := Vf.length_of_splitOn hdash.1 fun f hf => (hdash.2 f hf).1.2
    rw [sppChangeMacStrToInt64_separated hdash (by decide) (.inl rfl)
      (by unfold Vf.sppMinStrLen; omega), Except.ok.injEq, octets_eq_zero_iff hsix]
    simp [hnot, hmem]
  · obtain ⟨hsix, hnot, hmem⟩ := octets_dot hdot
    have hlength := Vf.length_of_splitOn hdot.1 fun f hf => (hdot.2 f hf).1.2
    rw [sppChangeMacStrToInt64_separated hdot (by decide) (.inr rfl)
      (by unfold Vf.sppMinStrLen; omega), Except.ok.injEq, octets_eq_zero_iff hsix]
    simp [hnot, hmem]
  · have hnot : 58 ∉ s ∧ 45 ∉ s ∧ 46 ∉ s := by
      refine ⟨fun hmem => ?_, fun hmem => ?_, fun hmem => ?_⟩
      · simpa [isHexDigit, isDigit] using hbare _ hmem
      · simpa [isHexDigit, isDigit] using hbare _ hmem
      · simpa [isHexDigit, isDigit] using hbare _ hmem
    have hoctets : octets s = (List.range 6).map fun i => hexValue s / 256 ^ (5 - i) % 256 := by
      rw [octets, if_neg hnot.1, if_neg hnot.2.1, if_neg hnot.2.2]
    obtain ⟨hvalue, hlt⟩ := sppChangeMacStrToInt64_bare hlength hbare
    rw [hvalue, Except.ok.injEq, hoctets, toInt_eq_ofDigits_iff hlt, ← hoctets]
    simp only [hnot, not_false_eq_true, true_and, false_or]
    refine ⟨.inr, ?_⟩
    rintro (hzero | hk)
    · exact ⟨0, by decide, hzero⟩
    · exact hk

end Notations

end Spp.Ctl.Agreement
