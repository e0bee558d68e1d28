import Spp.Lib.CString
import Spp.Lib.Python

/-!
# Python strings as C strings

The bytes of a `str` in UTF-8, as the characters of a C string. Characters below
128 stand for themselves, and no byte of another character is below 128.
-/

namespace Python

open CLib

/-- The character of a byte. -/
def byteChar (b : UInt8) : Char := Char.ofNat b.toNat

/-- The characters of the bytes of a string. -/
def cText (s : Str) : CStr := (s.flatMap utf8).map byteChar

/-- A byte is the number of its character. -/
theorem toNat_byteChar (b : UInt8) : (byteChar b).toNat = b.toNat := by
  have hlt : b.toNat < 256 := b.toNat_lt
  have hvalid : b.toNat.isValidChar := Or.inl (by omega)
  unfold byteChar Char.ofNat
  rw [dif_pos hvalid]
  rfl

/-- A character below 128 is its own byte. -/
theorem byteChar_ofNat {c : ℕ} (h : c < 128) : byteChar (.ofNat c) = Char.ofNat c := by
  unfold byteChar
  rw [UInt8.toNat_ofNat', Nat.mod_eq_of_lt (by omega)]

/-- The code of a character below 128. -/
theorem toNat_ofNat_ascii {c : ℕ} (h : c < 128) : (Char.ofNat c).toNat = c := by
  rw [← byteChar_ofNat h, toNat_byteChar, UInt8.toNat_ofNat', Nat.mod_eq_of_lt (by omega)]

/-- A byte below 128 of a code point is the code point. -/
theorem toNat_eq_of_mem_utf8 {c : ℕ} {b : UInt8} (h : c < 0x110000) (hb : b ∈ utf8 c)
    (hlt : b.toNat < 128) : b.toNat = c := by
  unfold utf8 at hb
  split at hb
  · rw [List.mem_singleton.mp hb, UInt8.toNat_ofNat']
    omega
  -- the bytes of longer sequences are 128 or more
  · exfalso
    split at hb
    · simp only [List.mem_cons, List.not_mem_nil, or_false] at hb
      obtain rfl | rfl := hb
      all_goals
        rw [UInt8.toNat_ofNat'] at hlt
        omega
    split at hb
    · simp only [List.mem_cons, List.not_mem_nil, or_false] at hb
      obtain rfl | rfl | rfl := hb
      all_goals
        rw [UInt8.toNat_ofNat'] at hlt
        omega
    · simp only [List.mem_cons, List.not_mem_nil, or_false] at hb
      obtain rfl | rfl | rfl | rfl := hb
      all_goals
        rw [UInt8.toNat_ofNat'] at hlt
        omega

/-- A code point has at least one byte. -/
theorem utf8_ne_nil (c : ℕ) : utf8 c ≠ [] := by
  unfold utf8
  split
  · simp
  split
  · simp
  split <;> simp

/-- A code point below 128 is one byte. -/
theorem utf8_ascii {c : ℕ} (h : c < 128) : utf8 c = [.ofNat c] := if_pos h

/-- The text of the empty string is empty. -/
@[simp] theorem cText_nil : cText [] = [] := rfl

/-- Encoding goes code point by code point. -/
theorem cText_cons (c : ℕ) (s : Str) : cText (c :: s) = (utf8 c).map byteChar ++ cText s := by
  simp [cText]

/-- Characters below 128 are their own C text. -/
theorem cText_of_ascii {s : Str} (h : ∀ c ∈ s, c < 128) : cText s = s.map Char.ofNat := by
  induction s with
  | nil => rfl
  | cons c s ih =>
    have hc := h c List.mem_cons_self
    rw [cText_cons, utf8_ascii hc, ih fun d hd => h d (List.mem_cons_of_mem c hd)]
    simp [byteChar_ofNat hc]

/-- The parts of a C text are the C texts of the parts. -/
theorem splitOn_cText {s : Str} {d : ℕ} (h : ∀ c ∈ s, c < 128) (hd : d < 128) :
    (cText s).splitOn (Char.ofNat d) = (s.splitOn d).map cText := by
  have hinj : ∀ c ∈ s, Char.ofNat c = Char.ofNat d → c = d := fun c hc heq => by
    rw [← toNat_ofNat_ascii (h c hc), heq, toNat_ofNat_ascii hd]
  rw [cText_of_ascii h, splitOn_map hinj]
  exact List.map_congr_left fun g hg =>
    (cText_of_ascii fun c hc => h c (mem_of_mem_splitOn hg hc)).symm

/-- Encoding commutes with concatenation. -/
theorem cText_append (s t : Str) : cText (s ++ t) = cText s ++ cText t := by
  simp [cText]

/-- Only the empty string has an empty text. -/
theorem cText_eq_nil {s : Str} : cText s = [] ↔ s = [] := by
  cases s with
  | nil => simp
  | cons c s => simp [cText_cons, utf8_ne_nil]

/-- The text of a string has a character below 128 only if the string has it. -/
theorem mem_of_mem_cText {s : Str} {d : Char} (h : ∀ c ∈ s, c < 0x110000) (hd : d.toNat < 128)
    (hmem : d ∈ cText s) : d.toNat ∈ s := by
  obtain ⟨b, hb, rfl⟩ := List.mem_map.mp hmem
  obtain ⟨c, hc, hbc⟩ := List.mem_flatMap.mp hb
  rw [toNat_byteChar] at hd ⊢
  rw [toNat_eq_of_mem_utf8 (h c hc) hbc hd]
  exact hc

/-- The text of a string has every character below 128 that the string has. -/
theorem mem_cText {s : Str} {c : ℕ} (hlt : c < 128) (hc : c ∈ s) : Char.ofNat c ∈ cText s := by
  have hb : UInt8.ofNat c ∈ s.flatMap utf8 :=
    List.mem_flatMap.mpr ⟨c, hc, by rw [utf8_ascii hlt]; exact List.mem_singleton_self _⟩
  exact List.mem_map.mpr ⟨_, hb, byteChar_ofNat hlt⟩

/-- The text of a string begins with a character below 128 exactly if the string
does. -/
theorem head?_cText {s : Str} {d : Char} (h : ∀ c ∈ s, c < 0x110000) (hd : d.toNat < 128) :
    (cText s).head? = some d ↔ s.head? = some d.toNat := by
  cases s with
  | nil => simp
  | cons c s =>
    obtain ⟨b, bs, hbytes⟩ := List.exists_cons_of_ne_nil (utf8_ne_nil c)
    rw [cText_cons, hbytes]
    simp only [List.map_cons, List.cons_append, List.head?_cons, Option.some.injEq]
    constructor
    · rintro rfl
      rw [toNat_byteChar] at hd ⊢
      have hb : b ∈ utf8 c := by rw [hbytes]; exact List.mem_cons_self
      exact (toNat_eq_of_mem_utf8 (h c List.mem_cons_self) hb hd).symm
    · rintro rfl
      rw [utf8_ascii hd] at hbytes
      cases hbytes
      rw [byteChar_ofNat hd]
      exact Char.ofNat_toNat d

/-- The text of words with blanks between them. -/
theorem cText_intercalate (words : List Str) :
    cText ([32].intercalate words) = [' '].intercalate (words.map cText) := by
  induction words with
  | nil => rfl
  | cons w words ih =>
    cases words with
    | nil => simp [List.intercalate]
    | cons v words =>
      have hcut : [32].intercalate (w :: v :: words) =
          w ++ [32] ++ [32].intercalate (v :: words) := by
        simp [List.intercalate]
      have hblank : cText [32] = [' '] := by decide
      rw [hcut, cText_append, cText_append, ih, hblank]
      simp [List.intercalate]

end Python
