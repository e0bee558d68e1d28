import Mathlib.Algebra.Ring.Int.Defs
import Mathlib.Data.Int.Notation
import Mathlib.Data.List.DropRight
import Mathlib.Data.Nat.Notation

/-!
# Python values that come from JSON

The values that `json.loads` returns, and the built-in functions `int`, `str`,
`in`, `split` and `encode` on them as far as programs use them to check and to
print such values. Strings are lists of code points, which may be lone surrogates.
-/

namespace Python

/-- A `str`, by its code points. -/
abbrev Str := List ℕ

/-- The code points of a literal. -/
def lit (s : String) : Str := s.toList.map Char.toNat

/-- A `float`: its `str`, its value cut to an integer, which a NaN and the infinities
do not have, and whether it is zero. -/
structure Float where
  text : Str
  trunc : Option ℤ
  isZero : Bool
  deriving DecidableEq, Repr

/-- What `json.loads` returns. A `dict` is the list of its items. -/
inductive Json
  | null
  | bool (b : Bool)
  | int (n : ℤ)
  | float (x : Float)
  | str (s : Str)
  | list (xs : List Json)
  | dict (items : List (Str × Json))
  deriving Repr

/-- What depends on the version of the interpreter: the decimal digits and the blanks
beyond ASCII, and the texts of lists and dictionaries. -/
structure Interpreter where
  digit : ℕ → Option ℕ
  digit_lt : ∀ c d, digit c = some d → d < 10
  space : ℕ → Bool
  containerText : Json → Str

/-- An interpreter that knows ASCII only. -/
def Interpreter.ascii : Interpreter :=
  ⟨fun _ => none, fun _ _ h => (by cases h), fun _ => false, fun _ => []⟩

section Text

/-- A code point that UTF-8 has an encoding for. -/
def Encodable (c : ℕ) : Prop := c < 0xd800 ∨ 0xe000 ≤ c ∧ c < 0x110000

instance (c : ℕ) : Decidable (Encodable c) := inferInstanceAs (Decidable (_ ∨ _))

/-- The bytes of a code point in UTF-8. -/
def utf8 (c : ℕ) : List UInt8 :=
  if c < 0x80 then [.ofNat c]
  else if c < 0x800 then [.ofNat (0xc0 + c / 0x40), .ofNat (0x80 + c % 0x40)]
  else if c < 0x10000 then
    [.ofNat (0xe0 + c / 0x1000), .ofNat (0x80 + c / 0x40 % 0x40), .ofNat (0x80 + c % 0x40)]
  else
    [.ofNat (0xf0 + c / 0x40000), .ofNat (0x80 + c / 0x1000 % 0x40),
      .ofNat (0x80 + c / 0x40 % 0x40), .ofNat (0x80 + c % 0x40)]

/-- `encode()`; `none` is a `UnicodeEncodeError`. -/
def encode (s : Str) : Option (List UInt8) :=
  if ∀ c ∈ s, Encodable c then some (s.flatMap utf8) else none

/-- The decimal text of an integer. -/
def intText (n : ℤ) : Str := lit (toString n)

/-- The code points of a character can be encoded. -/
theorem encodable_toNat (c : Char) : Encodable c.toNat := by
  have hvalid := c.valid
  simp only [UInt32.isValidChar, Nat.isValidChar] at hvalid
  unfold Encodable Char.toNat
  omega

/-- A literal can be encoded. -/
theorem encodable_lit {s : String} {c : ℕ} (h : c ∈ lit s) : Encodable c := by
  obtain ⟨x, -, rfl⟩ := List.mem_map.mp h
  exact encodable_toNat x

/-- `str` with the text of lists and dictionaries. -/
def str (I : Interpreter) : Json → Str
  | .null => lit "None"
  | .bool true => lit "True"
  | .bool false => lit "False"
  | .int n => intText n
  | .float x => x.text
  | .str s => s
  | v => I.containerText v

end Text

section Numbers

variable (I : Interpreter)

/-- The character that `int` reads in place of another: the digits and blanks beyond
ASCII count as their ASCII counterparts. -/
def toAscii (c : ℕ) : ℕ :=
  if c < 128 then c
  else if I.space c then 32
  else
    match I.digit c with
    | some d => 48 + d
    | none => 63

/-- A blank of ASCII for `int`. -/
def isBlank (c : ℕ) : Bool := c = 32 || (9 ≤ c && c ≤ 13)

/-- A decimal digit of ASCII. -/
def isDigit (c : ℕ) : Bool := 48 ≤ c && c ≤ 57

/-- The value of decimal digits. -/
def digitsValue (ds : Str) : ℕ := ds.foldl (fun n c => n * 10 + (c - 48)) 0

/-- A sign and the text after it. -/
def scanSign : Str → Bool × Str
  | 45 :: rest => (true, rest)
  | 43 :: rest => (false, rest)
  | s => (false, s)

/-- Decimal digits with single underscores between them. -/
def scanDigits (s : Str) : Option ℕ :=
  let groups := s.splitOn 95
  if groups.all fun g => !g.isEmpty && g.all isDigit then some (digitsValue groups.flatten)
  else none

/-- `int` of a string; `none` is a `ValueError`. -/
def intOfStr (s : Str) : Option ℤ :=
  let text := ((s.map (toAscii I)).dropWhile isBlank).rdropWhile isBlank
  let (negative, digits) := scanSign text
  (scanDigits digits).map fun n : ℕ => if negative then -(n : ℤ) else (n : ℤ)

/-- `int`; `none` is a `ValueError`, an `OverflowError` or a `TypeError`. -/
def int : Json → Option ℤ
  | .bool b => some (if b then 1 else 0)
  | .int n => some n
  | .float x => x.trunc
  | .str s => intOfStr I s
  | _ => none

/-- The number that `%d` prints. -/
def percentD : Json → Option ℤ
  | .bool b => some (if b then 1 else 0)
  | .int n => some n
  | .float x => x.trunc
  | _ => none

variable {I}

/-- A decimal digit is not a blank. -/
theorem isBlank_of_isDigit {c : ℕ} (h : isDigit c = true) : isBlank c = false := by
  simp only [isDigit, isBlank, Bool.and_eq_true, decide_eq_true_eq] at h ⊢
  simp only [Bool.or_eq_false_iff, decide_eq_false_iff_not, Bool.and_eq_false_iff]
  omega

/-- `int` leaves decimal digits as they are. -/
theorem toAscii_of_isDigit {c : ℕ} (h : isDigit c = true) : toAscii I c = c := by
  simp only [isDigit, Bool.and_eq_true, decide_eq_true_eq] at h
  rw [toAscii, if_pos (by omega)]

/-- Digits have no sign in front. -/
theorem scanSign_digits {s : Str} (h : ∀ c ∈ s, isDigit c = true) :
    scanSign s = (false, s) := by
  unfold scanSign
  split
  · exact absurd (h 45 List.mem_cons_self) (by decide)
  · exact absurd (h 43 List.mem_cons_self) (by decide)
  · rfl

/-- Digits are one group. -/
theorem scanDigits_digits {s : Str} (hne : s ≠ []) (h : ∀ c ∈ s, isDigit c = true) :
    scanDigits s = some (digitsValue s) := by
  have hgroups : s.splitOn 95 = [s] :=
    List.splitOn_eq_singleton fun hmem => absurd (h 95 hmem) (by decide)
  have hall : s.all isDigit = true := List.all_eq_true.mpr h
  simp [scanDigits, hgroups, hne, hall]

/-- Blanks around other characters are cut off alone. -/
theorem strip_of_not_blank {s : Str} (h : ∀ c ∈ s, isBlank c = false) :
    (s.dropWhile isBlank).rdropWhile isBlank = s := by
  have hdrop : s.dropWhile isBlank = s := by
    cases s with
    | nil => rfl
    | cons c s => rw [List.dropWhile_cons_of_neg]; simp [h c List.mem_cons_self]
  rw [hdrop, List.rdropWhile_eq_self_iff]
  intro hs hblank
  have hfalse := h _ (List.getLast_mem hs)
  rw [hfalse] at hblank
  cases hblank

/-- `int` reads decimal digits. -/
theorem intOfStr_digits {s : Str} (hne : s ≠ []) (h : ∀ c ∈ s, isDigit c = true) :
    intOfStr I s = some (digitsValue s : ℤ) := by
  have hmap : s.map (toAscii I) = s := by
    conv_rhs => rw [← List.map_id s]
    exact List.map_congr_left fun c hc => toAscii_of_isDigit (h c hc)
  simp only [intOfStr, hmap, strip_of_not_blank fun c hc => isBlank_of_isDigit (h c hc),
    scanSign_digits h, scanDigits_digits hne h, Option.map_some, Bool.false_eq_true, if_false]

end Numbers

/-- Whether a value counts as true. -/
def Json.truthy : Json → Bool
  | .null => false
  | .bool b => b
  | .int n => n ≠ 0
  | .float x => !x.isZero
  | .str s => !s.isEmpty
  | .list xs => !xs.isEmpty
  | .dict items => !items.isEmpty

/-- `v == s` for a string `s`. -/
def Json.eqStr (v : Json) (s : Str) : Bool :=
  match v with
  | .str t => t = s
  | _ => false

/-- `v in strings`. -/
def Json.inStrs (v : Json) (strings : List String) : Bool := strings.any fun s => v.eqStr (lit s)

/-- A value that is found in a list of strings is one of them. -/
theorem Json.inStrs_eq_true {v : Json} {strings : List String} :
    v.inStrs strings = true ↔ ∃ s ∈ strings, v = .str (lit s) := by
  unfold Json.inStrs
  rw [List.any_eq_true]
  constructor
  · rintro ⟨s, hs, heq⟩
    cases v with
    | str t => exact ⟨s, hs, congrArg Json.str (of_decide_eq_true heq)⟩
    | _ => cases heq
  · rintro ⟨s, hs, rfl⟩
    exact ⟨s, hs, decide_eq_true rfl⟩

/-- A string in a comparison with another one. -/
@[simp] theorem Json.eqStr_str (t s : Str) : (Json.str t).eqStr s = decide (t = s) := rfl

example : intOfStr .ascii (lit " -1_0 ") = some (-10) := by decide

end Python
