import Mathlib.Algebra.Ring.Int.Defs
import Mathlib.Algebra.Ring.Nat
import Mathlib.Data.Int.Notation
import Mathlib.Data.Nat.Notation

/-!
# C strings and the number scanners of the C library

A C string is its list of characters before the terminator. The functions
here follow `strtok_r`, `strtol` and `strtoul` of the C library, with `long`
of 64 bits and `int` of 32 bits. They carry the names of the C functions.
-/

namespace CLib

/-- The characters of a C string before its terminating NUL. -/
abbrev CStr := List Char

/-- The terminator of a C string. -/
def nul : Char := Char.ofNat 0

/-- The C string that starts a block of memory. -/
def stringAt (mem : List Char) : CStr := mem.takeWhile (· ≠ nul)

/-- `strlen`. -/
def strlen (mem : List Char) : ℕ := (stringAt mem).length

/-- The string before a terminator. -/
theorem stringAt_append_nul {s rest : List Char} (h : nul ∉ s) :
    stringAt (s ++ nul :: rest) = s := by
  unfold stringAt
  rw [List.takeWhile_append_of_pos]
  · simp
  · intro c hc
    simpa using fun heq : c = nul => h (heq ▸ hc)

/-- The tokens that successive calls of `strtok_r` with the single delimiter
`d` return: the non-empty runs between delimiters. -/
def strtok (d : Char) (s : CStr) : List CStr :=
  (s.splitOn d).filter (fun t => !t.isEmpty)

/-- A text without delimiters is one token. -/
theorem strtok_eq_singleton {d : Char} {t : CStr} (hne : t ≠ []) (hd : d ∉ t) :
    strtok d t = [t] := by
  simp [strtok, List.splitOn_eq_singleton hd, hne]

/-- Texts with delimiters between them are tokenised one by one. -/
theorem strtok_intercalate (d : Char) (ts : List CStr) :
    strtok d ([d].intercalate ts) = ts.flatMap (strtok d) := by
  induction ts with
  | nil => simp [strtok]
  | cons t ts ih =>
    cases ts with
    | nil => simp [List.intercalate]
    | cons u ts =>
      have hcut : [d].intercalate (t :: u :: ts) = t ++ d :: [d].intercalate (u :: ts) := by
        simp [List.intercalate]
      rw [List.flatMap_cons, ← ih, hcut]
      simp only [strtok, List.splitOn_append_cons_self, List.filter_append]

/-- The elements of a part are elements of what is split. -/
theorem mem_of_mem_splitOn {α : Type*} [DecidableEq α] {a x : α} {l g : List α}
    (hg : g ∈ l.splitOn a) (hx : x ∈ g) : x ∈ l := by
  have hmem : ∀ gs : List (List α), g ∈ gs → x ∈ [a].intercalate gs := by
    intro gs hgs
    induction gs with
    | nil => exact absurd hgs List.not_mem_nil
    | cons h gs ih =>
      cases gs with
      | nil =>
        obtain rfl := List.mem_singleton.mp hgs
        simpa [List.intercalate] using hx
      | cons v gs =>
        have hcut : [a].intercalate (h :: v :: gs) = h ++ a :: [a].intercalate (v :: gs) := by
          simp [List.intercalate]
        rw [hcut, List.mem_append, List.mem_cons]
        obtain rfl | hgs := List.mem_cons.mp hgs
        · exact .inl hx
        · exact .inr (.inr (ih hgs))
  have hjoin : [a].intercalate (l.splitOn a) = l := List.intercalate_splitOn a
  rw [← hjoin]
  exact hmem _ hg

/-- Splitting goes through a map that keeps the separator apart. -/
theorem splitOn_map {α β : Type*} [DecidableEq α] [DecidableEq β] {f : α → β} {a : α} {l : List α}
    (h : ∀ x ∈ l, f x = f a → x = a) : (l.map f).splitOn (f a) = (l.splitOn a).map (List.map f) := by
  induction l with
  | nil => simp
  | cons x l ih =>
    have hx := h x List.mem_cons_self
    rw [List.map_cons, List.splitOn_cons_eq_if_modifyHead, List.splitOn_cons_eq_if_modifyHead,
      ih fun y hy => h y (List.mem_cons_of_mem x hy)]
    by_cases heq : x = a
    · simp [heq]
    · have hne : f x ≠ f a := fun hf => heq (hx hf)
      obtain ⟨g, gs, hsplit⟩ := List.exists_cons_of_ne_nil (List.splitOn_ne_nil a l)
      simp [heq, hne, hsplit]

/-- The characters of a token are characters of the text. -/
theorem mem_of_mem_strtok {d c : Char} {s t : CStr} (ht : t ∈ strtok d s) (hc : c ∈ t) : c ∈ s :=
  mem_of_mem_splitOn (List.mem_filter.mp ht).1 hc

/-- `strtok_r` never returns an empty token. -/
theorem ne_nil_of_mem_strtok {d : Char} {s t : CStr} (h : t ∈ strtok d s) : t ≠ [] := by
  simpa using (List.mem_filter.mp h).2

/-- `isspace` in the C locale. -/
def isSpace (c : Char) : Bool :=
  c = ' ' || (9 ≤ c.toNat && c.toNat ≤ 13)

/-- The value of a character as a digit of the largest base, thirty-six. -/
def digitVal (c : Char) : Option ℕ :=
  if '0' ≤ c ∧ c ≤ '9' then some (c.toNat - '0'.toNat)
  else if 'a' ≤ c ∧ c ≤ 'z' then some (c.toNat - 'a'.toNat + 10)
  else if 'A' ≤ c ∧ c ≤ 'Z' then some (c.toNat - 'A'.toNat + 10)
  else none

/-- A character is a digit of the given base. -/
def isDigit (base : ℕ) (c : Char) : Bool :=
  match digitVal c with
  | some v => v < base
  | none => false

/-- The value of a digit string, most significant digit first. -/
def digitsValue (base : ℕ) (ds : CStr) : ℕ :=
  ds.foldl (fun n c => n * base + (digitVal c).getD 0) 0

/-- The base that `strtol` settles on and the text where the digits start. A
prefix `0x` counts only when a hexadecimal digit follows it. -/
def scanBase (base : ℕ) (s : CStr) : ℕ × CStr :=
  match s with
  | '0' :: x :: c :: rest =>
    if (base = 0 ∨ base = 16) ∧ (x = 'x' ∨ x = 'X') ∧ isDigit 16 c = true then (16, c :: rest)
    else if base = 0 then (8, s) else (base, s)
  | '0' :: _ => if base = 0 then (8, s) else (base, s)
  | _ => if base = 0 then (10, s) else (base, s)

/-- The sign in front of a number, and the text after it. -/
def scanSign : CStr → Bool × CStr
  | '-' :: rest => (true, rest)
  | '+' :: rest => (false, rest)
  | s => (false, s)

/-- The common scanner of `strtol` and `strtoul`: sign, magnitude and the text
at `endptr`. `none` is the case in which no conversion is performed, where
`endptr` is the start of the string. -/
def scanNumber (base : ℕ) (s : CStr) : Option (Bool × ℕ × CStr) :=
  let (negative, unsigned) := scanSign (s.dropWhile isSpace)
  let (b, text) := scanBase base unsigned
  let digits := text.takeWhile (isDigit b)
  if digits.isEmpty then none
  else some (negative, digitsValue b digits, text.dropWhile (isDigit b))

/-- `strtol`: the value, clamped to `long`, and the text at `endptr`. -/
def strtol (base : ℕ) (s : CStr) : Option (ℤ × CStr) :=
  (scanNumber base s).map fun (negative, magnitude, rest) =>
    (if negative then max (-(magnitude : ℤ)) (-(2 ^ 63)) else min (magnitude : ℤ) (2 ^ 63 - 1), rest)

/-- `strtoul`: the value, clamped to `unsigned long` and then negated modulo
`2 ^ 64` if a minus sign was read, and the text at `endptr`. -/
def strtoul (base : ℕ) (s : CStr) : Option (ℕ × CStr) :=
  (scanNumber base s).map fun (negative, magnitude, rest) =>
    (if 2 ^ 64 ≤ magnitude then 2 ^ 64 - 1
     else if negative then (2 ^ 64 - magnitude) % 2 ^ 64 else magnitude, rest)

/-- Conversion of a `long` to `int`. -/
def toInt (v : ℤ) : ℤ := v.bmod (2 ^ 32)

/-- Conversion of an `unsigned long` to `unsigned int`. -/
def toUInt (v : ℕ) : ℕ := v % 2 ^ 32

/-- The integer that a string denotes as a whole, in the notations of base zero
and whatever its size. -/
def intLiteral (s : CStr) : Option ℤ :=
  match scanNumber 0 s with
  | some (negative, magnitude, []) => some (if negative then -(magnitude : ℤ) else magnitude)
  | _ => none

/-- What `strtol` reads of a whole string, cut down to `int`, is the denoted
integer iff that is an `int`. -/
theorem toInt_strtol_eq {s : CStr} {v : ℤ} (h : strtol 0 s = some (v, [])) :
    ∃ z, intLiteral s = some z ∧ (toInt v = z ↔ -2 ^ 31 ≤ z ∧ z < 2 ^ 31) := by
  obtain ⟨⟨negative, magnitude, rest⟩, hscan, hv⟩ := Option.map_eq_some_iff.mp h
  dsimp only at hv
  obtain ⟨hval, rfl⟩ := Prod.mk.inj hv
  have hle := Int.le_bmod (x := v) (m := 2 ^ 32) (by decide)
  have hlt := Int.bmod_lt (x := v) (m := 2 ^ 32) (by decide)
  refine ⟨if negative then -(magnitude : ℤ) else magnitude, by simp only [intLiteral, hscan], ?_⟩
  unfold toInt
  cases negative
  · simp only [Bool.false_eq_true, if_false, Int.min_def] at hval ⊢
    constructor
    · intro heq
      omega
    · intro hrange
      have hv : v = magnitude := by
        split at hval <;> omega
      rw [← hv] at hrange ⊢
      exact Int.bmod_eq_of_le (by omega) (by omega)
  · simp only [if_true, Int.max_def] at hval ⊢
    constructor
    · intro heq
      omega
    · intro hrange
      have hv : v = -(magnitude : ℤ) := by
        split at hval <;> omega
      rw [← hv] at hrange ⊢
      exact Int.bmod_eq_of_le (by omega) (by omega)

/-- What `strtoul` reads of a whole string, cut down to `unsigned int`, is the
denoted integer iff that is an `unsigned int`. -/
theorem toUInt_strtoul_eq {s : CStr} {v : ℕ} (h : strtoul 0 s = some (v, [])) :
    ∃ z, intLiteral s = some z ∧ ((toUInt v : ℤ) = z ↔ 0 ≤ z ∧ z < 2 ^ 32) := by
  obtain ⟨⟨negative, magnitude, rest⟩, hscan, hv⟩ := Option.map_eq_some_iff.mp h
  dsimp only at hv
  obtain ⟨hval, rfl⟩ := Prod.mk.inj hv
  refine ⟨if negative then -(magnitude : ℤ) else magnitude, by simp only [intLiteral, hscan], ?_⟩
  unfold toUInt
  cases negative
  · simp only [Bool.false_eq_true, if_false] at hval ⊢
    by_cases hbig : 2 ^ 64 ≤ magnitude
    · rw [if_pos hbig] at hval
      omega
    · rw [if_neg hbig] at hval
      omega
  · simp only [if_true] at hval ⊢
    by_cases hbig : 2 ^ 64 ≤ magnitude
    · rw [if_pos hbig] at hval
      omega
    · rw [if_neg hbig] at hval
      omega

example : (strtol 0 "0x1f".toList, strtol 0 "08".toList, strtol 0 "-".toList) =
    (some (31, []), some (0, ['8']), none) := by decide

end CLib
