import Mathlib.Algebra.Ring.Int.Defs
import Mathlib.Algebra.Ring.Nat
import Mathlib.Data.Int.Notation

/-!
# Integers as floating point numbers

The `double` of an unsigned integer of 64 bits, which has 53 bits of it, and its way back to a
signed integer of 64 bits.
-/

namespace CLib

/-- A `uint64_t` converted to `double`: 53 bits, rounded to nearest and to even. -/
def toDouble (n : ℕ) : ℕ :=
  if n < 2 ^ 53 then n
  else
    let unit := 2 ^ (n.log2 - 52)
    let up := unit < 2 * (n % unit) ∨ unit = 2 * (n % unit) ∧ n / unit % 2 = 1
    (if up then n / unit + 1 else n / unit) * unit

/-- A `uint64_t` converted to `int64_t`. -/
def toInt64 (n : ℕ) : ℤ := if n < 2 ^ 63 then n else n - 2 ^ 64

/-- A number from `2 ^ 53` on and below `2 ^ 63`, as its leading 53 bits and the rest. -/
theorem log2_split {n : ℕ} (hle : 2 ^ 53 ≤ n) (hlt : n < 2 ^ 63) :
    ∃ e, 1 ≤ e ∧ e ≤ 10 ∧ n.log2 - 52 = e ∧ 2 ^ 52 ≤ n / 2 ^ e ∧ n / 2 ^ e < 2 ^ 53 := by
  have hne : n ≠ 0 := by omega
  have hlow : 53 ≤ n.log2 := (Nat.le_log2 hne).mpr hle
  have hhigh : n.log2 < 63 := (Nat.log2_lt hne).mpr hlt
  obtain ⟨e, he⟩ : ∃ e, n.log2 = 52 + e := ⟨n.log2 - 52, by omega⟩
  have hself := Nat.log2_self_le hne
  have hnext := @Nat.lt_log2_self n
  rw [he, Nat.pow_add] at hself
  rw [he, show 52 + e + 1 = 53 + e by omega, Nat.pow_add] at hnext
  refine ⟨e, by omega, by omega, by omega, ?_, ?_⟩
  · exact (Nat.le_div_iff_mul_le (Nat.two_pow_pos e)).mpr hself
  · exact (Nat.div_lt_iff_lt_mul (Nat.two_pow_pos e)).mpr hnext

/-- A number from `2 ^ 53` on stays so. -/
theorem le_toDouble {n : ℕ} (hle : 2 ^ 53 ≤ n) (hlt : n < 2 ^ 63) : 2 ^ 53 ≤ toDouble n := by
  obtain ⟨e, hpos, -, he, hlead, -⟩ := log2_split hle hlt
  unfold toDouble
  rw [if_neg (by omega), he]
  dsimp only
  have hunit : 2 ^ 1 ≤ 2 ^ e := Nat.pow_le_pow_right (by decide) hpos
  have hfactor : 2 ^ 52 ≤ if 2 ^ e < 2 * (n % 2 ^ e) ∨ 2 ^ e = 2 * (n % 2 ^ e) ∧
      n / 2 ^ e % 2 = 1 then n / 2 ^ e + 1 else n / 2 ^ e := by
    split <;> omega
  calc 2 ^ 53 = 2 ^ 52 * 2 ^ 1 := by decide
    _ ≤ _ := Nat.mul_le_mul hfactor hunit

/-- A number that is not rounded to `2 ^ 63` stays below it. -/
theorem toDouble_lt {n : ℕ} (hle : 2 ^ 53 ≤ n) (hlt : n < 2 ^ 63 - 512) :
    toDouble n < 2 ^ 63 := by
  obtain ⟨e, hpos, hten, he, -, hlead⟩ := log2_split hle (by omega)
  unfold toDouble
  rw [if_neg (by omega), he]
  dsimp only
  by_cases heq : e = 10
  · subst heq
    have hmod := Nat.div_add_mod n (2 ^ 10)
    split
    · rename_i hup
      omega
    · omega
  · have hunit : 2 ^ e ≤ 2 ^ 9 := Nat.pow_le_pow_right (by decide) (by omega)
    have hfactor : (if 2 ^ e < 2 * (n % 2 ^ e) ∨ 2 ^ e = 2 * (n % 2 ^ e) ∧
        n / 2 ^ e % 2 = 1 then n / 2 ^ e + 1 else n / 2 ^ e) ≤ 2 ^ 53 := by
      split <;> omega
    calc _ ≤ 2 ^ 53 * 2 ^ 9 := Nat.mul_le_mul hfactor hunit
      _ < 2 ^ 63 := by decide

end CLib
