import Mathlib.Data.List.TakeWhile
import Mathlib.Data.Nat.Digits.Defs
import Mathlib.Tactic.Ring
import Spp.Vf.CommandGrammar

/-!
# The values of well-formed tokens

What the decoder makes of a number in the range of its field, of a resource UID
that denotes a port, and of a MAC address in six fields of one or two
hexadecimal digits: the number whose lowest byte is the first field.
-/

namespace Spp.Vf

open CLib

section Numbers

/-- `get_int_value` reads a number that is in range. -/
theorem getIntValue_of_literal {token : CStr} {lo hi z : ℤ} (h : intLiteral token = some z)
    (hint : -2 ^ 31 ≤ z ∧ z < 2 ^ 31) (hrange : lo ≤ z ∧ z ≤ hi) :
    getIntValue token lo hi = .ok z := by
  have hscan : ∃ v, strtol 0 token = some (v, []) := by
    unfold intLiteral at h
    split at h
    · rename_i negative magnitude hscan
      exact ⟨_, by rw [strtol, hscan, Option.map_some]⟩
    · cases h
  obtain ⟨v, hv⟩ := hscan
  obtain ⟨z', hz', hfits⟩ := toInt_strtol_eq hv
  obtain rfl : z = z' := Option.some.inj (h.symm.trans hz')
  have hvalue : toInt v = z := hfits.mpr hint
  simp only [getIntValue, hv, hvalue]
  rw [if_neg (by omega)]

/-- A resource UID that denotes a port is converted to it. -/
theorem sppConvertPortToIface_of_denotes {uid : CStr} {port : PortIndex}
    (h : DenotesPort uid port) (hint : -2 ^ 31 ≤ port.ifaceNo ∧ port.ifaceNo < 2 ^ 31) :
    sppConvertPortToIface uid = .ok port := by
  obtain ⟨word, hword, huid, hnumber⟩ := h
  generalize uidNumber uid = number at huid hnumber
  have hscan : ∃ v, strtol 0 number = some (v, []) ∧ toInt v = port.ifaceNo := by
    have hvalue := getIntValue_of_literal hnumber hint ⟨Int.le_refl _, Int.le_refl _⟩
    unfold getIntValue at hvalue
    split at hvalue
    · rename_i v hv
      dsimp only at hvalue
      split at hvalue
      · cases hvalue
      · exact ⟨v, hv, Except.ok.inj hvalue⟩
    · cases hvalue
  obtain ⟨v, hv, hno⟩ := hscan
  have hport : ∀ type, port.ifaceType = type → (⟨type, toInt v⟩ : PortIndex) = port := by
    rintro type rfl
    rw [hno]
  subst huid
  simp only [portTypeWords, List.mem_cons, Prod.mk.injEq, List.not_mem_nil, or_false] at hword
  rcases hword with ⟨rfl, htype⟩ | ⟨rfl, htype⟩ | ⟨rfl, htype⟩
  · simp [sppConvertPortToIface, stripPrefix, hv, hport _ htype]
  · simp [sppConvertPortToIface, stripPrefix, hv, hport _ htype]
  · simp [sppConvertPortToIface, stripPrefix, hv, hport _ htype]

end Numbers

section Mac

/-- A field of an address: one or two hexadecimal digits. -/
def IsHexField (field : CStr) : Prop :=
  (1 ≤ field.length ∧ field.length ≤ 2) ∧ ∀ c ∈ field, isDigit 16 c = true

/-- The value of an address in fields, whose first is the lowest byte. -/
def macValue (mac : CStr) : ℕ := Nat.ofDigits 256 ((mac.splitOn ':').map (digitsValue 16))

/-- A character with a value as a hexadecimal digit. -/
theorem digitVal_of_isDigit {c : Char} (h : isDigit 16 c = true) :
    ∃ v, digitVal c = some v ∧ v < 16 := by
  unfold isDigit at h
  cases hv : digitVal c with
  | none =>
    rw [hv] at h
    cases h
  | some v =>
    rw [hv] at h
    exact ⟨v, rfl, of_decide_eq_true h⟩

/-- A hexadecimal digit is no blank. -/
theorem isSpace_of_isDigit {c : Char} (h : isDigit 16 c = true) : isSpace c = false := by
  obtain ⟨v, hv, -⟩ := digitVal_of_isDigit h
  by_contra hspace
  rw [Bool.not_eq_false, isSpace, Bool.or_eq_true, Bool.and_eq_true, decide_eq_true_eq,
    decide_eq_true_eq, decide_eq_true_eq] at hspace
  have hlow : c.toNat ≤ 32 := by
    rcases hspace with rfl | ⟨-, hle⟩
    · decide
    · omega
  have hbound : ∀ d : Char, 48 ≤ d.toNat → ¬ d ≤ c := by
    intro d hd hle
    have hle' : d.toNat ≤ c.toNat := hle
    omega
  rw [digitVal, if_neg (fun h => hbound '0' (by decide) h.1),
    if_neg (fun h => hbound 'a' (by decide) h.1),
    if_neg (fun h => hbound 'A' (by decide) h.1)] at hv
  cases hv

/-- `strtol` reads a run of hexadecimal digits up to the character after it. -/
theorem strtol_digits {field rest : CStr} (hne : field ≠ [])
    (hdigits : ∀ c ∈ field, isDigit 16 c = true)
    (hrest : ∀ c ∈ rest.head?, isDigit 16 c = false ∧ c ≠ 'x' ∧ c ≠ 'X') :
    CLib.strtol 16 (field ++ rest) = some (min (digitsValue 16 field : ℤ) (2 ^ 63 - 1), rest) := by
  obtain ⟨a, field, rfl⟩ := List.exists_cons_of_ne_nil hne
  have ha := hdigits a List.mem_cons_self
  have hspace : (a :: field ++ rest).dropWhile isSpace = a :: field ++ rest := by
    rw [List.cons_append, List.dropWhile_cons_of_neg]
    simp [isSpace_of_isDigit ha]
  have hsign : scanSign (a :: field ++ rest) = (false, a :: field ++ rest) := by
    rw [List.cons_append]
    unfold scanSign
    split
    · rename_i heq
      obtain ⟨rfl, -⟩ := List.cons.inj heq
      exact absurd ha (by decide)
    · rename_i heq
      obtain ⟨rfl, -⟩ := List.cons.inj heq
      exact absurd ha (by decide)
    · rfl
  -- The character after a zero is a digit or the first one of the rest: it is no `x`.
  have hnotX : ∀ x xs, field ++ rest = x :: xs → x ≠ 'x' ∧ x ≠ 'X' := by
    intro x xs heq
    cases field with
    | nil =>
      rw [List.nil_append] at heq
      exact (hrest x (by rw [heq]; rfl)).2
    | cons b field =>
      obtain ⟨rfl, -⟩ := List.cons.inj heq
      have hb := hdigits b (by simp)
      refine ⟨?_, ?_⟩
      · rintro rfl
        exact absurd hb (by decide)
      · rintro rfl
        exact absurd hb (by decide)
  have hbase : scanBase 16 (a :: field ++ rest) = (16, a :: field ++ rest) := by
    rw [List.cons_append]
    unfold scanBase
    split
    · rename_i heq
      obtain ⟨-, htail⟩ := List.cons.inj heq
      obtain ⟨hx, hX⟩ := hnotX _ _ htail
      simp [hx, hX]
    · rfl
    · rfl
  have hnone : rest.takeWhile (isDigit 16) = [] ∧ rest.dropWhile (isDigit 16) = rest := by
    cases rest with
    | nil => exact ⟨rfl, rfl⟩
    | cons c rest =>
      have hc : ¬ isDigit 16 c = true := by simp [(hrest c rfl).1]
      exact ⟨List.takeWhile_cons_of_neg hc, List.dropWhile_cons_of_neg hc⟩
  have htake : (a :: field ++ rest).takeWhile (isDigit 16) = a :: field := by
    rw [List.takeWhile_append_of_pos hdigits, hnone.1, List.append_nil]
  have hdrop : (a :: field ++ rest).dropWhile (isDigit 16) = rest := by
    rw [List.dropWhile_append_of_pos hdigits, hnone.2]
  simp only [CLib.strtol, scanNumber, hspace, hsign, hbase, htake, hdrop, List.isEmpty_cons,
    Bool.false_eq_true, if_false, Option.map_some]

/-- The value of a field is a byte. -/
theorem IsHexField.value_lt {field : CStr} (h : IsHexField field) : digitsValue 16 field < 256 := by
  obtain ⟨⟨hlo, hhi⟩, hdigits⟩ := h
  match field, hlo, hhi with
  | [a], _, _ =>
    obtain ⟨v, hv, hlt⟩ := digitVal_of_isDigit (hdigits a (by simp))
    simp only [digitsValue, List.foldl_cons, List.foldl_nil, hv, Option.getD_some]
    omega
  | [a, b], _, _ =>
    obtain ⟨v, hv, hlt⟩ := digitVal_of_isDigit (hdigits a (by simp))
    obtain ⟨w, hw, hlt'⟩ := digitVal_of_isDigit (hdigits b (by simp))
    simp only [digitsValue, List.foldl_cons, List.foldl_nil, hv, hw, Option.getD_some]
    omega

/-- `strtol` reads a field as a whole. -/
theorem IsHexField.strtol {field : CStr} (h : IsHexField field) :
    strtol 16 field = some ((digitsValue 16 field : ℤ), []) := by
  have hne : field ≠ [] := List.ne_nil_of_length_pos h.1.1
  have hscan : CLib.strtol 16 (field ++ []) = _ := strtol_digits hne h.2 (by simp)
  have hlt := h.value_lt
  rw [List.append_nil, Int.min_eq_left (by omega)] at hscan
  exact hscan

/-- The loop over the fields collects them, the first as the lowest byte. -/
theorem macFields_eq {fields : List CStr} {cnt : ℕ} (acc : BitVec 64)
    (hfields : ∀ f ∈ fields, IsHexField f) (hcnt : cnt + fields.length ≤ etherAddrLen)
    (hacc : acc.toNat < 256 ^ cnt) :
    ∃ retMac, macFields fields cnt acc = .ok retMac ∧
      retMac.toNat = acc.toNat + 256 ^ cnt * Nat.ofDigits 256 (fields.map (digitsValue 16)) ∧
      retMac.toNat < 256 ^ (cnt + fields.length) := by
  induction fields generalizing cnt acc with
  | nil => exact ⟨acc, rfl, by simp, by simpa using hacc⟩
  | cons f fields ih =>
    have hf := hfields f List.mem_cons_self
    have hlt := hf.value_lt
    rw [List.length_cons] at hcnt
    have hpow : (256 : ℕ) ^ cnt * 256 ≤ 2 ^ 48 := by
      calc (256 : ℕ) ^ cnt * 256 = 256 ^ (cnt + 1) := (pow_succ ..).symm
        _ ≤ 256 ^ 6 := Nat.pow_le_pow_right (by decide) (by unfold etherAddrLen at hcnt; omega)
        _ = 2 ^ 48 := by decide
    have hshift : (256 : ℕ) ^ cnt = 2 ^ (cnt * 8) := by
      rw [Nat.mul_comm, pow_mul]
      rfl
    -- The new byte goes above all the bits collected so far.
    have hor : (acc ||| BitVec.ofInt 64 (toInt (digitsValue 16 f)) <<< (cnt * 8)).toNat =
        acc.toNat + 256 ^ cnt * digitsValue 16 f := by
      have hint : toInt (digitsValue 16 f : ℤ) = (digitsValue 16 f : ℤ) :=
        Int.bmod_eq_of_le (by omega) (by omega)
      have hprod : digitsValue 16 f * 2 ^ (cnt * 8) < 2 ^ 64 := by
        rw [← hshift]
        have : digitsValue 16 f * 256 ^ cnt ≤ 256 ^ cnt * 256 := by
          rw [Nat.mul_comm]
          exact Nat.mul_le_mul_left _ (by omega)
        omega
      rw [BitVec.toNat_or, BitVec.toNat_shiftLeft, hint, BitVec.ofInt_natCast, BitVec.toNat_ofNat,
        Nat.mod_eq_of_lt (by omega : digitsValue 16 f < 2 ^ 64), Nat.shiftLeft_eq,
        Nat.mod_eq_of_lt hprod, Nat.or_comm, ← Nat.shiftLeft_eq,
        ← Nat.shiftLeft_add_eq_or_of_lt (hshift ▸ hacc), Nat.shiftLeft_eq, hshift]
      ring
    have hnext : acc.toNat + 256 ^ cnt * digitsValue 16 f < 256 ^ (cnt + 1) := by
      have : 256 ^ cnt * digitsValue 16 f ≤ 256 ^ cnt * 255 := Nat.mul_le_mul_left _ (by omega)
      rw [pow_succ]
      omega
    have hcnt' : cnt < etherAddrLen := by omega
    obtain ⟨retMac, hret, hvalue, hbound⟩ :=
      ih _ (fun g hg => hfields g (List.mem_cons_of_mem f hg)) (by omega : cnt + 1 + _ ≤ _)
        (hor.symm ▸ hnext)
    refine ⟨retMac, ?_, ?_, ?_⟩
    · rw [macFields, if_neg (by omega), hf.strtol]
      exact hret
    · rw [hvalue, hor, List.map_cons, Nat.ofDigits_cons, pow_succ]
      ring
    · rw [List.length_cons]
      convert hbound using 2
      omega

/-- A text in fields is no longer than its fields with a separator behind each. -/
theorem length_of_splitOn {α : Type*} [DecidableEq α] {d : α} {s : List α} {n k : ℕ} (hlength : (s.splitOn d).length = n)
    (hfields : ∀ f ∈ s.splitOn d, f.length ≤ k) : s.length + 1 ≤ n * (k + 1) := by
  have hjoin : [d].intercalate (s.splitOn d) = s := List.intercalate_splitOn d
  have hbound : ∀ fields : List (List α), fields ≠ [] → (∀ f ∈ fields, f.length ≤ k) →
      ([d].intercalate fields).length + 1 ≤ fields.length * (k + 1) := by
    intro fields
    induction fields with
    | nil => exact fun h => absurd rfl h
    | cons f fields ih =>
      intro _ hle
      have hf := hle f List.mem_cons_self
      cases fields with
      | nil =>
        simp only [List.intercalate, List.intersperse_singleton, List.flatten_singleton,
          List.length_singleton]
        omega
      | cons g fields =>
        have htail := ih (List.cons_ne_nil g fields) fun x hx => hle x (List.mem_cons_of_mem f hx)
        simp only [List.intercalate, List.intersperse_cons_cons, List.flatten_cons,
          List.length_append, List.length_singleton] at htail ⊢
        simp only [List.length_cons] at htail ⊢
        rw [Nat.succ_mul]
        omega
  have h := hbound _ (List.splitOn_ne_nil d s) hfields
  rw [hjoin, hlength] at h
  exact h

/-- `spp_change_mac_str_to_int64` of an address in six fields is its value. -/
theorem sppChangeMacStrToInt64_eq {mac : CStr} (hlength : (mac.splitOn ':').length = etherAddrLen)
    (hfields : ∀ f ∈ mac.splitOn ':', IsHexField f) :
    sppChangeMacStrToInt64 mac = .ok (macValue mac : ℤ) ∧ macValue mac < 2 ^ 48 ∧
      mac.length < sppMinStrLen := by
  have hlen := length_of_splitOn hlength fun f hf => (hfields f hf).1.2
  have hshort : mac.length < sppMinStrLen := by
    unfold sppMinStrLen
    unfold etherAddrLen at hlen
    omega
  have htokens : strtok ':' mac = mac.splitOn ':' := by
    apply List.filter_eq_self.mpr
    intro f hf
    have hpos := (hfields f hf).1.1
    cases f with
    | nil => simp at hpos
    | cons c rest => rfl
  obtain ⟨retMac, hret, hvalue, hbound⟩ := macFields_eq 0 hfields
    (Nat.le_of_eq ((Nat.zero_add _).trans hlength)) (by decide : (0 : BitVec 64).toNat < 256 ^ 0)
  have hnat : retMac.toNat = macValue mac := by
    rw [hvalue, macValue]
    simp
  rw [Nat.zero_add, hlength, show (256 : ℕ) ^ etherAddrLen = 2 ^ 48 by decide] at hbound
  refine ⟨?_, hnat ▸ hbound, hshort⟩
  have hint : retMac.toInt = (macValue mac : ℤ) := by
    rw [BitVec.toInt_eq_toNat_of_lt (by omega), hnat]
  simp only [sppChangeMacStrToInt64, strcpy_eq_ok.mpr ⟨hshort, rfl⟩, htokens, hret, hint]

end Mac

end Spp.Vf
