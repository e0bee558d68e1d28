import Spp.Vf.ClassifierEntry
import Spp.Vf.ReplyText

/-!
# The texts that the MAC address parser accepts

`spp_change_mac_str_to_int64` stops at the first field that is not a number, and
joins the numbers read before it bit by bit. It parses addresses exactly; other
texts are refused only if a seventh field follows six numbers, or if the numbers
happen to set all bits of the result.
-/

namespace Spp.Vf

open CLib

section Fields

/-- The number that `strtol` reads if the field is one as a whole. -/
def fieldNumber (field : CStr) : Option ℤ :=
  match strtol 16 field with
  | some (v, []) => some (toInt v)
  | _ => none

/-- The numbers of the fields in front of the first one that is no number. -/
def leadingNumbers : List CStr → List ℤ
  | [] => []
  | field :: fields =>
    match fieldNumber field with
    | some v => v :: leadingNumbers fields
    | none => []

/-- The text has six fields of one or two hexadecimal digits, with a colon
between them. -/
def IsSixOctets (mac : CStr) : Prop :=
  (mac.splitOn ':').length = etherAddrLen ∧ ∀ field ∈ mac.splitOn ':', IsHexField field

/-- The first six of the fields that are not empty are numbers, and there is a
seventh one. -/
def SeventhField (mac : CStr) : Prop :=
  etherAddrLen < (strtok ':' mac).length ∧
    etherAddrLen ≤ (leadingNumbers (strtok ':' mac)).length

/-- A bit of an integer, in two's complement. -/
def BitSet (v : ℤ) (k : ℕ) : Prop := v / 2 ^ k % 2 = 1

/-- Each of 64 bits is set in one of the leading numbers, when every number is
moved by eight bits from the one before it. -/
def NoBitClear (mac : CStr) : Prop :=
  ∀ b < 64, ∃ i v, (leadingNumbers (strtok ':' mac))[i]? = some v ∧
    8 * i ≤ b ∧ BitSet v (b - 8 * i)

/-- A bit of an integer in a word. -/
theorem getLsbD_ofInt {v : ℤ} {k : ℕ} (hk : k < 64) :
    (BitVec.ofInt 64 v).getLsbD k = true ↔ BitSet v k := by
  have hnonneg : 0 ≤ v % 2 ^ 64 := Int.emod_nonneg v (by decide)
  have hsplit : v = v % 2 ^ 64 + 2 ^ k * (2 ^ (64 - k) * (v / 2 ^ 64)) := by
    have hpow : (2 : ℤ) ^ k * 2 ^ (64 - k) = 2 ^ 64 := by
      rw [← pow_add, Nat.add_sub_cancel' (by omega)]
    rw [← mul_assoc, hpow]
    exact (Int.emod_add_mul_ediv v (2 ^ 64)).symm
  have heven : (2 : ℤ) ^ (64 - k) * (v / 2 ^ 64) = 2 * (2 ^ (63 - k) * (v / 2 ^ 64)) := by
    have hexp : 64 - k = 63 - k + 1 := by omega
    rw [hexp, pow_succ]
    ring
  have hdiv : v / 2 ^ k = v % 2 ^ 64 / 2 ^ k + 2 * (2 ^ (63 - k) * (v / 2 ^ 64)) := by
    conv_lhs => rw [hsplit]
    rw [Int.add_mul_ediv_left _ _ (by positivity), heven]
  have hbit : BitSet v k ↔ (v % 2 ^ 64).toNat / 2 ^ k % 2 = 1 := by
    have hcast : (v % 2 ^ 64 / 2 ^ k : ℤ) = ((v % 2 ^ 64).toNat / 2 ^ k : ℕ) := by
      rw [Int.natCast_ediv, Int.toNat_of_nonneg hnonneg]
      norm_num
    unfold BitSet
    rw [hdiv, hcast]
    omega
  rw [hbit, BitVec.getLsbD, BitVec.toNat_ofInt, Nat.testBit_eq_decide_div_mod_eq,
    decide_eq_true_eq]
  norm_num

end Fields

section Loop

/-- The loop reads a field that is a number, and stops at another one. -/
theorem macFields_cons (field : CStr) (fields : List CStr) {cnt : ℕ} (acc : BitVec 64)
    (hcnt : cnt < etherAddrLen) :
    macFields (field :: fields) cnt acc =
      (fieldNumber field).elim (.ok acc) fun v =>
        macFields fields (cnt + 1) (acc ||| BitVec.ofInt 64 v <<< (cnt * 8)) := by
  rw [macFields, if_neg (by omega), fieldNumber]
  cases strtol 16 field with
  | none => rfl
  | some p =>
    obtain ⟨v, rest⟩ := p
    cases rest with
    | nil => rfl
    | cons c rest => rfl

/-- The loop fails iff there is a field left after six numbers; otherwise it
sets the bits of the numbers. -/
theorem macFields_spec (fields : List CStr) {cnt : ℕ} (acc : BitVec 64)
    (hcnt : cnt ≤ etherAddrLen) :
    (macFields fields cnt acc = .error .ng ∧ etherAddrLen < cnt + fields.length ∧
        etherAddrLen ≤ cnt + (leadingNumbers fields).length) ∨
      (∃ r, macFields fields cnt acc = .ok r ∧
        ¬ (etherAddrLen < cnt + fields.length ∧
          etherAddrLen ≤ cnt + (leadingNumbers fields).length) ∧
        ∀ b < 64, (r.getLsbD b = true ↔ acc.getLsbD b = true ∨
          ∃ i v, (leadingNumbers fields)[i]? = some v ∧ 8 * (cnt + i) ≤ b ∧
            BitSet v (b - 8 * (cnt + i)))) := by
  induction fields generalizing cnt acc with
  | nil =>
    refine .inr ⟨acc, rfl, fun h => ?_, fun b _ => ?_⟩
    · have hlen : etherAddrLen < cnt := h.1
      omega
    · simp [leadingNumbers]
  | cons field fields ih =>
    by_cases hlast : cnt = etherAddrLen
    · left
      refine ⟨?_, ?_, Nat.le_add_right_of_le hlast.ge⟩
      · rw [macFields, if_pos hlast.ge]
      · rw [List.length_cons]
        omega
    · have hlt : cnt < etherAddrLen := by omega
      rw [macFields_cons field fields acc hlt, leadingNumbers]
      cases hnumber : fieldNumber field with
      | none =>
        refine .inr ⟨acc, rfl, fun h => ?_, fun b _ => ?_⟩
        · have hle : etherAddrLen ≤ cnt := h.2
          omega
        · simp
      | some v =>
        dsimp only
        rw [List.length_cons, List.length_cons]
        have hsum : ∀ n, cnt + (n + 1) = cnt + 1 + n := fun n => by omega
        rw [hsum fields.length, hsum (leadingNumbers fields).length]
        rcases ih (acc ||| BitVec.ofInt 64 v <<< (cnt * 8)) hlt with hfail | ⟨r, hr, hcond, hbits⟩
        · exact .inl hfail
        · refine .inr ⟨r, hr, hcond, fun b hb => ?_⟩
          -- The bits of the new number, and those of the numbers behind it.
          have hnew : (BitVec.ofInt 64 v <<< (cnt * 8)).getLsbD b = true ↔
              8 * cnt ≤ b ∧ BitSet v (b - 8 * cnt) := by
            rw [BitVec.getLsbD_shiftLeft, Nat.mul_comm cnt 8]
            by_cases hle : 8 * cnt ≤ b
            · simp [hb, hle, getLsbD_ofInt (show b - 8 * cnt < 64 by omega)]
            · simp [hle, show b < 8 * cnt by omega]
          rw [hbits b hb, BitVec.getLsbD_or, Bool.or_eq_true, hnew, or_assoc]
          refine or_congr_right ⟨?_, ?_⟩
          · rintro (h | ⟨i, w, hi, hle, hset⟩)
            · exact ⟨0, v, rfl, h⟩
            · rw [← hsum] at hle hset
              exact ⟨i + 1, w, hi, hle, hset⟩
          · rintro ⟨i, w, hi, hle, hset⟩
            cases i with
            | zero =>
              obtain rfl := Option.some.inj hi
              exact .inl ⟨hle, hset⟩
            | succ i =>
              rw [hsum] at hle hset
              exact .inr ⟨i, w, hi, hle, hset⟩

/-- A word is -1 iff all its bits are set. -/
theorem toInt_eq_neg_one_iff (r : BitVec 64) :
    r.toInt = -1 ↔ ∀ b < 64, r.getLsbD b = true := by
  have hones : (-1 : ℤ) = (BitVec.allOnes 64).toInt := by decide
  rw [hones, BitVec.toInt_inj]
  constructor
  · rintro rfl b hb
    rw [BitVec.getLsbD_allOnes, decide_eq_true hb]
  · intro h
    refine BitVec.eq_of_getLsbD_eq fun b hb => ?_
    rw [h b hb, BitVec.getLsbD_allOnes, decide_eq_true hb]

/-- The parser gives `SPP_RET_NG` iff a field follows six numbers, or the numbers
set all bits. -/
theorem sppChangeMacStrToInt64_ng_iff {mac : CStr} (h : mac.length < sppMinStrLen) :
    sppChangeMacStrToInt64 mac = .ok (-1) ↔ SeventhField mac ∨ NoBitClear mac := by
  unfold sppChangeMacStrToInt64
  simp only [strcpy_eq_ok.mpr ⟨h, rfl⟩]
  have hspec := macFields_spec (strtok ':' mac) 0 (Nat.zero_le etherAddrLen)
  simp only [Nat.zero_add] at hspec
  rcases hspec with ⟨hfail, hseventh⟩ | ⟨r, hr, hcond, hbits⟩
  · rw [hfail]
    exact iff_of_true rfl (.inl hseventh)
  · rw [hr]
    dsimp only
    rw [Except.ok.injEq, toInt_eq_neg_one_iff]
    have hseventh : ¬ SeventhField mac := hcond
    rw [or_iff_right hseventh]
    refine forall₂_congr fun b hb => ?_
    rw [hbits b hb]
    simp

end Loop

section Format

/-- The octets of a number that is made of bytes. -/
theorem octet_ofDigits {ds : List ℕ} (h : ∀ d ∈ ds, d < 256) {i d : ℕ} (hi : ds[i]? = some d) :
    Nat.ofDigits 256 ds / 256 ^ i % 256 = d := by
  induction ds generalizing i with
  | nil => simp at hi
  | cons e ds ih =>
    have he := h e List.mem_cons_self
    rw [Nat.ofDigits_cons]
    cases i with
    | zero =>
      obtain rfl := Option.some.inj hi
      rw [pow_zero, Nat.div_one]
      omega
    | succ i =>
      have hdiv : (e + 256 * Nat.ofDigits 256 ds) / 256 = Nat.ofDigits 256 ds := by omega
      rw [pow_succ', ← Nat.div_div_eq_div_mul, hdiv]
      exact ih (fun d hd => h d (List.mem_cons_of_mem e hd)) hi

/-- A byte is printed as a field with its value. -/
theorem hexByte_spec {b : ℕ} (h : b < 256) :
    IsHexField (ReplyText.hexByte b) ∧ digitsValue 16 (ReplyText.hexByte b) = b := by
  have hall : ∀ b : Fin 256, (ReplyText.hexByte b).all (isDigit 16) = true ∧
      digitsValue 16 (ReplyText.hexByte b) = b := by decide +kernel
  obtain ⟨hdigits, hvalue⟩ := hall ⟨b, h⟩
  have hlength : (ReplyText.hexByte b).length = 2 := rfl
  exact ⟨⟨⟨by omega, by omega⟩, List.all_eq_true.mp hdigits⟩, hvalue⟩

/-- The address of a key has the octets of the key. -/
theorem etherFormatAddr_spec {key : ℕ} (h : key < 2 ^ 48) :
    IsSixOctets (ReplyText.etherFormatAddr key) ∧
      macValue (ReplyText.etherFormatAddr key) = key := by
  have hbyte : ∀ i, IsHexField (ReplyText.hexByte (key / 256 ^ i % 256)) ∧
      digitsValue 16 (ReplyText.hexByte (key / 256 ^ i % 256)) = key / 256 ^ i % 256 :=
    fun i => hexByte_spec (Nat.mod_lt _ (by decide))
  have hfields : ∀ field ∈ (List.range 6).map fun i => ReplyText.hexByte (key / 256 ^ i % 256),
      IsHexField field := by
    simp only [List.mem_map]
    rintro field ⟨i, -, rfl⟩
    exact (hbyte i).1
  have hsplit : (ReplyText.etherFormatAddr key).splitOn ':' =
      (List.range 6).map fun i => ReplyText.hexByte (key / 256 ^ i % 256) := by
    refine List.splitOn_intercalate ':' ?_ (by simp)
    intro field hfield hcolon
    exact absurd ((hfields field hfield).2 ':' hcolon) (by decide)
  refine ⟨⟨?_, ?_⟩, ?_⟩
  · rw [hsplit]
    rfl
  · rw [hsplit]
    exact hfields
  · have hvalues : ((List.range 6).map fun i => ReplyText.hexByte (key / 256 ^ i % 256)).map
        (digitsValue 16) = (List.range 6).map fun i => key / 256 ^ i % 256 := by
      rw [List.map_map]
      apply List.map_congr_left
      intro i _
      rw [Function.comp_apply, (hbyte i).2]
    rw [macValue, hsplit, hvalues]
    simp only [List.range_succ, List.range_zero, List.nil_append, List.cons_append, List.map_cons,
      List.map_nil, Nat.ofDigits_cons, Nat.ofDigits_nil]
    omega

end Format

section Refused

/-- A request with an argument that its handler never accepts is not decoded. -/
theorem decodeCommandParameter_ne_ok {γ : Type} {list : List (Parameter γ)} {args : List CStr}
    {k : ℕ} {row : Parameter γ} {arg : CStr} (hrow : list[k]? = some row)
    (harg : args[k]? = some arg) (hfail : ∀ command c, row.2 command arg ≠ .ok c) (command c : γ) :
    decodeCommandParameter list args command ≠ .ok c := by
  induction k generalizing list args command with
  | zero =>
    cases list with
    | nil => simp at hrow
    | cons row' list =>
      cases args with
      | nil => simp at harg
      | cons arg' args =>
        obtain rfl := Option.some.inj hrow
        obtain rfl := Option.some.inj harg
        intro h
        obtain ⟨command', hfirst, -⟩ := decodeCommandParameter_cons_eq_ok.mp h
        exact hfail command command' hfirst
  | succ k ih =>
    cases list with
    | nil => simp at hrow
    | cons row' list =>
      cases args with
      | nil => simp at harg
      | cons arg' args =>
        intro h
        obtain ⟨command', -, hrest⟩ := decodeCommandParameter_cons_eq_ok.mp h
        exact ih hrow harg command' hrest

/-- No `classifier_table` request with this address is accepted. -/
def RequestRefused (mac : CStr) : Prop :=
  ∀ L M s text action type port,
    (strtok ' ' text = ["classifier_table".toList, action, type, mac, port] ∨
      ∃ vid, strtok ' ' text = ["classifier_table".toList, action, type, vid, mac, port]) →
    ∀ c, sppCommandDecodeRequest L M s text ≠ .ok c

/-- An address that the parser refuses is refused in a request. -/
theorem requestRefused_of_ng {mac : CStr} (h : sppChangeMacStrToInt64 mac = .ok (-1)) :
    RequestRefused mac := by
  have hdefault : mac ≠ "default".toList := by
    rintro rfl
    have hzero : sppChangeMacStrToInt64 "default".toList = .ok 0 := by decide +kernel
    rw [h] at hzero
    exact absurd (Except.ok.inj hzero) (by decide)
  have hfail : ∀ table c, decodeMacAddrStrValue table mac ≠ .ok c := by
    intro table c hdecode
    unfold decodeMacAddrStrValue at hdecode
    rw [if_neg hdefault] at hdecode
    dsimp only at hdecode
    rw [h] at hdecode
    obtain ⟨ret, hret, hrest⟩ := bind_eq_ok.mp hdecode
    obtain rfl := Except.ok.inj hret
    rw [if_pos (by decide)] at hrest
    cases hrest
  intro L M s text action type port htokens c hdecode
  by_cases hfits : text.length < sppCmdMaxParameters * sppCmdValueBufsz
  · rcases htokens with htokens | ⟨vid, htokens⟩
    · rw [decodeRequest_five hfits htokens rfl] at hdecode
      obtain ⟨table, htable, -⟩ := map_eq_ok.mp hdecode
      have hrow : (parameterListMac L s)[2]? = some ("mac address", decodeMacAddrStrValue) := rfl
      exact decodeCommandParameter_ne_ok hrow rfl hfail _ _ htable
    · rw [decodeRequest_six hfits htokens rfl] at hdecode
      obtain ⟨table, htable, -⟩ := map_eq_ok.mp hdecode
      have hrow : (parameterListVlan L s)[3]? = some ("mac address", decodeMacAddrStrValue) := rfl
      exact decodeCommandParameter_ne_ok hrow rfl hfail _ _ htable
  · simp [sppCommandDecodeRequest, decodeCommandInList, strcpy, hfits] at hdecode

end Refused

section Exact

/-- On this text the parser is what the name says: it accepts addresses only,
with their value, and refuses everything else. -/
structure ParsesExactly (mac : CStr) : Prop where
  accepts : (∃ v, 0 ≤ v ∧ sppChangeMacStrToInt64 mac = .ok v) ↔ IsSixOctets mac
  value : IsSixOctets mac → ∃ v : ℕ, sppChangeMacStrToInt64 mac = .ok (v : ℤ) ∧ v < 2 ^ 48 ∧
    (∀ i field, (mac.splitOn ':')[i]? = some field → v / 256 ^ i % 256 = digitsValue 16 field) ∧
    sppChangeMacStrToInt64 (ReplyText.etherFormatAddr v) = .ok (v : ℤ)
  refuses : ¬ IsSixOctets mac → sppChangeMacStrToInt64 mac = .ok (-1) ∧ RequestRefused mac

/-- The parser is exact on addresses, and else on the texts with a field behind
six numbers and those whose numbers set all bits. -/
theorem parsesExactly_iff {mac : CStr} (h : mac.length < sppMinStrLen) :
    ParsesExactly mac ↔ IsSixOctets mac ∨ SeventhField mac ∨ NoBitClear mac := by
  rw [← sppChangeMacStrToInt64_ng_iff h]
  by_cases hmac : IsSixOctets mac
  · refine iff_of_true ?_ (.inl hmac)
    obtain ⟨hvalue, hlt, -⟩ := sppChangeMacStrToInt64_eq hmac.1 hmac.2
    refine ⟨iff_of_true ⟨_, Int.natCast_nonneg _, hvalue⟩ hmac, fun _ => ?_,
      fun hnot => absurd hmac hnot⟩
    refine ⟨macValue mac, hvalue, hlt, fun i field hfield => ?_, ?_⟩
    · refine octet_ofDigits ?_ (by simp [hfield])
      intro d hd
      obtain ⟨field', hmem, rfl⟩ := List.mem_map.mp hd
      exact (hmac.2 field' hmem).value_lt
    · obtain ⟨hformat, hkey⟩ := etherFormatAddr_spec hlt
      rw [(sppChangeMacStrToInt64_eq hformat.1 hformat.2).1, hkey]
  · rw [or_iff_right hmac]
    constructor
    · intro hexact
      exact (hexact.refuses hmac).1
    · intro hng
      refine ⟨iff_of_false ?_ hmac, fun hsix => absurd hsix hmac,
        fun _ => ⟨hng, requestRefused_of_ng hng⟩⟩
      rintro ⟨v, hnonneg, hv⟩
      rw [hng] at hv
      have hneg := Except.ok.inj hv
      omega

/-- The parser is exact on an address. -/
theorem parsesExactly_address : ParsesExactly "52:54:00:12:34:5a".toList :=
  (parsesExactly_iff (by decide)).mpr (.inl ⟨by decide +kernel, by
    intro field hfield
    have hall : ("52:54:00:12:34:5a".toList.splitOn ':').all (fun field =>
        decide (1 ≤ field.length) && decide (field.length ≤ 2) &&
          field.all (isDigit 16)) = true := by
      decide +kernel
    have hone := List.all_eq_true.mp hall field hfield
    simpa [IsHexField, and_assoc] using hone⟩)

/-- An address without its last three fields is accepted. -/
theorem not_parsesExactly_short : ¬ ParsesExactly "52:54:00".toList := by
  intro h
  have hvalue : sppChangeMacStrToInt64 "52:54:00".toList = .ok 0x5452 := by decide +kernel
  have hsix : IsSixOctets "52:54:00".toList := h.accepts.mp ⟨_, by decide, hvalue⟩
  exact absurd hsix.1 (by decide +kernel)

end Exact

end Spp.Vf
