import Spp.Vf.CommandConn
import Spp.Vf.ReplyText

/-!
# The string buffer and the JSON builder in memory

`append_json_*` reserve room with an append of the empty string under the length of what
they are going to print, and print over it. The room is there, and the text comes out as it
should; but the append copies as many bytes from behind the empty string.
-/

namespace Spp.Vf.StringBuffer

open CLib Json ReplyText

section Source

/-- `CMD_TAG_APPEND_SIZE`. -/
def cmdTagAppendSize : ℕ := 16

/-- `JSON_COMMA`. -/
def jsonComma : CStr := ", ".toList

/-- A call that appends to a buffer: `spp_strbuf_append`, or one of `append_json_*`. -/
inductive BufferCall
  | append (s : CStr) (appendLen : ℕ)
  | comma
  | uintValue (name : CStr) (value : UInt32)
  | intValue (name : CStr) (value : Int32)
  | strValue (name str : CStr)
  | arrayBrackets (name str : CStr)
  | blockBrackets (name str : CStr)
  deriving DecidableEq

/-- The string that a call passes to `spp_strbuf_append`. -/
def BufferCall.source : BufferCall → CStr
  | .append s _ => s
  | .comma => jsonComma
  | _ => []

/-- The length that a call passes to `spp_strbuf_append`. -/
def BufferCall.appendLen : BufferCall → ℕ
  | .append _ appendLen => appendLen
  | .comma => jsonComma.length
  | .uintValue name _ | .intValue name _ => name.length + cmdTagAppendSize * 2
  | .strValue name str | .arrayBrackets name str | .blockBrackets name str =>
    name.length + str.length + cmdTagAppendSize

/-- What a call prints then; `flg` says whether a comma goes in front. -/
def BufferCall.printed (flg : Bool) : BufferCall → Option CStr
  | .append _ _ | .comma => none
  | .uintValue name value =>
    some (jsonAppendComma flg ++ '"' :: (name ++ "\": ".toList ++ Nat.toDigits 10 value.toNat))
  | .intValue name value =>
    some (jsonAppendComma flg ++ '"' :: (name ++ "\": ".toList ++ decimal value.toInt))
  | .strValue name str =>
    some (jsonAppendComma flg ++ '"' :: (name ++ "\": ".toList ++ '"' :: (str ++ ['"'])))
  | .arrayBrackets name str =>
    some (jsonAppendComma flg ++
      '"' :: (name ++ "\": ".toList ++ ("[ ".toList ++ str ++ " ]".toList)))
  | .blockBrackets name str =>
    if name = [] then
      some (jsonAppendComma flg ++ ("\x7b ".toList ++ str ++ " \x7d".toList))
    else
      some (jsonAppendComma flg ++
        '"' :: (name ++ "\": ".toList ++ ("\x7b ".toList ++ str ++ " \x7d".toList)))

/-- The first `n` bytes from the start of a string on: its characters, its terminator, and what
happens to be behind it. -/
def bytesFrom (s : CStr) (behind : ℕ → Char) (n : ℕ) : List Char :=
  (s ++ nul :: (List.range n).map behind).take n

/-- `sprintf(&(*output)[len], ...)`. -/
def sprintfAt (output : Strbuf) (len : ℤ) (text : CStr) : Except Stop Strbuf :=
  if len < 0 ∨ output.length ≤ len.toNat + text.length then .error .undef else
    .ok (strbufWrite output len.toNat text)

/-- A call, when `malloc` succeeds. The length of the content is kept as an `int`. -/
def BufferCall.run (behind : ℕ → Char) (c : BufferCall) (output : Strbuf) :
    Except Stop Strbuf :=
  let len := toInt (strlen output)
  match sppStrbufAppend true output (bytesFrom c.source behind c.appendLen) with
  | none => .error .ng
  | some newOutput =>
    match c.printed (len ≠ 0) with
    | none => .ok newOutput
    | some text => sprintfAt newOutput len text

end Source

section Statement

/-- The strings of a call are strings. -/
def BufferCall.NulFree : BufferCall → Prop
  | .append s _ => nul ∉ s
  | .comma => True
  | .uintValue name _ | .intValue name _ => nul ∉ name
  | .strValue name str | .arrayBrackets name str | .blockBrackets name str =>
    nul ∉ name ∧ nul ∉ str

/-- The content after a call, as a text. -/
def BufferCall.denoted (output : CStr) : BufferCall → CStr
  | .append s appendLen => output ++ s.take appendLen
  | .comma => output ++ jsonComma
  | .uintValue name value => appendJsonUintValue name output value.toNat
  | .intValue name value => appendJsonIntValue name output value.toInt
  | .strValue name str => appendJsonStrValue name output str
  | .arrayBrackets name str => appendJsonArrayBrackets name output str
  | .blockBrackets name str => appendJsonBlockBrackets name output str

/-- A call extends the content by its text, within a capacity that exceeds the required length
and fits `size_t`, and prints within the room that it has reserved. -/
structure Builds (c : BufferCall) (before after : Strbuf) : Prop where
  content : stringAt after = c.denoted (stringAt before)
  terminated : strlen after + 1 ≤ after.length
  grown : strlen before + c.appendLen < after.length
  capacity : after.length < 2 ^ 64
  room : ∀ text ∈ c.printed (stringAt before ≠ []), text.length ≤ c.appendLen

/-- In addition a call reads no byte behind the terminator of its string. -/
structure Correct (c : BufferCall) (before after : Strbuf) : Prop extends
    Builds c before after where
  inside : c.appendLen ≤ c.source.length + 1

/-- Every call of a sequence returns, and relates the buffer before it to the one after it. -/
def EachCall (R : BufferCall → Strbuf → Strbuf → Prop) (behind : ℕ → Char) :
    List BufferCall → Strbuf → Prop
  | [], _ => True
  | c :: calls, before =>
    ∃ after, c.run behind before = .ok after ∧ R c before after ∧ EachCall R behind calls after

/-- The total of the lengths. -/
def total (calls : List BufferCall) : ℕ := (calls.map BufferCall.appendLen).sum

/-- A call that does not print: of `spp_strbuf_append` under a length that the string has with
its terminator, or of `append_json_comma`. -/
def BufferCall.Plain : BufferCall → Prop
  | .append s appendLen => appendLen ≤ s.length + 1
  | .comma => True
  | _ => False

end Statement

section Memory

variable {output base : Strbuf} {bytes : List Char}

/-- The capacity grows to no more than twice the required length. -/
theorem growCapacity_le {newCap requiredLen : ℕ} :
    growCapacity newCap requiredLen ≤ max newCap (2 * requiredLen) := by
  fun_induction growCapacity newCap requiredLen with
  | case1 newCap hgrow ih => omega
  | case2 newCap hstop => exact Nat.le_max_left _ _

/-- A string has no terminator in it. -/
theorem nul_notMem_stringAt (mem : List Char) : nul ∉ stringAt mem := by
  intro hmem
  simpa using List.all_eq_true.mp List.all_takeWhile nul hmem

/-- A string without a terminator is all of its text. -/
theorem stringAt_of_notMem {s : List Char} (h : nul ∉ s) : stringAt s = s := by
  refine List.takeWhile_eq_self_iff.mpr fun c hc => ?_
  simpa using fun heq : c = nul => h (heq ▸ hc)

/-- The string in memory that starts with a text. -/
theorem stringAt_append {s mem : List Char} (h : nul ∉ s) :
    stringAt (s ++ mem) = s ++ stringAt mem := by
  refine List.takeWhile_append_of_pos fun c hc => ?_
  simpa using fun heq : c = nul => h (heq ▸ hc)

/-- A terminator behind bytes ends their string at the latest. -/
theorem stringAt_terminated (bytes rest : List Char) :
    stringAt (bytes ++ nul :: rest) = stringAt bytes := by
  induction bytes with
  | nil => rfl
  | cons c bytes ih =>
    unfold stringAt at ih ⊢
    rw [List.cons_append, List.takeWhile_cons, List.takeWhile_cons, ih]

/-- The string among the bytes from the start of a string on. -/
theorem stringAt_bytesFrom {s : CStr} (h : nul ∉ s) (behind : ℕ → Char) (n : ℕ) :
    stringAt (bytesFrom s behind n) = s.take n := by
  unfold bytesFrom
  by_cases hle : n ≤ s.length
  · rw [List.take_append_of_le_length hle]
    exact stringAt_of_notMem fun hmem => h (List.mem_of_mem_take hmem)
  · obtain ⟨k, hk⟩ : ∃ k, n - s.length = k + 1 := ⟨n - s.length - 1, by omega⟩
    rw [List.take_append, hk, List.take_succ_cons, List.take_of_length_le (by omega)]
    exact stringAt_append_nul h

/-- All bytes that are asked for are read. -/
@[simp] theorem length_bytesFrom (s : CStr) (behind : ℕ → Char) (n : ℕ) :
    (bytesFrom s behind n).length = n := by
  simp only [bytesFrom, List.length_take, List.length_append, List.length_cons, List.length_map,
    List.length_range]
  omega

/-- An append writes behind the string, in a buffer with room for the bytes whose capacity is
no more than twice what they require. -/
theorem sppStrbufAppend_spec (hbuf : 0 < output.length) :
    ∃ base, sppStrbufAppend true output bytes = some (strbufWrite base (strlen output) bytes) ∧
      stringAt output <+: base ∧ strlen output + bytes.length < base.length ∧
      base.length ≤ max output.length (2 * (strlen output + bytes.length)) := by
  unfold sppStrbufAppend
  dsimp only
  by_cases hgrow : strlen output + bytes.length ≥ output.length
  · rw [if_pos hgrow, if_pos rfl]
    refine ⟨_, rfl, List.prefix_append _ _, ?_⟩
    have hlt := @lt_growCapacity (output.length * 2) (strlen output + bytes.length) (by omega)
    have hle := @growCapacity_le (output.length * 2) (strlen output + bytes.length)
    have hlen : (stringAt output).length = strlen output := rfl
    simp only [strbufReallocate, List.length_append, List.length_drop, length_sppStrbufAllocate,
      hlen]
    omega
  · rw [if_neg hgrow]
    exact ⟨output, rfl, List.takeWhile_prefix _, by omega, Nat.le_max_left _ _⟩

/-- The string after bytes were written behind one. -/
theorem stringAt_strbufWrite (hfront : stringAt output <+: base) :
    stringAt (strbufWrite base (strlen output) bytes) = stringAt output ++ stringAt bytes := by
  have htake : base.take (strlen output) = stringAt output :=
    (List.prefix_iff_eq_take.mp hfront).symm
  rw [strbufWrite, htake, List.append_assoc, stringAt_append (nul_notMem_stringAt output),
    stringAt_terminated]

/-- The string is still there. -/
theorem prefix_strbufWrite (hfront : stringAt output <+: base) :
    stringAt output <+: strbufWrite base (strlen output) bytes := by
  have htake : base.take (strlen output) = stringAt output :=
    (List.prefix_iff_eq_take.mp hfront).symm
  rw [strbufWrite, htake, List.append_assoc]
  exact List.prefix_append _ _

end Memory

section Texts

variable {c : BufferCall} {flg : Bool} {text : CStr}

/-- The digits of a number are no terminators. -/
theorem nul_notMem_toDigits (n : ℕ) : nul ∉ Nat.toDigits 10 n := by
  intro hmem
  have hdigit : nul.isDigit = true := Nat.isDigit_of_mem_toDigits (by decide) (by decide) hmem
  exact absurd hdigit (by decide)

/-- Nor are the sign and the digits of an integer. -/
theorem nul_notMem_decimal (n : ℤ) : nul ∉ decimal n := by
  unfold decimal
  split
  · exact List.not_mem_cons_of_ne_of_not_mem (by decide) (nul_notMem_toDigits _)
  · exact nul_notMem_toDigits _

/-- Nor is the comma. -/
theorem nul_notMem_jsonAppendComma : nul ∉ jsonAppendComma flg := by
  cases flg <;> decide

/-- The comma is two characters at most. -/
theorem length_jsonAppendComma_le : (jsonAppendComma flg).length ≤ 2 := by
  cases flg <;> decide

/-- `%u` prints ten digits at most. -/
theorem length_toDigits_le (value : UInt32) : (Nat.toDigits 10 value.toNat).length ≤ 10 := by
  have hlt := value.toNat_lt
  exact (Nat.length_toDigits_le_iff (by decide) (by decide)).mpr (by omega)

/-- `%d` prints eleven characters at most. -/
theorem length_decimal_le (value : Int32) : (decimal value.toInt).length ≤ 11 := by
  have hlt := value.toInt_lt
  have hle := value.le_toInt
  have hdigits : (Nat.toDigits 10 value.toInt.natAbs).length ≤ 10 :=
    (Nat.length_toDigits_le_iff (by decide) (by decide)).mpr (by omega)
  unfold decimal
  split
  · rw [List.length_cons]
    omega
  · omega

/-- A printed text is a string. -/
theorem nul_notMem_printed (hnul : c.NulFree) (h : text ∈ c.printed flg) : nul ∉ text := by
  have hcomma := @nul_notMem_jsonAppendComma flg
  have hdigits := nul_notMem_toDigits
  have hdecimal := nul_notMem_decimal
  cases c <;> simp only [BufferCall.printed, Option.mem_def, Option.some.injEq, reduceCtorEq] at h
  case blockBrackets name str =>
    split at h
    all_goals
      cases h
      simp_all [BufferCall.NulFree, nul]
  all_goals
    cases h
    simp_all [BufferCall.NulFree, nul]

/-- A printed text fits the room that is reserved for it. -/
theorem length_printed_le (h : text ∈ c.printed flg) : text.length ≤ c.appendLen := by
  have hcomma := @length_jsonAppendComma_le flg
  cases c with
  | append s appendLen => cases h
  | comma => cases h
  | uintValue name value =>
    cases h
    have hdigits := length_toDigits_le value
    simp [BufferCall.appendLen, cmdTagAppendSize]
    omega
  | intValue name value =>
    cases h
    have hdigits := length_decimal_le value
    simp [BufferCall.appendLen, cmdTagAppendSize]
    omega
  | strValue name str =>
    cases h
    simp [BufferCall.appendLen, cmdTagAppendSize]
    omega
  | arrayBrackets name str =>
    cases h
    simp [BufferCall.appendLen, cmdTagAppendSize]
    omega
  | blockBrackets name str =>
    simp only [BufferCall.printed] at h
    split at h
    · cases h
      simp [BufferCall.appendLen, cmdTagAppendSize]
      omega
    · cases h
      simp [BufferCall.appendLen, cmdTagAppendSize]
      omega

/-- The text that a call stands for is what it appends or prints. -/
theorem denoted_eq (output : CStr) :
    c.denoted output = output ++ (c.printed (output ≠ [])).getD (c.source.take c.appendLen) := by
  have hflg : decide (output.length ≠ 0) = decide (output ≠ []) := by
    cases output <;> rfl
  cases c with
  | append s appendLen => rfl
  | comma => rfl
  | uintValue name value =>
    simp only [BufferCall.denoted, appendJsonUintValue, appendJson, hflg, BufferCall.printed,
      Option.getD_some]
  | intValue name value =>
    simp only [BufferCall.denoted, appendJsonIntValue, appendJson, hflg, BufferCall.printed,
      Option.getD_some]
  | strValue name str =>
    simp only [BufferCall.denoted, appendJsonStrValue, appendJson, hflg, BufferCall.printed,
      Option.getD_some]
  | arrayBrackets name str =>
    simp only [BufferCall.denoted, appendJsonArrayBrackets, appendJson, hflg, BufferCall.printed,
      Option.getD_some]
  | blockBrackets name str =>
    unfold BufferCall.denoted BufferCall.printed
    by_cases hname : name = []
    · simp only [appendJsonBlockBrackets, hflg, if_pos hname, Option.getD_some]
    · simp only [appendJsonBlockBrackets, appendJson, hflg, if_neg hname, Option.getD_some]

end Texts

section Calls

variable {c : BufferCall} {before : Strbuf} {behind : ℕ → Char}

/-- The string that a call passes on has no terminator in it. -/
theorem nul_notMem_source (hnul : c.NulFree) : nul ∉ c.source := by
  cases c with
  | append s appendLen => exact hnul
  | comma => decide
  | _ => exact List.not_mem_nil

/-- A comma decides how a call prints, and not whether it does. -/
theorem printed_eq_none (h : c.printed true = none) (flg : Bool) : c.printed flg = none := by
  cases c <;> simp only [BufferCall.printed, reduceCtorEq] at h ⊢
  split at h <;> cases h

/-- A call that prints does so under each flag. -/
theorem exists_printed (h : c.printed true ≠ none) (flg : Bool) :
    ∃ text, c.printed flg = some text := by
  cases flg with
  | true => exact Option.ne_none_iff_exists'.mp h
  | false =>
    refine Option.ne_none_iff_exists'.mp fun hnone => h ?_
    cases c <;> simp only [BufferCall.printed, reduceCtorEq] at hnone ⊢
    split at hnone <;> cases hnone

/-- A length below `2 ^ 31` is an `int`. -/
theorem toInt_natCast {len : ℕ} (h : len < 2 ^ 31) : toInt len = len := by
  unfold toInt
  exact Int.bmod_eq_of_le (by omega) (by omega)

/-- What a call does to a buffer: a string in the buffer that `spp_strbuf_append` returns,
whose capacity is no more than twice what it requires. -/
theorem run_spec (hbuf : 0 < before.length) (hnul : c.NulFree)
    (hlen : c.printed true = none ∨ strlen before < 2 ^ 31)
    (hcap : before.length < 2 ^ 63) (hsize : strlen before + c.appendLen < 2 ^ 62) :
    ∃ after, c.run behind before = .ok after ∧ Builds c before after ∧
      after.length < 2 ^ 63 ∧ strlen after ≤ strlen before + c.appendLen := by
  obtain ⟨base, happend, hfront, hroom, hmax⟩ :=
    @sppStrbufAppend_spec before (bytesFrom c.source behind c.appendLen) hbuf
  have hlength := length_strbufWrite hroom
  rw [length_bytesFrom] at hroom hmax
  have hroomy : ∀ text ∈ c.printed (stringAt before ≠ []), text.length ≤ c.appendLen :=
    fun text htext => length_printed_le htext
  unfold BufferCall.run
  rw [happend]
  dsimp only
  by_cases hprinted : c.printed true = none
  · -- the bytes of the string are the text
    have hcontent :
        stringAt (strbufWrite base (strlen before) (bytesFrom c.source behind c.appendLen)) =
          stringAt before ++ c.source.take c.appendLen := by
      rw [stringAt_strbufWrite hfront, stringAt_bytesFrom (nul_notMem_source hnul)]
    have hstrlen : strlen
        (strbufWrite base (strlen before) (bytesFrom c.source behind c.appendLen)) ≤
          strlen before + c.appendLen := by
      rw [strlen, hcontent, List.length_append, List.length_take]
      exact Nat.add_le_add_left (Nat.min_le_left _ _) _
    rw [printed_eq_none hprinted]
    refine ⟨_, rfl, ⟨?_, by omega, by omega, by omega, hroomy⟩, by omega, hstrlen⟩
    rw [hcontent, denoted_eq, printed_eq_none hprinted, Option.getD_none]
  · -- the text is printed over the bytes
    have hint := toInt_natCast (hlen.resolve_left hprinted)
    have hflag : decide (toInt (strlen before) ≠ 0) = decide (stringAt before ≠ []) := by
      rw [hint, strlen, decide_eq_decide]
      exact_mod_cast not_congr List.length_eq_zero_iff
    obtain ⟨text, htext⟩ := exists_printed hprinted (decide (stringAt before ≠ []))
    have hfits : text.length ≤ c.appendLen := hroomy text htext
    have hover := @prefix_strbufWrite before base
      (bytesFrom c.source behind c.appendLen) hfront
    have hfit : strlen before + text.length < (strbufWrite base (strlen before)
        (bytesFrom c.source behind c.appendLen)).length := by omega
    have hlength' := length_strbufWrite hfit
    have hcontent : stringAt (strbufWrite (strbufWrite base (strlen before)
        (bytesFrom c.source behind c.appendLen)) (strlen before) text) =
          stringAt before ++ text := by
      rw [stringAt_strbufWrite hover, stringAt_of_notMem (nul_notMem_printed hnul htext)]
    have hstrlen : strlen (strbufWrite (strbufWrite base (strlen before)
        (bytesFrom c.source behind c.appendLen)) (strlen before) text) =
          strlen before + text.length := by
      rw [strlen, hcontent, List.length_append, strlen]
    rw [hflag, htext]
    dsimp only [sprintfAt]
    rw [hint, Int.toNat_natCast, if_neg (by omega)]
    refine ⟨_, rfl, ⟨?_, by omega, by omega, by omega, hroomy⟩, by omega, by omega⟩
    rw [hcontent, denoted_eq, htext, Option.getD_some]

/-- Calls in a row, on any relation that follows from what each of them builds. -/
theorem eachCall_of_builds {R : BufferCall → Strbuf → Strbuf → Prop} {calls : List BufferCall}
    (hbuf : 0 < before.length) (hnul : ∀ c ∈ calls, c.NulFree)
    (hlen : (∀ c ∈ calls, c.printed true = none) ∨ strlen before + total calls < 2 ^ 31)
    (hcap : before.length < 2 ^ 63) (hsize : strlen before + total calls < 2 ^ 62)
    (hR : ∀ c ∈ calls, ∀ before after, Builds c before after → R c before after) :
    EachCall R behind calls before := by
  induction calls generalizing before with
  | nil => trivial
  | cons c calls ih =>
    have hsum : total (c :: calls) = c.appendLen + total calls := List.sum_cons
    obtain ⟨after, hrun, hbuilds, hafter, hstrlen⟩ :=
      run_spec hbuf (hnul c List.mem_cons_self)
        (hlen.imp (fun h => h c List.mem_cons_self) fun h => by omega) hcap (by omega)
    refine ⟨after, hrun, hR c List.mem_cons_self before after hbuilds,
      ih (by have := hbuilds.terminated; omega) (fun d hd => hnul d (List.mem_cons_of_mem c hd))
        ?_ hafter (by omega) fun d hd => hR d (List.mem_cons_of_mem c hd)⟩
    exact hlen.imp (fun h d hd => h d (List.mem_cons_of_mem c hd)) fun h => by omega

/-- What holds of each call in a row, without its buffers. -/
theorem forall_of_eachCall {R : BufferCall → Strbuf → Strbuf → Prop} {P : BufferCall → Prop}
    {calls : List BufferCall} (hR : ∀ c before after, R c before after → P c)
    (h : EachCall R behind calls before) : ∀ c ∈ calls, P c := by
  induction calls generalizing before with
  | nil => exact fun c hc => absurd hc List.not_mem_nil
  | cons c calls ih =>
    obtain ⟨after, -, hc, hrest⟩ := h
    exact List.forall_mem_cons.mpr ⟨hR c before after hc, ih hrest⟩

/-- A call reads no further than the terminator of its string only if it does not print. -/
theorem plain_iff_inside : c.Plain ↔ c.appendLen ≤ c.source.length + 1 := by
  cases c with
  | append s appendLen => exact Iff.rfl
  | comma => exact iff_of_true trivial (by decide)
  | _ =>
    refine iff_of_false id fun h => ?_
    simp only [BufferCall.appendLen, BufferCall.source, cmdTagAppendSize, List.length_nil] at h
    omega

/-- A plain call does not print. -/
theorem printed_of_plain (h : c.Plain) : c.printed true = none := by
  cases c with
  | append s appendLen => rfl
  | comma => rfl
  | _ => exact h.elim

/-- A new buffer holds the empty string. -/
theorem strlen_sppStrbufAllocate (capacity : ℕ) : strlen (sppStrbufAllocate capacity) = 0 := by
  cases capacity <;> rfl

/-- Every call reads its string alone, besides building the text, if and only if none of them
prints: each of `append_json_*` apart from `append_json_comma` passes an empty string under a
longer length. What the calls build is right even so, as long as the content is shorter than
`2 ^ 31`. -/
theorem eachCall_correct_iff_plain {capacity : ℕ} {calls : List BufferCall}
    (behind : ℕ → Char) (hcapacity : 0 < capacity) (hnul : ∀ c ∈ calls, c.NulFree)
    (hsize : capacity + total calls < 2 ^ 62) :
    (EachCall Correct behind calls (sppStrbufAllocate capacity) ↔ ∀ c ∈ calls, c.Plain) ∧
      (total calls < 2 ^ 31 → EachCall Builds behind calls (sppStrbufAllocate capacity)) := by
  have hlength := length_sppStrbufAllocate capacity
  have hstrlen := strlen_sppStrbufAllocate capacity
  refine ⟨⟨fun h => ?_, fun hplain => ?_⟩, fun htotal => ?_⟩
  · exact forall_of_eachCall (fun c before after hc => plain_iff_inside.mpr hc.inside) h
  · exact eachCall_of_builds (by omega) hnul
      (.inl fun c hc => printed_of_plain (hplain c hc)) (by omega) (by omega)
      fun c hc before after hbuilds => ⟨hbuilds, plain_iff_inside.mp (hplain c hc)⟩
  · exact eachCall_of_builds (by omega) hnul (.inr (by omega)) (by omega) (by omega)
      fun c hc before after hbuilds => hbuilds

/-- A reply without values: two strings with a comma between them. -/
theorem eachCall_correct_twoStrings :
    EachCall Correct (fun _ => 'x')
        [.append "ab".toList 2, .comma, .append "c".toList 2] (sppStrbufAllocate 2) ∧
      (6 < 2 ^ 31 → EachCall Builds (fun _ => 'x')
        [.append "ab".toList 2, .comma, .append "c".toList 2] (sppStrbufAllocate 2)) := by
  obtain ⟨hcorrect, hbuilds⟩ := @eachCall_correct_iff_plain 2
    [.append "ab".toList 2, .comma, .append "c".toList 2] (fun _ => 'x')
    (by decide) (by simp [BufferCall.NulFree, nul]) (by decide)
  exact ⟨hcorrect.mpr (by simp [BufferCall.Plain]), hbuilds⟩

/-- A number under the name `a` takes 33 bytes from the start of the empty string. -/
theorem not_eachCall_correct_uintValue :
    ¬ EachCall Correct (fun _ => nul) [.uintValue "a".toList 1] (sppStrbufAllocate 64) := by
  rintro ⟨after, -, hcorrect, -⟩
  exact absurd hcorrect.inside (by decide)

end Calls

end Spp.Vf.StringBuffer
