import Mathlib.Data.List.TakeWhile
import Mathlib.Data.List.Nodup
import Mathlib.Data.Nat.Notation

/-!
# JSON texts whose strings are not escaped

The tokens of a JSON text, on the bytes of the text, and the values that a text
can have. A printer that puts strings between quotation marks as they are is
right exactly if none of them has a character that must be escaped, and all of
them are UTF-8.
-/

namespace Json

section Value

/-- A JSON value. Of the numbers there are the integers only. -/
inductive Value
  | null
  | bool (b : Bool)
  | number (n : ℤ)
  | string (s : List Char)
  | array (elements : List Value)
  | object (members : List (List Char × Value))

/-- The tokens of a JSON text. A word is a number or one of the literal names. -/
inductive Token
  | beginArray
  | beginObject
  | endArray
  | endObject
  | nameSeparator
  | valueSeparator
  | word (lexeme : List Char)
  | string (s : List Char)
  deriving DecidableEq

/-- An integer as it is written. -/
def decimal (n : ℤ) : List Char :=
  if n < 0 then '-' :: Nat.toDigits 10 n.natAbs else Nat.toDigits 10 n.natAbs

mutual

/-- The tokens of a value. -/
def Value.tokens : Value → List Token
  | .null => [.word "null".toList]
  | .bool true => [.word "true".toList]
  | .bool false => [.word "false".toList]
  | .number n => [.word (decimal n)]
  | .string s => [.string s]
  | .array elements => .beginArray :: (elementTokens elements ++ [.endArray])
  | .object members => .beginObject :: (memberTokens members ++ [.endObject])

/-- The tokens between the brackets of an array. -/
def elementTokens : List Value → List Token
  | [] => []
  | [v] => v.tokens
  | v :: w :: vs => v.tokens ++ .valueSeparator :: elementTokens (w :: vs)

/-- The tokens between the braces of an object. -/
def memberTokens : List (List Char × Value) → List Token
  | [] => []
  | [(name, v)] => .string name :: .nameSeparator :: v.tokens
  | (name, v) :: m :: ms =>
    .string name :: .nameSeparator :: (v.tokens ++ .valueSeparator :: memberTokens (m :: ms))

end

mutual

/-- No object has the same name twice. -/
def Value.UniqueNames : Value → Prop
  | .array elements => UniqueElements elements
  | .object members => (members.map Prod.fst).Nodup ∧ UniqueMembers members
  | _ => True

/-- The same for the elements of an array. -/
def UniqueElements : List Value → Prop
  | [] => True
  | v :: vs => v.UniqueNames ∧ UniqueElements vs

/-- The same for the values in an object. -/
def UniqueMembers : List (List Char × Value) → Prop
  | [] => True
  | (_, v) :: ms => v.UniqueNames ∧ UniqueMembers ms

end

mutual

/-- All strings in a value, names included. -/
def Value.AllStrings (p : List Char → Prop) : Value → Prop
  | .string s => p s
  | .array elements => AllInElements p elements
  | .object members => AllInMembers p members
  | _ => True

/-- All strings in the elements of an array. -/
def AllInElements (p : List Char → Prop) : List Value → Prop
  | [] => True
  | v :: vs => v.AllStrings p ∧ AllInElements p vs

/-- All strings in an object. -/
def AllInMembers (p : List Char → Prop) : List (List Char × Value) → Prop
  | [] => True
  | (name, v) :: ms => p name ∧ v.AllStrings p ∧ AllInMembers p ms

end

end Value

section Number

/-- The rest of a text behind one digit or more. -/
def digits : List Char → Option (List Char)
  | [] => none
  | c :: cs => if c.isDigit then some (cs.dropWhile Char.isDigit) else none

/-- The text is an exponent, or empty. -/
def isExponent : List Char → Bool
  | [] => true
  | e :: '+' :: cs => (e = 'e' || e = 'E') && digits cs = some []
  | e :: '-' :: cs => (e = 'e' || e = 'E') && digits cs = some []
  | e :: cs => (e = 'e' || e = 'E') && digits cs = some []

/-- The text is what may follow the integer part of a number. -/
def isFraction : List Char → Bool
  | '.' :: cs => (digits cs).any isExponent
  | cs => isExponent cs

/-- The text is a number without a sign. No zero stands in front of a digit. -/
def isUnsigned : List Char → Bool
  | '0' :: cs => isFraction cs
  | cs => (digits cs).any isFraction

/-- The text is a number. -/
def isNumber : List Char → Bool
  | '-' :: cs => isUnsigned cs
  | cs => isUnsigned cs

/-- The text is a number or a literal name. -/
def isWord (w : List Char) : Bool :=
  isNumber w || w = "null".toList || w = "true".toList || w = "false".toList

/-- The characters of which words are made. -/
def isWordChar (c : Char) : Bool :=
  c.isAlphanum || c = '-' || c = '+' || c = '.'

end Number

section Strings

/-- The bytes that the characters stand for. -/
def bytes (s : List Char) : ByteArray := (s.map fun c => UInt8.ofNat c.toNat).toByteArray

/-- The characters stand for bytes, and these are UTF-8. -/
def IsUtf8 (s : List Char) : Prop := (∀ c ∈ s, c.toNat < 256) ∧ (bytes s).IsValidUTF8

instance (s : List Char) : Decidable (IsUtf8 s) :=
  @instDecidableAnd _ _ (List.decidableBAll (fun c => c.toNat < 256) s) inferInstance

/-- The UTF-8 bytes of a code point. -/
def utf8Chars (code : ℕ) : List Char :=
  (String.utf8EncodeChar (Char.ofNat code)).map fun b => Char.ofNat b.toNat

/-- The value of a hexadecimal digit. -/
def hexDigit (c : Char) : Option ℕ :=
  if c.isDigit then some (c.toNat - '0'.toNat)
  else if 'a' ≤ c ∧ c ≤ 'f' then some (c.toNat - 'a'.toNat + 10)
  else if 'A' ≤ c ∧ c ≤ 'F' then some (c.toNat - 'A'.toNat + 10)
  else none

/-- Four hexadecimal digits, and the rest of the text. -/
def readHex : List Char → Option (ℕ × List Char)
  | a :: b :: c :: d :: rest =>
    match hexDigit a, hexDigit b, hexDigit c, hexDigit d with
    | some a, some b, some c, some d => some (((a * 16 + b) * 16 + c) * 16 + d, rest)
    | _, _, _, _ => none
  | _ => none

/-- The character that a letter behind a backslash stands for. -/
def escapeChar : Char → Option Char
  | '"' => some '"'
  | '\\' => some '\\'
  | '/' => some '/'
  | 'b' => some (Char.ofNat 8)
  | 'f' => some (Char.ofNat 12)
  | 'n' => some (Char.ofNat 10)
  | 'r' => some (Char.ofNat 13)
  | 't' => some (Char.ofNat 9)
  | _ => none

/-- What an escape stands for, from behind its backslash on. A code point beyond
the basic plane is written as two surrogates. -/
def readEscape : List Char → Option (List Char × List Char)
  | 'u' :: cs =>
    match readHex cs with
    | none => none
    | some (high, rest) =>
      if high < 0xd800 ∨ 0xe000 ≤ high then some (utf8Chars high, rest)
      else if 0xdc00 ≤ high then none
      else
        match rest with
        | '\\' :: 'u' :: rest =>
          match readHex rest with
          | none => none
          | some (low, rest) =>
            if 0xdc00 ≤ low ∧ low < 0xe000 then
              some (utf8Chars (0x10000 + (high - 0xd800) * 0x400 + (low - 0xdc00)), rest)
            else none
        | _ => none
  | c :: rest => (escapeChar c).map fun e => ([e], rest)
  | [] => none

/-- Hexadecimal digits are four characters, and no quotation mark is one. -/
theorem readHex_spec {t rest : List Char} {n : ℕ} (h : readHex t = some (n, rest)) :
    ∃ u, t = u ++ rest ∧ u.length = 4 ∧ '"' ∉ u := by
  unfold readHex at h
  split at h
  · rename_i a b c d rest'
    split at h
    · rename_i _ _ _ _ ha hb hc hd
      obtain ⟨-, rfl⟩ := Prod.mk.inj (Option.some.inj h)
      refine ⟨[a, b, c, d], rfl, rfl, fun hmem => ?_⟩
      have hnone : hexDigit '"' = none := by decide
      simp only [List.mem_cons, List.not_mem_nil, or_false] at hmem
      rcases hmem with rfl | rfl | rfl | rfl
      · cases hnone.symm.trans ha
      · cases hnone.symm.trans hb
      · cases hnone.symm.trans hc
      · cases hnone.symm.trans hd
    · cases h
  · cases h

/-- A code point has at most four bytes. -/
theorem length_utf8Chars (code : ℕ) : (utf8Chars code).length ≤ 4 := by
  unfold utf8Chars
  rw [List.length_map, String.length_utf8EncodeChar]
  exact Char.utf8Size_le_four _

/-- An escape is at least as long as what it stands for, and the only one with a
quotation mark is the escape of a quotation mark. -/
theorem readEscape_spec {t e rest : List Char} (h : readEscape t = some (e, rest)) :
    ∃ u, t = u ++ rest ∧ u ≠ [] ∧ e.length ≤ u.length ∧ ('"' ∈ u → u = ['"'] ∧ e = ['"']) := by
  unfold readEscape at h
  split at h
  · rename_i cs
    split at h
    · cases h
    · rename_i high rest₁ hhigh
      obtain ⟨u, rfl, hlen, hquote⟩ := readHex_spec hhigh
      split at h
      · obtain ⟨rfl, rfl⟩ := Prod.mk.inj (Option.some.inj h)
        have hle := length_utf8Chars high
        refine ⟨'u' :: u, rfl, List.cons_ne_nil _ _, ?_, fun hmem => ?_⟩
        · rw [List.length_cons]
          omega
        · rcases List.mem_cons.mp hmem with hmem | hmem
          · exact absurd hmem (by decide)
          · exact absurd hmem hquote
      · split at h
        · cases h
        · split at h
          · rename_i rest₂
            split at h
            · cases h
            · rename_i low rest₃ hlow
              obtain ⟨u', rfl, hlen', hquote'⟩ := readHex_spec hlow
              split at h
              · obtain ⟨rfl, rfl⟩ := Prod.mk.inj (Option.some.inj h)
                refine ⟨'u' :: (u ++ '\\' :: 'u' :: u'), ?_, List.cons_ne_nil _ _, ?_,
                  fun hmem => ?_⟩
                · simp only [List.cons_append, List.append_assoc]
                · have hle :=
                    length_utf8Chars (0x10000 + (high - 0xd800) * 0x400 + (low - 0xdc00))
                  simp only [List.length_cons, List.length_append]
                  omega
                · simp [hquote, hquote'] at hmem
              · cases h
          · cases h
  · rename_i c rest' _
    obtain ⟨e', he, heq⟩ := Option.map_eq_some_iff.mp h
    obtain ⟨rfl, rfl⟩ := Prod.mk.inj heq
    refine ⟨[c], rfl, List.cons_ne_nil _ _, Nat.le_refl _, fun hmem => ?_⟩
    obtain rfl := List.mem_singleton.mp hmem
    have hquote : escapeChar '"' = some '"' := rfl
    rw [hquote] at he
    cases he
    exact ⟨rfl, rfl⟩
  · cases h

/-- What is between quotation marks, from behind the first one on, and the rest of
the text behind the second one. -/
def readString : List Char → Option (List Char × List Char)
  | [] => none
  | c :: cs =>
    if c = '"' then some ([], cs)
    else if c = '\\' then
      match _h : readEscape cs with
      | none => none
      | some (e, rest) => (readString rest).map fun p => (e ++ p.1, p.2)
    else if c.toNat < 0x20 then none
    else (readString cs).map fun p => (c :: p.1, p.2)
termination_by t => t.length
decreasing_by
  · obtain ⟨u, rfl, hne, -⟩ := readEscape_spec _h
    have hpos := List.length_pos_iff.mpr hne
    simp only [List.length_cons, List.length_append]
    omega
  · simp only [List.length_cons]
    omega

/-- The rest behind a string is shorter than the text. -/
theorem length_readString {t s rest : List Char} (h : readString t = some (s, rest)) :
    rest.length < t.length := by
  fun_induction readString t generalizing s with
  | case1 => cases h
  | case2 cs =>
    cases h
    exact Nat.lt_succ_self _
  | case3 => cases h
  | case4 cs e rest' hescape _ ih =>
    obtain ⟨p, hp, heq⟩ := Option.map_eq_some_iff.mp h
    obtain ⟨u, rfl, -⟩ := readEscape_spec hescape
    obtain ⟨-, rfl⟩ := Prod.mk.inj heq
    have hlt := ih hp
    simp only [List.length_cons, List.length_append]
    omega
  | case5 => cases h
  | case6 c cs _ _ _ ih =>
    obtain ⟨p, hp, heq⟩ := Option.map_eq_some_iff.mp h
    obtain ⟨-, rfl⟩ := Prod.mk.inj heq
    exact Nat.lt_succ_of_lt (ih hp)

end Strings

section Lex

/-- The whitespace between tokens. -/
def isSpace (c : Char) : Bool := c = ' ' || c = '\t' || c = '\n' || c = '\r'

/-- The token of a structural character. -/
def structural (c : Char) : Option Token :=
  if c = '[' then some .beginArray
  else if c = ']' then some .endArray
  else if c = '\x7b' then some .beginObject
  else if c = '\x7d' then some .endObject
  else if c = ':' then some .nameSeparator
  else if c = ',' then some .valueSeparator
  else none

/-- The tokens of a text, if it has no others. -/
def lex : List Char → Option (List Token)
  | [] => some []
  | c :: cs =>
    if isSpace c then lex cs
    else
      match structural c with
      | some token => (lex cs).map fun tokens => token :: tokens
      | none =>
        if c = '"' then
          match _h : readString cs with
          | none => none
          | some (s, rest) =>
            if IsUtf8 s then (lex rest).map fun tokens => .string s :: tokens else none
        else if isWordChar c then
          let w := c :: cs.takeWhile isWordChar
          if isWord w then
            (lex (cs.dropWhile isWordChar)).map fun tokens => .word w :: tokens
          else none
        else none
termination_by t => t.length
decreasing_by
  · exact Nat.lt_succ_self _
  · exact Nat.lt_succ_self _
  · exact Nat.lt_succ_of_lt (length_readString _h)
  · exact Nat.lt_succ_of_le (List.dropWhile_suffix isWordChar).length_le

/-- The text is a JSON text with this value. -/
def IsText (text : List Char) (v : Value) : Prop := lex text = some v.tokens

end Lex

section Unescaped

/-- Characters that stand for themselves in a string. -/
def Unescaped (s : List Char) : Prop := ∀ c ∈ s, c ≠ '"' ∧ c ≠ '\\' ∧ 0x20 ≤ c.toNat

theorem readString_quote (rest : List Char) : readString ('"' :: rest) = some ([], rest) := by
  rw [readString, if_pos rfl]

theorem readString_escape (cs : List Char) :
    readString ('\\' :: cs) = (readEscape cs).bind fun p =>
      (readString p.2).map fun q => (p.1 ++ q.1, q.2) := by
  rw [readString, if_neg (by decide), if_pos rfl]
  split
  · rename_i hnone
    rw [hnone]
    rfl
  · rename_i hsome
    rw [hsome]
    rfl

theorem readString_char {c : Char} {cs : List Char} (hquote : c ≠ '"') (hslash : c ≠ '\\') :
    readString (c :: cs) =
      if c.toNat < 0x20 then none else (readString cs).map fun p => (c :: p.1, p.2) := by
  rw [readString, if_neg hquote, if_neg hslash]

/-- Unescaped characters are read up to the quotation mark behind them. -/
theorem readString_unescaped {s : List Char} (h : Unescaped s) (rest : List Char) :
    readString (s ++ '"' :: rest) = some (s, rest) := by
  induction s with
  | nil => exact readString_quote rest
  | cons c s ih =>
    obtain ⟨hquote, hslash, hctl⟩ := h c List.mem_cons_self
    have hrest := ih fun d hd => h d (List.mem_cons_of_mem c hd)
    rw [List.cons_append, readString_char hquote hslash, if_neg (Nat.not_lt_of_le hctl), hrest]
    rfl

/-- A string is read from a text whose first quotation mark stands behind `p`.
Either it is no longer than `p`, and shorter if anything is escaped in `p`, or that
quotation mark is escaped, and stands further in front in the string. -/
theorem readString_first_quote {p rest s rest' : List Char} (hp : '"' ∉ p)
    (h : readString (p ++ '"' :: rest) = some (s, rest')) :
    (s.length ≤ p.length ∧ (s.length = p.length → s = p ∧ Unescaped p ∧ rest' = rest)) ∨
      ∃ s₁ s₂, s = s₁ ++ '"' :: s₂ ∧ s₁.length < p.length := by
  induction hlen : p.length using Nat.strong_induction_on generalizing p s with
  | _ n ih =>
    subst hlen
    cases p with
    | nil =>
      rw [List.nil_append, readString_quote] at h
      cases h
      exact .inl ⟨Nat.le_refl _, fun _ => ⟨rfl, fun c hc => (by cases hc), rfl⟩⟩
    | cons c p =>
      obtain ⟨hquote, hnot⟩ := not_or.mp (mt List.mem_cons.mpr hp)
      rw [List.cons_append] at h
      by_cases hslash : c = '\\'
      · subst hslash
        rw [readString_escape] at h
        obtain ⟨⟨e, t⟩, hescape, h⟩ := Option.bind_eq_some_iff.mp h
        obtain ⟨⟨s', t'⟩, hs', heq⟩ := Option.map_eq_some_iff.mp h
        obtain ⟨rfl, rfl⟩ := Prod.mk.inj heq
        obtain ⟨u, hsplit, hne, hle, hmark⟩ := readEscape_spec hescape
        have hpos := List.length_pos_iff.mpr hne
        by_cases hmem : '"' ∈ u
        · obtain ⟨rfl, rfl⟩ := hmark hmem
          exact .inr ⟨[], s', rfl, Nat.succ_pos _⟩
        · obtain ⟨q, rfl, rfl⟩ : ∃ q, p = u ++ q ∧ t = q ++ '"' :: rest := by
            rcases List.append_eq_append_iff.mp hsplit with ⟨q, hu, hrest⟩ | hq
            · cases q with
              | nil => exact ⟨[], by rw [hu, List.append_nil, List.append_nil], hrest.symm⟩
              | cons d q =>
                obtain ⟨rfl, -⟩ := List.cons.inj hrest
                exact absurd (hu ▸ List.mem_append_right p List.mem_cons_self) hmem
            · exact hq
          have hq : '"' ∉ q := fun hmem => hnot (List.mem_append_right u hmem)
          have hlt : q.length < ('\\' :: (u ++ q)).length := by
            simp only [List.length_cons, List.length_append]
            omega
          dsimp only at hs' ⊢
          simp only [List.length_cons, List.length_append]
          rcases ih q.length hlt hq hs' rfl with ⟨hle', -⟩ | ⟨s₁, s₂, rfl, hlt'⟩
          · exact .inl ⟨by omega, fun heq => by omega⟩
          · refine .inr ⟨e ++ s₁, s₂, (List.append_assoc ..).symm, ?_⟩
            rw [List.length_append]
            omega
      · rw [readString_char (Ne.symm hquote) hslash] at h
        by_cases hctl : c.toNat < 0x20
        · rw [if_pos hctl] at h
          cases h
        · rw [if_neg hctl] at h
          obtain ⟨⟨s', t'⟩, hs', heq⟩ := Option.map_eq_some_iff.mp h
          obtain ⟨rfl, rfl⟩ := Prod.mk.inj heq
          rcases ih p.length (Nat.lt_succ_self _) hnot hs' rfl with ⟨hle, hsame⟩ | ⟨s₁, s₂, hs, hlt⟩
          · refine .inl ⟨Nat.succ_le_succ hle, fun hlen => ?_⟩
            obtain ⟨rfl, hplain, ht⟩ := hsame (Nat.succ.inj hlen)
            refine ⟨rfl, fun d hd => ?_, ht⟩
            rcases List.mem_cons.mp hd with rfl | hd
            · exact ⟨Ne.symm hquote, hslash, Nat.le_of_not_lt hctl⟩
            · exact hplain d hd
          · exact .inr ⟨c :: s₁, s₂, by dsimp only at hs ⊢; rw [hs]; rfl, Nat.succ_lt_succ hlt⟩

/-- A string that is read as it was put between quotation marks has nothing that
must be escaped. -/
theorem unescaped_of_readString {s rest rest' : List Char}
    (h : readString (s ++ '"' :: rest) = some (s, rest')) : Unescaped s ∧ rest' = rest := by
  by_cases hquote : '"' ∈ s
  · obtain ⟨p, q, rfl, hp⟩ := List.eq_append_cons_of_mem hquote
    rw [List.append_assoc, List.cons_append] at h
    rcases readString_first_quote hp h with ⟨hle, -⟩ | ⟨s₁, s₂, hs, hlt⟩
    · simp only [List.length_append, List.length_cons] at hle
      omega
    · rcases List.append_eq_append_iff.mp hs with ⟨r, rfl, -⟩ | ⟨r, rfl, hr⟩
      · rw [List.length_append] at hlt
        omega
      · cases r with
        | nil => simp at hlt
        | cons d r =>
          obtain ⟨rfl, -⟩ := List.cons.inj hr
          exact absurd (List.mem_append_right s₁ List.mem_cons_self) hp
  · rcases readString_first_quote hquote h with ⟨-, hsame⟩ | ⟨s₁, s₂, hs, -⟩
    · exact (hsame rfl).2
    · exact absurd (hs ▸ List.mem_append_right s₁ List.mem_cons_self) hquote

/-- Strings that can be put between quotation marks as they are. -/
def Plain (s : List Char) : Prop := Unescaped s ∧ IsUtf8 s

/-- The token of a string between quotation marks. -/
theorem lex_string_iff {s rest : List Char} {tokens : List Token} :
    lex ('"' :: (s ++ '"' :: rest)) = some (.string s :: tokens) ↔
      Plain s ∧ lex rest = some tokens := by
  have hstructural : structural '"' = none := by decide
  have hspace : ¬ isSpace '"' = true := by decide
  have hlex : lex ('"' :: (s ++ '"' :: rest)) =
      (readString (s ++ '"' :: rest)).bind fun p =>
        if IsUtf8 p.1 then (lex p.2).map fun tokens => .string p.1 :: tokens else none := by
    rw [lex, if_neg hspace]
    simp only [hstructural, if_true]
    split
    · rename_i hnone
      rw [hnone, Option.bind_none]
    · rename_i hsome
      rw [hsome, Option.bind_some]
  rw [hlex]
  constructor
  · intro h
    obtain ⟨⟨s', rest'⟩, hread, h⟩ := Option.bind_eq_some_iff.mp h
    dsimp only at h
    by_cases hutf8 : IsUtf8 s'
    · rw [if_pos hutf8] at h
      obtain ⟨tokens', htokens, heq⟩ := Option.map_eq_some_iff.mp h
      obtain ⟨hs, rfl⟩ := List.cons.inj heq
      obtain rfl := Token.string.inj hs
      obtain ⟨hplain, rfl⟩ := unescaped_of_readString hread
      exact ⟨⟨hplain, hutf8⟩, htokens⟩
    · rw [if_neg hutf8] at h
      cases h
  · rintro ⟨⟨hplain, hutf8⟩, htokens⟩
    rw [readString_unescaped hplain, Option.bind_some, if_pos hutf8, htokens]
    rfl

end Unescaped

section Print

/-- The text goes on with a character that ends a word. -/
def Ends (rest : List Char) : Prop := ∀ c ∈ rest.head?, isWordChar c = false

theorem lex_space (rest : List Char) : lex (' ' :: rest) = lex rest := by
  rw [lex, if_pos (by decide)]

theorem lex_structural {c : Char} {token : Token} (hspace : isSpace c = false)
    (h : structural c = some token) (rest : List Char) :
    lex (c :: rest) = (lex rest).map fun tokens => token :: tokens := by
  rw [lex, if_neg (by rw [hspace]; decide), h]

/-- A character of a word begins no other token. -/
theorem isWordChar_cases {c : Char} (h : isWordChar c = true) :
    isSpace c = false ∧ structural c = none ∧ c ≠ '"' := by
  refine ⟨?_, ?_, ?_⟩
  · rw [← Bool.not_eq_true]
    intro hspace
    simp only [isSpace, Bool.or_eq_true, decide_eq_true_eq] at hspace
    rcases hspace with ((rfl | rfl) | rfl) | rfl <;> exact absurd h (by decide)
  · unfold structural
    split_ifs with h₁ h₂ h₃ h₄ h₅ h₆
    all_goals first | rfl | (subst_vars; exact absurd h (by decide))
  · rintro rfl
    exact absurd h (by decide)

/-- The token of a word. -/
theorem lex_word {w rest : List Char} (hword : isWord w = true)
    (hchars : ∀ c ∈ w, isWordChar c = true) (hrest : Ends rest) :
    lex (w ++ rest) = (lex rest).map fun tokens => .word w :: tokens := by
  cases w with
  | nil => exact absurd hword (by decide)
  | cons c w =>
    have hc := hchars c List.mem_cons_self
    have hw : ∀ d ∈ w, isWordChar d = true := fun d hd => hchars d (List.mem_cons_of_mem c hd)
    obtain ⟨hspace, hstructural, hquote⟩ := isWordChar_cases hc
    have htake : (w ++ rest).takeWhile isWordChar = w := by
      rw [List.takeWhile_append_of_pos hw]
      cases rest with
      | nil => rw [List.takeWhile_nil, List.append_nil]
      | cons d rest =>
        rw [List.takeWhile_cons_of_neg (by rw [hrest d rfl]; decide), List.append_nil]
    have hdrop : (w ++ rest).dropWhile isWordChar = rest := by
      rw [List.dropWhile_append_of_pos hw]
      cases rest with
      | nil => rfl
      | cons d rest => rw [List.dropWhile_cons_of_neg (by rw [hrest d rfl]; decide)]
    rw [List.cons_append, lex, if_neg (by rw [hspace]; decide), hstructural]
    simp only [hquote, if_false, hc, if_true, htake, hdrop, hword]

/-- The digits of a number that is not zero do not begin with a zero. -/
theorem head_toDigits {n : ℕ} (h : 0 < n) : ∃ c cs, Nat.toDigits 10 n = c :: cs ∧ c ≠ '0' := by
  induction n using Nat.strong_induction_on with
  | _ n ih =>
    by_cases hlt : n < 10
    · have hdigit : ∀ m < 10, 0 < m → Nat.digitChar m ≠ '0' := by decide
      exact ⟨n.digitChar, [], Nat.toDigits_of_lt_base hlt, hdigit n hlt h⟩
    · obtain ⟨c, cs, hdigits, hc⟩ := ih (n / 10) (by omega) (by omega)
      refine ⟨c, cs ++ [(n % 10).digitChar], ?_, hc⟩
      rw [Nat.toDigits_of_base_le (by decide) (by omega), hdigits]
      rfl

/-- The decimal digits of a natural number are a number. -/
theorem isUnsigned_toDigits (n : ℕ) : isUnsigned (Nat.toDigits 10 n) = true := by
  by_cases h : n = 0
  · subst h
    rfl
  · obtain ⟨c, cs, hdigits, hc⟩ := head_toDigits (Nat.pos_of_ne_zero h)
    have hall : ∀ d ∈ c :: cs, d.isDigit = true := by
      rw [← hdigits]
      exact fun d hd => Nat.isDigit_of_mem_toDigits (by decide) (by decide) hd
    have hrest : cs.dropWhile Char.isDigit = [] :=
      List.dropWhile_eq_nil_iff.mpr fun d hd => hall d (List.mem_cons_of_mem c hd)
    rw [hdigits]
    unfold isUnsigned
    split
    · rename_i heq
      exact absurd (List.cons.inj heq).1 hc
    · have hdigits : digits (c :: cs) = some [] := by
        rw [digits, if_pos (hall c List.mem_cons_self), hrest]
      rw [hdigits]
      rfl

/-- An integer is a word. -/
theorem decimal_word (n : ℤ) :
    isWord (decimal n) = true ∧ ∀ c ∈ decimal n, isWordChar c = true := by
  have hunsigned := isUnsigned_toDigits n.natAbs
  have hdigit : ∀ c ∈ Nat.toDigits 10 n.natAbs, c.isDigit = true :=
    fun c hc => Nat.isDigit_of_mem_toDigits (by decide) (by decide) hc
  have hchar : ∀ c ∈ Nat.toDigits 10 n.natAbs, isWordChar c = true := by
    intro c hc
    simp only [isWordChar, Char.isAlphanum, hdigit c hc, Bool.or_true, Bool.true_or]
  unfold decimal
  by_cases hneg : n < 0
  · rw [if_pos hneg]
    refine ⟨?_, fun c hc => ?_⟩
    · have hnumber : isNumber ('-' :: Nat.toDigits 10 n.natAbs) = true := hunsigned
      simp only [isWord, hnumber, Bool.true_or]
    · rcases List.mem_cons.mp hc with rfl | hc
      · decide
      · exact hchar c hc
  · rw [if_neg hneg]
    refine ⟨?_, hchar⟩
    have hnumber : isNumber (Nat.toDigits 10 n.natAbs) = true := by
      unfold isNumber
      split
      · rename_i cs heq
        exact absurd (hdigit '-' (heq ▸ List.mem_cons_self)) (by decide)
      · exact hunsigned
    simp only [isWord, hnumber, Bool.true_or]

/-- A token in front of others. -/
theorem map_cons_eq_some {o : Option (List Token)} {token : Token} {tokens : List Token} :
    (o.map fun tokens => token :: tokens) = some (token :: tokens) ↔ o = some tokens := by
  cases o with
  | none => exact ⟨fun h => (by cases h), fun h => (by cases h)⟩
  | some tokens' => simp only [Option.map_some, Option.some.injEq, List.cons.injEq, true_and]

mutual

/-- A value as text, with strings between quotation marks as they are. -/
def Value.print : Value → List Char
  | .null => "null".toList
  | .bool true => "true".toList
  | .bool false => "false".toList
  | .number n => decimal n
  | .string s => '"' :: (s ++ ['"'])
  | .array elements => "[ ".toList ++ printElements elements ++ " ]".toList
  | .object members => "\x7b ".toList ++ printMembers members ++ " \x7d".toList

/-- The text between the brackets of an array. -/
def printElements : List Value → List Char
  | [] => []
  | [v] => v.print
  | v :: w :: vs => v.print ++ ", ".toList ++ printElements (w :: vs)

/-- The text between the braces of an object. -/
def printMembers : List (List Char × Value) → List Char
  | [] => []
  | [(name, v)] => '"' :: (name ++ "\": ".toList ++ v.print)
  | (name, v) :: m :: ms =>
    '"' :: (name ++ "\": ".toList ++ v.print ++ ", ".toList ++ printMembers (m :: ms))

end

/-- Members print as nothing only if there are none. -/
theorem printMembers_eq_nil {members : List (List Char × Value)} :
    printMembers members = [] ↔ members = [] := by
  match members with
  | [] => exact iff_of_true rfl rfl
  | [(name, v)] => exact iff_of_false (List.cons_ne_nil _ _) (List.cons_ne_nil _ _)
  | (name, v) :: m :: ms => exact iff_of_false (List.cons_ne_nil _ _) (List.cons_ne_nil _ _)

/-- Members behind others have a comma in front of them. -/
theorem printMembers_append {ms ms' : List (List Char × Value)} (h : ms ≠ []) (h' : ms' ≠ []) :
    printMembers (ms ++ ms') = printMembers ms ++ ", ".toList ++ printMembers ms' := by
  induction ms with
  | nil => exact absurd rfl h
  | cons m ms ih =>
    obtain ⟨name, v⟩ := m
    cases ms with
    | nil =>
      obtain ⟨m', ms', rfl⟩ := List.exists_cons_of_ne_nil h'
      simp only [List.cons_append, List.nil_append, printMembers, List.append_assoc]
    | cons m ms =>
      have hrest := ih (List.cons_ne_nil m ms)
      rw [List.cons_append] at hrest
      simp only [List.cons_append, printMembers, hrest, List.append_assoc]

/-- No value prints as nothing. -/
theorem Value.print_ne_nil (v : Value) : v.print ≠ [] := by
  match v with
  | .null | .bool true | .bool false => decide
  | .number n =>
    intro hnil
    have hword := (decimal_word n).1
    rw [show decimal n = [] from hnil] at hword
    exact absurd hword (by decide)
  | .string s => exact List.cons_ne_nil _ _
  | .array elements => exact List.cons_ne_nil _ _
  | .object members => exact List.cons_ne_nil _ _

/-- Elements print as nothing only if there are none. -/
theorem printElements_eq_nil {elements : List Value} :
    printElements elements = [] ↔ elements = [] := by
  match elements with
  | [] => exact iff_of_true rfl rfl
  | [v] => exact iff_of_false v.print_ne_nil (List.cons_ne_nil _ _)
  | v :: w :: vs =>
    refine iff_of_false (fun hnil => ?_) (List.cons_ne_nil _ _)
    exact v.print_ne_nil (List.append_eq_nil_iff.mp (List.append_eq_nil_iff.mp hnil).1).1

/-- One more element has a comma in front of it, unless it is the first. -/
theorem printElements_concat {elements : List Value} (h : elements ≠ []) (v : Value) :
    printElements (elements ++ [v]) = printElements elements ++ ", ".toList ++ v.print := by
  induction elements with
  | nil => exact absurd rfl h
  | cons w ws ih =>
    cases ws with
    | nil => rfl
    | cons w' ws =>
      have hrest := ih (List.cons_ne_nil w' ws)
      rw [List.cons_append] at hrest
      simp only [List.cons_append, printElements, hrest, List.append_assoc]

theorem ends_cons {c : Char} (h : isWordChar c = false) (rest : List Char) : Ends (c :: rest) :=
  fun _ hd => Option.some.inj hd ▸ h

theorem ends_comma (rest : List Char) : Ends (", ".toList ++ rest) :=
  ends_cons (c := ',') (by decide) (' ' :: rest)

/-- A word between other tokens. -/
theorem lex_word_iff {w rest : List Char} {tokens : List Token} (hword : isWord w = true)
    (hchars : ∀ c ∈ w, isWordChar c = true) (hrest : Ends rest) :
    lex (w ++ rest) = some (.word w :: tokens) ↔ lex rest = some tokens := by
  rw [lex_word hword hchars hrest, map_cons_eq_some]

/-- A structural character between other tokens. -/
theorem lex_structural_iff {c : Char} {token : Token} {rest : List Char} {tokens : List Token}
    (hspace : isSpace c = false) (h : structural c = some token) :
    lex (c :: rest) = some (token :: tokens) ↔ lex rest = some tokens := by
  rw [lex_structural hspace h, map_cons_eq_some]

/-- What stands between two values. -/
theorem lex_comma_iff {rest : List Char} {tokens : List Token} :
    lex (", ".toList ++ rest) = some (.valueSeparator :: tokens) ↔ lex rest = some tokens := by
  show lex (',' :: ' ' :: rest) = _ ↔ _
  rw [lex_structural_iff (by decide) (by decide), lex_space]

/-- What stands between a name and its value. -/
theorem lex_name_iff {name rest : List Char} {tokens : List Token} :
    lex ('"' :: (name ++ "\": ".toList ++ rest)) =
        some (.string name :: .nameSeparator :: tokens) ↔
      Plain name ∧ lex rest = some tokens := by
  have htext : name ++ "\": ".toList ++ rest = name ++ '"' :: ':' :: ' ' :: rest :=
    List.append_assoc ..
  rw [htext, lex_string_iff, lex_structural_iff (by decide) (by decide), lex_space]

mutual

/-- A printed value has the tokens of the value iff its strings are plain. -/
theorem Value.lex_print_iff (v : Value) {rest : List Char} {tokens : List Token}
    (hrest : Ends rest) :
    lex (v.print ++ rest) = some (v.tokens ++ tokens) ↔
      v.AllStrings Plain ∧ lex rest = some tokens := by
  match v with
  | .null =>
    have hword : isWord "null".toList = true := by decide +kernel
    have hchars : ∀ c ∈ "null".toList, isWordChar c = true := List.all_eq_true.mp rfl
    exact (lex_word_iff hword hchars hrest).trans (and_iff_right trivial).symm
  | .bool true =>
    have hword : isWord "true".toList = true := by decide +kernel
    have hchars : ∀ c ∈ "true".toList, isWordChar c = true := List.all_eq_true.mp rfl
    exact (lex_word_iff hword hchars hrest).trans (and_iff_right trivial).symm
  | .bool false =>
    have hword : isWord "false".toList = true := by decide +kernel
    have hchars : ∀ c ∈ "false".toList, isWordChar c = true := List.all_eq_true.mp rfl
    exact (lex_word_iff hword hchars hrest).trans (and_iff_right trivial).symm
  | .number n =>
    obtain ⟨hword, hchars⟩ := decimal_word n
    exact (lex_word_iff hword hchars hrest).trans (and_iff_right trivial).symm
  | .string s =>
    have htext : (Value.string s).print ++ rest = '"' :: (s ++ '"' :: rest) := by
      simp only [Value.print, List.cons_append, List.append_assoc, List.nil_append]
    rw [htext]
    exact lex_string_iff
  | .array elements =>
    have htext : (Value.array elements).print ++ rest =
        '[' :: ' ' :: (printElements elements ++ ' ' :: ']' :: rest) := by
      simp only [Value.print, List.append_assoc]
      rfl
    have htokens : (Value.array elements).tokens ++ tokens =
        .beginArray :: (elementTokens elements ++ .endArray :: tokens) := by
      simp only [Value.tokens, List.cons_append, List.append_assoc, List.nil_append]
    rw [htext, htokens, lex_structural_iff (by decide) (by decide), lex_space,
      lex_printElements_iff elements (ends_cons (by decide) _), lex_space,
      lex_structural_iff (by decide) (by decide), Value.AllStrings]
  | .object members =>
    have htext : (Value.object members).print ++ rest =
        '\x7b' :: ' ' :: (printMembers members ++ ' ' :: '\x7d' :: rest) := by
      simp only [Value.print, List.append_assoc]
      rfl
    have htokens : (Value.object members).tokens ++ tokens =
        .beginObject :: (memberTokens members ++ .endObject :: tokens) := by
      simp only [Value.tokens, List.cons_append, List.append_assoc, List.nil_append]
    rw [htext, htokens, lex_structural_iff (by decide) (by decide), lex_space,
      lex_printMembers_iff members (ends_cons (by decide) _), lex_space,
      lex_structural_iff (by decide) (by decide), Value.AllStrings]

/-- The same for the elements of an array. -/
theorem lex_printElements_iff (elements : List Value) {rest : List Char} {tokens : List Token}
    (hrest : Ends rest) :
    lex (printElements elements ++ rest) = some (elementTokens elements ++ tokens) ↔
      AllInElements Plain elements ∧ lex rest = some tokens := by
  match elements with
  | [] => exact (and_iff_right trivial).symm
  | [v] =>
    rw [printElements, elementTokens, Value.lex_print_iff v hrest, AllInElements, AllInElements,
      and_true]
  | v :: w :: vs =>
    have htext : printElements (v :: w :: vs) ++ rest =
        v.print ++ (", ".toList ++ (printElements (w :: vs) ++ rest)) := by
      simp only [printElements, List.append_assoc]
    have htokens : elementTokens (v :: w :: vs) ++ tokens =
        v.tokens ++ .valueSeparator :: (elementTokens (w :: vs) ++ tokens) := by
      simp only [elementTokens, List.append_assoc, List.cons_append]
    rw [htext, htokens, Value.lex_print_iff v (ends_comma _), lex_comma_iff,
      lex_printElements_iff (w :: vs) hrest, ← and_assoc]
    rfl

/-- And for the members of an object. -/
theorem lex_printMembers_iff (members : List (List Char × Value)) {rest : List Char}
    {tokens : List Token} (hrest : Ends rest) :
    lex (printMembers members ++ rest) = some (memberTokens members ++ tokens) ↔
      AllInMembers Plain members ∧ lex rest = some tokens := by
  match members with
  | [] => exact (and_iff_right trivial).symm
  | [(name, v)] =>
    have htext : printMembers [(name, v)] ++ rest =
        '"' :: (name ++ "\": ".toList ++ (v.print ++ rest)) := by
      simp only [printMembers, List.cons_append, List.append_assoc]
    have htokens : memberTokens [(name, v)] ++ tokens =
        .string name :: .nameSeparator :: (v.tokens ++ tokens) := by
      simp only [memberTokens, List.cons_append]
    rw [htext, htokens, lex_name_iff, Value.lex_print_iff v hrest, AllInMembers, AllInMembers,
      and_true, and_assoc]
  | (name, v) :: m :: ms =>
    have htext : printMembers ((name, v) :: m :: ms) ++ rest =
        '"' :: (name ++ "\": ".toList ++
          (v.print ++ (", ".toList ++ (printMembers (m :: ms) ++ rest)))) := by
      simp only [printMembers, List.cons_append, List.append_assoc]
    have htokens : memberTokens ((name, v) :: m :: ms) ++ tokens =
        .string name :: .nameSeparator ::
          (v.tokens ++ .valueSeparator :: (memberTokens (m :: ms) ++ tokens)) := by
      simp only [memberTokens, List.cons_append, List.append_assoc]
    have hall : AllInMembers Plain ((name, v) :: m :: ms) ↔
        Plain name ∧ v.AllStrings Plain ∧ AllInMembers Plain (m :: ms) := Iff.rfl
    rw [htext, htokens, lex_name_iff, Value.lex_print_iff v (ends_comma _),
      lex_comma_iff, lex_printMembers_iff (m :: ms) hrest, hall, and_assoc, and_assoc]

end

/-- A printed value is a JSON text with that value iff its strings are plain. -/
theorem isText_print_iff (v : Value) : IsText v.print v ↔ v.AllStrings Plain := by
  have hlex := @Value.lex_print_iff v [] [] fun _ hc => (by cases hc)
  rw [List.append_nil, List.append_nil, lex] at hlex
  exact hlex.trans (and_iff_left rfl)

/-- Bytes below 128 are UTF-8. -/
theorem isUtf8_of_ascii {s : List Char} (h : ∀ c ∈ s, c.toNat < 128) : IsUtf8 s := by
  refine ⟨fun c hc => Nat.lt_trans (h c hc) (by decide), .intro s ?_⟩
  unfold bytes List.utf8Encode
  congr 1
  induction s with
  | nil => rfl
  | cons c s ih =>
    have hc : c.val.toNat < 128 := h c List.mem_cons_self
    have hsize : c.utf8Size = 1 := by
      have hle : c.val ≤ 0x7f := UInt32.le_iff_toNat_le.mpr (Nat.le_of_lt_succ hc)
      exact if_pos hle
    have hbyte : UInt8.ofNat c.toNat = c.val.toUInt8 := rfl
    rw [List.map_cons, List.flatMap_cons, String.utf8EncodeChar_eq_singleton hsize, hbyte,
      ih fun d hd => h d (List.mem_cons_of_mem c hd)]
    rfl

end Print

end Json
