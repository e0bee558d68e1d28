import Spp.Lib.Json

/-!
# JSON texts in pieces

A text that is put together from pieces is read as the tokens of the pieces, one after
the other. This is what is needed of a program that appends the parts of its reply to a
buffer, with commas and blanks as it likes.
-/

namespace Json

section Reads

variable {t u : List Char} {a b : List Token}

/-- A text is read as the tokens, whatever follows it. -/
def Reads (t : List Char) (a : List Token) : Prop :=
  ∀ rest b, Ends rest → lex rest = some b → lex (t ++ rest) = some (a ++ b)

/-- What ends a word still does with more behind it. -/
theorem Ends.append (h : Ends t) (h' : Ends u) : Ends (t ++ u) := by
  cases t with
  | nil => exact h'
  | cons c t => exact h

/-- A text by itself. -/
theorem Reads.lex_eq (h : Reads t a) : lex t = some a := by
  have hall := h [] [] (fun _ hc => by cases hc) (by rw [lex])
  rwa [List.append_nil, List.append_nil] at hall

/-- The text of a value. -/
theorem Reads.isText {v : Value} (h : Reads t v.tokens) : IsText t v := h.lex_eq

/-- Two pieces, of which the second does not go on with the last word of the first. -/
theorem Reads.append (h : Reads t a) (h' : Reads u b) (hends : Ends u) :
    Reads (t ++ u) (a ++ b) := by
  intro rest c hrest hc
  rw [List.append_assoc, List.append_assoc]
  exact h _ _ (hends.append hrest) (h' rest c hrest hc)

theorem reads_nil : Reads [] [] := fun _ _ _ h => h

/-- A structural character in front. -/
theorem Reads.cons_structural {c : Char} {token : Token} (hspace : isSpace c = false)
    (hc : structural c = some token) (h : Reads t a) : Reads (c :: t) (token :: a) := by
  intro rest b hrest hb
  exact (lex_structural_iff hspace hc).mpr (h rest b hrest hb)

/-- What stands between two elements or members. -/
theorem Reads.cons_comma (h : Reads t a) : Reads (',' :: t) (.valueSeparator :: a) :=
  h.cons_structural (by decide) (by decide)

/-- What stands between a name and its value. -/
theorem Reads.cons_colon (h : Reads t a) : Reads (':' :: t) (.nameSeparator :: a) :=
  h.cons_structural (by decide) (by decide)

/-- A blank in front. -/
theorem Reads.cons_space (h : Reads t a) : Reads (' ' :: t) a := by
  intro rest b hrest hb
  rw [List.cons_append, lex_space]
  exact h rest b hrest hb

/-- A string in front. -/
theorem Reads.cons_string {s : List Char} (hs : Plain s) (h : Reads t a) :
    Reads ('"' :: (s ++ '"' :: t)) (.string s :: a) := by
  intro rest b hrest hb
  rw [List.cons_append, List.append_assoc, List.cons_append]
  exact lex_string_iff.mpr ⟨hs, h rest b hrest hb⟩

/-- A number. -/
theorem reads_number (n : ℤ) : Reads (decimal n) (Value.number n).tokens := by
  intro rest b hrest hb
  obtain ⟨hword, hchars⟩ := decimal_word n
  exact (lex_word_iff hword hchars hrest).mpr hb

end Reads

section Values

variable {t u : List Char}

/-- A string. -/
theorem reads_string {s : List Char} (hs : Plain s) :
    Reads ('"' :: (s ++ ['"'])) (Value.string s).tokens :=
  reads_nil.cons_string hs

/-- An array, with its elements. -/
theorem Reads.array {vs : List Value} (h : Reads t (elementTokens vs)) :
    Reads ('[' :: (t ++ [']'])) (Value.array vs).tokens := by
  refine Reads.cons_structural (by decide) (by decide) (h.append ?_ (ends_cons (by decide) []))
  exact reads_nil.cons_structural (by decide) (by decide)

/-- An object, with its members. -/
theorem Reads.object {ms : List (List Char × Value)} (h : Reads t (memberTokens ms)) :
    Reads ('\x7b' :: (t ++ ['\x7d'])) (Value.object ms).tokens := by
  refine Reads.cons_structural (by decide) (by decide) (h.append ?_ (ends_cons (by decide) []))
  exact reads_nil.cons_structural (by decide) (by decide)

/-- The last member of an object. -/
theorem Reads.member {name : List Char} {v : Value} (hname : Plain name) (h : Reads t v.tokens) :
    Reads ('"' :: (name ++ '"' :: ':' :: t)) (memberTokens [(name, v)]) :=
  h.cons_colon.cons_string hname

/-- A member of an object with others behind it. -/
theorem Reads.member_comma {name : List Char} {v : Value} {m : List Char × Value}
    {ms : List (List Char × Value)} (hname : Plain name) (h : Reads t v.tokens)
    (hrest : Reads u (memberTokens (m :: ms))) :
    Reads ('"' :: (name ++ '"' :: ':' :: (t ++ ',' :: u)))
      (memberTokens ((name, v) :: m :: ms)) := by
  have hboth := h.append hrest.cons_comma (ends_cons (by decide) u)
  have hmember := hboth.cons_colon.cons_string hname
  simpa only [memberTokens, List.append_assoc, List.cons_append, List.nil_append] using hmember

end Values

section Joined

variable {α : Type}

/-- Texts with commas between them. -/
def joined (texts : List (List Char)) : List Char := [','].intercalate texts

theorem joined_cons {text : List Char} {texts : List (List Char)} (h : texts ≠ []) :
    joined (text :: texts) = text ++ ',' :: joined texts := by
  unfold joined
  rw [List.intercalate_cons_of_ne_nil h, List.append_assoc, List.singleton_append]

/-- One more text has a comma in front of it, unless it is the first. -/
theorem joined_concat {texts : List (List Char)} (h : texts ≠ []) (text : List Char) :
    joined (texts ++ [text]) = joined texts ++ ',' :: text := by
  induction texts with
  | nil => exact absurd rfl h
  | cons first texts ih =>
    by_cases hnil : texts = []
    · subst hnil
      simp [joined]
    · rw [List.cons_append, joined_cons (by simp), joined_cons hnil, ih hnil]
      simp

/-- Texts with a comma behind each of them. -/
theorem flatMap_comma {texts : List (List Char)} (h : texts ≠ []) :
    texts.flatMap (· ++ [',']) = joined texts ++ [','] := by
  induction texts with
  | nil => exact absurd rfl h
  | cons first texts ih =>
    by_cases hnil : texts = []
    · subst hnil
      simp [joined]
    · rw [List.flatMap_cons, ih hnil, joined_cons hnil]
      simp

/-- The elements of an array. -/
theorem reads_joined {f : α → List Char} {g : α → Value} {as : List α}
    (h : ∀ a ∈ as, Reads (f a) (g a).tokens) :
    Reads (joined (as.map f)) (elementTokens (as.map g)) := by
  induction as with
  | nil => exact reads_nil
  | cons a as ih =>
    have ha := h a List.mem_cons_self
    have hrest := ih fun a' ha' => h a' (List.mem_cons_of_mem a ha')
    cases as with
    | nil => simpa [joined, elementTokens] using ha
    | cons a' as =>
      rw [List.map_cons, joined_cons (by simp)]
      have hboth := ha.append hrest.cons_comma (ends_cons (by decide) _)
      simpa only [List.map_cons, elementTokens] using hboth

/-- The elements of an array can be told from their tokens, if each element can and none
begins like the end of the array. -/
theorem elementTokens_inj {g : α → Value}
    (hinj : ∀ a a' r r', (g a).tokens ++ r = (g a').tokens ++ r' → a = a' ∧ r = r')
    (hfirst : ∀ a, ∃ token rest, (g a).tokens = token :: rest ∧ token ≠ .endArray)
    {as bs : List α} {r r' : List Token}
    (h : elementTokens (as.map g) ++ .endArray :: r = elementTokens (bs.map g) ++ .endArray :: r') :
    as = bs ∧ r = r' := by
  have hcons : ∀ a as, elementTokens ((a :: as).map g) = (g a).tokens ++
      if as = [] then [] else .valueSeparator :: elementTokens (as.map g) := by
    intro a as
    cases as <;> simp [elementTokens]
  induction as generalizing bs with
  | nil =>
    cases bs with
    | nil => exact ⟨rfl, (List.cons.inj h).2⟩
    | cons b bs =>
      obtain ⟨token, rest, hb, hne⟩ := hfirst b
      rw [hcons, hb] at h
      exact absurd (List.cons.inj h).1.symm hne
  | cons a as ih =>
    cases bs with
    | nil =>
      obtain ⟨token, rest, ha, hne⟩ := hfirst a
      rw [hcons, ha] at h
      exact absurd (List.cons.inj h).1 hne
    | cons b bs =>
      rw [hcons, hcons, List.append_assoc, List.append_assoc] at h
      obtain ⟨rfl, hrest⟩ := hinj _ _ _ _ h
      by_cases has : as = []
      · by_cases hbs : bs = []
        · subst has hbs
          exact ⟨rfl, (List.cons.inj hrest).2⟩
        · simp [has, hbs] at hrest
      · by_cases hbs : bs = []
        · simp [has, hbs] at hrest
        · rw [if_neg has, if_neg hbs] at hrest
          obtain ⟨rfl, hr⟩ := ih (List.cons.inj hrest).2
          exact ⟨rfl, hr⟩

end Joined

end Json
