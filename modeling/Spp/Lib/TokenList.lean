import Mathlib.Data.List.TakeWhile
import Spp.Lib.CString

/-!
# Tokens in arrays

A command line is tokenised in the buffer in which it was received, and its tokens are
stored in an array of pointers that ends with a null pointer. Every place of the array
that is accessed, up to the one of the null pointer, has to be in it.
-/

namespace CLib

section Buffer

/-- A buffer of zeros in which a message was received. -/
def receiveBuffer (size : ℕ) (message : List Char) : List Char :=
  message.take size ++ List.replicate (size - message.length) nul

/-- The string at the start of a buffer, read to its terminator; `none` is a read past the
end of the buffer. -/
def readString : List Char → Option CStr
  | [] => none
  | c :: rest => if c = nul then some [] else (readString rest).map (c :: ·)

/-- A string is read from a buffer iff it is terminated there. -/
theorem readString_eq (buffer : List Char) :
    readString buffer = if nul ∈ buffer then some (stringAt buffer) else none := by
  induction buffer with
  | nil => simp [readString]
  | cons c rest ih =>
    by_cases hc : c = nul
    · simp [readString, hc, stringAt]
    · have hne : nul ≠ c := fun h => hc h.symm
      rw [readString, if_neg hc, ih]
      by_cases hrest : nul ∈ rest
      · simp [hrest, stringAt, hc]
      · simp [hrest, hne]

/-- The zeros after a message are not part of its string. -/
theorem stringAt_append_zeros (message : List Char) (n : ℕ) :
    stringAt (message ++ List.replicate n nul) = stringAt message := by
  induction message with
  | nil => cases n <;> simp [stringAt, List.replicate_succ]
  | cons c rest ih =>
    by_cases hc : c = nul
    · simp [stringAt, hc]
    · simpa [stringAt, hc] using ih

/-- A message that fits the buffer is read within it iff it has a terminator or leaves
room for one. -/
theorem readString_receiveBuffer {size : ℕ} {message : List Char} (h : message.length ≤ size) :
    readString (receiveBuffer size message) =
      if nul ∈ message ∨ message.length < size then some (stringAt message) else none := by
  have hzero : size - message.length ≠ 0 ↔ message.length < size := by omega
  rw [readString_eq, receiveBuffer, List.take_of_length_le h, stringAt_append_zeros]
  simp only [List.mem_append, List.mem_replicate, and_true, hzero]

end Buffer

section Bind

/-- A computation in two parts succeeds iff both do. -/
theorem bind_eq_ok {ε α β : Type} {x : Except ε α} {f : α → Except ε β} {b : β} :
    (x >>= f) = .ok b ↔ ∃ a, x = .ok a ∧ f a = .ok b := by
  cases x with
  | error e => simp [bind, Except.bind]
  | ok a => simp [bind, Except.bind]

end Bind

section Walk

variable {ε σ : Type} {size i : ℕ} {overrun : ε} {body : ℕ → CStr → σ → Except ε σ}
  {tokens : List CStr} {s : σ}

/-- A loop from place `i` of an array of `size` pointers up to its null pointer: each place
is accessed, and `body` is run on its token. -/
def walkTokens (size : ℕ) (overrun : ε) (body : ℕ → CStr → σ → Except ε σ) :
    ℕ → List CStr → σ → Except ε σ
  | i, [], s => if i < size then .ok s else .error overrun
  | i, token :: rest, s =>
    if i < size then (body i token s).bind (walkTokens size overrun body (i + 1) rest)
    else .error overrun

/-- A loop that starts outside of the array accesses it there. -/
theorem walkTokens_overrun (h : size ≤ i) :
    walkTokens size overrun body i tokens s = .error overrun := by
  have hnot : ¬ i < size := by omega
  cases tokens <;> simp [walkTokens, hnot]

/-- A loop whose body succeeds as long as there is a next place stays in the array iff the
null pointer is in it. -/
theorem walkTokens_eq_ok {f : CStr → σ → σ} {r : σ}
    (hbody : ∀ j token s, i ≤ j → j + 1 < size → body j token s = .ok (f token s)) :
    walkTokens size overrun body i tokens s = .ok r ↔
      i + tokens.length < size ∧ tokens.foldl (fun s token => f token s) s = r := by
  induction tokens generalizing i s with
  | nil => by_cases hi : i < size <;> simp [walkTokens, hi]
  | cons token rest ih =>
    have hlength : i + (token :: rest).length < size ↔ i + 1 + rest.length < size := by
      rw [List.length_cons]
      omega
    rw [hlength, List.foldl_cons]
    by_cases hi : i + 1 < size
    · have hin : i < size := by omega
      rw [walkTokens, if_pos hin, hbody i token s (le_refl i) hi]
      exact ih fun j t s' hj => hbody j t s' (by omega)
    · -- the place of the next token is outside of the array
      refine iff_of_false ?_ (by omega)
      by_cases hin : i < size
      · rw [walkTokens, if_pos hin]
        cases hs : body i token s with
        | error e => simp [Except.bind]
        | ok s' => simp [Except.bind, walkTokens_overrun (show size ≤ i + 1 by omega)]
      · simp [walkTokens, hin]

/-- The loop that stores the tokens in an array. -/
theorem walkTokens_store (list : List CStr) :
    walkTokens size overrun (fun _ token list => .ok (list ++ [token])) i tokens list =
      if i + tokens.length < size then .ok (list ++ tokens) else .error overrun := by
  induction tokens generalizing i list with
  | nil => simp [walkTokens]
  | cons token rest ih =>
    have hnext : i + 1 + rest.length < size ↔ i + (rest.length + 1) < size := by omega
    by_cases hi : i < size
    · rw [walkTokens, if_pos hi]
      simp [Except.bind, ih, hnext]
    · rw [walkTokens, if_neg hi, if_neg (by omega)]

end Walk

end CLib
