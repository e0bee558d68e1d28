import Mathlib.Data.List.Basic
import Mathlib.Data.Nat.Notation

/-!
# One reply between spp_vf and spp-ctl

`spp_send_message` makes one call of `send` on a non-blocking socket, and
`Controller._send_command` takes what one call of `recv` returns for the whole
reply unless it fills the buffer. How many bytes are accepted and how the stream
is cut into pieces is left to the environment.
-/

namespace Spp.Ctl

/-- `MSG_SIZE` of `spp_ctl.py`. -/
def msgSize : ℕ := 4096

/-- `bytes.decode()`, which is strict UTF-8. -/
def decode (data : List UInt8) : Option String := String.fromUTF8? ⟨data.toArray⟩

/-- Two byte strings with one decoding are the same. -/
theorem decode_injective {a c : List UInt8} {text : String} (ha : decode a = some text)
    (hc : decode c = some text) : a = c := by
  unfold decode String.fromUTF8? at ha hc
  split at ha
  · split at hc
    · cases ha
      have harray := congrArg String.toByteArray (Option.some.inj hc)
      exact (Array.toList_inj.mpr (congrArg ByteArray.data harray)).symm
    · cases hc
  · cases ha

/-- What the environment does with a reply: how many bytes `send` accepts (`none`
for its error `-1`), the pieces that successive calls of `recv` return, and
whether the connection is closed behind them. -/
structure Delivery where
  accepted : Option ℕ
  pieces : List (List UInt8)
  closed : Bool
  deriving DecidableEq, Repr

/-- `spp_send_message`: the bytes it puts into the stream; `none` when it closes
the socket. -/
def sppSendMessage (message : List UInt8) (accepted : Option ℕ) : Option (List UInt8) :=
  accepted.map fun n => message.take n

/-- The pieces are those of the bytes that were sent. A socket closed by the
sender has none. -/
def Delivery.Of (d : Delivery) (message : List UInt8) : Prop :=
  (∀ n ∈ d.accepted, n ≤ message.length) ∧
    d.pieces.flatten = (sppSendMessage message d.accepted).getD [] ∧
    (∀ p ∈ d.pieces, 1 ≤ p.length ∧ p.length ≤ msgSize) ∧ (d.accepted = none → d.closed = true)

/-- How `_send_command` ends. -/
inductive SendOutcome
  /-- It returns the decoded reply. -/
  | returned (text : String)
  /-- It returns the empty bytes of a closed connection. -/
  | empty
  /-- A reply that fills the buffer leads to `self._continue_recv`, and `self` is
  not bound in a static method. -/
  | nameError
  | unicodeDecodeError
  /-- `recv` has nothing to return yet. -/
  | blocked
  deriving DecidableEq, Repr

/-- `_send_command` after `sendall`: its outcome, and the pieces it leaves in the
stream. -/
def sendCommand (d : Delivery) : SendOutcome × List (List UInt8) :=
  match d.pieces with
  | [] => (if d.closed then .empty else .blocked, [])
  | data :: rest =>
    if data.length = msgSize then (.nameError, rest)
    else
      match decode data with
      | some text => (.returned text, rest)
      | none => (.unicodeDecodeError, rest)

/-- The connection is reported as closed, or exactly the reply is returned and
nothing of it is left. -/
def Whole (message : List UInt8) (result : SendOutcome × List (List UInt8)) : Prop :=
  result.1 = .empty ∨
    ∃ text, result.1 = .returned text ∧ decode message = some text ∧ result.2.flatten = []

/-- The connection is closed before anything arrives, or a reply in UTF-8 that is
shorter than the buffer is accepted as a whole and arrives in one piece. -/
def Delivery.InOnePiece (d : Delivery) (message : List UInt8) : Prop :=
  d.pieces = [] ∧ d.closed = true ∨
    d.accepted = some message.length ∧ d.pieces = [message] ∧ message.length < msgSize ∧
      (decode message).isSome = true

/-- Pieces that join to nothing are none at all. -/
theorem Delivery.Of.rest_nil {d : Delivery} {message data : List UInt8} {rest : List (List UInt8)}
    (h : d.Of message) (hd : d.pieces = data :: rest) (hrest : rest.flatten = []) : rest = [] := by
  cases rest with
  | nil => rfl
  | cons p ps =>
    have hp := (h.2.2.1 p (by simp [hd])).1
    rw [List.flatten_cons, List.append_eq_nil_iff] at hrest
    rw [hrest.1] at hp
    exact absurd hp (by decide)

/-- The whole reply is received exactly when it comes in one piece that does not
fill the buffer. -/
theorem reply_whole_iff {d : Delivery} {message : List UInt8} (h : d.Of message) :
    Whole message (sendCommand d) ↔ d.InOnePiece message := by
  unfold Whole Delivery.InOnePiece
  cases hd : d.pieces with
  | nil =>
    have hcommand : sendCommand d = (if d.closed then .empty else .blocked, []) := by
      simp [sendCommand, hd]
    rw [hcommand]
    cases hclosed : d.closed <;> simp
  | cons data rest =>
    have hpiece := h.2.2.1 data (by simp [hd])
    have hcommand : sendCommand d = if data.length = msgSize then (.nameError, rest) else
        match decode data with
        | some text => (.returned text, rest)
        | none => (.unicodeDecodeError, rest) := by
      simp [sendCommand, hd]
    rw [hcommand]
    constructor
    · rintro (hempty | ⟨text, hreturned, hmessage, hrest⟩)
      · exfalso
        split at hempty
        · cases hempty
        · split at hempty <;> cases hempty
      · right
        split at hreturned
        · cases hreturned
        · rename_i hsize
          rw [if_neg hsize] at hrest
          cases hdata : decode data with
          | none =>
            simp only [hdata] at hreturned
            cases hreturned
          | some t =>
            simp only [hdata] at hreturned hrest
            cases hreturned
            have hrest' := h.rest_nil hd hrest
            have heq : data = message := decode_injective hdata hmessage
            subst hrest' heq
            refine ⟨?_, rfl, by omega, by simp [hdata]⟩
            have hsent := h.2.1
            cases haccepted : d.accepted with
            | none =>
              rw [haccepted, hd] at hsent
              have hnil : data = [] := by simpa [sppSendMessage] using hsent
              rw [hnil] at hpiece
              exact absurd hpiece.1 (by decide)
            | some n =>
              rw [haccepted, hd] at hsent
              have hle := h.1 n haccepted
              have hlen := congrArg List.length hsent
              simp only [List.flatten_cons, List.flatten_nil, List.append_nil, sppSendMessage,
                Option.map_some, Option.getD_some, List.length_take] at hlen
              have hn : n = data.length := by omega
              rw [hn]
    · rintro (⟨hnil, -⟩ | ⟨-, hwhole, hsize, hsome⟩)
      · cases hnil
      · right
        obtain ⟨rfl, rfl⟩ := List.cons.inj hwhole
        obtain ⟨text, htext⟩ := Option.isSome_iff_exists.mp hsome
        have hne : data.length ≠ msgSize := by omega
        rw [if_neg hne]
        simp only [htext]
        exact ⟨text, rfl, rfl, rfl⟩

/-- A short reply in one piece. -/
theorem reply_whole_short :
    Whole [0x7b, 0x7d] (sendCommand ⟨some 2, [[0x7b, 0x7d]], false⟩) :=
  (reply_whole_iff ⟨by decide, by decide, by decide, by decide⟩).mpr
    (.inr ⟨by decide, by decide, by decide, by decide⟩)

/-- A reply that fills the buffer and arrives at once. -/
def fullReply : Delivery := ⟨some msgSize, [List.replicate msgSize 0x20], false⟩

/-- `fullReply` ends in a `NameError`. -/
theorem full_buffer_name_error :
    fullReply.Of (List.replicate msgSize 0x20) ∧ sendCommand fullReply = (.nameError, []) ∧
      ¬ Whole (List.replicate msgSize 0x20) (sendCommand fullReply) := by
  have hlength : (List.replicate msgSize (0x20 : UInt8)).length = msgSize := List.length_replicate
  have hcommand : sendCommand fullReply = (.nameError, []) := by
    simp only [sendCommand, fullReply, hlength, if_true]
  refine ⟨⟨?_, ?_, ?_, ?_⟩, hcommand, ?_⟩
  · intro n hn
    obtain rfl : msgSize = n := Option.some.inj hn
    exact Nat.le_of_eq hlength.symm
  · simp only [fullReply, sppSendMessage, Option.map_some, Option.getD_some, List.flatten_cons,
      List.flatten_nil, List.append_nil, List.take_of_length_le (Nat.le_of_eq hlength)]
  · intro p hp
    rw [List.mem_singleton.mp hp, hlength]
    exact ⟨by decide, Nat.le_refl _⟩
  · intro h
    cases h
  · rw [hcommand]
    rintro (h | ⟨text, h, -⟩) <;> cases h

end Spp.Ctl
