import Spp.Vf.Types

/-!
# Receiving requests

`string_buffer.c`, `command_conn.c` and `spp_command_proc_do`: one call connects
if it has to, appends what `recv` returns to the message buffer, hands the
string in the buffer to the request processor and removes as many characters
from its front as `recv` has returned. There is no delimiter in the stream.
-/

namespace Spp.Vf

open CLib

section Strbuf

/-- A message buffer: the bytes behind the pointer. Their number is the capacity
stored in front of it. -/
abbrev Strbuf := List Char

/-- `spp_strbuf_allocate`, when `malloc` succeeds. -/
def sppStrbufAllocate (capacity : ℕ) : Strbuf := List.replicate capacity nul

/-- The loop of `strbuf_reallocate` that doubles the capacity. -/
def growCapacity (newCap requiredLen : ℕ) : ℕ :=
  if 0 < newCap ∧ newCap ≤ requiredLen then growCapacity (newCap * 2) requiredLen else newCap
termination_by requiredLen + 1 - newCap

/-- `strbuf_reallocate`, when `malloc` succeeds. -/
def strbufReallocate (strbuf : Strbuf) (requiredLen : ℕ) : Strbuf :=
  let newStrbuf := sppStrbufAllocate (growCapacity (strbuf.length * 2) requiredLen)
  stringAt strbuf ++ newStrbuf.drop (strlen strbuf)

/-- The stores of `spp_strbuf_append`: the bytes behind the string, and a new
terminator behind them. -/
def strbufWrite (strbuf : Strbuf) (len : ℕ) (append : List Char) : Strbuf :=
  strbuf.take len ++ append ++ nul :: strbuf.drop (len + append.length + 1)

/-- `spp_strbuf_append`; `none` stands for `NULL`, and `alloc` says whether
`malloc` succeeds. -/
def sppStrbufAppend (alloc : Bool) (strbuf : Strbuf) (append : List Char) : Option Strbuf :=
  let len := strlen strbuf
  if len + append.length ≥ strbuf.length then
    if alloc then
      some (strbufWrite (strbufReallocate strbuf (len + append.length)) len append)
    else none
  else some (strbufWrite strbuf len append)

/-- `spp_strbuf_remove_front`. More characters than the string has make `new_len`
wrap around, and `memmove` leaves the buffer. -/
def sppStrbufRemoveFront (strbuf : Strbuf) (removeLen : ℕ) : Except Stop Strbuf :=
  let len := strlen strbuf
  if removeLen = len then .ok (nul :: strbuf.drop 1)
  else if removeLen < len then
    let newLen := len - removeLen
    .ok ((strbuf.drop removeLen).take (newLen + 1) ++ strbuf.drop (newLen + 1))
  else .error (.undef)

end Strbuf

section Calls

/-- `CMD_REQ_BUF_INIT_SIZE`. -/
def cmdReqBufInitSize : ℕ := 2048

/-- What `recv` does: it returns bytes (none at all when the controller has shut
the connection down), finds nothing to read, or fails. -/
inductive RecvResult
  | bytes (rxBuf : List Char)
  | again
  | failed
  deriving DecidableEq, Repr

/-- What the environment does in one call of `spp_command_proc_do`: whether
`malloc` and `connect` succeed, what `recv` does, and what `process_request`
returns. -/
structure ProcCall where
  alloc : Bool
  connect : Bool
  recv : RecvResult
  result : Ret
  deriving DecidableEq, Repr

/-- The static variables of `spp_command_proc_do`: whether the socket is open, and
the buffer, which is `NULL` before the first call. -/
structure ProcState where
  connected : Bool := false
  msgbuf : Option Strbuf := none
  deriving DecidableEq, Repr

/-- A request handed to `process_request`, the length passed to
`spp_strbuf_remove_front` and the length of the string in the buffer then. -/
structure Handed where
  request : CStr
  removeLen : ℕ
  held : ℕ
  deriving DecidableEq, Repr

/-- The ways `spp_receive_message` returns: with the number of received bytes,
zero if there are none yet, or with an error. -/
inductive ReceiveReturn
  | count (n : ℕ)
  | temporary
  | fatal
  deriving DecidableEq, Repr

/-- `spp_receive_message`. The first component is the connection afterwards. -/
def sppReceiveMessage (e : ProcCall) (strbuf : Strbuf) : Bool × ReceiveReturn × Strbuf :=
  match e.recv with
  | .bytes [] => (false, .temporary, strbuf)
  | .failed => (false, .temporary, strbuf)
  | .again => (true, .count 0, strbuf)
  | .bytes rxBuf =>
    match sppStrbufAppend e.alloc strbuf rxBuf with
    | some newStrbuf => (true, .count rxBuf.length, newStrbuf)
    | none => (true, .fatal, strbuf)

/-- `spp_command_proc_do` once the buffer is allocated. -/
def sppCommandProcReceive (e : ProcCall) (connected : Bool) (msgbuf : Strbuf) :
    Except Stop (ProcState × Ret × List Handed) :=
  if connected = false ∧ e.connect = false then
    .ok ({ connected := false, msgbuf := some msgbuf }, .ok, [])
  else
    match sppReceiveMessage e msgbuf with
    | (connected, .count 0, msgbuf) => .ok ({ connected, msgbuf := some msgbuf }, .ok, [])
    | (connected, .temporary, msgbuf) => .ok ({ connected, msgbuf := some msgbuf }, .ok, [])
    | (connected, .fatal, msgbuf) => .ok ({ connected, msgbuf := some msgbuf }, .ng, [])
    | (connected, .count n, msgbuf) => do
      let rest ← sppStrbufRemoveFront msgbuf n
      .ok ({ connected, msgbuf := some rest }, e.result,
        [{ request := stringAt msgbuf, removeLen := n, held := strlen msgbuf }])

/-- `spp_command_proc_do`: the state afterwards, the return value and the request
that is handed on, if any. -/
def sppCommandProcDo (e : ProcCall) (st : ProcState) :
    Except Stop (ProcState × Ret × List Handed) :=
  match st.msgbuf with
  | some msgbuf => sppCommandProcReceive e st.connected msgbuf
  | none =>
    if e.alloc then sppCommandProcReceive e st.connected (sppStrbufAllocate cmdReqBufInitSize)
    else .ok (st, .ng, [])

/-- Successive calls, with all the requests they hand on. -/
def commandProcCalls : List ProcCall → ProcState → Except Stop (ProcState × List Handed)
  | [], st => .ok (st, [])
  | e :: calls, st => do
    let (st, _, handed) ← sppCommandProcDo e st
    let (st, rest) ← commandProcCalls calls st
    .ok (st, handed ++ rest)

/-- Whether the socket is open after a call, and the chunk that `recv` returns in
it, given whether the socket is open before. -/
def receivedChunk (e : ProcCall) (connected : Bool) : Bool × List (List Char) :=
  if connected = false ∧ e.connect = false then (false, [])
  else
    match e.recv with
    | .bytes [] => (false, [])
    | .bytes rxBuf => (true, [rxBuf])
    | .again => (true, [])
    | .failed => (false, [])

/-- The chunks that `recv` returns over successive calls. -/
def receivedChunks : List ProcCall → Bool → List (List Char)
  | [], _ => []
  | e :: calls, connected =>
    (receivedChunk e connected).2 ++ receivedChunks calls (receivedChunk e connected).1

end Calls

section Buffer

variable {strbuf strbuf' : Strbuf} {append : List Char} {alloc : Bool}

/-- An allocated buffer holds the empty string. -/
theorem stringAt_sppStrbufAllocate (capacity : ℕ) :
    stringAt (sppStrbufAllocate capacity) = [] := by
  cases capacity with
  | zero => rfl
  | succ capacity => simp [stringAt, sppStrbufAllocate, List.replicate_succ]

/-- The number of bytes that are allocated. -/
@[simp] theorem length_sppStrbufAllocate (capacity : ℕ) :
    (sppStrbufAllocate capacity).length = capacity := by
  simp [sppStrbufAllocate]

/-- The capacity grows beyond what is required. -/
theorem lt_growCapacity {newCap requiredLen : ℕ} (h : 0 < newCap) :
    requiredLen < growCapacity newCap requiredLen := by
  fun_induction growCapacity newCap requiredLen with
  | case1 newCap hgrow ih => exact ih (by omega)
  | case2 newCap hstop => omega

/-- The stores of an append stay inside a buffer that has room for them. -/
theorem length_strbufWrite {len : ℕ} (h : len + append.length < strbuf.length) :
    (strbufWrite strbuf len append).length = strbuf.length := by
  simp only [strbufWrite, List.length_append, List.length_take, List.length_cons,
    List.length_drop]
  omega

/-- An append writes only inside the buffer that it returns, the old one or a
larger one. -/
theorem sppStrbufAppend_eq_some (hbuf : 0 < strbuf.length)
    (h : sppStrbufAppend alloc strbuf append = some strbuf') :
    ∃ base, strbuf' = strbufWrite base (strlen strbuf) append ∧
      stringAt strbuf <+: base ∧ strlen strbuf + append.length < base.length := by
  unfold sppStrbufAppend at h
  dsimp only at h
  split at h
  · split at h
    · refine ⟨_, (Option.some.inj h).symm, List.prefix_append _ _, ?_⟩
      have hgrow := @lt_growCapacity (strbuf.length * 2) (strlen strbuf + append.length) (by omega)
      have hlen : (stringAt strbuf).length = strlen strbuf := rfl
      simp only [strbufReallocate, List.length_append, List.length_drop,
        length_sppStrbufAllocate, hlen]
      omega
    · cases h
  · rename_i hroom
    exact ⟨strbuf, (Option.some.inj h).symm, List.takeWhile_prefix _, by omega⟩

/-- An append of bytes without a terminator extends the string by them. -/
theorem stringAt_sppStrbufAppend (hbuf : 0 < strbuf.length) (happend : nul ∉ append)
    (h : sppStrbufAppend alloc strbuf append = some strbuf') :
    stringAt strbuf' = stringAt strbuf ++ append ∧ 0 < strbuf'.length := by
  obtain ⟨base, rfl, hprefix, hroom⟩ := sppStrbufAppend_eq_some hbuf h
  have htake : base.take (strlen strbuf) = stringAt strbuf :=
    (List.prefix_iff_eq_take.mp hprefix).symm
  have hstring : nul ∉ stringAt strbuf := by
    intro hmem
    simpa using List.all_eq_true.mp List.all_takeWhile nul hmem
  refine ⟨?_, ?_⟩
  · rw [strbufWrite, htake]
    exact stringAt_append_nul (by simp [hstring, happend])
  · rw [length_strbufWrite hroom]
    omega

/-- With memory an append succeeds. -/
theorem sppStrbufAppend_isSome : ∃ strbuf', sppStrbufAppend true strbuf append = some strbuf' := by
  unfold sppStrbufAppend
  dsimp only
  split
  · exact ⟨_, rfl⟩
  · exact ⟨_, rfl⟩

/-- Removing the whole string leaves the empty one. -/
theorem sppStrbufRemoveFront_all :
    ∃ strbuf', sppStrbufRemoveFront strbuf (strlen strbuf) = .ok strbuf' ∧
      stringAt strbuf' = [] ∧ 0 < strbuf'.length := by
  refine ⟨nul :: strbuf.drop 1, by simp [sppStrbufRemoveFront], ?_, by simp⟩
  simp [stringAt]

end Buffer

section Framing

/-- The buffer, if there is one, holds the empty string between two calls. -/
def ProcState.Drained (st : ProcState) : Prop :=
  ∀ strbuf ∈ st.msgbuf, stringAt strbuf = [] ∧ 0 < strbuf.length

/-- The length removed for a request is the length of the request and of the
string that the buffer holds. -/
def Handed.Consumed (handed : Handed) : Prop :=
  handed.removeLen = handed.request.length ∧ handed.held = handed.request.length

/-- A call with an empty buffer hands on the chunk that it receives, and leaves
the buffer empty. -/
theorem sppCommandProcReceive_hands {e : ProcCall} {connected : Bool} {msgbuf : Strbuf}
    (hmem : e.alloc = true) (hempty : stringAt msgbuf = []) (hbuf : 0 < msgbuf.length)
    (hchunk : ∀ chunk ∈ (receivedChunk e connected).2, nul ∉ chunk) :
    ∃ st ret handed, sppCommandProcReceive e connected msgbuf = .ok (st, ret, handed) ∧
      st.Drained ∧ st.connected = (receivedChunk e connected).1 ∧
      handed.map Handed.request = (receivedChunk e connected).2 ∧
      ∀ h ∈ handed, h.Consumed := by
  have hdrained : ∀ open' : Bool, ProcState.Drained { connected := open', msgbuf := some msgbuf } := by
    rintro open' strbuf ⟨⟩
    exact ⟨hempty, hbuf⟩
  unfold sppCommandProcReceive receivedChunk
  unfold receivedChunk at hchunk
  by_cases hclosed : connected = false ∧ e.connect = false
  · simp only [if_pos hclosed]
    exact ⟨_, _, _, rfl, hdrained _, rfl, rfl, by simp⟩
  · simp only [if_neg hclosed] at hchunk ⊢
    unfold sppReceiveMessage
    cases hrecv : e.recv with
    | again => exact ⟨_, _, _, rfl, hdrained _, rfl, rfl, by simp⟩
    | failed => exact ⟨_, _, _, rfl, hdrained _, rfl, rfl, by simp⟩
    | bytes rxBuf =>
      cases rxBuf with
      | nil => exact ⟨_, _, _, rfl, hdrained _, rfl, rfl, by simp⟩
      | cons c rxBuf =>
        have hnul : nul ∉ c :: rxBuf := hchunk (c :: rxBuf) (by simp [hrecv])
        obtain ⟨strbuf', happend⟩ := @sppStrbufAppend_isSome msgbuf (c :: rxBuf)
        obtain ⟨hstring, hbuf'⟩ := stringAt_sppStrbufAppend hbuf hnul happend
        rw [hempty, List.nil_append] at hstring
        have hlen : strlen strbuf' = (c :: rxBuf).length := congrArg List.length hstring
        obtain ⟨rest, hremove, hrest, hrestbuf⟩ := @sppStrbufRemoveFront_all strbuf'
        rw [hlen] at hremove
        refine ⟨{ connected := true, msgbuf := some rest }, e.result,
          [{ request := stringAt strbuf', removeLen := (c :: rxBuf).length,
             held := strlen strbuf' }], ?_, ?_, rfl, ?_, ?_⟩
        · simp only [hmem, happend]
          change (sppStrbufRemoveFront strbuf' (c :: rxBuf).length >>= _) = _
          rw [hremove]
          rfl
        · rintro strbuf ⟨⟩
          exact ⟨hrest, hrestbuf⟩
        · simp [hstring]
        · intro h hh
          rw [List.mem_singleton.mp hh]
          exact ⟨by rw [hstring], by rw [hlen, hstring]⟩

/-- One call, also the first one. -/
theorem sppCommandProcDo_hands {e : ProcCall} {st : ProcState} (hmem : e.alloc = true)
    (hdrained : st.Drained) (hchunk : ∀ chunk ∈ (receivedChunk e st.connected).2, nul ∉ chunk) :
    ∃ st' ret handed, sppCommandProcDo e st = .ok (st', ret, handed) ∧ st'.Drained ∧
      st'.connected = (receivedChunk e st.connected).1 ∧
      handed.map Handed.request = (receivedChunk e st.connected).2 ∧
      ∀ h ∈ handed, h.Consumed := by
  unfold sppCommandProcDo
  cases hbuf : st.msgbuf with
  | none =>
    simp only [hmem, if_true]
    exact sppCommandProcReceive_hands hmem (stringAt_sppStrbufAllocate _)
      (by simp [cmdReqBufInitSize]) hchunk
  | some msgbuf =>
    obtain ⟨hempty, hlength⟩ := hdrained msgbuf hbuf
    exact sppCommandProcReceive_hands hmem hempty hlength hchunk

/-- Successive calls from an empty buffer hand on the chunks in order. -/
theorem commandProcCalls_hands {calls : List ProcCall} {st : ProcState}
    (hmem : ∀ e ∈ calls, e.alloc = true) (hdrained : st.Drained)
    (hchunks : ∀ chunk ∈ receivedChunks calls st.connected, nul ∉ chunk) :
    ∃ st' handed, commandProcCalls calls st = .ok (st', handed) ∧ st'.Drained ∧
      handed.map Handed.request = receivedChunks calls st.connected ∧
      ∀ h ∈ handed, h.Consumed := by
  induction calls generalizing st with
  | nil => exact ⟨st, [], rfl, hdrained, rfl, by simp⟩
  | cons e calls ih =>
    simp only [receivedChunks, List.mem_append] at hchunks
    obtain ⟨st₁, ret, handed, hcall, hdrained₁, hconnected, hrequest, hconsumed⟩ :=
      sppCommandProcDo_hands (hmem e List.mem_cons_self) hdrained
        fun chunk hchunk => hchunks chunk (.inl hchunk)
    rw [← hconnected] at hchunks
    obtain ⟨st₂, rest, hcalls, hdrained₂, hrequests, hconsumeds⟩ :=
      ih (fun e' he' => hmem e' (List.mem_cons_of_mem e he')) hdrained₁
        fun chunk hchunk => hchunks chunk (.inr hchunk)
    refine ⟨st₂, handed ++ rest, ?_, hdrained₂, ?_, ?_⟩
    · simp only [commandProcCalls, hcall, hcalls, Bind.bind, Except.bind]
    · rw [List.map_append, hrequest, hrequests, hconnected]
      rfl
    · intro h hh
      rcases List.mem_append.mp hh with hh | hh
      · exact hconsumed h hh
      · exact hconsumeds h hh

/-- A call in which the connected controller's bytes arrive. -/
def ProcCall.arrival (text : String) : ProcCall :=
  { alloc := true, connect := true, recv := .bytes text.toList, result := .ok }

end Framing

end Spp.Vf
