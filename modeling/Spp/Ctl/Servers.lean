import Mathlib.Data.List.Nodup
import Spp.Ctl.VfShell
import Spp.Lib.GuardedRun
import Spp.Lib.TokenList

/-!
# The servers of the CLI

The `server` command of `server.py`, which keeps the spp-ctl servers in a list and the one
in use as a position in it. A deletion only moves the position when it falls off the end of
the list, so that it may come to stand for another server.
-/

namespace Spp.Ctl.Servers

open Python GuardedRun
open CLib (bind_eq_ok)

section Source

/-- `SppCtlClient`. -/
structure CtlClient where
  ipAddr : Str
  port : ℤ
  deriving DecidableEq, Repr

/-- `'{}:{}'.format(ip_addr, port)`. -/
def CtlClient.addr (c : CtlClient) : Str := c.ipAddr ++ lit ":" ++ intText c.port

/-- What `server` commands work on: `spp_cli_objs`, `current_idx`, `cur_server_addr` of
`spp_common` and `spp_ctl_cli` of the shell. -/
structure ServerState where
  sppCliObjs : List CtlClient
  currentIdx : ℤ
  curServerAddr : Str
  sppCtlCli : CtlClient
  deriving DecidableEq, Repr

/-- What a `server` command prints. -/
inductive ServerReply
  | serverList
  | addressRequired
  | targetRequired
  | indexNotPositive
  | switched
  | noServerToSwitch
  | invalidAddress
  | alreadyRegistered
  | notRunning
  | registered
  | invalidId
  | noServerToDel
  | inUse
  | notRegistered
  | unregistered
  deriving DecidableEq, Repr

/-- `l[i]`, where negative positions count from the end. -/
def objAt {α : Type} (l : List α) (i : ℤ) : Except CliExc α :=
  match if 0 ≤ i then l[i.toNat]? else if -l.length ≤ i then l[(l.length + i).toNat]? else none with
  | some x => .ok x
  | none => .error .indexError

variable (I : Interpreter)

/-- `int`. -/
def intOfText (s : Str) : Except CliExc ℤ :=
  match intOfStr I s with
  | some n => .ok n
  | none => .error .valueError

/-- A blank for `\s`. -/
def isSpace (c : ℕ) : Bool := isBlank c || (28 ≤ c && c ≤ 31) || (128 ≤ c && I.space c)

/-- `re.sub(r'\s+', ' ', s)`; the flag says that the character before was a blank. -/
def squeeze : Bool → Str → Str
  | _, [] => []
  | blank, c :: s =>
    if isSpace I c then
      if blank then squeeze true s else 32 :: squeeze true s
    else c :: squeeze false s

/-- The arguments of a `server` command; one empty string is removed. -/
def serverArgs (commands : Str) : List Str := ((squeeze I false commands).splitOn 32).erase []

/-- The loop of `is_valid_ipv4_addr`. -/
def ipNumsLoop : List Str → Except CliExc Bool
  | [] => .ok true
  | num :: nums => do
    let num ← intOfText I num
    if num < 0 ∨ 255 < num then return false else ipNumsLoop nums

/-- `is_valid_ipv4_addr`. -/
def isValidIpv4Addr (ipaddr : Str) : Except CliExc Bool :=
  let ipNums := ipaddr.splitOn 46
  if ipNums.length ≠ 4 then .ok false else ipNumsLoop I ipNums

/-- `is_valid_port`. -/
def isValidPort (portNum : Str) : Except CliExc Bool := do
  let num ← intOfText I portNum
  return ¬ (num < 1023 ∨ 65535 < num)

/-- The two parts of an address in `_parse_addr`, with the port checked. -/
def splitAddr (addr : Str) : Except CliExc (Str × Option ℤ) :=
  if 58 ∈ addr then
    match addr.splitOn 58 with
    | [ipaddr, port] => do
      if ← isValidPort I port then return (ipaddr, some (← intOfText I port))
      else return (ipaddr, none)
    | _ => .error .valueError
  else .ok (addr, some 7777)

/-- `_parse_addr`. -/
def parseAddr (addr : Str) : Except CliExc (Option Str × Option ℤ) := do
  let parts ← splitAddr I addr
  if ← isValidIpv4Addr I parts.1 then return (some parts.1, parts.2)
  else return (none, parts.2)

/-- `_switch_to`. -/
def switchTo (idx : ℤ) (s : ServerState) : Except CliExc (ServerReply × ServerState) :=
  if idx < s.sppCliObjs.length then do
    let cliObj ← objAt s.sppCliObjs idx
    return (.switched, { s with currentIdx := idx, curServerAddr := cliObj.addr })
  else .ok (.noServerToSwitch, s)

/-- `_register_server`; `running` is what `is_server_running` finds. -/
def registerServer (addr : Str) (running : Bool) (s : ServerState) :
    Except CliExc (ServerReply × ServerState) := do
  match ← parseAddr I addr with
  | (some ipaddr, some port) =>
    if ⟨ipaddr, port⟩ ∈ s.sppCliObjs then return (.alreadyRegistered, s)
    else if running then
      return (.registered, { s with sppCliObjs := s.sppCliObjs ++ [⟨ipaddr, port⟩] })
    else return (.notRunning, s)
  | _ => return (.invalidAddress, s)

/-- The end of `_unregister_server` after a server was removed from the list. -/
def removed (objs : List CtlClient) (s : ServerState) : ServerReply × ServerState :=
  (.unregistered, { s with
    sppCliObjs := objs
    currentIdx := if objs.length ≤ s.currentIdx then s.currentIdx - 1 else s.currentIdx })

/-- What `str.isdigit` says of the characters beyond ASCII that are no decimal digits. -/
abbrev OtherDigit := ℕ → Bool

variable (other : OtherDigit)

/-- `str.isdigit`. -/
def isDigits (s : Str) : Bool :=
  s ≠ [] && s.all fun c => if c < 128 then isDigit c else (I.digit c).isSome || other c

/-- `_unregister_server` of a server ID without its sign. -/
def delByIndex (isArgNegative : Bool) (arg : Str) (s : ServerState) :
    Except CliExc (ServerReply × ServerState) := do
  let num ← intOfText I arg
  let idx := if isArgNegative then -1 * num - 1 else num - 1
  if idx < 0 then return (.invalidId, s)
  else if s.sppCliObjs.length - 1 < idx then return (.noServerToDel, s)
  else if idx = s.currentIdx then return (.inUse, s)
  else return removed (s.sppCliObjs.eraseIdx idx.toNat) s

/-- `_unregister_server` of an address; the loop removes the first server that has it. -/
def delByAddr (arg : Str) (s : ServerState) : Except CliExc (ServerReply × ServerState) := do
  match ← parseAddr I arg with
  | (some ipaddr, some port) =>
    if ⟨ipaddr, port⟩ ∉ s.sppCliObjs then return (.notRegistered, s)
    else do
      let curServ ← objAt s.sppCliObjs s.currentIdx
      if curServ = ⟨ipaddr, port⟩ then return (.inUse, s)
      else return removed (s.sppCliObjs.erase ⟨ipaddr, port⟩) s
  | _ => return (.invalidAddress, s)

/-- `_unregister_server`; a sign in front is taken off whatever follows it. -/
def unregisterServer (arg : Str) (s : ServerState) : Except CliExc (ServerReply × ServerState) :=
  let isArgNegative : Bool := arg.head? = some 45
  let arg := if isArgNegative then arg.tail else arg
  if isDigits I other arg then delByIndex I isArgNegative arg s else delByAddr I arg s

/-- `SppCtlServer.run`. -/
def serverRun (commands : Str) (running : Bool) (s : ServerState) :
    Except CliExc (ServerReply × ServerState) :=
  match serverArgs I commands with
  | [] => .ok (.serverList, s)
  | cmd :: args =>
    if cmd = lit "list" then .ok (.serverList, s)
    else if cmd = lit "add" then
      match args with
      | [] => .ok (.addressRequired, s)
      | addr :: _ => registerServer I addr running s
    else if cmd = lit "del" then
      match args with
      | [] => .ok (.targetRequired, s)
      | arg :: _ => unregisterServer I other arg s
    else do
      let idx := (← intOfText I cmd) - 1
      if 0 ≤ idx then switchTo idx s else return (.indexNotPositive, s)

/-- `do_server` of the shell. -/
def doServer (commands : Str) (running : Bool) (s : ServerState) :
    Except CliExc (ServerReply × ServerState) := do
  let (reply, t) ← serverRun I other commands running s
  return (reply, { t with sppCtlCli := ← objAt t.sppCliObjs t.currentIdx })

/-- The start of the shell. -/
def shellInit (sppCliObjs : List CtlClient) : Except CliExc ServerState := do
  let sppCtlCli ← objAt sppCliObjs 0
  return ⟨sppCliObjs, 0, sppCtlCli.addr, sppCtlCli⟩

/-- A command of a run: its text, and whether a server runs at an address that it adds. An
exception ends the CLI. -/
def serverStep (i : Str × Bool) (s : ServerState) : Option ServerState :=
  match doServer I other i.1 i.2 s with
  | .ok (_, t) => some t
  | .error _ => none

end Source

section Statement

/-- The server in use. -/
def ServerState.current (s : ServerState) : Except CliExc CtlClient :=
  objAt s.sppCliObjs s.currentIdx

/-- The position is one of the list, the addresses are distinct, and the address that is shown
is that of the server in use. -/
structure ServerState.Valid (s : ServerState) : Prop where
  idx : 0 ≤ s.currentIdx ∧ s.currentIdx < s.sppCliObjs.length
  distinct : s.sppCliObjs.Nodup
  shown : ∃ c, s.current = .ok c ∧ s.curServerAddr = c.addr

/-- The shell between two commands: it talks to the server in use. -/
def ServerState.Controls (s : ServerState) : Prop := s.Valid ∧ s.current = .ok s.sppCtlCli

variable (I : Interpreter) (other : OtherDigit)

/-- The text is the number of a position, from one on, or the address of the server there, with
the default port left out or not. -/
def Names (objs : List CtlClient) (arg : Str) (k : ℕ) : Prop :=
  intOfStr I arg = some ((k : ℤ) + 1) ∨
    ∃ c, objs[k]? = some c ∧ ((∃ port, arg = c.ipAddr ++ 58 :: port ∧
      intOfStr I port = some c.port) ∨ arg = c.ipAddr ∧ c.port = 7777)

/-- A successful deletion removes the server that is named and keeps the one in use, which only
a successful change of the server replaces, by the one that is named. -/
structure KeepsServer (commands : Str) (reply : ServerReply) (s t : ServerState) : Prop where
  deleted : reply = .unregistered → ∃ arg rest k,
    serverArgs I commands = lit "del" :: arg :: rest ∧ k < s.sppCliObjs.length ∧
      Names I s.sppCliObjs arg k ∧ t.sppCliObjs = s.sppCliObjs.eraseIdx k
  kept : reply ≠ .switched → t.current = s.current
  switched : reply = .switched → ∃ cmd rest, ∃ k : ℕ, serverArgs I commands = cmd :: rest ∧
    intOfStr I cmd = some ((k : ℤ) + 1) ∧ t.current = objAt s.sppCliObjs k ∧
      t.sppCliObjs = s.sppCliObjs

/-- What a deletion looks for, when its argument has no sign: a position by its number, or the
server of an address. -/
def Selects (objs : List CtlClient) (arg : Str) (k : ℕ) : Prop :=
  isDigits I other arg = true ∧ intOfStr I arg = some ((k : ℤ) + 1) ∨
    ∃ c, objs[k]? = some c ∧ parseAddr I arg = .ok (some c.ipAddr, some c.port)

/-- A deletion that keeps the server in use: it is not of a server before that one, unless that
one is the last; and what is left of its argument without a sign in front is not the address
of another server. -/
structure SafeDel (arg : Str) (s : ServerState) : Prop where
  before : arg.head? ≠ some 45 → ∀ k < s.sppCliObjs.length,
    Selects I other s.sppCliObjs arg k →
      s.currentIdx ≤ k ∨ s.currentIdx + 1 = s.sppCliObjs.length
  sign : ∀ a, arg = 45 :: a → isDigits I other a = false → ∀ c ∈ s.sppCliObjs,
    parseAddr I a = .ok (some c.ipAddr, some c.port) → s.current = .ok c

/-- The condition on a step: a deletion keeps the server in use. -/
def SafeCommand (i : Str × Bool) (s : ServerState) : Prop :=
  ∀ arg rest, serverArgs I i.1 = lit "del" :: arg :: rest → SafeDel I other arg s

end Statement

section Current

variable {s t : ServerState} {I : Interpreter} {other : OtherDigit}

/-- An element at a position of the list. -/
theorem objAt_eq_ok {α : Type} {l : List α} {i : ℕ} {x : α} :
    objAt l (i : ℤ) = .ok x ↔ l[i]? = some x := by
  unfold objAt
  rw [if_pos (Int.natCast_nonneg i), Int.toNat_natCast]
  cases l[i]? <;> simp

/-- The element at a position does not change if the list does not change there. -/
theorem objAt_congr {α : Type} {l l' : List α} {i j : ℕ} (h : l'[j]? = l[i]?) :
    objAt l' (j : ℤ) = objAt l (i : ℤ) := by
  unfold objAt
  rw [if_pos (Int.natCast_nonneg i), if_pos (Int.natCast_nonneg j), Int.toNat_natCast,
    Int.toNat_natCast, h]

/-- The position of a valid state. -/
theorem ServerState.Valid.exists_idx (h : s.Valid) :
    ∃ i : ℕ, s.currentIdx = i ∧ i < s.sppCliObjs.length := by
  obtain ⟨hpos, hlt⟩ := h.idx
  exact ⟨s.currentIdx.toNat, by omega, by omega⟩

/-- A server after the one in use is removed, or any other one if that is the last. -/
theorem current_removed (h : s.Valid) {k : ℕ} (hk : k < s.sppCliObjs.length)
    (hne : (k : ℤ) ≠ s.currentIdx)
    (hafter : s.currentIdx ≤ k ∨ s.currentIdx + 1 = s.sppCliObjs.length) :
    (removed (s.sppCliObjs.eraseIdx k) s).2.current = s.current ∧
      0 ≤ (removed (s.sppCliObjs.eraseIdx k) s).2.currentIdx ∧
      (removed (s.sppCliObjs.eraseIdx k) s).2.currentIdx <
        (removed (s.sppCliObjs.eraseIdx k) s).2.sppCliObjs.length := by
  obtain ⟨i, hi, hlt⟩ := h.exists_idx
  have hlen : (s.sppCliObjs.eraseIdx k).length = s.sppCliObjs.length - 1 :=
    List.length_eraseIdx_of_lt hk
  unfold removed ServerState.current
  dsimp only
  rw [hi] at hne hafter ⊢
  split_ifs with hend
  · have hlast : (i : ℤ) - 1 = ((i - 1 : ℕ) : ℤ) := by omega
    rw [hlast]
    refine ⟨objAt_congr ?_, by omega, by omega⟩
    rw [List.getElem?_eraseIdx_of_ge (by omega)]
    congr 1
    omega
  · refine ⟨objAt_congr ?_, by omega, by omega⟩
    exact List.getElem?_eraseIdx_of_lt (by omega)

/-- `int` succeeds on the text of an integer. -/
theorem intOfText_ok {a : Str} {n : ℤ} (h : intOfText I a = .ok n) : intOfStr I a = some n := by
  unfold intOfText at h
  split at h
  · rename_i hn
    rw [hn, Except.ok.inj h]
  · cases h

/-- An address that is parsed is written out. -/
theorem parseAddr_ok {addr ipaddr : Str} {port : ℤ}
    (h : parseAddr I addr = .ok (some ipaddr, some port)) :
    (∃ p, addr = ipaddr ++ 58 :: p ∧ intOfStr I p = some port) ∨ addr = ipaddr ∧ port = 7777 := by
  obtain ⟨⟨ip, q⟩, hsplit, hcheck⟩ := bind_eq_ok.mp h
  obtain ⟨valid, -, hparsed⟩ := bind_eq_ok.mp hcheck
  cases valid
  · cases hparsed
  obtain ⟨hip, hq⟩ := Prod.mk.inj (Except.ok.inj hparsed)
  dsimp only at hip hq
  obtain rfl := Option.some.inj hip
  subst hq
  clear hcheck hparsed hip
  unfold splitAddr at hsplit
  split_ifs at hsplit with hcolon
  · refine .inl ?_
    split at hsplit
    · rename_i host p hparts
      obtain ⟨ok, -, hint⟩ := bind_eq_ok.mp hsplit
      cases ok
      · cases hint
      obtain ⟨num, hnum, hpair⟩ := bind_eq_ok.mp hint
      obtain ⟨rfl, hport⟩ := Prod.mk.inj (Except.ok.inj hpair)
      obtain rfl := Option.some.inj hport
      refine ⟨p, ?_, intOfText_ok hnum⟩
      have hjoin : [58].intercalate (addr.splitOn 58) = addr := List.intercalate_splitOn 58
      rw [hparts] at hjoin
      simpa [List.intercalate] using hjoin.symm
    · cases hsplit
  · obtain ⟨rfl, hport⟩ := Prod.mk.inj (Except.ok.inj hsplit)
    exact .inr ⟨rfl, (Option.some.inj hport).symm⟩

end Current

section Steps

variable {s t : ServerState} {I : Interpreter} {other : OtherDigit} {reply : ServerReply}

/-- The number of digits has no sign. -/
theorem intOfStr_nonneg {arg : Str} {n : ℤ} (hdigits : isDigits I other arg = true)
    (h : intOfStr I arg = some n) : 0 ≤ n := by
  obtain ⟨m, -, hm⟩ := Option.map_eq_some_iff.mp h
  have hunsigned : (scanSign (((arg.map (toAscii I)).dropWhile isBlank).rdropWhile isBlank)).1 =
      false := by
    unfold scanSign
    split
    · rename_i rest htext
      have hmem : 45 ∈ ((arg.map (toAscii I)).dropWhile isBlank).rdropWhile isBlank :=
        htext ▸ List.mem_cons_self
      have hmap := (List.dropWhile_sublist _).subset ((List.rdropWhile_prefix _ _).subset hmem)
      obtain ⟨c, hc, hsign⟩ := List.mem_map.mp hmap
      have hdigit := List.all_eq_true.mp (Bool.and_eq_true_iff.mp hdigits).2 c hc
      unfold toAscii at hsign
      split_ifs at hsign hdigit with hascii hspace
      · rw [hsign] at hdigit
        cases hdigit
      · cases hsign
      · split at hsign
        · omega
        · cases hsign
    · rfl
    · rfl
  have hvalue : (m : ℤ) = n := by
    change (if (scanSign _).1 = true then _ else _) = n at hm
    rwa [hunsigned, if_neg Bool.false_ne_true] at hm
  omega

/-- What a deletion by number does: nothing, or it removes a server other than the one in use. -/
theorem delByIndex_cases {arg : Str} {negative : Bool} (hdigits : isDigits I other arg = true)
    (h : delByIndex I negative arg s = .ok (reply, t)) :
    (reply ≠ .unregistered ∧ reply ≠ .switched ∧ t = s) ∨
      negative = false ∧ ∃ k < s.sppCliObjs.length, intOfStr I arg = some ((k : ℤ) + 1) ∧
        (k : ℤ) ≠ s.currentIdx ∧ (reply, t) = removed (s.sppCliObjs.eraseIdx k) s := by
  obtain ⟨num, hnum, hdel⟩ := bind_eq_ok.mp h
  clear h
  have hpos := intOfStr_nonneg hdigits (intOfText_ok hnum)
  dsimp only at hdel
  generalize hidx : (if negative = true then -1 * num - 1 else num - 1) = idx at hdel
  split_ifs at hdel with hneg hmany hcurrent
  · obtain ⟨rfl, rfl⟩ := Prod.mk.inj (Except.ok.inj hdel)
    exact .inl ⟨by decide, by decide, rfl⟩
  · obtain ⟨rfl, rfl⟩ := Prod.mk.inj (Except.ok.inj hdel)
    exact .inl ⟨by decide, by decide, rfl⟩
  · obtain ⟨rfl, rfl⟩ := Prod.mk.inj (Except.ok.inj hdel)
    exact .inl ⟨by decide, by decide, rfl⟩
  · cases negative
    · rw [if_neg Bool.false_ne_true] at hidx
      have hnext : num = (idx.toNat : ℤ) + 1 := by omega
      refine .inr ⟨rfl, idx.toNat, by omega, ?_, by omega, (Except.ok.inj hdel).symm⟩
      rw [intOfText_ok hnum, hnext]
    · rw [if_pos rfl] at hidx
      omega

/-- What a deletion by address does: nothing, or it removes a server other than the one in
use. -/
theorem delByAddr_cases {arg : Str} (h : delByAddr I arg s = .ok (reply, t)) :
    (reply ≠ .unregistered ∧ reply ≠ .switched ∧ t = s) ∨
      ∃ c k, k < s.sppCliObjs.length ∧ s.sppCliObjs[k]? = some c ∧
        parseAddr I arg = .ok (some c.ipAddr, some c.port) ∧ s.current ≠ .ok c ∧
        (reply, t) = removed (s.sppCliObjs.eraseIdx k) s := by
  obtain ⟨⟨ip, q⟩, hparse, h⟩ := bind_eq_ok.mp h
  split at h
  · rename_i ipaddr port hparts
    obtain ⟨rfl, rfl⟩ := Prod.mk.inj hparts
    split_ifs at h with hmem
    · obtain ⟨cur, hcur, hdel⟩ := bind_eq_ok.mp h
      clear h
      split_ifs at hdel with hsame
      · obtain ⟨rfl, rfl⟩ := Prod.mk.inj (Except.ok.inj hdel)
        exact .inl ⟨by decide, by decide, rfl⟩
      · refine .inr ⟨⟨ipaddr, port⟩, s.sppCliObjs.idxOf ⟨ipaddr, port⟩,
          List.idxOf_lt_length_of_mem hmem, List.getElem?_idxOf hmem, hparse, ?_, ?_⟩
        · intro hin
          exact hsame (Except.ok.inj (hcur.symm.trans hin))
        · rw [← List.erase_eq_eraseIdx_of_idxOf rfl]
          exact (Except.ok.inj hdel).symm
    · obtain ⟨rfl, rfl⟩ := Prod.mk.inj (Except.ok.inj h)
      exact .inl ⟨by decide, by decide, rfl⟩
  · obtain ⟨rfl, rfl⟩ := Prod.mk.inj (Except.ok.inj h)
    exact .inl ⟨by decide, by decide, rfl⟩

/-- What a deletion does: nothing, or it removes the named server, which is not the one in use
and not before it. -/
theorem unregisterServer_cases {arg : Str} (hsafe : SafeDel I other arg s)
    (h : unregisterServer I other arg s = .ok (reply, t)) :
    (reply ≠ .unregistered ∧ reply ≠ .switched ∧ t = s) ∨
      ∃ k < s.sppCliObjs.length, Names I s.sppCliObjs arg k ∧ (k : ℤ) ≠ s.currentIdx ∧
        (s.currentIdx ≤ k ∨ s.currentIdx + 1 = s.sppCliObjs.length) ∧
        (reply, t) = removed (s.sppCliObjs.eraseIdx k) s := by
  unfold unregisterServer at h
  dsimp only at h
  by_cases hsign : arg.head? = some 45
  · obtain ⟨a, rfl⟩ : ∃ a, arg = 45 :: a := by
      cases arg with
      | nil => cases hsign
      | cons c a => exact ⟨a, by rw [Option.some.inj hsign]⟩
    simp only [List.head?_cons, decide_true, if_true, List.tail_cons] at h
    split_ifs at h with hdigits
    · obtain hnone | ⟨hfalse, -⟩ := delByIndex_cases hdigits h
      · exact .inl hnone
      · cases hfalse
    · obtain hnone | ⟨c, k, hk, hc, hparse, hother, -⟩ := delByAddr_cases h
      · exact .inl hnone
      · refine absurd (hsafe.sign a rfl (Bool.not_eq_true _ ▸ hdigits) c ?_ hparse) hother
        exact List.mem_of_getElem? hc
  · simp only [hsign, decide_false, Bool.false_eq_true, if_false] at h
    split_ifs at h with hdigits
    · obtain hnone | ⟨-, k, hk, hnum, hne, hremoved⟩ := delByIndex_cases hdigits h
      · exact .inl hnone
      · exact .inr ⟨k, hk, .inl hnum, hne, hsafe.before hsign k hk (.inl ⟨hdigits, hnum⟩), hremoved⟩
    · obtain hnone | ⟨c, k, hk, hc, hparse, hother, hremoved⟩ := delByAddr_cases h
      · exact .inl hnone
      · refine .inr ⟨k, hk, .inr ⟨c, hc, parseAddr_ok hparse⟩, ?_,
          hsafe.before hsign k hk (.inr ⟨c, hc, hparse⟩), hremoved⟩
        intro hin
        refine hother ?_
        unfold ServerState.current
        rw [← hin]
        exact objAt_eq_ok.mpr hc

/-- What a registration does: nothing, or it appends a new address. -/
theorem registerServer_cases {addr : Str} {running : Bool}
    (h : registerServer I addr running s = .ok (reply, t)) :
    (reply ≠ .unregistered ∧ reply ≠ .switched ∧ t = s) ∨
      reply = .registered ∧ ∃ c, c ∉ s.sppCliObjs ∧
        t = { s with sppCliObjs := s.sppCliObjs ++ [c] } := by
  obtain ⟨⟨ipaddr, port⟩, -, h⟩ := bind_eq_ok.mp h
  split at h
  · rename_i ip p hparsed
    split_ifs at h with hmem hrunning
    · obtain ⟨rfl, rfl⟩ := Prod.mk.inj (Except.ok.inj h)
      exact .inl ⟨by decide, by decide, rfl⟩
    · obtain ⟨rfl, rfl⟩ := Prod.mk.inj (Except.ok.inj h)
      exact .inr ⟨rfl, _, hmem, rfl⟩
    · obtain ⟨rfl, rfl⟩ := Prod.mk.inj (Except.ok.inj h)
      exact .inl ⟨by decide, by decide, rfl⟩
  · obtain ⟨rfl, rfl⟩ := Prod.mk.inj (Except.ok.inj h)
    exact .inl ⟨by decide, by decide, rfl⟩

/-- What a change of the server does: nothing, or it goes to a position of the list. -/
theorem switchTo_cases {k : ℕ} (h : switchTo k s = .ok (reply, t)) :
    (reply ≠ .unregistered ∧ reply ≠ .switched ∧ t = s) ∨
      reply = .switched ∧ k < s.sppCliObjs.length ∧ ∃ c, objAt s.sppCliObjs k = .ok c ∧
        t = { s with currentIdx := k, curServerAddr := c.addr } := by
  unfold switchTo at h
  split_ifs at h with hlt
  · obtain ⟨c, hc, h⟩ := bind_eq_ok.mp h
    obtain ⟨rfl, rfl⟩ := Prod.mk.inj (Except.ok.inj h)
    exact .inr ⟨rfl, by omega, c, hc, rfl⟩
  · obtain ⟨rfl, rfl⟩ := Prod.mk.inj (Except.ok.inj h)
    exact .inl ⟨by decide, by decide, rfl⟩

/-- A new address at the end of the list keeps the state valid, and the server in use. -/
theorem valid_append (hs : s.Valid) {c : CtlClient} (hc : c ∉ s.sppCliObjs) :
    ({ s with sppCliObjs := s.sppCliObjs ++ [c] } : ServerState).Valid ∧
      ({ s with sppCliObjs := s.sppCliObjs ++ [c] } : ServerState).current = s.current := by
  obtain ⟨i, hi, hlt⟩ := hs.exists_idx
  have hcurrent : ({ s with sppCliObjs := s.sppCliObjs ++ [c] } : ServerState).current =
      s.current := by
    unfold ServerState.current
    rw [hi]
    exact objAt_congr (List.getElem?_append_left hlt)
  refine ⟨⟨?_, ?_, ?_⟩, hcurrent⟩
  · simp only [List.length_append, List.length_singleton]
    omega
  · exact hs.distinct.append (List.nodup_singleton c) (by simpa using hc)
  · rw [hcurrent]
    exact hs.shown

/-- A deletion that keeps the server in use keeps the state valid. -/
theorem valid_removed (hs : s.Valid) {k : ℕ} (hk : k < s.sppCliObjs.length)
    (hne : (k : ℤ) ≠ s.currentIdx)
    (hafter : s.currentIdx ≤ k ∨ s.currentIdx + 1 = s.sppCliObjs.length) :
    (removed (s.sppCliObjs.eraseIdx k) s).2.Valid := by
  obtain ⟨hcurrent, hidx⟩ := current_removed hs hk hne hafter
  refine ⟨hidx, hs.distinct.sublist (List.eraseIdx_sublist _ _), ?_⟩
  rw [hcurrent]
  exact hs.shown

/-- A command that does nothing keeps the server in use. -/
theorem keepsServer_refl {commands : Str} (hdel : reply ≠ .unregistered)
    (hswitch : reply ≠ .switched) : KeepsServer I commands reply s s :=
  ⟨fun h => absurd h hdel, fun _ => rfl, fun h => absurd h hswitch⟩

/-- A `server` command keeps the state valid, and the server in use but for a change of it. -/
theorem serverRun_keepsServer {commands : Str} {running : Bool} (hs : s.Valid)
    (hsafe : SafeCommand I other (commands, running) s)
    (h : serverRun I other commands running s = .ok (reply, t)) :
    t.Valid ∧ KeepsServer I commands reply s t := by
  have hnothing : reply ≠ .unregistered ∧ reply ≠ .switched ∧ t = s →
      t.Valid ∧ KeepsServer I commands reply s t := by
    rintro ⟨hdel, hswitch, rfl⟩
    exact ⟨hs, keepsServer_refl hdel hswitch⟩
  have hreply : ∀ r, r ≠ .unregistered → r ≠ .switched →
      (.ok (r, s) : Except CliExc _) = .ok (reply, t) →
      t.Valid ∧ KeepsServer I commands reply s t := by
    intro r hdel hswitch heq
    obtain ⟨rfl, rfl⟩ := Prod.mk.inj (Except.ok.inj heq)
    exact hnothing ⟨hdel, hswitch, rfl⟩
  unfold serverRun at h
  split at h
  · exact hreply _ (by decide) (by decide) h
  rename_i cmd args hargs
  split_ifs at h with hlist hadd hdelete
  · exact hreply _ (by decide) (by decide) h
  -- an addition
  · split at h
    · exact hreply _ (by decide) (by decide) h
    obtain hnone | ⟨rfl, c, hc, rfl⟩ := registerServer_cases h
    · exact hnothing hnone
    obtain ⟨hvalid, hcurrent⟩ := valid_append hs hc
    exact ⟨hvalid, nofun, fun _ => hcurrent, nofun⟩
  -- a deletion
  · split at h
    · exact hreply _ (by decide) (by decide) h
    rename_i arg rest
    subst hdelete
    obtain hnone | ⟨k, hk, hnames, hne, hafter, hremoved⟩ :=
      unregisterServer_cases (hsafe arg rest hargs) h
    · exact hnothing hnone
    obtain ⟨rfl, rfl⟩ := Prod.mk.inj hremoved
    exact ⟨valid_removed hs hk hne hafter, fun _ => ⟨arg, rest, k, hargs, hk, hnames, rfl⟩,
      fun _ => (current_removed hs hk hne hafter).1, nofun⟩
  -- a change of the server
  · obtain ⟨num, hnum, hindex⟩ := bind_eq_ok.mp h
    dsimp only at hindex
    split_ifs at hindex with hpos
    · obtain ⟨k, hk⟩ := Int.eq_ofNat_of_zero_le hpos
      rw [hk] at hindex
      obtain hnone | ⟨rfl, hlt, c, hc, rfl⟩ := switchTo_cases hindex
      · exact hnothing hnone
      have hnamed : intOfStr I cmd = some ((k : ℤ) + 1) := by
        rw [intOfText_ok hnum]
        congr 1
        omega
      exact ⟨⟨⟨Int.natCast_nonneg k, Int.ofNat_lt.mpr hlt⟩, hs.distinct, c, hc, rfl⟩, nofun,
        fun hne => absurd rfl hne, fun _ => ⟨cmd, args, k, hargs, hnamed, rfl, rfl⟩⟩
    · exact hreply _ (by decide) (by decide) hindex

/-- `do_server` takes over the server in use. -/
theorem doServer_keepsServer {commands : Str} {running : Bool} (hs : s.Valid)
    (hsafe : SafeCommand I other (commands, running) s)
    (h : doServer I other commands running s = .ok (reply, t)) :
    t.Controls ∧ KeepsServer I commands reply s t := by
  obtain ⟨⟨reply', t'⟩, hrun, h⟩ := bind_eq_ok.mp h
  obtain ⟨c, hc, h⟩ := bind_eq_ok.mp h
  obtain ⟨rfl, rfl⟩ := Prod.mk.inj (Except.ok.inj h)
  obtain ⟨⟨hidx, hdistinct, hshown⟩, hdeleted, hkept, hswitched⟩ :=
    serverRun_keepsServer hs hsafe hrun
  exact ⟨⟨⟨hidx, hdistinct, hshown⟩, hc⟩, hdeleted, hkept, hswitched⟩

end Steps

section Results

variable {I : Interpreter} {other : OtherDigit} {objs : List CtlClient} {s₀ s : ServerState}

/-- The shell starts with the first server. -/
theorem controls_shellInit (hdistinct : objs.Nodup) (h : shellInit objs = .ok s₀) :
    s₀.Controls := by
  obtain ⟨c, hc, hinit⟩ := bind_eq_ok.mp h
  obtain rfl := Except.ok.inj hinit
  have hfirst := objAt_eq_ok.mp (show objAt objs ((0 : ℕ) : ℤ) = .ok c from hc)
  have hlen : 0 < objs.length := by
    rw [List.getElem?_eq_some_iff] at hfirst
    exact hfirst.1
  exact ⟨⟨⟨Int.le_refl 0, Int.natCast_pos.mpr hlen⟩, hdistinct, c, hc, rfl⟩, hc⟩

/-- In a run whose deletions are all of servers from the one in use on, or with that one the
last, and of no address with a sign in front: the position stays one of the list, the addresses
stay distinct, the address that is shown is that of the server in use, and only a change of the
server by its number replaces it. -/
theorem serverInUse_kept (hdistinct : objs.Nodup) (hinit : shellInit objs = .ok s₀)
    (hrun : Reaches (serverStep I other) (SafeCommand I other) s₀ s) :
    s.Controls ∧
      ∀ commands running reply t, SafeCommand I other (commands, running) s →
        doServer I other commands running s = .ok (reply, t) →
          KeepsServer I commands reply s t := by
  have hcontrols : s.Controls := by
    refine hrun.invariant (controls_shellInit hdistinct hinit) fun i u v hu hsafe hstep => ?_
    unfold serverStep at hstep
    split at hstep
    · rename_i hdo
      obtain rfl := Option.some.inj hstep
      exact (doServer_keepsServer hu.1 hsafe hdo).1
    · cases hstep
  exact ⟨hcontrols, fun _ _ _ _ hsafe hdo => (doServer_keepsServer hcontrols.1 hsafe hdo).2⟩

/-- Three servers. -/
def threeServers : List CtlClient :=
  [⟨lit "192.168.0.1", 7777⟩, ⟨lit "192.168.0.2", 7777⟩, ⟨lit "192.168.0.3", 7777⟩]

/-- Deletions without a sign while the last server is in use. -/
def lastInUse (i : Str × Bool) (s : ServerState) : Bool :=
  match serverArgs .ascii i.1 with
  | cmd :: arg :: _ =>
    cmd ≠ lit "del" || (decide (s.currentIdx + 1 = s.sppCliObjs.length) && arg.head? ≠ some 45)
  | _ => true

/-- These keep the server in use. -/
theorem safeCommand_lastInUse (other : OtherDigit) {i : Str × Bool} {s : ServerState}
    (h : lastInUse i s = true) : SafeCommand .ascii other i s := by
  intro arg rest hargs
  unfold lastInUse at h
  simp only [hargs, ne_eq, not_true, decide_false, Bool.false_or, Bool.and_eq_true,
    decide_eq_true_eq] at h
  refine ⟨fun _ _ _ _ => .inr h.1, fun a ha => absurd ?_ h.2⟩
  rw [ha, List.head?_cons]

/-- The last of three servers is in use while the first one is deleted. -/
theorem serverInUse_kept_last : ∃ s₀ s, shellInit threeServers = .ok s₀ ∧
    Reaches (serverStep .ascii fun _ => false) (SafeCommand .ascii fun _ => false) s₀ s ∧
    s.sppCliObjs = threeServers.tail ∧ s.Controls := by
  obtain ⟨s, hs, htail⟩ : ∃ s,
      runAll (tested (serverStep .ascii fun _ => false) lastInUse)
        [(lit "3", false), (lit "del 1", false)]
        ⟨threeServers, 0, lit "192.168.0.1:7777", ⟨lit "192.168.0.1", 7777⟩⟩ = some s ∧
      s.sppCliObjs = threeServers.tail := exists_of_runAll (by decide +kernel)
  have hinit : shellInit threeServers =
      .ok ⟨threeServers, 0, lit "192.168.0.1:7777", ⟨lit "192.168.0.1", 7777⟩⟩ := by
    decide +kernel
  have hrun := reaches_of_runAll_tested hs fun _ _ _ h => safeCommand_lastInUse (fun _ => false) h
  exact ⟨_, s, hinit, hrun, htail, (serverInUse_kept (by decide +kernel) hinit hrun).1⟩

/-- The second of three servers is in use, the first one is deleted, and the third one is in use
under the address of the second. -/
theorem not_serverInUse_kept_middle : ∃ s₀ s t, shellInit threeServers = .ok s₀ ∧
    runAll (serverStep .ascii fun _ => false) [(lit "2", false)] s₀ = some s ∧
    doServer .ascii (fun _ => false) (lit "del 1") false s = .ok (.unregistered, t) ∧
    s.current = .ok ⟨lit "192.168.0.2", 7777⟩ ∧ t.current = .ok ⟨lit "192.168.0.3", 7777⟩ ∧
    t.curServerAddr = lit "192.168.0.2:7777" :=
  ⟨⟨threeServers, 0, lit "192.168.0.1:7777", ⟨lit "192.168.0.1", 7777⟩⟩,
    ⟨threeServers, 1, lit "192.168.0.2:7777", ⟨lit "192.168.0.2", 7777⟩⟩,
    ⟨threeServers.tail, 1, lit "192.168.0.2:7777", ⟨lit "192.168.0.3", 7777⟩⟩,
    by decide +kernel, by decide +kernel, by decide +kernel, by decide +kernel,
    by decide +kernel, by decide +kernel⟩

end Results

end Spp.Ctl.Servers
