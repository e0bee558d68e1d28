import Spp.Lib.TokenList
import Spp.Nfv.Tables
import Spp.Primary.ParseCommand

/-!
# Where a received message is taken apart

`parse_command` of `spp_nfv` and of `spp_primary` with every access that depends on the
message: the bytes of the buffer, the places of the token arrays, and the tokens that a
command expects. The commands themselves are in the other modules.
-/

namespace Spp.Nfv

open CLib

section Source

/-- What `parse_command` has taken from a message when it turns to its work. -/
inductive Parsed
  /-- No token, an unknown command, or a `patch` with an argument too few. -/
  | ignored
  | status
  | getClientId
  | setClientId (id : Option ℤ)
  | exit
  | stop
  | forward
  | add (uid : Option ResourceUid)
  | reset
  | patch (src dst : ResourceUid)
  | del (uid : Option ResourceUid)
  deriving DecidableEq

/-- `spp_atoi`; `none` is its result `-1`. -/
def sppAtoi (str : CStr) : Option ℤ :=
  match strtol 10 str with
  | none => none
  | some (v, rest) => if rest.isEmpty then some (toInt v) else none

/-- The branches of `parse_command` on the tokens. -/
def parseTokens (tokenList : List CStr) : Except Fault Parsed :=
  match tokenList with
  | [] => .ok .ignored
  | command :: args =>
    if command = "status".toList then .ok .status
    else if command = "_get_client_id".toList then .ok .getClientId
    else if command = "_set_client_id".toList then
      (argument args 0).map fun token => .setClientId (sppAtoi token)
    else if command = "exit".toList then .ok .exit
    else if command = "stop".toList then .ok .stop
    else if command = "forward".toList then .ok .forward
    else if command = "add".toList then do
      return .add (← parseResourceUid (← argument args 0))
    else if command = "patch".toList then
      match args with
      | [] => .ok .ignored
      | src :: rest =>
        if "reset".toList.isPrefixOf src then .ok .reset
        else
          match rest with
          | [] => .ok .ignored
          | dst :: _ => do return .patch (← patchArgument src) (← patchArgument dst)
    else if command = "del".toList then do
      return .del (← parseResourceUid (← argument args 0))
    else .ok .ignored

/-- `parse_command` on a message that `do_receive` has put into the buffer. -/
def parseMessage (message : List Char) : Except Fault Parsed :=
  match readString (receiveBuffer Primary.msgSize message) with
  | none => .error .outOfBounds
  | some str => do
    let tokenList ← walkTokens maxParameter .outOfBounds
      (fun _ token tokenList => .ok (tokenList ++ [token])) 0 (strtok ' ' str) []
    parseTokens tokenList

end Source

section Condition

/-- A resource UID with a colon has something on both of its sides. -/
def UidComplete (uid : CStr) : Prop := ':' ∈ uid → 2 ≤ (strtok ':' uid).length

/-- The commands whose arguments are there: the resource UID of an `add` or `del` is
complete, and those of a `patch` have a colon as well. -/
def ArgumentsPresent : List CStr → Prop
  | [] => True
  | command :: args =>
    (command = "_set_client_id".toList → args ≠ []) ∧
    (command = "add".toList ∨ command = "del".toList → ∃ uid ∈ args.head?, UidComplete uid) ∧
    (command = "patch".toList → ∀ src dst rest, args = src :: dst :: rest →
      "reset".toList.isPrefixOf src = true ∨
        (':' ∈ src ∧ UidComplete src) ∧ ':' ∈ dst ∧ UidComplete dst)

/-- The messages that `spp_nfv` takes apart within bounds. -/
def MessageFits (message : List Char) : Prop :=
  (nul ∈ message ∨ message.length < Primary.msgSize) ∧
    (strtok ' ' (stringAt message)).length < maxParameter ∧
    ArgumentsPresent (strtok ' ' (stringAt message))

end Condition

section Bounds

/-- `parse_resource_uid` finds its two tokens iff the resource UID is complete. -/
theorem parseResourceUid_ok_iff {uid : CStr} :
    (∃ r, parseResourceUid uid = .ok r) ↔ UidComplete uid := by
  unfold parseResourceUid UidComplete
  by_cases hcolon : ':' ∈ uid
  · simp only [hcolon, not_true, if_false, true_imp_iff]
    rcases strtok ':' uid with _ | ⟨type, _ | ⟨token, rest⟩⟩
    · simp
    · simp
    · refine iff_of_true ?_ (by simp)
      dsimp only
      cases strtol 10 token with
      | none => exact ⟨_, rfl⟩
      | some r => exact ⟨_, rfl⟩
  · simp [hcolon]

/-- Without a colon the outputs are not written. -/
theorem parseResourceUid_eq_none {uid : CStr} :
    parseResourceUid uid = .ok none ↔ ':' ∉ uid := by
  unfold parseResourceUid
  by_cases hcolon : ':' ∈ uid
  · simp only [hcolon, not_true, if_false, iff_false]
    rcases strtok ':' uid with _ | ⟨type, _ | ⟨token, rest⟩⟩
    · simp
    · simp
    · dsimp only
      cases strtol 10 token <;> simp
  · simp [hcolon]

/-- The type of a resource UID is written iff it has a colon and is complete. -/
theorem patchArgument_ok_iff {uid : CStr} :
    (∃ r, patchArgument uid = .ok r) ↔ ':' ∈ uid ∧ UidComplete uid := by
  have hcolon : ':' ∈ uid ↔ parseResourceUid uid ≠ .ok none := by
    rw [Ne, parseResourceUid_eq_none, not_not]
  rw [← parseResourceUid_ok_iff, hcolon]
  unfold patchArgument
  cases parseResourceUid uid with
  | error e => simp [bind, Except.bind]
  | ok r => cases r <;> simp [bind, Except.bind, pure, Except.pure]

/-- A resource UID that may be missing is parsed iff it is there and complete. -/
theorem argument_parse_iff {args : List CStr} {f : Option ResourceUid → Parsed} :
    (∃ r, (do return f (← parseResourceUid (← argument args 0)) : Except Fault Parsed) = .ok r) ↔
      ∃ uid ∈ args.head?, UidComplete uid := by
  cases args with
  | nil => simp [argument, bind, Except.bind]
  | cons uid rest =>
    simp only [argument, List.getElem?_cons_zero, List.head?_cons, Option.mem_def,
      Option.some.injEq, ↓existsAndEq, true_and, ← parseResourceUid_ok_iff, bind, Except.bind]
    cases parseResourceUid uid with
    | error e => simp
    | ok r => simp [pure, Except.pure]

/-- No command uses a token that is not there iff the arguments are present. -/
theorem parseTokens_ok_iff {tokens : List CStr} :
    (∃ r, parseTokens tokens = .ok r) ↔ ArgumentsPresent tokens := by
  rcases tokens with _ | ⟨command, args⟩
  · exact iff_of_true ⟨_, rfl⟩ trivial
  by_cases hset : command = "_set_client_id".toList
  · subst hset
    cases args <;> simp [parseTokens, ArgumentsPresent, argument, Except.map]
  by_cases hadd : command = "add".toList
  · subst hadd
    simpa [parseTokens, ArgumentsPresent] using argument_parse_iff
  by_cases hdel : command = "del".toList
  · subst hdel
    simpa [parseTokens, ArgumentsPresent] using argument_parse_iff
  by_cases hpatch : command = "patch".toList
  · subst hpatch
    rcases args with _ | ⟨src, _ | ⟨dst, rest⟩⟩
    · exact iff_of_true ⟨.ignored, rfl⟩ (by simp [ArgumentsPresent])
    · refine iff_of_true ?_ (by simp [ArgumentsPresent])
      have hbranch : parseTokens ["patch".toList, src] =
          if "reset".toList.isPrefixOf src then .ok .reset else .ok .ignored := rfl
      rw [hbranch]
      split_ifs <;> exact ⟨_, rfl⟩
    · have hbranch : parseTokens ("patch".toList :: src :: dst :: rest) =
          if "reset".toList.isPrefixOf src then .ok .reset
          else (do return .patch (← patchArgument src) (← patchArgument dst)) := rfl
      have hpresent : ArgumentsPresent ("patch".toList :: src :: dst :: rest) ↔
          ("reset".toList.isPrefixOf src = true ∨
            (':' ∈ src ∧ UidComplete src) ∧ ':' ∈ dst ∧ UidComplete dst) := by
        simp [ArgumentsPresent]
      rw [hbranch, hpresent, ← patchArgument_ok_iff, ← patchArgument_ok_iff]
      cases "reset".toList.isPrefixOf src with
      | true => simp
      | false =>
        cases patchArgument src with
        | error e => simp [bind, Except.bind]
        | ok r => cases patchArgument dst <;> simp [bind, Except.bind, pure, Except.pure]
  · refine iff_of_true ?_ ⟨fun h => absurd h hset, ?_, fun h => absurd h hpatch⟩
    · simp only [parseTokens, hset, hadd, hdel, hpatch, if_false]
      split_ifs <;> exact ⟨_, rfl⟩
    · rintro (h | h)
      · exact absurd h hadd
      · exact absurd h hdel

/-- A message is taken apart within bounds iff it is terminated, has few enough tokens,
and its command has its arguments. -/
theorem parseMessage_ok_iff {message : List Char} (h : message.length ≤ Primary.msgSize) :
    (∃ r, parseMessage message = .ok r) ↔ MessageFits message := by
  unfold parseMessage MessageFits
  rw [readString_receiveBuffer h]
  by_cases hterm : nul ∈ message ∨ message.length < Primary.msgSize
  · simp only [hterm, if_true, true_and, ← parseTokens_ok_iff]
    generalize strtok ' ' (stringAt message) = tokens
    rw [walkTokens_store, Nat.zero_add, List.nil_append]
    by_cases hcount : tokens.length < maxParameter
    · simp [hcount, bind, Except.bind]
    · simp [hcount, bind, Except.bind]
  · simp [hterm]

/-- A message that is taken apart within bounds is a command line of the tables. -/
theorem commandOf_of_parseMessage {message : List Char} {r : Parsed}
    (hsize : message.length ≤ Primary.msgSize) (h : parseMessage message = .ok r) :
    ∃ c, commandOf (stringAt message) = .ok c := by
  obtain ⟨-, hcount, hpresent⟩ := (parseMessage_ok_iff hsize).mp ⟨r, h⟩
  unfold commandOf
  rcases htokens : strtok ' ' (stringAt message) with _ | ⟨command, args⟩
  · exact ⟨.other, rfl⟩
  rw [htokens] at hcount hpresent
  obtain ⟨-, hedit, -⟩ := hpresent
  dsimp only
  rw [if_neg (by omega)]
  have hargument : command = "add".toList ∨ command = "del".toList →
      ∃ uid, argument args 0 = .ok uid := by
    intro hcommand
    obtain ⟨uid, hmem, -⟩ := hedit hcommand
    cases args with
    | nil => cases hmem
    | cons arg rest => exact ⟨arg, rfl⟩
  split_ifs with hstop hforward hadd hpatch hdel
  · exact ⟨_, rfl⟩
  · exact ⟨_, rfl⟩
  · obtain ⟨uid, huid⟩ := hargument (.inl hadd)
    exact ⟨.add uid, by rw [huid]; rfl⟩
  · exact ⟨_, rfl⟩
  · obtain ⟨uid, huid⟩ := hargument (.inr hdel)
    exact ⟨.del uid, by rw [huid]; rfl⟩
  · exact ⟨_, rfl⟩

end Bounds

end Spp.Nfv

namespace Spp.Primary

open CLib
open Nfv (Fault argument)

section Source

/-- `NOF_TOKENS`, the length of `sec_args` and of the token list for the path of the program. -/
def nofTokens : ℕ := 48

/-- `NOF_CMD_LIST`. -/
def nofCmdList : ℕ := nofTokens + 2

/-- What `parse_command` stores of the tokens. -/
structure Stored where
  tokenList : List CStr
  secName : CStr
  secArgs : List CStr

/-- The body of the loop over the tokens: token 2 is copied as the process name, and
those after it are its arguments. -/
def storeToken (i : ℕ) (token : CStr) (s : Stored) : Except Fault Stored :=
  if i = 2 then
    if token.length < secNameSize then
      .ok { s with tokenList := s.tokenList ++ [token], secName := token }
    else .error .outOfBounds
  else if 2 < i then
    if i - 3 < nofTokens then
      .ok { s with tokenList := s.tokenList ++ [token], secArgs := s.secArgs ++ [token] }
    else .error .outOfBounds
  else .ok { s with tokenList := s.tokenList ++ [token] }

/-- `launch_sec_proc` up to `execvp`, with what it stores in `cmd_list` from place 3 on.
`exePath` is the path of the program, if `readlink` finds it; the launcher is in the
directory that is two components from its end. The new process prints its first argument. -/
def launchSecProc (exePath : Option CStr) (secArgs : List CStr) : Except Fault (List CStr) :=
  match exePath with
  | none => .ok []
  | some path => do
    let tokenList ← walkTokens nofTokens .outOfBounds
      (fun _ token tokenList => .ok (tokenList ++ [token])) 0 (strtok '/' path) []
    if tokenList.length < 2 then
      .error .outOfBounds
    let cmdList ← walkTokens nofTokens .outOfBounds
      (fun i arg cmdList => if i + 3 < nofCmdList then .ok (cmdList ++ [arg])
        else .error .outOfBounds) 0 secArgs []
    walkTokens nofCmdList .outOfBounds (fun _ _ printed => .ok printed) 3 cmdList ()
    let _ ← argument secArgs 0
    return cmdList

/-- The branches of `parse_command` on what was stored. -/
def runStored (exePath : Option CStr) (s : Stored) : Except Fault Command := do
  let token ← argument s.tokenList 0
  if token = "status".toList then
    return .status
  else if token = "launch".toList then
    let secId ← argument s.tokenList 1
    let _ ← launchSecProc exePath s.secArgs
    return .launch s.secName secId s.secArgs
  else if token = "exit".toList then
    return .exit
  else if token = "clear".toList then
    return .clear
  else
    return .unknown

/-- `parse_command` on a message that `do_receive` has put into the buffer. -/
def parseMessage (exePath : Option CStr) (message : List Char) : Except Fault Command :=
  match readString (receiveBuffer msgSize message) with
  | none => .error .outOfBounds
  | some str => do
    let s ← walkTokens maxParameter .outOfBounds storeToken 0 (strtok ' ' str) ⟨[], [], []⟩
    runStored exePath s

end Source

section Condition

/-- A launch has its arguments: the ID, and where the path of the program is known also one
for the new process, while the path has at least two and fewer than 48 components. -/
def LaunchFits (exePath : Option CStr) (tokens : List CStr) : Prop :=
  tokens.head? = some "launch".toList → 2 ≤ tokens.length ∧
    ∀ path ∈ exePath, 4 ≤ tokens.length ∧ 2 ≤ (strtok '/' path).length ∧
      (strtok '/' path).length < nofTokens

/-- The messages that `spp_primary` takes apart within bounds. -/
def MessageFits (exePath : Option CStr) (message : List Char) : Prop :=
  (nul ∈ message ∨ message.length < msgSize) ∧
    strtok ' ' (stringAt message) ≠ [] ∧
    (strtok ' ' (stringAt message)).length < maxParameter ∧
    (∀ name ∈ (strtok ' ' (stringAt message))[2]?, name.length < secNameSize) ∧
    LaunchFits exePath (strtok ' ' (stringAt message))

end Condition

section Bounds

variable {exePath : Option CStr} {tokens : List CStr}

/-- The tokens from the third one on are stored as arguments. -/
theorem walkTokens_storeToken {s r : Stored} :
    walkTokens maxParameter .outOfBounds storeToken 3 tokens s = .ok r ↔
      3 + tokens.length < maxParameter ∧
        ⟨s.tokenList ++ tokens, s.secName, s.secArgs ++ tokens⟩ = r := by
  have hbody : ∀ j token (s : Stored), 3 ≤ j → j + 1 < maxParameter → storeToken j token s =
      .ok ⟨s.tokenList ++ [token], s.secName, s.secArgs ++ [token]⟩ := by
    intro j token s hlo hhi
    have hname : j ≠ 2 := by omega
    have hfits : j - 3 < nofTokens := by
      unfold maxParameter at hhi
      unfold nofTokens
      omega
    rw [storeToken, if_neg hname, if_pos (by omega), if_pos hfits]
  have hfold : tokens.foldl (fun (s : Stored) token =>
      ⟨s.tokenList ++ [token], s.secName, s.secArgs ++ [token]⟩) s =
      ⟨s.tokenList ++ tokens, s.secName, s.secArgs ++ tokens⟩ := by
    induction tokens generalizing s with
    | nil => simp
    | cons token rest ih => simp [ih]
  rw [walkTokens_eq_ok hbody, hfold]

/-- All the tokens are stored iff there are few enough and the process name fits. -/
theorem storeTokens_eq_ok {r : Stored} :
    walkTokens maxParameter .outOfBounds storeToken 0 tokens ⟨[], [], []⟩ = .ok r ↔
      (tokens.length < maxParameter ∧ ∀ name ∈ tokens[2]?, name.length < secNameSize) ∧
        ⟨tokens, tokens.getD 2 [], tokens.drop 3⟩ = r := by
  rcases tokens with _ | ⟨first, _ | ⟨second, _ | ⟨name, rest⟩⟩⟩
  · simp [walkTokens, maxParameter]
  · simp [walkTokens, maxParameter, storeToken, Except.bind]
  · simp [walkTokens, maxParameter, storeToken, Except.bind]
  · have hstart : walkTokens maxParameter .outOfBounds storeToken 0
        (first :: second :: name :: rest) ⟨[], [], []⟩ =
          if name.length < secNameSize then
            walkTokens maxParameter .outOfBounds storeToken 3 rest ⟨[first, second, name], name, []⟩
          else .error .outOfBounds := by
      have hpos : 0 < maxParameter ∧ 1 < maxParameter ∧ 2 < maxParameter := by decide
      by_cases hname : name.length < secNameSize
      · simp [walkTokens, hpos, storeToken, hname, Except.bind]
      · simp [walkTokens, hpos, storeToken, hname, Except.bind]
    have hlength : (first :: second :: name :: rest).length = 3 + rest.length := by
      simp only [List.length_cons]
      omega
    rw [hstart, hlength]
    by_cases hname : name.length < secNameSize
    · rw [if_pos hname, walkTokens_storeToken]
      simp [hname]
    · simp [hname]

/-- A launch stays in its arrays iff it has an argument and the path of the program has
enough components and not too many. -/
theorem launchSecProc_ok_iff {secArgs : List CStr} (h : secArgs.length + 3 < maxParameter) :
    (∃ r, launchSecProc exePath secArgs = .ok r) ↔
      ∀ path ∈ exePath, secArgs ≠ [] ∧ 2 ≤ (strtok '/' path).length ∧
        (strtok '/' path).length < nofTokens := by
  have hargs : secArgs.length < nofTokens ∧ 3 + secArgs.length < nofCmdList := by
    unfold maxParameter at h
    unfold nofCmdList nofTokens
    omega
  cases exePath with
  | none => exact iff_of_true ⟨_, rfl⟩ (by simp)
  | some path =>
    have hcopy : walkTokens nofTokens .outOfBounds (fun i arg cmdList =>
        if i + 3 < nofCmdList then .ok (cmdList ++ [arg]) else .error Fault.outOfBounds) 0
        secArgs [] = .ok secArgs := by
      refine (walkTokens_eq_ok (f := fun arg list => list ++ [arg])
        fun j arg list _ hj => if_pos ?_).mpr ⟨by omega, ?_⟩
      · unfold nofCmdList
        omega
      · simp [← List.flatMap_def]
    have hprint : walkTokens nofCmdList Fault.outOfBounds (fun _ _ printed => .ok printed) 3
        secArgs () = .ok () :=
      (walkTokens_eq_ok fun j arg printed _ _ => rfl).mpr ⟨hargs.2, rfl⟩
    simp only [launchSecProc, walkTokens_store, Nat.zero_add, List.nil_append, hcopy]
    by_cases hmany : (strtok '/' path).length < nofTokens
    · by_cases hfew : (strtok '/' path).length < 2
      · simp [hmany, hfew, bind, Except.bind]
      · have hle : 2 ≤ (strtok '/' path).length := by omega
        cases secArgs with
        | nil => simp [hmany, hfew, bind, Except.bind, hprint, argument]
        | cons arg rest =>
          simp [hmany, hfew, hle, bind, Except.bind, pure, Except.pure, hprint, argument]
    · simp [hmany, bind, Except.bind]

/-- No branch uses a token that is not there iff there is one, and a launch has its
arguments. -/
theorem runStored_ok_iff (h : tokens.length < maxParameter) :
    (∃ r, runStored exePath ⟨tokens, tokens.getD 2 [], tokens.drop 3⟩ = .ok r) ↔
      tokens ≠ [] ∧ LaunchFits exePath tokens := by
  rcases tokens with _ | ⟨token, rest⟩
  · simp [runStored, argument, bind, Except.bind]
  by_cases hlaunch : token = "launch".toList
  · subst hlaunch
    cases rest with
    | nil => simp [runStored, argument, LaunchFits, bind, Except.bind]
    | cons secId rest =>
      have hargs : (rest.drop 1).length + 3 < maxParameter := by
        simp only [List.length_cons, List.length_drop] at h ⊢
        unfold maxParameter at h ⊢
        omega
      have hsome : rest.drop 1 ≠ [] ↔ 4 ≤ ("launch".toList :: secId :: rest).length := by
        rw [← List.length_pos_iff, List.length_drop, List.length_cons, List.length_cons]
        omega
      have hfits : LaunchFits exePath ("launch".toList :: secId :: rest) ↔
          ∀ path ∈ exePath, rest.drop 1 ≠ [] ∧ 2 ≤ (strtok '/' path).length ∧
            (strtok '/' path).length < nofTokens := by
        simp only [hsome]
        simp [LaunchFits]
      rw [hfits, ← launchSecProc_ok_iff hargs]
      have hbranch : runStored exePath ⟨"launch".toList :: secId :: rest,
          ("launch".toList :: secId :: rest).getD 2 [],
          ("launch".toList :: secId :: rest).drop 3⟩ =
          (launchSecProc exePath (rest.drop 1)).map
            fun _ => .launch (rest.getD 0 []) secId (rest.drop 1) := by
        have hstatus : "launch".toList ≠ "status".toList := by decide
        simp only [runStored, argument, List.getElem?_cons_zero, List.getElem?_cons_succ, bind,
          Except.bind, pure, Except.pure, if_neg hstatus, if_true, List.drop_succ_cons]
        cases rest with
        | nil =>
          simp only [List.drop_nil]
          cases launchSecProc exePath [] <;> rfl
        | cons name args =>
          simp only [List.drop_succ_cons, List.drop_zero]
          cases launchSecProc exePath args <;> rfl
      rw [hbranch]
      cases launchSecProc exePath (rest.drop 1) <;> simp [Except.map]
  · have hquiet : LaunchFits exePath (token :: rest) := by
      intro hhead
      exact absurd (Option.some.inj hhead) hlaunch
    refine iff_of_true ?_ ⟨by simp, hquiet⟩
    simp only [runStored, argument, List.getElem?_cons_zero, bind, Except.bind, if_neg hlaunch]
    split_ifs <;> exact ⟨_, rfl⟩

/-- A message is taken apart within bounds iff it is terminated, has tokens and few enough of
them, its process name fits, and a launch has its arguments. -/
theorem parseMessage_ok_iff {message : List Char} (h : message.length ≤ msgSize) :
    (∃ r, parseMessage exePath message = .ok r) ↔ MessageFits exePath message := by
  unfold parseMessage MessageFits
  rw [readString_receiveBuffer h]
  by_cases hterm : nul ∈ message ∨ message.length < msgSize
  · simp only [hterm, if_true, true_and]
    generalize strtok ' ' (stringAt message) = tokens
    by_cases hstored : tokens.length < maxParameter ∧
        ∀ name ∈ tokens[2]?, name.length < secNameSize
    · rw [storeTokens_eq_ok.mpr ⟨hstored, rfl⟩]
      simp only [bind, Except.bind, runStored_ok_iff hstored.1, hstored]
      tauto
    · have herror : ∀ r, walkTokens maxParameter .outOfBounds storeToken 0 tokens
          ⟨[], [], []⟩ ≠ .ok r := fun r hr => hstored (storeTokens_eq_ok.mp hr).1
      refine iff_of_false ?_ (by tauto)
      cases hwalk : walkTokens maxParameter .outOfBounds storeToken 0 tokens ⟨[], [], []⟩ with
      | error e => simp [bind, Except.bind]
      | ok r => exact absurd hwalk (herror r)
  · simp [hterm]

/-- A message that is taken apart within bounds is carried out as the command it is. -/
theorem parseCommand_of_parseMessage {message : List Char} {c : Command}
    (hsize : message.length ≤ msgSize) (h : parseMessage exePath message = .ok c) :
    parseCommand message = some c := by
  obtain ⟨hterm, hne, hcount, hname, -⟩ := (parseMessage_ok_iff hsize).mp ⟨c, h⟩
  unfold parseMessage at h
  rw [readString_receiveBuffer hsize, if_pos hterm] at h
  have hshort : ¬ (nul ∉ message ∧ msgSize ≤ message.length) := by
    rintro ⟨hnul, hlong⟩
    rcases hterm with hmem | hlt
    · exact hnul hmem
    · omega
  unfold parseCommand
  rw [List.take_of_length_le hsize]
  dsimp only at h ⊢
  generalize strtok ' ' (stringAt message) = tokens at h hne hcount hname ⊢
  have hname' : ¬ secNameSize ≤ (tokens.getD 2 []).length := by
    rw [List.getD_eq_getElem?_getD]
    cases hthird : tokens[2]? with
    | none => decide
    | some name => exact not_le.mpr (hname name hthird)
  rw [if_neg hshort, if_neg (by omega), if_neg hname']
  rw [storeTokens_eq_ok.mpr ⟨⟨hcount, hname⟩, rfl⟩] at h
  rcases tokens with _ | ⟨token, rest⟩
  · exact absurd rfl hne
  simp only [bind, Except.bind, runStored, argument, List.getElem?_cons_zero] at h
  dsimp only
  split_ifs at h ⊢ with hstatus hlaunch hexit hclear
  · exact congrArg some (Except.ok.inj h)
  · cases rest with
    | nil => cases h
    | cons secId rest =>
      simp only [List.getElem?_cons_succ, List.getElem?_cons_zero] at h
      cases hargs : launchSecProc exePath ((token :: secId :: rest).drop 3) with
      | error e =>
        rw [hargs] at h
        cases h
      | ok cmdList =>
        rw [hargs] at h
        rw [← Except.ok.inj h]
        rfl
  · exact congrArg some (Except.ok.inj h)
  · exact congrArg some (Except.ok.inj h)
  · exact congrArg some (Except.ok.inj h)

end Bounds

section Statement

/-- A process that takes messages apart, `spp_primary` with the path of its program. -/
inductive Receiver
  | nfv
  | primary (exePath : Option CStr)

/-- The process takes a message apart within its buffer and its arrays, and uses no token
that is not there. -/
def Receiver.InBounds (message : List Char) : Receiver → Prop
  | .nfv => ∃ r, Nfv.parseMessage message = .ok r
  | .primary exePath => ∃ r, parseMessage exePath message = .ok r

/-- The message is one that fits the process. -/
def Receiver.Fits (message : List Char) : Receiver → Prop
  | .nfv => Nfv.MessageFits message
  | .primary exePath => MessageFits exePath message

end Statement

/-- A message that fits the receive buffer is taken apart within bounds iff it is terminated,
its tokens and its process name fit their arrays, and its command has its arguments. -/
theorem inBounds_iff {p : Receiver} {message : List Char} (h : message.length ≤ msgSize) :
    p.InBounds message ↔ p.Fits message := by
  cases p with
  | nfv => exact Nfv.parseMessage_ok_iff h
  | primary exePath => exact parseMessage_ok_iff h

/-- A complete `add` for `spp_nfv`. -/
theorem inBounds_addRing : "add ring:0".toList.length ≤ msgSize ∧
    (Receiver.nfv.InBounds "add ring:0".toList ↔ Receiver.nfv.Fits "add ring:0".toList) :=
  ⟨by decide, inBounds_iff (by decide)⟩

/-- Without a number in the resource UID, `parse_resource_uid` uses a null pointer, and
`spp_primary` uses the first token of a blank message. -/
theorem not_inBounds_incomplete :
    (1 ≤ "add ring:".toList.length ∧ "add ring:".toList.length ≤ msgSize ∧
      ¬ Receiver.nfv.InBounds "add ring:".toList) ∧
    1 ≤ " ".toList.length ∧ " ".toList.length ≤ msgSize ∧
      ¬ (Receiver.primary none).InBounds " ".toList := by
  refine ⟨⟨by decide, by decide, ?_⟩, by decide, by decide, ?_⟩
  · intro hok
    obtain ⟨-, -, -, hedit, -⟩ := (Nfv.parseMessage_ok_iff (by decide)).mp hok
    obtain ⟨uid, hmem, hcomplete⟩ := hedit (.inl rfl)
    obtain rfl : "ring:".toList = uid := Option.some.inj hmem
    exact absurd (hcomplete (by decide)) (by decide)
  · intro hok
    obtain ⟨-, hne, -⟩ := (parseMessage_ok_iff (by decide)).mp hok
    exact hne (by decide)

end Spp.Primary
