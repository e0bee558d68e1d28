import Spp.Primary.StatusReply
import Spp.Nfv.Rejected

/-!
# The status reply of spp_nfv

`get_sec_stats_json` appends the parts of the status to the message, one `sprintf` after
the other and none of them with a bound. Each array is closed by printing its bracket over
the comma behind its last element. What is printed is compared with what the tables say.
-/

namespace Spp.Nfv

open CLib Json GuardedRun
open Spp.Vf (PortType)
open Spp.Primary (msgSize sprintf sprintf_eq_ok decimal_natCast length_formatNat)

section Source

/-- `sprintf(str + strlen(str), ...)`. -/
def append (str text : CStr) : Except Fault CStr := sprintf msgSize (str ++ text)

/-- `sprintf(str + strlen(str) - 1, "]")`. -/
def closeArray (str : CStr) : Except Fault CStr := sprintf msgSize (str.dropLast ++ [']'])

/-- The text of a port, which is `udf` for one without a type. -/
def portText (m : PortMap) : CStr :=
  match m.portType with
  | .phy => "phy:".toList ++ formatU m.id
  | .ring => "ring:".toList ++ formatU m.id
  | .vhost => "vhost:".toList ++ formatU m.id
  | .pcap => "pcap:".toList ++ formatU m.id
  | .nullpmd => "nullpmd:".toList ++ formatU m.id
  | .undef => "udf".toList

/-- What `get_sec_stats_json` reads beside the tables: `client_id` and `lcore_id_used` up to
`RTE_MAX_LCORE`. -/
structure StatusInput where
  clientId : ℕ
  maxLcore : ℕ
  lcoreIdUsed : ℕ → Bool

/-- The loop of `append_lcore_info_json`. -/
def lcoreLoop (used : ℕ → Bool) : List ℕ → CStr → Except Fault CStr
  | [], str => .ok str
  | i :: rest, str =>
    if used i then do
      lcoreLoop used rest (← append str (Nat.toDigits 10 i ++ [',']))
    else lcoreLoop used rest str

/-- `append_lcore_info_json`. -/
def appendLcoreInfoJson (input : StatusInput) (str : CStr) : Except Fault CStr := do
  let str ← append str "\"lcores\":[".toList
  let str ← lcoreLoop input.lcoreIdUsed (List.range input.maxLcore) str
  closeArray str

/-- The loop of `append_port_info_json`, with `has_port`. -/
def portLoop (s : State) : List ℕ → Bool → CStr → Except Fault (CStr × Bool)
  | [], hasPort, str => .ok (str, hasPort)
  | i :: rest, hasPort, str =>
    if (s.portsFwdArray i).inPortId = portReset then portLoop s rest hasPort str
    else do
      portLoop s rest true (← append str ('"' :: portText (s.portMap i) ++ "\",".toList))

/-- `append_port_info_json`. -/
def appendPortInfoJson (b : Build) (s : State) (str : CStr) : Except Fault CStr := do
  let str ← append str "\"ports\":[".toList
  let (str, hasPort) ← portLoop s (List.range b.maxEthports) false str
  if hasPort then closeArray str else append str "]".toList

/-- The size of `patch_str`. -/
def patchStrSize : ℕ := 128

/-- The loop of `append_patch_info_json`, with `has_patch`. A port without a destination is
only printed to `patch_str`. -/
def patchLoop (b : Build) (s : State) : List ℕ → Bool → CStr → Except Fault (CStr × Bool)
  | [], hasPatch, str => .ok (str, hasPatch)
  | i :: rest, hasPatch, str =>
    if (s.portsFwdArray i).inPortId = portReset then patchLoop b s rest hasPatch str
    else do
      let patchStr ← sprintf patchStrSize
        ("\x7b\"src\":\"".toList ++ portText (s.portMap i) ++ "\",\"dst\":".toList)
      let j := (s.portsFwdArray i).outPortId
      if j = portReset then patchLoop b s rest hasPatch str
      else if b.maxEthports ≤ j then .error .outOfBounds
      else
        let patchStr ← sprintf patchStrSize
          (patchStr ++ '"' :: portText (s.portMap j) ++ "\"\x7d,".toList)
        patchLoop b s rest true (← append str patchStr)

/-- `append_patch_info_json`. -/
def appendPatchInfoJson (b : Build) (s : State) (str : CStr) : Except Fault CStr := do
  let str ← append str "\"patches\":[".toList
  let (str, hasPatch) ← patchLoop b s (List.range b.maxEthports) false str
  if hasPatch then closeArray str else append str "]".toList

/-- The running state in the branch for `status`. -/
def runningStat (s : State) : CStr :=
  if s.cmd = .forward then "running".toList else "idling".toList

/-- `get_sec_stats_json`. The terminator is printed behind the text once more. -/
def getSecStatsJson (b : Build) (s : State) (input : StatusInput) : Except Fault CStr := do
  let str ← sprintf msgSize ("\x7b\"client-id\":".toList ++ Nat.toDigits 10 input.clientId ++ [','])
  let str ← append str "\"status\":".toList
  let str ← append str ('"' :: runningStat s ++ "\",".toList)
  let str ← appendLcoreInfoJson input str
  let str ← append str ",".toList
  let str ← appendPortInfoJson b s str
  let str ← append str ",".toList
  let str ← appendPatchInfoJson b s str
  let str ← append str "\x7d".toList
  let _ ← append str [nul]
  return str

end Source

section Statement

/-- The word for a type of port. -/
def typeWord : PortType → CStr
  | .phy => "phy".toList
  | .ring => "ring".toList
  | .vhost => "vhost".toList
  | .pcap => "pcap".toList
  | .nullpmd => "nullpmd".toList
  | .undef => []

/-- The name `type:id` of a port. -/
def PortMap.name (m : PortMap) : CStr := typeWord m.portType ++ ':' :: Json.decimal m.id

/-- The ports that have been added and not deleted, in the order of their port ids: those
that `port_map` has a type for. -/
def State.added (b : Build) (s : State) : List ℕ :=
  (List.range b.maxEthports).filter fun i => (s.portMap i).portType ≠ (.undef)

/-- The entries with a destination. -/
def State.patches (b : Build) (s : State) : List ℕ :=
  (List.range b.maxEthports).filter fun i => (s.portsFwdArray i).outPortId ≠ portReset

/-- A patch in the status. -/
def patchValue (names : CStr × CStr) : Value :=
  .object [("src".toList, .string names.1), ("dst".toList, .string names.2)]

/-- The names of the source and the destination of an entry. -/
def State.patchNames (s : State) (i : ℕ) : CStr × CStr :=
  ((s.portMap i).name, (s.portMap (s.portsFwdArray i).outPortId).name)

/-- The lcores in use, in their order. -/
def StatusInput.lcores (input : StatusInput) : List ℕ :=
  (List.range input.maxLcore).filter input.lcoreIdUsed

/-- A status with these ports and patches. -/
def statusValue (s : State) (input : StatusInput) (ports : List CStr)
    (patches : List (CStr × CStr)) : Value :=
  .object [("client-id".toList, .number input.clientId),
    ("status".toList, .string (runningStat s)),
    ("lcores".toList, .array (input.lcores.map fun i : ℕ => .number i)),
    ("ports".toList, .array (ports.map .string)),
    ("patches".toList, .array (patches.map patchValue))]

/-- The reply is printed within the message, and says which ports have been added and which
are patched to which. -/
def StatusReplied (b : Build) (s : State) (input : StatusInput) : Prop :=
  ∃ text, getSecStatsJson b s input = .ok text ∧
    IsText text (statusValue s input ((s.added b).map fun i => (s.portMap i).name)
      ((s.patches b).map s.patchNames))

end Statement

section Append

variable {str text more : CStr}

/-- Two texts are appended like one. -/
theorem append_append : (append str text >>= fun str => append str more) =
    append str (text ++ more) := by
  unfold append sprintf
  by_cases hfit : (str ++ text).length < msgSize
  · simp only [if_pos hfit, bind, Except.bind, List.append_assoc]
  · have hmore : ¬ (str ++ (text ++ more)).length < msgSize := by
      rw [← List.append_assoc, List.length_append]
      omega
    simp only [if_neg hfit, if_neg hmore, bind, Except.bind]

/-- Nothing is appended to a text that fits. -/
theorem append_nil (h : str.length < msgSize) : append str [] = .ok str := by
  rw [append, List.append_nil, sprintf, if_pos h]

/-- A bracket is printed over the last character. -/
theorem append_closeArray (c : Char) : (append str (text ++ [c]) >>= closeArray) =
    append str (text ++ [']']) := by
  have hlength : (str ++ (text ++ [']'])).length = (str ++ (text ++ [c])).length := by simp
  have hlast : (str ++ (text ++ [c])).dropLast ++ [']'] = str ++ (text ++ [']']) := by
    rw [← List.append_assoc, List.dropLast_concat, List.append_assoc]
  unfold append sprintf closeArray
  rw [hlength]
  by_cases hfit : (str ++ (text ++ [c])).length < msgSize
  · simp only [if_pos hfit, bind, Except.bind, hlast, sprintf, hlength]
  · simp only [if_neg hfit, bind, Except.bind]

/-- What comes behind an append only matters for texts that fit. -/
theorem append_bind_congr {α : Type} {f g : CStr → Except Fault α}
    (h : ∀ str : CStr, str.length < msgSize → f str = g str) :
    (append str text >>= f) = append str text >>= g := by
  cases happend : append str text with
  | error e => rfl
  | ok r =>
    obtain ⟨hfit, rfl⟩ := sprintf_eq_ok.mp happend
    exact h _ hfit

/-- The loop over the lcores appends the numbers of those in use. -/
theorem lcoreLoop_eq (used : ℕ → Bool) (l : List ℕ) (h : str.length < msgSize) :
    lcoreLoop used l str =
      append str (((l.filter used).map (Nat.toDigits 10)).flatMap (· ++ [','])) := by
  induction l generalizing str with
  | nil => simp [lcoreLoop, append_nil h]
  | cons i rest ih =>
    cases hi : used i with
    | false => simp [lcoreLoop, hi, ih h]
    | true =>
      simp only [lcoreLoop, hi, if_true]
      rw [append_bind_congr fun str hstr => ih hstr, append_append]
      simp [hi]

/-- The lcores in the message; their opening bracket is lost if there are none. -/
def lcoreArray (input : StatusInput) : CStr :=
  "\"lcores\":".toList ++ (if input.lcores = [] then []
    else '[' :: joined (input.lcores.map (Nat.toDigits 10))) ++ [']']

/-- The array of the lcores is appended as a whole. -/
theorem appendLcoreInfoJson_eq (input : StatusInput) :
    appendLcoreInfoJson input str = append str (lcoreArray input) := by
  have hparts : appendLcoreInfoJson input str =
      append str ("\"lcores\":[".toList ++
        (input.lcores.map (Nat.toDigits 10)).flatMap (· ++ [','])) >>= closeArray := by
    rw [← append_append, bind_assoc]
    exact append_bind_congr fun str hstr =>
      congrArg (· >>= closeArray) (lcoreLoop_eq _ _ hstr)
  have hbracket : "\"lcores\":[".toList = "\"lcores\":".toList ++ ['['] := rfl
  rw [hparts, hbracket]
  unfold lcoreArray
  generalize "\"lcores\":".toList = name
  by_cases hnone : input.lcores = []
  · rw [if_pos hnone, hnone, List.map_nil, List.flatMap_nil, List.append_nil, List.append_nil,
      append_closeArray]
  · have hne : input.lcores.map (Nat.toDigits 10) ≠ [] := mt List.map_eq_nil_iff.mp hnone
    rw [if_neg hnone, flatMap_comma hne, ← List.append_assoc, append_closeArray,
      List.append_assoc name ['['], List.singleton_append]

/-- A text between quotation marks. -/
def quoted (text : CStr) : CStr := '"' :: (text ++ ['"'])

/-- An array of texts is closed according to whether it has any. -/
theorem append_close {name : CStr} {texts : List CStr} :
    (append str (name ++ ['['] ++ texts.flatMap (· ++ [','])) >>= fun str =>
      if texts ≠ [] then closeArray str else append str [']']) =
    append str (name ++ ['['] ++ joined texts ++ [']']) := by
  by_cases hnone : texts = []
  · subst hnone
    simp only [ne_eq, not_true, if_false, append_append]
    rfl
  · simp only [ne_eq, hnone, not_false_eq_true, if_true]
    rw [flatMap_comma hnone, ← List.append_assoc, append_closeArray]

variable {b : Build} {s : State}

/-- The entries in use. -/
def State.inUse (b : Build) (s : State) : List ℕ :=
  (List.range b.maxEthports).filter fun i => (s.portsFwdArray i).inPortId ≠ portReset

/-- The loop over the ports appends those in use. -/
theorem portLoop_eq (l : List ℕ) (hasPort : Bool) (h : str.length < msgSize) :
    portLoop s l hasPort str =
      append str (((l.filter fun i => (s.portsFwdArray i).inPortId ≠ portReset).map fun i =>
        quoted (portText (s.portMap i))).flatMap (· ++ [','])) >>= fun str =>
          .ok (str, hasPort ||
            !(l.filter fun i => (s.portsFwdArray i).inPortId ≠ portReset).isEmpty) := by
  induction l generalizing str hasPort with
  | nil => simp [portLoop, append_nil h, bind, Except.bind]
  | cons i rest ih =>
    by_cases hi : (s.portsFwdArray i).inPortId = portReset
    · simp [portLoop, hi, ih hasPort h]
    · have htext : '"' :: portText (s.portMap i) ++ "\",".toList =
          quoted (portText (s.portMap i)) ++ [','] := by
        simp [quoted]
      simp only [portLoop, hi, if_false]
      rw [append_bind_congr fun str hstr => ih true hstr, ← bind_assoc, append_append, htext]
      simp [hi]

/-- The ports in the message. -/
def portArray (b : Build) (s : State) : CStr :=
  "\"ports\":".toList ++ ['['] ++
    joined ((s.inUse b).map fun i => quoted (portText (s.portMap i))) ++ [']']

/-- The array of the ports in use is appended as a whole. -/
theorem appendPortInfoJson_eq : appendPortInfoJson b s str = append str (portArray b s) := by
  have hparts : appendPortInfoJson b s str = (append str "\"ports\":[".toList >>= fun str =>
      append str (((s.inUse b).map fun i => quoted (portText (s.portMap i))).flatMap
        (· ++ [','])) >>= fun str =>
          if (s.inUse b).map (fun i => quoted (portText (s.portMap i))) ≠ [] then closeArray str
          else append str [']']) := by
    unfold appendPortInfoJson
    refine append_bind_congr fun str hstr => ?_
    rw [portLoop_eq _ _ hstr, bind_assoc]
    congr 1
    funext str
    change (if (false || !(s.inUse b).isEmpty) = true then closeArray str
      else append str [']']) = _
    cases s.inUse b <;> simp
  rw [hparts, ← bind_assoc, append_append,
    show "\"ports\":[".toList = "\"ports\":".toList ++ ['['] from rfl]
  exact append_close

/-- The entries in use that have a destination. -/
def State.patchedInUse (b : Build) (s : State) : List ℕ :=
  (s.inUse b).filter fun i => (s.portsFwdArray i).outPortId ≠ portReset

/-- The text of a patch. -/
def patchText (s : State) (i : ℕ) : CStr :=
  "\x7b\"src\":".toList ++ quoted (portText (s.portMap i)) ++ ",\"dst\":".toList ++
    quoted (portText (s.portMap (s.portsFwdArray i).outPortId)) ++ ['\x7d']

/-- The text of a port has at most eighteen characters. -/
theorem length_portText (m : PortMap) : (portText m).length ≤ 18 := by
  have hid : (formatU m.id).length ≤ 10 := by
    refine Nat.toDigits_length 10 _ 10 (by decide) ?_
    have hlt := Int.emod_lt_of_pos m.id (show (0 : ℤ) < 2 ^ 32 by decide)
    omega
  unfold portText
  cases m.portType with
  | undef =>
    show "udf".toList.length ≤ 18
    decide
  | phy | ring | vhost | pcap | nullpmd =>
    simp only [List.length_append]
    simp
    omega

/-- The loop over the patches appends those of the entries in use, if their destinations
are in the table. -/
theorem patchLoop_eq (l : List ℕ) (hasPatch : Bool) (h : str.length < msgSize)
    (hdst : ∀ i ∈ l, (s.portsFwdArray i).outPortId ≠ portReset →
      (s.portsFwdArray i).outPortId < b.maxEthports) :
    patchLoop b s l hasPatch str =
      append str ((((l.filter fun i => (s.portsFwdArray i).inPortId ≠ portReset).filter fun i =>
        (s.portsFwdArray i).outPortId ≠ portReset).map (patchText s)).flatMap (· ++ [','])) >>=
          fun str => .ok (str, hasPatch ||
            !((l.filter fun i => (s.portsFwdArray i).inPortId ≠ portReset).filter fun i =>
              (s.portsFwdArray i).outPortId ≠ portReset).isEmpty) := by
  induction l generalizing str hasPatch with
  | nil => simp [patchLoop, append_nil h, bind, Except.bind]
  | cons i rest ih =>
    have hrest : ∀ i ∈ rest, (s.portsFwdArray i).outPortId ≠ portReset →
        (s.portsFwdArray i).outPortId < b.maxEthports :=
      fun i hi => hdst i (List.mem_cons_of_mem _ hi)
    by_cases hi : (s.portsFwdArray i).inPortId = portReset
    · simp [patchLoop, hi, ih hasPatch h hrest]
    · have hsrc := length_portText (s.portMap i)
      have hfirst : sprintf patchStrSize
          ("\x7b\"src\":\"".toList ++ portText (s.portMap i) ++ "\",\"dst\":".toList) =
          .ok ("\x7b\"src\":\"".toList ++ portText (s.portMap i) ++ "\",\"dst\":".toList) := by
        have hlits : "\x7b\"src\":\"".toList.length = 8 ∧ "\",\"dst\":".toList.length = 8 := by
          decide
        refine if_pos ?_
        simp only [List.length_append]
        unfold patchStrSize
        omega
      by_cases hout : (s.portsFwdArray i).outPortId = portReset
      · have hskip : patchLoop b s (i :: rest) hasPatch str = patchLoop b s rest hasPatch str := by
          simp only [patchLoop, hi, if_false, hfirst, bind, Except.bind, hout, if_true]
        rw [hskip, ih hasPatch h hrest]
        simp [hi, hout]
      · have hlt : ¬ b.maxEthports ≤ (s.portsFwdArray i).outPortId := by
          have hin := hdst i List.mem_cons_self hout
          omega
        have hdst' := length_portText (s.portMap (s.portsFwdArray i).outPortId)
        have htext : "\x7b\"src\":\"".toList ++ portText (s.portMap i) ++ "\",\"dst\":".toList ++
            '"' :: portText (s.portMap (s.portsFwdArray i).outPortId) ++ "\"\x7d,".toList =
              patchText s i ++ [','] := by
          unfold patchText quoted
          generalize portText (s.portMap i) = src
          generalize portText (s.portMap (s.portsFwdArray i).outPortId) = dst
          simp only [List.append_assoc, List.cons_append, List.nil_append]
          rfl
        have hsecond : sprintf patchStrSize (patchText s i ++ [',']) =
            .ok (patchText s i ++ [',']) := by
          have hlits : "\x7b\"src\":".toList.length = 7 ∧ ",\"dst\":".toList.length = 7 := by decide
          have hlength : (patchText s i ++ [',']).length < patchStrSize := by
            unfold patchStrSize patchText quoted
            generalize portText (s.portMap i) = src at hsrc ⊢
            generalize portText (s.portMap (s.portsFwdArray i).outPortId) = dst at hdst' ⊢
            simp only [List.length_append, List.length_cons, List.length_nil]
            omega
          rw [sprintf, if_pos hlength]
        have hnext : patchLoop b s (i :: rest) hasPatch str =
            append str (patchText s i ++ [',']) >>= fun str => patchLoop b s rest true str := by
          simp only [patchLoop, hi, if_false, hfirst, bind, Except.bind, hout, hlt, htext, hsecond]
        rw [hnext, append_bind_congr fun str hstr => ih true hstr hrest, ← bind_assoc,
          append_append]
        simp [hi, hout]

/-- The patches in the message. -/
def patchArray (b : Build) (s : State) : CStr :=
  "\"patches\":".toList ++ ['['] ++ joined ((s.patchedInUse b).map (patchText s)) ++ [']']

/-- The array of the patches is appended as a whole, if their destinations are in the table. -/
theorem appendPatchInfoJson_eq (hdst : ∀ i < b.maxEthports,
      (s.portsFwdArray i).outPortId ≠ portReset → (s.portsFwdArray i).outPortId < b.maxEthports) :
    appendPatchInfoJson b s str = append str (patchArray b s) := by
  have hparts : appendPatchInfoJson b s str =
      (append str "\"patches\":[".toList >>= fun str =>
        append str (((s.patchedInUse b).map (patchText s)).flatMap (· ++ [','])) >>= fun str =>
          if (s.patchedInUse b).map (patchText s) ≠ [] then closeArray str
          else append str [']']) := by
    unfold appendPatchInfoJson
    refine append_bind_congr fun str hstr => ?_
    rw [patchLoop_eq _ _ hstr fun i hi => hdst i (List.mem_range.mp hi), bind_assoc]
    congr 1
    funext str
    change (if (false || !(s.patchedInUse b).isEmpty) = true then closeArray str
      else append str [']']) = _
    cases s.patchedInUse b <;> simp
  rw [hparts, ← bind_assoc, append_append,
    show "\"patches\":[".toList = "\"patches\":".toList ++ ['['] from rfl]
  exact append_close

/-- The status as it is printed, whatever its length. -/
def statusText (b : Build) (s : State) (input : StatusInput) : CStr :=
  "\x7b\"client-id\":".toList ++ Nat.toDigits 10 input.clientId ++ [','] ++ "\"status\":".toList ++
    (quoted (runningStat s) ++ [',']) ++ lcoreArray input ++ ",".toList ++ portArray b s ++
    ",".toList ++ patchArray b s ++ "\x7d".toList

/-- The status is printed iff it fits with both terminators. -/
theorem getSecStatsJson_eq {input : StatusInput} (hdst : ∀ i < b.maxEthports,
      (s.portsFwdArray i).outPortId ≠ portReset → (s.portsFwdArray i).outPortId < b.maxEthports) :
    getSecStatsJson b s input =
      if (statusText b s input).length + 1 < msgSize then .ok (statusText b s input)
      else .error .outOfBounds := by
  have hchain : getSecStatsJson b s input =
      append [] (statusText b s input) >>= fun str => append str [nul] >>= fun _ => .ok str := by
    have hrunning : '"' :: runningStat s ++ "\",".toList = quoted (runningStat s) ++ [','] := by
      unfold quoted
      generalize runningStat s = running
      simp
    have hparts : getSecStatsJson b s input =
        (append [] ("\x7b\"client-id\":".toList ++ Nat.toDigits 10 input.clientId ++ [',']) >>=
          fun str => append str "\"status\":".toList >>=
          fun str => append str (quoted (runningStat s) ++ [',']) >>=
          fun str => append str (lcoreArray input) >>= fun str => append str ",".toList >>=
          fun str => append str (portArray b s) >>= fun str => append str ",".toList >>=
          fun str => append str (patchArray b s) >>= fun str => append str "\x7d".toList >>=
          fun str => append str [nul] >>= fun _ => .ok str) := by
      unfold getSecStatsJson
      simp only [appendLcoreInfoJson_eq, appendPortInfoJson_eq, appendPatchInfoJson_eq hdst,
        hrunning]
      rfl
    rw [hparts]
    repeat rw [← bind_assoc, append_append]
    rfl
  rw [hchain]
  unfold append
  rw [List.nil_append]
  by_cases hfit : (statusText b s input).length + 1 < msgSize
  · have hboth : (statusText b s input ++ [nul]).length < msgSize := by simpa using hfit
    have hone : (statusText b s input).length < msgSize := by omega
    simp only [sprintf, if_pos hone, bind, Except.bind, if_pos hboth, if_pos hfit]
  · have hboth : ¬ (statusText b s input ++ [nul]).length < msgSize := by simpa using hfit
    by_cases hone : (statusText b s input).length < msgSize
    · simp only [sprintf, if_pos hone, bind, Except.bind, if_neg hboth, if_neg hfit]
    · simp only [sprintf, if_neg hone, bind, Except.bind, if_neg hfit]

end Append

section Reading

open Spp.Vf.ReplyText (plain_of_ascii asciiChar asciiChar_of_isDigit)

variable {b : Build} {s : State} {input : StatusInput}

/-- The text of a port is of characters that stand for themselves. -/
theorem plain_portText (m : PortMap) : Plain (portText m) := by
  have hid : (formatU m.id).all asciiChar = true := by
    refine List.all_eq_true.mpr fun c hc => asciiChar_of_isDigit ?_
    exact Nat.isDigit_of_mem_toDigits (by decide) (by decide) hc
  refine plain_of_ascii ?_
  unfold portText
  cases m.portType with
  | undef =>
    show "udf".toList.all asciiChar = true
    decide
  | phy | ring | vhost | pcap | nullpmd =>
    simp only [List.all_append, hid, Bool.and_true]
    decide

/-- The tokens in front of the array of the lcores. -/
def headTokens (s : State) (input : StatusInput) : List Token :=
  [.beginObject, .string "client-id".toList, .nameSeparator, .word (Json.decimal input.clientId),
    .valueSeparator, .string "status".toList, .nameSeparator, .string (runningStat s),
    .valueSeparator, .string "lcores".toList, .nameSeparator]

/-- The tokens behind the array of the lcores. -/
def tailTokens (ports : List CStr) (patches : List (CStr × CStr)) : List Token :=
  .valueSeparator :: (memberTokens [("ports".toList, .array (ports.map .string)),
    ("patches".toList, .array (patches.map patchValue))] ++ [.endObject])

/-- The tokens of a status. -/
theorem statusValue_tokens (ports : List CStr) (patches : List (CStr × CStr)) :
    (statusValue s input ports patches).tokens = headTokens s input ++
      ((Value.array (input.lcores.map fun i : ℕ => .number i)).tokens ++
        tailTokens ports patches) := by
  simp [statusValue, headTokens, tailTokens, Value.tokens, memberTokens]

/-- What is printed in front of the array of the lcores. -/
theorem reads_head {t : CStr} {a : List Token} (h : Reads t a) :
    Reads ("\x7b\"client-id\":".toList ++ Nat.toDigits 10 input.clientId ++ [','] ++
      "\"status\":".toList ++ (quoted (runningStat s) ++ [',']) ++ "\"lcores\":".toList ++ t)
      (headTokens s input ++ a) := by
  have hname : ∀ name : CStr, name.all asciiChar = true → Plain name := fun _ => plain_of_ascii
  have hrunning : Plain (runningStat s) := by
    unfold runningStat
    split_ifs
    · exact hname _ (by decide)
    · exact hname _ (by decide)
  have hlcores := h.cons_colon.cons_string (hname "lcores".toList (by decide))
  have hstatus := (hlcores.cons_comma.cons_string hrunning).cons_colon.cons_string
    (hname "status".toList (by decide))
  have hid := ((reads_number input.clientId).append hstatus.cons_comma
    (ends_cons (by decide) _)).cons_colon.cons_string (hname "client-id".toList (by decide))
  have hopen : Reads ('\x7b' :: _) (.beginObject :: _) :=
    hid.cons_structural (by decide) (by decide)
  have htext : "\x7b\"client-id\":".toList ++ Nat.toDigits 10 input.clientId ++ [','] ++
      "\"status\":".toList ++ (quoted (runningStat s) ++ [',']) ++ "\"lcores\":".toList ++ t =
      '\x7b' :: '"' :: ("client-id".toList ++ '"' :: ':' :: (Json.decimal input.clientId ++
        ',' :: '"' :: ("status".toList ++ '"' :: ':' :: '"' :: (runningStat s ++
          '"' :: ',' :: '"' :: ("lcores".toList ++ '"' :: ':' :: t))))) := by
    rw [decimal_natCast]
    unfold formatNat quoted
    generalize Nat.toDigits 10 input.clientId = id
    generalize runningStat s = running
    simp only [List.append_assoc, List.cons_append, List.nil_append]
    rfl
  rw [htext]
  exact hopen

/-- The array of the ports, as its elements. -/
theorem reads_ports : Reads (joined ((s.inUse b).map fun i => quoted (portText (s.portMap i))))
    (elementTokens (((s.inUse b).map fun i => portText (s.portMap i)).map .string)) := by
  rw [List.map_map]
  exact reads_joined fun i _ => reads_string (plain_portText _)

/-- The texts of the source and the destination of an entry. -/
def State.patchTexts (s : State) (i : ℕ) : CStr × CStr :=
  (portText (s.portMap i), portText (s.portMap (s.portsFwdArray i).outPortId))

/-- The array of the patches, as its elements. -/
theorem reads_patches : Reads (joined ((s.patchedInUse b).map (patchText s)))
    (elementTokens (((s.patchedInUse b).map s.patchTexts).map patchValue)) := by
  have hname : ∀ name : CStr, name.all asciiChar = true → Plain name := fun _ => plain_of_ascii
  rw [List.map_map]
  refine reads_joined fun i _ => ?_
  have hdst := Reads.member (hname "dst".toList (by decide))
    (reads_string (plain_portText (s.portMap (s.portsFwdArray i).outPortId)))
  have hsrc := Reads.member_comma (hname "src".toList (by decide))
    (reads_string (plain_portText (s.portMap i))) hdst
  have htext : patchText s i = '\x7b' :: ('"' :: ("src".toList ++ '"' :: ':' ::
      (('"' :: (portText (s.portMap i) ++ ['"'])) ++ ',' :: '"' :: ("dst".toList ++ '"' :: ':' ::
        ('"' :: (portText (s.portMap (s.portsFwdArray i).outPortId) ++ ['"']))))) ++ ['\x7d']) := by
    unfold patchText quoted
    generalize portText (s.portMap i) = src
    generalize portText (s.portMap (s.portsFwdArray i).outPortId) = dst
    simp only [List.append_assoc, List.cons_append, List.nil_append]
    rfl
  rw [htext]
  exact hsrc.object

/-- What is printed behind the array of the lcores. -/
theorem reads_tail :
    Reads (",".toList ++ portArray b s ++ ",".toList ++ patchArray b s ++ "\x7d".toList)
      (tailTokens ((s.inUse b).map fun i => portText (s.portMap i))
        ((s.patchedInUse b).map s.patchTexts)) := by
  have hname : ∀ name : CStr, name.all asciiChar = true → Plain name := fun _ => plain_of_ascii
  have hend : Reads ['\x7d'] [.endObject] := reads_nil.cons_structural (by decide) (by decide)
  have hpatches := Reads.member (hname "patches".toList (by decide))
    (@reads_patches b s).array
  have hports := Reads.member_comma (hname "ports".toList (by decide))
    (@reads_ports b s).array hpatches
  unfold tailTokens
  convert (hports.append hend (ends_cons (by decide) _)).cons_comma using 1
  unfold portArray patchArray
  generalize joined ((s.inUse b).map fun i => quoted (portText (s.portMap i))) = ports
  generalize joined ((s.patchedInUse b).map (patchText s)) = patches
  simp only [List.append_assoc, List.cons_append, List.nil_append]
  rfl

/-- The printed array of the lcores, without its opening bracket if there are none. -/
theorem reads_lcores {t : CStr} {a : List Token} (h : Reads t a) (hends : Ends t) :
    Reads ((if input.lcores = [] then [] else
      '[' :: joined (input.lcores.map (Nat.toDigits 10))) ++ [']'] ++ t)
      ((if input.lcores = [] then [.endArray] else
        (Value.array (input.lcores.map fun i : ℕ => .number i)).tokens) ++ a) := by
  by_cases hnone : input.lcores = []
  · rw [if_pos hnone, if_pos hnone]
    exact h.cons_structural (by decide) (by decide)
  · have hnumbers : Reads (joined (input.lcores.map (Nat.toDigits 10)))
        (elementTokens (input.lcores.map fun i : ℕ => .number i)) := by
      refine reads_joined fun i _ => ?_
      have hnumber := reads_number i
      rwa [decimal_natCast] at hnumber
    rw [if_neg hnone, if_neg hnone]
    exact hnumbers.array.append h hends

/-- The tokens of the printed status. -/
theorem lex_statusText : lex (statusText b s input) = some (headTokens s input ++
    ((if input.lcores = [] then [.endArray] else
      (Value.array (input.lcores.map fun i : ℕ => .number i)).tokens) ++
        tailTokens ((s.inUse b).map fun i => portText (s.portMap i))
          ((s.patchedInUse b).map s.patchTexts))) := by
  have htail := @reads_tail b s
  have hlcores := @reads_lcores input _ _ htail (ends_cons (by decide) _)
  have hall := @reads_head s input _ _ hlcores
  rw [← hall.lex_eq]
  congr 1
  unfold statusText lcoreArray
  simp only [List.append_assoc]

/-- The tail of a status can be told from its tokens. -/
theorem tailTokens_inj {ports ports' : List CStr} {patches patches' : List (CStr × CStr)}
    (h : tailTokens ports patches = tailTokens ports' patches') :
    ports = ports' ∧ patches = patches' := by
  simp only [tailTokens, memberTokens, Value.tokens, List.cons_append, List.append_assoc,
    List.nil_append, List.cons.injEq, true_and] at h
  have hstring : ∀ (t t' : CStr) (r r' : List Token),
      (Value.string t).tokens ++ r = (Value.string t').tokens ++ r' → t = t' ∧ r = r' := by
    intro t t' r r' heq
    simpa [Value.tokens] using heq
  have hpatch : ∀ (p p' : CStr × CStr) (r r' : List Token),
      (patchValue p).tokens ++ r = (patchValue p').tokens ++ r' → p = p' ∧ r = r' := by
    intro p p' r r' heq
    simpa [patchValue, Value.tokens, memberTokens, Prod.ext_iff, and_assoc] using heq
  obtain ⟨hports, hrest⟩ := elementTokens_inj hstring
    (fun t => ⟨.string t, [], by rw [Value.tokens], nofun⟩) h
  simp only [List.cons.injEq, true_and] at hrest
  obtain ⟨hpatches, -⟩ := elementTokens_inj hpatch
    (fun p => ⟨.beginObject, _, by rw [patchValue, Value.tokens], nofun⟩) hrest
  exact ⟨hports, hpatches⟩

/-- The printed status says what is to be said iff there are lcores, and the ports and
patches it names are those. -/
theorem isText_statusText_iff {ports : List CStr} {patches : List (CStr × CStr)} :
    IsText (statusText b s input) (statusValue s input ports patches) ↔
      input.lcores ≠ [] ∧ ((s.inUse b).map fun i => portText (s.portMap i)) = ports ∧
        (s.patchedInUse b).map s.patchTexts = patches := by
  rw [IsText, lex_statusText, statusValue_tokens, Option.some.injEq, List.append_cancel_left_eq]
  by_cases hnone : input.lcores = []
  · rw [if_pos hnone]
    refine iff_of_false ?_ fun h => h.1 hnone
    intro h
    rw [Value.tokens] at h
    cases h
  · rw [if_neg hnone, List.append_cancel_left_eq]
    constructor
    · exact fun h => ⟨hnone, tailTokens_inj h⟩
    · rintro ⟨-, rfl, rfl⟩
      rfl

end Reading

section Names

/-- A port is named by its type and id iff it has a type and its id is not negative, which
`%u` would print as another number. -/
theorem portText_eq_name {m : PortMap} (hid : m.id < 2 ^ 32) :
    portText m = m.name ↔ m.portType ≠ .undef ∧ 0 ≤ m.id := by
  have hu : formatU m.id = Json.decimal m.id ↔ 0 ≤ m.id := by
    unfold formatU Json.decimal
    constructor
    · intro h
      by_contra hneg
      rw [if_pos (by omega)] at h
      have hdigit := Nat.isDigit_of_mem_toDigits (b := 10) (by decide) (by decide)
        (h ▸ List.mem_cons_self)
      exact absurd hdigit (by decide)
    · intro h
      have habs : m.id.toNat = m.id.natAbs := by omega
      rw [if_neg (by omega), Int.emod_eq_of_lt h hid, habs]
  have hword : ∀ (type : PortType) (word colon : CStr), type ≠ .undef → colon = word ++ [':'] →
      (colon ++ formatU m.id = word ++ ':' :: Json.decimal m.id ↔ type ≠ .undef ∧ 0 ≤ m.id) := by
    rintro type word _ htype rfl
    rw [List.append_assoc, List.append_cancel_left_eq, List.singleton_append, List.cons.injEq,
      and_iff_right rfl, and_iff_right htype, hu]
  unfold portText PortMap.name typeWord
  cases m.portType with
  | undef =>
    refine iff_of_false (fun h => ?_) fun h => h.1 rfl
    exact absurd (List.cons.inj h).1 (by decide)
  | phy => exact hword _ "phy".toList "phy:".toList (by decide) rfl
  | ring => exact hword _ "ring".toList "ring:".toList (by decide) rfl
  | vhost => exact hword _ "vhost".toList "vhost:".toList (by decide) rfl
  | pcap => exact hword _ "pcap".toList "pcap:".toList (by decide) rfl
  | nullpmd => exact hword _ "nullpmd".toList "nullpmd:".toList (by decide) rfl

end Names

section Tables

variable {b : Build} {s t : State}

/-- What every command leaves of the tables, whatever resource UIDs it was given. -/
structure Listed (b : Build) (s : State) : Prop where
  /-- A port with a type is in use. -/
  used : ∀ i < b.maxEthports, (s.portMap i).portType ≠ .undef →
    (s.portsFwdArray i).inPortId ≠ portReset
  /-- A patch leads from a port that is in use to an entry of the table. -/
  patched : ∀ i < b.maxEthports, (s.portsFwdArray i).outPortId ≠ portReset →
    (s.portsFwdArray i).inPortId ≠ portReset ∧ (s.portsFwdArray i).outPortId < b.maxEthports
  /-- An id is a number of 32 bits. -/
  id_lt : ∀ i < b.maxEthports, (s.portMap i).id < 2 ^ 32

/-- It is about the tables only. -/
theorem Listed.congr (hs : Listed b s) (hports : t.portsFwdArray = s.portsFwdArray)
    (hmap : t.portMap = s.portMap) : Listed b t := by
  constructor
  · rw [hports, hmap]
    exact hs.used
  · rw [hports]
    exact hs.patched
  · rw [hmap]
    exact hs.id_lt

/-- The tables after start-up. -/
theorem listed_started (phys : PhysicalPorts b) : Listed b (started phys) := by
  have hlt := b.lt_reset
  constructor
  · intro i hi htype
    rw [(started_eq phys i hi).2] at htype
    rw [(started_eq phys i hi).1]
    by_cases hphys : i ∈ registeredPhys phys
    · rw [if_pos hphys]
      dsimp only
      omega
    · rw [if_neg hphys] at htype
      exact absurd rfl htype
  · intro i hi hout
    rw [(started_eq phys i hi).1] at hout
    exact absurd rfl hout
  · intro i hi
    rw [(started_eq phys i hi).2]
    by_cases hphys : i ∈ registeredPhys phys
    · rw [if_pos hphys]
      dsimp only
      unfold portReset at hlt
      omega
    · rw [if_neg hphys]
      show (portReset : ℤ) < 2 ^ 32
      decide

/-- A port is entered. -/
theorem Listed.registered (hs : Listed b s) {k : ℕ} {id : ℤ} {type : PortType}
    (hk : k < b.maxEthports) (hid : id < 2 ^ 32) : Listed b (s.registered k id type) := by
  have hlt := b.lt_reset
  have hin : ∀ i, ((s.registered k id type).portsFwdArray i).inPortId =
      if i = k then k else (s.portsFwdArray i).inPortId := by
    intro i
    by_cases hi : i = k
    · subst hi
      simp [State.registered]
    · simp [State.registered, hi]
  have hout : ∀ i, ((s.registered k id type).portsFwdArray i).outPortId =
      (s.portsFwdArray i).outPortId := by
    intro i
    by_cases hi : i = k
    · subst hi
      simp [State.registered]
    · simp [State.registered, hi]
  constructor
  · intro i hi htype
    rw [hin]
    by_cases hik : i = k
    · rw [if_pos hik]
      omega
    · rw [if_neg hik]
      simp only [State.registered, Function.update_of_ne hik] at htype
      exact hs.used i hi htype
  · intro i hi hne
    rw [hout] at hne ⊢
    obtain ⟨huse, hdst⟩ := hs.patched i hi hne
    refine ⟨?_, hdst⟩
    rw [hin]
    by_cases hik : i = k
    · rw [if_pos hik]
      omega
    · rwa [if_neg hik]
  · intro i hi
    by_cases hik : i = k
    · subst hik
      simpa [State.registered] using hid
    · simp only [State.registered, Function.update_of_ne hik]
      exact hs.id_lt i hi

/-- A port is removed. -/
theorem Listed.removed (hs : Listed b s) (k : ℕ) : Listed b (s.removed b k) := by
  constructor
  · intro i hi htype
    by_cases hik : i = k
    · subst hik
      simp [State.removed] at htype
    · simp only [State.removed, Function.update_of_ne hik] at htype
      simp only [State.removed, if_neg hik]
      exact hs.used i hi htype
  · intro i hi hne
    by_cases hcut : i = k ∨ some i = (sources b s k).head?
    · simp only [State.removed, if_pos hcut] at hne
      exact absurd rfl hne
    · simp only [State.removed, if_neg hcut] at hne ⊢
      rw [if_neg fun h => hcut (.inl h)]
      exact hs.patched i hi hne
  · intro i hi
    by_cases hik : i = k
    · subst hik
      simp [State.removed, portReset]
    · simp only [State.removed, Function.update_of_ne hik]
      exact hs.id_lt i hi

/-- All patches are taken back. -/
theorem Listed.unpatched (hs : Listed b s) : Listed b (s.unpatched b) := by
  have hin : ∀ i, ((s.unpatched b).portsFwdArray i).inPortId = (s.portsFwdArray i).inPortId := by
    intro i
    unfold State.unpatched
    dsimp only
    split <;> rfl
  constructor
  · intro i hi htype
    rw [hin]
    exact hs.used i hi htype
  · intro i hi hne
    rw [hin]
    by_cases huse : (s.portsFwdArray i).inPortId ≠ portReset
    · simp [State.unpatched, hi, huse] at hne
    · have hne' : (s.portsFwdArray i).outPortId ≠ portReset := by
        simpa [State.unpatched, huse] using hne
      exact absurd (hs.patched i hi hne').1 huse
  · exact hs.id_lt

/-- Two entries are patched. -/
theorem Listed.patchedTo (hs : Listed b s) {i o : ℕ} (hi : i < b.maxEthports)
    (ho : o < b.maxEthports) : Listed b (s.patchedTo i o) := by
  have hlt := b.lt_reset
  constructor
  · intro k hk htype
    simp only [State.patchedTo]
    split_ifs
    · omega
    · exact hs.used k hk htype
  · intro k hk hne
    simp only [State.patchedTo] at hne ⊢
    by_cases hki : k = i
    · rw [if_pos (.inl hki), if_pos hki]
      exact ⟨by omega, ho⟩
    · rw [if_neg hki] at hne ⊢
      obtain ⟨huse, hdst⟩ := hs.patched k hk hne
      refine ⟨?_, hdst⟩
      split_ifs
      · omega
      · exact huse
  · exact hs.id_lt

/-- A device has a port id within the tables. -/
theorem Pmd.Allowed.lt {pmd : Pmd} {type : PortType} {id : ℤ} (h : pmd.Allowed b s type id)
    {k : ℕ} (hk : pmd.portId = some k) : k < b.maxEthports := by
  cases pmd with
  | failed => cases hk
  | attached k' =>
    cases hk
    exact h.1
  | found k' started =>
    cases hk
    exact h.1

/-- The id of a resource UID is an `int`. -/
theorem parseResourceUid_id_lt {text : CStr} {uid : ResourceUid}
    (h : parseResourceUid text = .ok (some uid)) : uid.portId < 2 ^ 32 := by
  have hzero : (0 : ℤ) < 2 ^ 32 := by decide
  have hint : ∀ v, toInt v < 2 ^ 32 := by
    intro v
    have hlt := Int.bmod_lt (x := v) (show 0 < 2 ^ 32 by decide)
    unfold toInt
    omega
  unfold parseResourceUid at h
  split at h
  · cases h
  · split at h
    · split at h
      · cases h
        exact hzero
      · cases h
        exact hint _
    · cases h

/-- `add`, which may enter a port without a type under port id zero. -/
theorem Listed.doAdd {pmd : Pmd} {resUid : CStr} {stores : List Store} (hs : Listed b s)
    (hpmd : ∀ uid type, parseResourceUid resUid = .ok (some uid) → uid.valid = true →
      resourceType uid.portType = some type → pmd.Allowed b s type uid.portId)
    (h : doAdd pmd resUid = .ok stores) : Listed b (applyAll s stores) := by
  obtain ⟨parsed, hparse, h⟩ := bind_eq_ok.mp h
  cases parsed with
  | none =>
    obtain rfl := Except.ok.inj h
    exact hs
  | some uid =>
    have hid := parseResourceUid_id_lt hparse
    cases hvalid : uid.valid with
    | false =>
      simp only [hvalid] at h
      obtain rfl := Except.ok.inj h
      exact hs
    | true =>
      cases htype : resourceType uid.portType with
      | none =>
        simp only [hvalid, htype] at h
        obtain rfl := Except.ok.inj h
        rw [registerPort_state]
        exact hs.registered b.pos hid
      | some type =>
        cases hk : pmd.portId with
        | none =>
          simp only [hvalid, htype, hk] at h
          obtain rfl := Except.ok.inj h
          exact hs
        | some k =>
          simp only [hvalid, htype, hk] at h
          obtain rfl := Except.ok.inj h
          obtain ⟨hports, hmap⟩ := pmd_tables (s := s) pmd type uid.portId
          rw [applyAll_append, registerPort_state]
          exact (hs.congr hports hmap).registered
            (Pmd.Allowed.lt (hpmd uid type hparse hvalid htype) hk) hid

/-- `del`. -/
theorem Listed.doDel {detached : Bool} {resUid : CStr} {stores : List Store} (hs : Listed b s)
    (h : doDel b s detached resUid = .ok stores) : Listed b (applyAll s stores) := by
  obtain ⟨parsed, hparse, h⟩ := bind_eq_ok.mp h
  cases parsed with
  | none =>
    obtain rfl := Except.ok.inj h
    exact hs
  | some uid =>
    cases hvalid : uid.valid with
    | false =>
      simp only [hvalid] at h
      obtain rfl := Except.ok.inj h
      exact hs
    | true =>
      cases htype : resourceType uid.portType with
      | none =>
        simp only [hvalid, htype] at h
        rw [(removePort_state h).2]
        exact hs.removed portReset
      | some type =>
        simp only [hvalid, htype, Bool.not_true, Bool.false_eq_true, if_false] at h
        by_cases hk : findPortId b s uid.portId type = portReset
        · rw [if_pos hk] at h
          obtain rfl := Except.ok.inj h
          exact hs
        · rw [if_neg hk] at h
          obtain ⟨removed, hremove, h⟩ := bind_eq_ok.mp h
          obtain rfl := Except.ok.inj h
          obtain ⟨hports, hmap⟩ := releaseDevice_tables (s := s) type
            (findPortId b s uid.portId type) detached
          rw [applyAll_append, (removePort_state hremove).2]
          exact (hs.congr hports hmap).removed _

/-- `patch`. -/
theorem Listed.patchPorts {src dst : CStr} {stores : List Store} (hs : Listed b s)
    (h : patchPorts b s src dst = .ok stores) : Listed b (applyAll s stores) := by
  obtain ⟨inUid, -, h⟩ := bind_eq_ok.mp h
  obtain ⟨outUid, -, h⟩ := bind_eq_ok.mp h
  have hin := findPortId_spec b s inUid.portId (getPortType inUid.portType)
  have hout := findPortId_spec b s outUid.portId (getPortType outUid.portType)
  dsimp only at h
  split at h
  · cases h
  · obtain ⟨patch, hpatch, h⟩ := bind_eq_ok.mp h
    obtain rfl := Except.ok.inj h
    rw [addPatch_eq (hin.imp_right And.left) (hout.imp_right And.left)] at hpatch
    obtain rfl := Except.ok.inj hpatch
    split
    · rename_i hvalid
      rw [Option.getD_some, addPatch_state]
      exact hs.patchedTo hvalid.1.1 hvalid.2.1
    · exact hs

/-- One command. -/
theorem Listed.step {i : Input} (hs : Listed b s) (hallowed : i.Allowed b s)
    (hstep : step b i s = some t) : Listed b t := by
  obtain ⟨stores, hstores, rfl⟩ : ∃ stores,
      parseCommand b s i.pmd i.detached i.command = .ok stores ∧ applyAll s stores = t := by
    unfold Nfv.step at hstep
    cases hparse : parseCommand b s i.pmd i.detached i.command with
    | error e =>
      rw [hparse] at hstep
      cases hstep
    | ok stores =>
      rw [hparse] at hstep
      exact ⟨stores, rfl, Option.some.inj hstep⟩
  obtain ⟨command, hcommand, hrun⟩ := bind_eq_ok.mp hstores
  have hadd : ∀ resUid, command = .add resUid → ∀ uid type,
      parseResourceUid resUid = .ok (some uid) → uid.valid = true →
      resourceType uid.portType = some type → i.pmd.Allowed b s type uid.portId := by
    rintro resUid rfl uid type hparse hvalid htype
    apply hallowed type uid.portId
    simp [requested, hcommand, hparse, hvalid, htype]
  cases command with
  | other =>
    obtain rfl := Except.ok.inj hrun
    exact hs
  | stop | forward =>
    obtain rfl := Except.ok.inj hrun
    exact hs.congr rfl rfl
  | add resUid => exact hs.doAdd (hadd resUid rfl) hrun
  | reset =>
    obtain rfl := Except.ok.inj hrun
    rw [forwardArrayReset_state]
    exact hs.unpatched
  | patch src dst => exact hs.patchPorts hrun
  | del resUid =>
    obtain ⟨stores, hdel, hrun⟩ := bind_eq_ok.mp hrun
    obtain rfl := Except.ok.inj hrun
    have hstop : Listed b { s with cmd := .stop } := hs.congr rfl rfl
    exact hstop.doDel hdel

end Tables

section Condition

variable (b : Build) (s : State) (input : StatusInput)

/-- The length of the status: its fixed texts, and with their commas the lcores, the ports
that have been added and the patches. -/
def statusSize : ℕ :=
  62 + (Nat.toDigits 10 input.clientId).length + (runningStat s).length +
    ((input.lcores.map fun i => (Nat.toDigits 10 i).length + 1).sum - 1) +
    (((s.added b).map fun i => (s.portMap i).name.length + 3).sum - 1) +
    (((s.patches b).map fun i =>
      (s.patchNames i).1.length + (s.patchNames i).2.length + 20).sum - 1)

/-- The condition on a state and the lcores in use. -/
structure Showable : Prop where
  /-- An lcore is in use. -/
  lcores : input.lcores ≠ []
  /-- Each port in use has a type. -/
  typed : ∀ i < b.maxEthports, (s.portsFwdArray i).inPortId ≠ portReset →
    (s.portMap i).portType ≠ (.undef)
  /-- No port has a negative id. -/
  ids : ∀ i < b.maxEthports, (s.portMap i).portType ≠ .undef → 0 ≤ (s.portMap i).id
  /-- No patch leads to a port that has been deleted. -/
  targets : ∀ i < b.maxEthports, (s.portsFwdArray i).outPortId ≠ portReset →
    (s.portMap (s.portsFwdArray i).outPortId).portType ≠ (.undef)
  /-- The status and its two terminators have room. -/
  size : statusSize b s input + 1 < msgSize

end Condition

section Exact

variable {b : Build} {s : State} {input : StatusInput}

/-- The patches that are printed are those of all entries with a destination. -/
theorem Listed.patchedInUse (hs : Listed b s) : s.patchedInUse b = s.patches b := by
  unfold State.patchedInUse State.inUse State.patches
  rw [List.filter_filter]
  refine List.filter_congr fun i hi => ?_
  by_cases hout : (s.portsFwdArray i).outPortId = portReset
  · simp [hout]
  · simp [hout, (hs.patched i (List.mem_range.mp hi) hout).1]

/-- The ports that have been added are among those in use. -/
theorem Listed.added (hs : Listed b s) :
    s.added b = (s.inUse b).filter fun i => (s.portMap i).portType ≠ (.undef) := by
  unfold State.added State.inUse
  rw [List.filter_filter]
  refine List.filter_congr fun i hi => ?_
  by_cases htype : (s.portMap i).portType = (.undef)
  · simp [htype]
  · simp [htype, hs.used i (List.mem_range.mp hi) htype]

/-- The printed ports are those that have been added iff all of them have a type and no id
is negative. -/
theorem Listed.ports_iff (hs : Listed b s) :
    ((s.inUse b).map fun i => portText (s.portMap i)) = ((s.added b).map fun i =>
      (s.portMap i).name) ↔
    (∀ i < b.maxEthports, (s.portsFwdArray i).inPortId ≠ portReset →
      (s.portMap i).portType ≠ .undef) ∧
    ∀ i < b.maxEthports, (s.portMap i).portType ≠ .undef → 0 ≤ (s.portMap i).id := by
  have hmem : ∀ i, i ∈ s.inUse b ↔ i < b.maxEthports ∧
      (s.portsFwdArray i).inPortId ≠ portReset := by
    intro i
    simp [State.inUse]
  constructor
  · intro h
    have hlength : (s.added b).length = (s.inUse b).length := by
      have hboth := congrArg List.length h
      rw [List.length_map, List.length_map] at hboth
      exact hboth.symm
    rw [hs.added, List.length_filter_eq_length_iff] at hlength
    have htyped : ∀ i < b.maxEthports, (s.portsFwdArray i).inPortId ≠ portReset →
        (s.portMap i).portType ≠ .undef := by
      intro i hi huse
      simpa using hlength i ((hmem i).mpr ⟨hi, huse⟩)
    refine ⟨htyped, fun i hi htype => ?_⟩
    rw [hs.added, List.filter_eq_self.mpr hlength, List.map_inj_left] at h
    have hname := h i ((hmem i).mpr ⟨hi, hs.used i hi htype⟩)
    exact ((portText_eq_name (hs.id_lt i hi)).mp hname).2
  · rintro ⟨htyped, hids⟩
    have hall : ∀ i ∈ s.inUse b, decide ((s.portMap i).portType ≠ .undef) = true := by
      intro i hi
      obtain ⟨hlt, huse⟩ := (hmem i).mp hi
      exact decide_eq_true (htyped i hlt huse)
    rw [hs.added, List.filter_eq_self.mpr hall, List.map_inj_left]
    intro i hi
    obtain ⟨hlt, huse⟩ := (hmem i).mp hi
    have htype := htyped i hlt huse
    exact (portText_eq_name (hs.id_lt i hlt)).mpr ⟨htype, hids i hlt htype⟩

/-- Where the ports are printed right, the patches are iff each leads to a port that has
been added. -/
theorem Listed.patches_iff (hs : Listed b s)
    (htyped : ∀ i < b.maxEthports, (s.portsFwdArray i).inPortId ≠ portReset →
      (s.portMap i).portType ≠ .undef)
    (hids : ∀ i < b.maxEthports, (s.portMap i).portType ≠ .undef → 0 ≤ (s.portMap i).id) :
    (s.patchedInUse b).map s.patchTexts = (s.patches b).map s.patchNames ↔
      ∀ i < b.maxEthports, (s.portsFwdArray i).outPortId ≠ portReset →
        (s.portMap (s.portsFwdArray i).outPortId).portType ≠ .undef := by
  have hname : ∀ i < b.maxEthports,
      portText (s.portMap i) = (s.portMap i).name ↔ (s.portMap i).portType ≠ .undef := by
    intro i hi
    rw [portText_eq_name (hs.id_lt i hi)]
    exact and_iff_left_of_imp (hids i hi)
  rw [hs.patchedInUse, List.map_inj_left]
  refine forall_congr' fun i => ?_
  have hmem : i ∈ s.patches b ↔ i < b.maxEthports ∧
      (s.portsFwdArray i).outPortId ≠ portReset := by
    simp [State.patches]
  rw [hmem, and_imp]
  refine forall_congr' fun hi => forall_congr' fun hout => ?_
  obtain ⟨huse, hdst⟩ := hs.patched i hi hout
  rw [State.patchTexts, State.patchNames, Prod.mk.injEq, hname i hi, hname _ hdst]
  exact and_iff_right (htyped i hi huse)

/-- The length of texts with commas between them. -/
theorem length_joined (texts : List CStr) :
    (joined texts).length = (texts.map fun text => text.length + 1).sum - 1 := by
  induction texts with
  | nil => rfl
  | cons text texts ih =>
    by_cases hnil : texts = []
    · subst hnil
      simp [joined]
    · have hpos : 0 < (texts.map fun text => text.length + 1).sum := by
        cases texts with
        | nil => exact absurd rfl hnil
        | cons next texts =>
          rw [List.map_cons, List.sum_cons]
          omega
      rw [joined_cons hnil, List.length_append, List.length_cons, ih, List.map_cons, List.sum_cons]
      omega

/-- A status that names its ports and patches right has the length of the condition. -/
theorem length_statusText (hlcores : input.lcores ≠ [])
    (hports : ((s.inUse b).map fun i => portText (s.portMap i)) =
      (s.added b).map fun i => (s.portMap i).name)
    (hpatches : (s.patchedInUse b).map s.patchTexts = (s.patches b).map s.patchNames) :
    (statusText b s input).length = statusSize b s input := by
  have hlcoreArray : (lcoreArray input).length =
      11 + ((input.lcores.map fun i => (Nat.toDigits 10 i).length + 1).sum - 1) := by
    have hlit : "\"lcores\":".toList.length = 9 := by decide
    unfold lcoreArray
    rw [if_neg hlcores]
    simp only [List.length_append, List.length_cons, List.length_nil, length_joined, List.map_map,
      Function.comp_def, hlit]
    omega
  have hportArray : (portArray b s).length =
      10 + (((s.added b).map fun i => (s.portMap i).name.length + 3).sum - 1) := by
    have hlit : "\"ports\":".toList.length = 8 := by decide
    have htexts : ((s.inUse b).map fun i => quoted (portText (s.portMap i))) =
        (s.added b).map fun i => quoted (s.portMap i).name := by
      have hquoted := congrArg (List.map quoted) hports
      rwa [List.map_map, List.map_map] at hquoted
    unfold portArray
    rw [htexts]
    simp only [List.length_append, List.length_cons, List.length_nil, length_joined, List.map_map,
      Function.comp_def, hlit, quoted, zero_add, Nat.add_assoc, Nat.reduceAdd]
    omega
  have hpatchArray : (patchArray b s).length = 12 + (((s.patches b).map fun i =>
      (s.patchNames i).1.length + (s.patchNames i).2.length + 20).sum - 1) := by
    have hlit : "\"patches\":".toList.length = 10 := by decide
    have hlits : "\x7b\"src\":".toList.length = 7 ∧ ",\"dst\":".toList.length = 7 := by decide
    have hlengths : ((s.patchedInUse b).map fun i => (patchText s i).length + 1) =
        (s.patches b).map fun i => (s.patchNames i).1.length + (s.patchNames i).2.length + 20 := by
      have hsum := congrArg (List.map fun p : CStr × CStr => p.1.length + p.2.length + 20) hpatches
      rw [List.map_map, List.map_map] at hsum
      refine Eq.trans (List.map_congr_left fun i _ => ?_) hsum
      unfold patchText quoted State.patchTexts
      simp only [List.length_append, List.length_cons, List.length_nil, Function.comp_apply]
      omega
    unfold patchArray
    simp only [List.length_append, List.length_cons, List.length_nil, length_joined, List.map_map,
      Function.comp_def, hlit, hlengths]
    omega
  have hlits : "\x7b\"client-id\":".toList.length = 13 ∧ "\"status\":".toList.length = 9 ∧
      ",".toList.length = 1 ∧ "\x7d".toList.length = 1 := by decide
  unfold statusText statusSize quoted
  simp only [List.length_append, List.length_cons, List.length_nil, hlcoreArray, hportArray,
    hpatchArray]
  omega

/-- The reply of a state whose tables are as the commands leave them. -/
theorem Listed.replied_iff (hs : Listed b s) :
    StatusReplied b s input ↔ Showable b s input := by
  have hdst : ∀ i < b.maxEthports, (s.portsFwdArray i).outPortId ≠ portReset →
      (s.portsFwdArray i).outPortId < b.maxEthports := fun i hi hout => (hs.patched i hi hout).2
  unfold StatusReplied
  rw [getSecStatsJson_eq hdst]
  constructor
  · rintro ⟨text, hok, htext⟩
    by_cases hfit : (statusText b s input).length + 1 < msgSize
    · rw [if_pos hfit] at hok
      obtain rfl := Except.ok.inj hok
      obtain ⟨hlcores, hports, hpatches⟩ := isText_statusText_iff.mp htext
      obtain ⟨htyped, hids⟩ := hs.ports_iff.mp hports
      have htargets := (hs.patches_iff htyped hids).mp hpatches
      rw [length_statusText hlcores hports hpatches] at hfit
      exact ⟨hlcores, htyped, hids, htargets, hfit⟩
    · rw [if_neg hfit] at hok
      cases hok
  · rintro ⟨hlcores, htyped, hids, htargets, hsize⟩
    have hports := hs.ports_iff.mpr ⟨htyped, hids⟩
    have hpatches := (hs.patches_iff htyped hids).mpr htargets
    rw [← length_statusText hlcores hports hpatches] at hsize
    exact ⟨_, if_pos hsize, isText_statusText_iff.mpr ⟨hlcores, hports, hpatches⟩⟩

end Exact

section Runs

variable {b : Build} {input : StatusInput}

/-- The tables of every reachable state. -/
theorem listed_of_reaches {phys : PhysicalPorts b} {s : State}
    (h : Reaches (step b) (fun i s => i.Allowed b s) (started phys) s) : Listed b s := by
  apply Reaches.invariant h (listed_started phys)
  intro i u v hu hallowed hstep
  exact hu.step hallowed hstep

/-- In every state that the commands lead to, the status is printed within the message and
says which ports there are and which are patched to which iff the state is showable. -/
theorem statusReplied_exactly {phys : PhysicalPorts b} {s : State}
    (h : Reaches (step b) (fun i s => i.Allowed b s) (started phys) s) :
    StatusReplied b s input ↔ Showable b s input :=
  (listed_of_reaches h).replied_iff

/-- The client with id 1 on the first lcore. -/
def oneLcore : StatusInput where
  clientId := 1
  maxLcore := 1
  lcoreIdUsed := fun _ => true

/-- The status of two physical ports before the first command. -/
theorem statusReplied_twoPhys : StatusReplied .default (started twoPhys) oneLcore :=
  (statusReplied_exactly .refl).mpr
    ⟨by decide, by decide +kernel, by decide +kernel, by decide +kernel, by decide +kernel⟩

/-- After `sharedRingRun` a patch leads to a ring that has been deleted, and the status names
it `udf`. -/
theorem not_statusReplied_sharedRing :
    ∃ s, Reaches (step .default) (fun i s => i.Allowed .default s) (started twoPhys) s ∧
      ¬ StatusReplied .default s oneLcore := by
  have hrun : ∃ s, runAll (tested (step .default) fun i s => i.allowed .default s) sharedRingRun
      (started twoPhys) = some s ∧ (s.portsFwdArray 1).outPortId = 2 ∧
        (s.portMap 2).portType = (.undef) :=
    exists_of_runAll (by decide +kernel)
  obtain ⟨s, hs, hout, htype⟩ := hrun
  have hreaches := reaches_of_runAll_tested hs fun i _ t htest => Input.allowed_sound htest
  refine ⟨s, hreaches, fun hreplied => ?_⟩
  have hshown := (listed_of_reaches hreaches).replied_iff.mp hreplied
  have htarget := hshown.targets 1 (by decide) (by rw [hout]; decide)
  rw [hout] at htarget
  exact htarget htype

end Runs

end Spp.Nfv
