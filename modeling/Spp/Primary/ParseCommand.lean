import Mathlib.Data.List.TakeWhile
import Spp.Lib.CString

/-!
# The commands of spp_primary

`parse_command` of `spp_primary`: the message that `do_receive` has put into a
buffer of zeros is cut into tokens, and for a launch the tokens after the process
name become the arguments of the secondary.
-/

namespace Spp.Primary

open CLib

/-- `MSG_SIZE`. -/
def msgSize : ℕ := 2048

/-- `MAX_PARAMETER`, the length of `token_list`. -/
def maxParameter : ℕ := 48

/-- The length of `sec_name`. -/
def secNameSize : ℕ := 16

/-- A command of spp-ctl. The ID of a launch is the token that `strtod` reads. -/
inductive Command
  | status
  | launch (secName secId : CStr) (secArgs : List CStr)
  | exit
  | clear
  | unknown
  deriving DecidableEq

/-- `parse_command` on the characters of a message; `none` is an access outside of a
buffer or to a token that is not there. `recv` takes the first `MSG_SIZE` characters,
and `token_list` has a place for the null pointer after the last token. -/
def parseCommand (message : List Char) : Option Command :=
  let str := message.take msgSize
  if nul ∉ str ∧ msgSize ≤ message.length then none
  else
    let tokenList := strtok ' ' (stringAt str)
    if maxParameter ≤ tokenList.length then none
    else if secNameSize ≤ (tokenList.getD 2 []).length then none
    else
      match tokenList with
      | [] => none
      | token :: rest =>
        if token = "status".toList then some .status
        else if token = "launch".toList then
          rest.head?.map fun secId => .launch (rest.getD 1 []) secId (rest.drop 2)
        else if token = "exit".toList then some .exit
        else if token = "clear".toList then some .clear
        else some .unknown

variable {message : List Char}

/-- A message without a terminator of its own that fits is tokenised as a whole. -/
theorem stringAt_take (hnul : nul ∉ message) (hlt : message.length < msgSize) :
    stringAt (message.take msgSize) = message := by
  rw [List.take_of_length_le (by omega), stringAt, List.takeWhile_eq_self_iff]
  intro c hc
  simpa using fun heq : c = nul => hnul (heq ▸ hc)

/-- A launch is carried out exactly if it fits: its message, its number of tokens and
its process name. -/
theorem parseCommand_launch_iff {secId secName : CStr} {secArgs args : List CStr} {name id : CStr}
    (hnul : nul ∉ message)
    (htokens : strtok ' ' message = "launch".toList :: secId :: secName :: secArgs) :
    parseCommand message = some (.launch name id args) ↔
      (message.length < msgSize ∧ secArgs.length + 3 < maxParameter ∧
        secName.length < secNameSize) ∧
        secName = name ∧ secId = id ∧ secArgs = args := by
  have hstr : nul ∉ message.take msgSize := fun h => hnul (List.mem_of_mem_take h)
  by_cases hlt : message.length < msgSize
  · have hshort : ¬ (nul ∉ message.take msgSize ∧ msgSize ≤ message.length) := by omega
    have hlaunch : "launch".toList ≠ "status".toList := by decide
    simp only [parseCommand, if_neg hshort, stringAt_take hnul hlt, htokens, List.length_cons,
      List.getD_cons_succ, List.getD_cons_zero, List.head?_cons, Option.map_some,
      List.drop_succ_cons, List.drop_zero, if_neg hlaunch, if_true]
    by_cases hcount : maxParameter ≤ secArgs.length + 3
    · simp only [if_pos hcount, reduceCtorEq, false_iff]
      rintro ⟨⟨-, hfits, -⟩, -⟩
      omega
    by_cases hname : secNameSize ≤ secName.length
    · simp only [if_neg hcount, if_pos hname, reduceCtorEq, false_iff]
      rintro ⟨⟨-, -, hfits⟩, -⟩
      omega
    · simp only [if_neg hcount, if_neg hname, Option.some.injEq, Command.launch.injEq]
      constructor
      · intro heq
        exact ⟨⟨hlt, by omega, by omega⟩, heq⟩
      · exact fun h => h.2
  · have hlong : nul ∉ message.take msgSize ∧ msgSize ≤ message.length := ⟨hstr, by omega⟩
    simp [parseCommand, hlong, hlt]

/-- No token contains the terminator. -/
theorem nul_notMem_secArgs {name id : CStr} {args : List CStr}
    (h : parseCommand message = some (.launch name id args)) : ∀ t ∈ args, nul ∉ t := by
  have hall : ∀ t ∈ strtok ' ' (stringAt (message.take msgSize)), nul ∉ t := by
    intro t ht hnul
    have hstr := List.mem_takeWhile_imp (mem_of_mem_strtok ht hnul)
    exact of_decide_eq_true hstr rfl
  simp only [parseCommand] at h
  split at h
  · cases h
  split at h
  · cases h
  split at h
  · cases h
  cases htokens : strtok ' ' (stringAt (message.take msgSize)) with
  | nil =>
    rw [htokens] at h
    cases h
  | cons token rest =>
    rw [htokens] at h hall
    dsimp only at h
    split at h
    · cases h
    split at h
    · obtain ⟨secId, -, hlaunch⟩ := Option.map_eq_some_iff.mp h
      cases hlaunch
      exact fun t ht => hall t (List.mem_cons_of_mem token (List.mem_of_mem_drop ht))
    split at h
    · cases h
    split at h <;> cases h

end Spp.Primary
