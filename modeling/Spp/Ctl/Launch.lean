import Spp.Ctl.WebApi
import Spp.Lib.CText
import Spp.Lib.Options

/-!
# Launching a secondary from the CLI

`_run_launch` of `pri.py`, which turns the parameters of `pri; launch` into a
request, and `parse_command` of `spp_primary`, which takes the command apart that
`do_launch_sec_proc` makes of the request.
-/

namespace Spp.Ctl

open Python Options CLib

/-- Membership in a list of strings is decided. -/
instance decidableMemStr (s : Str) (l : List Str) : Decidable (s ∈ l) :=
  List.instDecidableMemOfLawfulBEq s l

/-- `opt.startswith('-')`. -/
def startsWithDash (opt : Str) : Bool := opt.head? = some 45

/-- The loop of `_setup_opts_dict` with its variable `prekey`. -/
def setupOpts : List Str → Option Str → Body → Body
  | [], _, optsDict => optsDict
  | opt :: rest, prekey, optsDict =>
    if startsWithDash opt then setupOpts rest (some opt) (setItem optsDict opt .null)
    else
      match prekey with
      | some key => setupOpts rest none (setItem optsDict key (.str opt))
      | none => setupOpts rest none optsDict

/-- `_setup_opts_dict`. -/
def setupOptsDict (optsList : List Str) : Body := setupOpts optsList none []

/-- `SEC_TYPES`. -/
def secTypes : List String := ["nfv", "vf", "mirror", "pcap"]

/-- The process name of a type that may already be one. -/
def procNameOf (procType : Str) : Str :=
  if (lit "spp_").isPrefixOf procType then procType else lit "spp_" ++ procType

/-- The type without the prefix of process names. -/
def procTypeOf (procType : Str) : Str :=
  if (lit "spp_").isPrefixOf procType then procType.drop 4 else procType

/-- The parameters after the type: the ID, if one is given in its place, and the
arguments. -/
def splitId : List Str → Option Str × List Str
  | [] => (none, [])
  | param :: params =>
    if startsWithDash param then (none, param :: params) else (some param, params)

/-- A string, or `None`. -/
def strOrNone : Option Str → Json
  | some s => .str s
  | none => .null

/-- What `_run_launch` prints instead of sending a request. -/
inductive LaunchMessage
  | invalidSyntax
  | notSupported (procType : Str)
  | noSeparator
  | idRequired
  | alreadyUsed (secId : Json)
  deriving Repr

/-- The ID in the options of the application. It may be `None`. -/
def findSecId (procType : Str) (app : Body) : Option Json :=
  if procType = lit "nfv" ∧ (app.lookup (lit "-n")).isSome then app.lookup (lit "-n")
  else app.lookup (lit "--client-id")

/-- `sec_id in self._get_sec_ids()`. -/
def inSecIds (secId : Json) (secIds : List Json) : Bool :=
  secIds.any fun id =>
    match secId, id with
    | .str s, .str t => s = t
    | .null, .null => true
    | _, _ => false

/-- The option of the application that takes the ID. -/
def idOption (procName : Str) : Str :=
  if procName = lit "spp_nfv" then lit "-n" else lit "--client-id"

/-- `_run_launch` up to its request; `secIds` are the IDs of the secondaries that
spp-ctl reports. -/
def runLaunch (secIds : List Json) : List Str → Except LaunchMessage Body
  | procType :: param :: params => do
    let procName := procNameOf procType
    let procType := procTypeOf procType
    let (secId, args) := splitId (param :: params)
    if (Json.str procType).inStrs secTypes = false then .error (.notSupported procType)
    else if lit "--" ∉ args then .error .noSeparator
    else
      let ealOpts := args.takeWhile (· ≠ lit "--")
      let appOpts := (args.dropWhile (· ≠ lit "--")).drop 1
      let ealOpts :=
        if lit "--proc-type" ∉ args then ealOpts ++ [lit "--proc-type", lit "secondary"]
        else ealOpts
      let eal := setupOptsDict ealOpts
      let app := setupOptsDict appOpts
      match (secId.map Json.str).or (findSecId procType app) with
      | none => .error .idRequired
      | some secId =>
        if inSecIds secId secIds then .error (.alreadyUsed secId)
        else .ok [(lit "proc_name", .str procName), (lit "eal", .dict eal),
          (lit "app", .dict (setItem app (idOption procName) secId)), (lit "client_id", secId)]
  | _ => .error .invalidSyntax

end Spp.Ctl
