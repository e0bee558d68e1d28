import Spp.Lib.Python

/-!
# The handlers of the REST interface

The handlers of `spp_webapi.py` that take a JSON object, with the commands of
`spp_proc.py` that they build. A handler ends with the exception it raises or with
the bytes it sends. What the process answers is no part of a handler here, and the
process of the request is taken to be registered.
-/

namespace Spp.Ctl

open Python

/-- The exceptions a handler may end with. -/
inductive Exc
  /-- `bottle.HTTPError`. -/
  | httpError (status : ℕ) (body : Str)
  | keyError
  | typeError
  | attributeError
  /-- `ValueError` and its kin: of `int`, of unpacking and of a bare `raise`. -/
  | valueError
  | unicodeEncodeError
  deriving DecidableEq, Repr

/-- A JSON object. -/
abbrev Body := List (Str × Json)

/-- `KeyRequired`. -/
def keyRequired (key : String) : Exc :=
  .httpError 400 (lit "key(" ++ lit key ++ lit ") required.")

/-- `KeyInvalid`. Its `__init__` calls `super(KeyRequired, self)`, and `self` is no
`KeyRequired`. -/
def keyInvalid : Exc := .typeError

/-- The loop over the required keys of a body. -/
def requireKeys : List String → Body → Except Exc Unit
  | [], _ => .ok ()
  | key :: keys, body =>
    if (body.lookup (lit key)).isSome then requireKeys keys body else .error (keyRequired key)

/-- `body[key]`. -/
def getItem (body : Body) (key : String) : Except Exc Json :=
  match body.lookup (lit key) with
  | some v => .ok v
  | none => .error .keyError

/-- `v[key]` for any value. -/
def subscript (v : Json) (key : String) : Except Exc Json :=
  match v with
  | .dict items => getItem items key
  | _ => .error .typeError

/-- `if not ok: raise KeyInvalid(..)`. -/
def check (ok : Bool) : Except Exc Unit := if ok then .ok () else .error keyInvalid

/-- `try: .. except: raise KeyInvalid(..)`. -/
def orInvalid (x : Except Exc Unit) : Except Exc Unit :=
  match x with
  | .ok () => .ok ()
  | .error _ => .error keyInvalid

/-- Words with blanks between them. -/
def joinBlank (words : List Str) : Str := [32].intercalate words

/-- `exec_command` up to the end of `sendall`. A command of `None` has no `encode`. -/
def execCommand (command : Option Str) : Except Exc (List UInt8) :=
  match command with
  | none => .error .attributeError
  | some text =>
    match encode text with
    | some data => .ok data
    | none => .error .unicodeEncodeError

/-- `netaddr.EUI` as far as it is used: whether a value is accepted. -/
abbrev Eui := Json → Bool

/-- The port types of `_validate_port`. -/
def portTypes : List String := ["phy", "vhost", "ring", "pcap", "nullpmd"]

section Handlers

variable (I : Interpreter) (eui : Eui)

/-- `int(v)`. -/
def intOf (v : Json) : Except Exc ℤ :=
  match Python.int I v with
  | some n => .ok n
  | none => .error .valueError

/-- The body of `_validate_port`. -/
def parsePort (port : Json) : Except Exc Unit :=
  match port with
  | .str s =>
    match s.splitOn 58 with
    | [ifType, ifNum] =>
      if (Json.str ifType).inStrs portTypes then (intOf I (.str ifNum)).map fun _ => ()
      else .error .valueError
    | _ => .error .valueError
  | _ => .error .attributeError

/-- `_validate_port`. -/
def validatePort (port : Json) : Except Exc Unit := orInvalid (parsePort I port)

/-- `isinstance(v, str)`. -/
def isStr : Json → Bool
  | .str _ => true
  | _ => false

/-- `isinstance(v, int)`; a `bool` is an `int`. -/
def isInt : Json → Bool
  | .int _ => true
  | .bool _ => true
  | _ => false

/-- `validate_comp_start`. -/
def validateCompStart (body : Body) (types : List String) : Except Exc Unit := do
  requireKeys ["name", "core", "type"] body
  check (isStr (← getItem body "name"))
  check (isInt (← getItem body "core"))
  check ((← getItem body "type").inStrs types)

/-- `validate_comp_port`. -/
def validateCompPort (body : Body) : Except Exc Unit := do
  requireKeys ["action", "port", "dir"] body
  check ((← getItem body "action").inStrs ["attach", "detach"])
  check ((← getItem body "dir").inStrs ["rx", "tx"])
  validatePort I (← getItem body "port")

/-- `start_component`. -/
def startComponent (compName coreId compType : Json) : Except Exc (List UInt8) :=
  execCommand (some (joinBlank [lit "component", lit "start", str I compName, str I coreId,
    str I compType]))

/-- `port_del`. -/
def portDel (port direction : Json) (compName : Str) : Except Exc (List UInt8) :=
  execCommand (some (joinBlank [lit "port", lit "del", str I port, str I direction, compName]))

/-- The command of `port_add`, without what a VLAN operation appends. -/
def portAddText (port direction : Json) (compName : Str) : Str :=
  joinBlank [lit "port", lit "add", str I port, str I direction, compName]

/-- `vf_comp_start`. -/
def vfCompStart (body : Body) : Except Exc (List UInt8) := do
  validateCompStart body ["forward", "merge", "classifier_mac"]
  startComponent I (← getItem body "name") (← getItem body "core") (← getItem body "type")

/-- The body of the `try` in `_validate_vf_comp_port`. -/
def parseVlan (vlan : Json) : Except Exc Unit := do
  let operation ← subscript vlan "operation"
  if operation.inStrs ["none", "add", "del"] = false then .error .valueError
  else if operation.eqStr (lit "add") then
    let _ ← intOf I (← subscript vlan "id")
    let _ ← intOf I (← subscript vlan "pcp")
    .ok ()
  else .ok ()

/-- `body.get('vlan')` where it counts as true. -/
def vlanOf (body : Body) : Option Json := (body.lookup (lit "vlan")).filter Json.truthy

/-- `_validate_vf_comp_port`. -/
def validateVfCompPort (body : Body) : Except Exc Unit := do
  validateCompPort I body
  if (← getItem body "action").eqStr (lit "attach") then
    match vlanOf body with
    | some vlan => orInvalid (parseVlan I vlan)
    | none => .ok ()
  else .ok ()

/-- `port_add` of `VfProc`. -/
def vfPortAdd (port direction : Json) (compName : Str) (op : String) (vlanId pcp : Json) :
    Except Exc (List UInt8) :=
  let command := portAddText I port direction compName
  if op = "none" then execCommand (some command)
  else
    let command := command ++ [32] ++ lit op
    if op = "add_vlantag" then
      match percentD vlanId, percentD pcp with
      | some vid, some pcp =>
        execCommand (some (command ++ [32] ++ intText vid ++ [32] ++ intText pcp))
      | _, _ => .error .typeError
    else execCommand (some command)

/-- `vf_comp_port`. -/
def vfCompPort (name : Str) (body : Body) : Except Exc (List UInt8) := do
  validateVfCompPort I body
  let port ← getItem body "port"
  let dir ← getItem body "dir"
  if (← getItem body "action").eqStr (lit "attach") then
    match vlanOf body with
    | some vlan =>
      let operation ← subscript vlan "operation"
      if operation.eqStr (lit "add") then
        vfPortAdd I port dir name "add_vlantag" (← subscript vlan "id") (← subscript vlan "pcp")
      else if operation.eqStr (lit "del") then
        vfPortAdd I port dir name "del_vlantag" (.int 0) (.int 0)
      else vfPortAdd I port dir name "none" (.int 0) (.int 0)
    | none => vfPortAdd I port dir name "none" (.int 0) (.int 0)
  else portDel I port dir name

/-- `_validate_mac`. -/
def validateMac (macAddress : Json) : Except Exc Unit := check (eui macAddress)

/-- `_validate_vf_classifier`. -/
def validateVfClassifier (body : Body) : Except Exc Unit := do
  requireKeys ["action", "type", "port", "mac_address"] body
  check ((← getItem body "action").inStrs ["add", "del"])
  check ((← getItem body "type").inStrs ["mac", "vlan"])
  validatePort I (← getItem body "port")
  let macAddress ← getItem body "mac_address"
  (if macAddress.eqStr (lit "default") then .ok () else validateMac eui macAddress)
  if (← getItem body "type").eqStr (lit "vlan") then
    orInvalid (do
      let _ ← intOf I (← getItem body "vlan")
      .ok ())
  else .ok ()

/-- `set_classifier_table` and `clear_classifier_table`. -/
def classifierTable (action : String) (macAddress port : Json) : Except Exc (List UInt8) :=
  execCommand (some (joinBlank [lit "classifier_table", lit action, lit "mac", str I macAddress,
    str I port]))

/-- `set_classifier_table_with_vlan` and `clear_classifier_table_with_vlan`. -/
def classifierTableWithVlan (action : String) (macAddress port vlanId : Json) :
    Except Exc (List UInt8) :=
  execCommand (some (joinBlank [lit "classifier_table", lit action, lit "vlan", str I vlanId,
    str I macAddress, str I port]))

/-- `vf_classifier`. -/
def vfClassifier (body : Body) : Except Exc (List UInt8) := do
  validateVfClassifier I eui body
  let port ← getItem body "port"
  let macAddress ← getItem body "mac_address"
  let action := if (← getItem body "action").eqStr (lit "add") then "add" else "del"
  if (← getItem body "type").eqStr (lit "mac") then classifierTable I action macAddress port
  else classifierTableWithVlan I action macAddress port (← getItem body "vlan")

/-- `mirror_comp_start`. -/
def mirrorCompStart (body : Body) : Except Exc (List UInt8) := do
  validateCompStart body ["mirror"]
  startComponent I (← getItem body "name") (← getItem body "core") (← getItem body "type")

/-- `mirror_comp_port`. -/
def mirrorCompPort (name : Str) (body : Body) : Except Exc (List UInt8) := do
  validateCompPort I body
  let port ← getItem body "port"
  let dir ← getItem body "dir"
  if (← getItem body "action").eqStr (lit "attach") then
    execCommand (some (portAddText I port dir name))
  else portDel I port dir name

/-- `nfv_forward`, which does not call `_validate_nfv_forward`. -/
def nfvForward (body : Body) : Except Exc (List UInt8) := do
  if (← getItem body "action").eqStr (lit "start") then execCommand (some (lit "forward"))
  else execCommand (some (lit "stop"))

/-- `_validate_nfv_port`. -/
def validateNfvPort (body : Body) : Except Exc Unit := do
  requireKeys ["action", "port"] body
  check ((← getItem body "action").inStrs ["add", "del"])
  validatePort I (← getItem body "port")

/-- `nfv_port`. -/
def nfvPort (body : Body) : Except Exc (List UInt8) := do
  validateNfvPort I body
  let port ← getItem body "port"
  if (← getItem body "action").eqStr (lit "add") then
    execCommand (some (joinBlank [lit "add", str I port]))
  else execCommand (some (joinBlank [lit "del", str I port]))

/-- `_validate_nfv_patch`. -/
def validateNfvPatch (body : Body) : Except Exc Unit := do
  requireKeys ["src", "dst"] body
  validatePort I (← getItem body "src")
  validatePort I (← getItem body "dst")

/-- `nfv_patch_add`. -/
def nfvPatchAdd (body : Body) : Except Exc (List UInt8) := do
  validateNfvPatch I body
  execCommand (some (joinBlank [lit "patch", str I (← getItem body "src"),
    str I (← getItem body "dst")]))

/-- `EAL_OPTS`. -/
def ealOpts : List String :=
  ["-c", "-l", "--lcores", "--master-lcore", "-s", "-b", "--pci-blacklist", "-w",
    "--pci-whitelist", "--vdev", "-d", "--no-pci", "--proc-type", "-n", "-r", "-m",
    "--in-memory", "--iova-mode", "--no-shconf", "--no-huge", "--log-level", "--file-prefix",
    "--create-uio-dev", "--vmware-tsc-map", "--no-hpet", "--vfio-intr", "--base-virtaddr",
    "--legacy-mem", "--socket-mem", "--socket-limit", "--single-file-segments", "--huge-dir",
    "--huge-unlink", "--match-allocations", "--syslog"]

/-- `APP_OPTS`. -/
def appOpts : List (String × List String) :=
  [("spp_nfv", ["-n", "-s", "--vhost-client"]),
    ("spp_vf", ["--client-id", "-s", "--vhost-client"]),
    ("spp_mirror", ["--client-id", "-s", "--vhost-client"]),
    ("spp_pcap", ["--client-id", "-s", "-c", "--out-dir", "--fsize"])]

/-- The loops of `do_launch_sec_proc` that collect options and their values. -/
def collectOpts (args : Body) : List String → List Str → List Str
  | [], collected => collected
  | opt :: opts, collected =>
    match args.lookup (lit opt) with
    | none => collectOpts args opts collected
    | some .null => collectOpts args opts (collected ++ [lit opt])
    | some val =>
      if val.eqStr [] then collectOpts args opts (collected ++ [lit opt])
      else collectOpts args opts (collected ++ [lit opt, str I val])

/-- The key of `APP_OPTS` that a process name is. Lists and dictionaries have no hash. -/
def appOptsOf (procName : Json) : Except Exc (Option (List String)) :=
  match procName with
  | .list _ => .error .typeError
  | .dict _ => .error .typeError
  | .str s => .ok ((appOpts.find? fun p => lit p.1 = s).map Prod.snd)
  | _ => .ok none

/-- `app_opts` of `do_launch_sec_proc`. -/
def appOptions (args : Body) (procName : Json) : Except Exc (List Str) := do
  match ← appOptsOf procName with
  | none => .ok []
  | some opts =>
    match ← getItem args "app" with
    | .dict app => .ok (collectOpts I app opts [])
    | _ => .error .attributeError

/-- The query of `do_launch_sec_proc`; `none` is `None`. -/
def launchQuery (args : Body) : Except Exc (Option Str) := do
  let procName ← getItem args "proc_name"
  let secId ← getItem args "client_id"
  match ← getItem args "eal" with
  | .dict eal =>
    if (["-c", "-l", "--lcores"].any fun key => (eal.lookup (lit key)).isSome) = false then .ok none
    else if (eal.lookup (lit "--proc-type")).isSome = false then .ok none
    else
      let appOpts ← appOptions I args procName
      .ok (some (joinBlank [lit "launch", str I secId, str I procName,
        joinBlank (collectOpts I eal ealOpts []), lit "--", joinBlank appOpts]))
  | _ => .error .attributeError

/-- `do_launch_sec_proc`. -/
def doLaunchSecProc (args : Body) : Except Exc (List UInt8) := do
  execCommand (← launchQuery I args)

/-- `launch_sec_proc`. -/
def launchSecProc (body : Body) : Except Exc (List UInt8) := do
  requireKeys ["client_id", "proc_name", "eal", "app"] body
  doLaunchSecProc I body

/-- `_validate_pcap_action`. -/
def validatePcapAction (body : Body) : Except Exc Unit := do
  requireKeys ["action"] body
  check ((← getItem body "action").inStrs ["start", "stop"])

/-- `pcap_action`. -/
def pcapAction (body : Body) : Except Exc (List UInt8) := do
  validatePcapAction body
  if (← getItem body "action").eqStr (lit "start") then execCommand (some (lit "start"))
  else execCommand (some (lit "stop"))

end Handlers

/-- The handlers with a JSON object; `name` is the component of the URL. -/
inductive Handler
  | vfCompStart
  | vfCompPort (name : String)
  | vfClassifier
  | mirrorCompStart
  | mirrorCompPort (name : String)
  | nfvForward
  | nfvPort
  | nfvPatchAdd
  | launchSecProc
  | pcapAction
  deriving DecidableEq, Repr

/-- What a handler does with a body. -/
def handle (I : Interpreter) (eui : Eui) : Handler → Body → Except Exc (List UInt8)
  | .vfCompStart, body => vfCompStart I body
  | .vfCompPort name, body => vfCompPort I (lit name) body
  | .vfClassifier, body => vfClassifier I eui body
  | .mirrorCompStart, body => mirrorCompStart I body
  | .mirrorCompPort name, body => mirrorCompPort I (lit name) body
  | .nfvForward, body => nfvForward body
  | .nfvPort, body => nfvPort I body
  | .nfvPatchAdd, body => nfvPatchAdd I body
  | .launchSecProc, body => launchSecProc I body
  | .pcapAction, body => pcapAction body

end Spp.Ctl
