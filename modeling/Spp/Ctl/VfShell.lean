import Spp.Ctl.WebApi
import Spp.Lib.PyText

/-!
# The vf commands of the CLI

`SppVf.run` of `vf.py`, which turns a line into requests to spp-ctl, and the routes
of `V1VFHandler`, which turn a request into a command. The answer of spp-ctl only
decides what the CLI prints, and is no part of it here.
-/

namespace Spp.Ctl

open Python

/-- The exceptions that end `SppVf.run`. -/
inductive CliExc
  | indexError
  | valueError
  | unboundLocalError
  deriving DecidableEq, Repr

/-- A call of `SppCtlClient`, with the path below the base URL. -/
inductive RestRequest
  | get (req : Str)
  | post (req : Str) (params : Body)
  | put (req : Str) (params : Body)
  | delete (req : Str)
  deriving Repr

section Paths

variable (secId : ℕ)

/-- `'vfs/%d'`. -/
def vfPath : Str := lit "vfs/" ++ intText secId

/-- `'vfs/%d/components'`. -/
def componentsPath : Str := vfPath secId ++ lit "/components"

/-- `'vfs/%d/components/%s'`. -/
def componentPath (name : Str) : Str := componentsPath secId ++ lit "/" ++ name

/-- `'vfs/%d/components/%s/ports'`. -/
def portsPath (name : Str) : Str := componentPath secId name ++ lit "/ports"

/-- `'vfs/%d/classifier_table'`. -/
def classifierTablePath : Str := vfPath secId ++ lit "/classifier_table"

end Paths

section Shell

variable (I : Interpreter) (secId : ℕ)

/-- `params[i]`. -/
def param (params : List Str) (i : ℕ) : Except CliExc Str :=
  match params[i]? with
  | some p => .ok p
  | none => .error .indexError

/-- `int(p)` of a parameter. -/
def intParam (p : Str) : Except CliExc ℤ :=
  match intOfStr I p with
  | some n => .ok n
  | none => .error .valueError

/-- `_run_component` up to its request. -/
def runComponent (params : List Str) : Except CliExc (Option RestRequest) := do
  let action ← param params 0
  if action = lit "start" then
    let name ← param params 1
    let core ← intParam I (← param params 2)
    let type ← param params 3
    .ok (some (.post (componentsPath secId)
      [(lit "name", .str name), (lit "core", .int core), (lit "type", .str type)]))
  else if action = lit "stop" then
    let name ← param params 1
    .ok (some (.delete (componentPath secId name)))
  else .ok none

/-- `req_params` of `_run_port`. -/
def portParams (action : String) (port dir : Str) (operation : String) (vid pcp : Json) : Body :=
  [(lit "action", .str (lit action)), (lit "port", .str port), (lit "dir", .str dir),
    (lit "vlan", .dict [(lit "operation", .str (lit operation)), (lit "id", vid),
      (lit "pcp", pcp)])]

/-- `_run_port` up to its request. Five parameters and seven attach the port,
whatever the first one is. -/
def runPort (params : List Str) : Except CliExc (Option RestRequest) :=
  match params with
  | [action, port, dir, name] =>
    let none := Json.str (lit "none")
    if action = lit "add" then
      .ok (some (.put (portsPath secId name) (portParams "attach" port dir "none" none none)))
    else if action = lit "del" then
      .ok (some (.put (portsPath secId name) (portParams "detach" port dir "none" none none)))
    else .ok .none
  | [_, port, dir, name, _] =>
    let none := Json.str (lit "none")
    .ok (some (.put (portsPath secId name) (portParams "attach" port dir "del" none none)))
  | [_, port, dir, name, option, vid, pcp] => do
    let op ←
      if option = lit "add_vlantag" then .ok "add"
      else if option = lit "del_vlantag" then .ok "del"
      else .error .unboundLocalError
    let vid ← intParam I vid
    let pcp ← intParam I pcp
    .ok (some (.put (portsPath secId name) (portParams "attach" port dir op (.int vid) (.int pcp))))
  | _ => .ok none

/-- `_run_cls_table` up to its request. -/
def runClsTable (params : List Str) : Except CliExc (Option RestRequest) :=
  match params with
  | [action, type, mac, port] =>
    .ok (some (.put (classifierTablePath secId) [(lit "action", .str action),
      (lit "type", .str type), (lit "mac_address", .str mac), (lit "port", .str port)]))
  | [action, type, vlan, mac, port] =>
    .ok (some (.put (classifierTablePath secId) [(lit "action", .str action),
      (lit "type", .str type), (lit "vlan", .str vlan), (lit "mac_address", .str mac),
      (lit "port", .str port)]))
  | _ => .ok none

/-- The request of a line by its tokens: the branches of `run` on the first one. -/
def runTokens : List Str → Except CliExc (Option RestRequest)
  | [] => .ok none
  | cmd :: params =>
    if cmd = lit "status" then .ok (some (.get (vfPath secId)))
    else if cmd = lit "component" then runComponent I secId params
    else if cmd = lit "port" then runPort I secId params
    else if cmd = lit "classifier_table" then runClsTable secId params
    else if cmd = lit "exit" then .ok (some (.delete (vfPath secId)))
    else .ok none

/-- `cmdline.split(' ')`. -/
def tokens (cmdline : Str) : List Str := cmdline.splitOn 32

/-- The requests before those of the line itself: `_get_status`, unless a cache is used. -/
def refresh (useCache : Bool) : List RestRequest :=
  if useCache = false then [.get (vfPath secId)] else []

/-- `run`: the requests it makes, in order. -/
def run (useCache : Bool) (cmdline : Str) : List RestRequest :=
  refresh secId useCache ++
    match runTokens I secId (tokens cmdline) with
    | .ok request => request.toList
    | .error _ => []

end Shell

section Routes

/-- The handlers of a `PUT` request, with the process and the name in the URL. -/
inductive PutRoute
  | vfCompPort (secId : ℕ) (name : Str)
  | vfClassifier (secId : ℕ)
  deriving DecidableEq, Repr

/-- The handlers of a `DELETE` request. -/
inductive DeleteRoute
  | vfExit (secId : ℕ)
  | vfCompStop (secId : ℕ) (name : Str)
  deriving DecidableEq, Repr

/-- Letters, digits and `-._~`, which stand for themselves in a URL. -/
def isUnreserved (c : ℕ) : Bool :=
  (97 ≤ c && c ≤ 122) || (65 ≤ c && c ≤ 90) || isDigit c || c = 45 || c = 46 || c = 95 || c = 126

/-- A name that stands for itself as a segment of a path. -/
def PlainName (name : Str) : Prop :=
  name ≠ [] ∧ name ≠ lit "." ∧ name ≠ lit ".." ∧ ∀ c ∈ name, isUnreserved c = true

instance (name : Str) : Decidable (PlainName name) :=
  inferInstanceAs (Decidable (name ≠ [] ∧ name ≠ lit "." ∧ name ≠ lit ".." ∧ ∀ c ∈ name, _))

/-- What `requests`, the server and `bottle` make of a path: the handler of
`V1VFHandler` that is called, if one is, with the arguments from the URL. They are
known for paths with plain names. A segment that is empty matches no `<name>`, and a
name is decoded from UTF-8. -/
structure Web where
  /-- `vf_get`. -/
  get : Str → Option ℕ
  /-- `vf_comp_start`. -/
  post : Str → Option ℕ
  put : Str → Option PutRoute
  delete : Str → Option DeleteRoute
  get_vf : ∀ secId, get (vfPath secId) = some secId
  post_components : ∀ secId, post (componentsPath secId) = some secId
  put_classifierTable : ∀ secId, put (classifierTablePath secId) = some (.vfClassifier secId)
  put_ports : ∀ secId name, PlainName name →
    put (portsPath secId name) = some (.vfCompPort secId name)
  delete_component : ∀ secId name, PlainName name →
    delete (componentPath secId name) = some (.vfCompStop secId name)
  put_noName : ∀ secId, put (portsPath secId []) = none
  delete_noName : ∀ secId, delete (componentPath secId []) = none
  put_isText : ∀ path secId name, put path = some (.vfCompPort secId name) → IsText name
  delete_isText : ∀ path secId name, delete path = some (.vfCompStop secId name) → IsText name

/-- An id in a path. -/
def readId (s : Str) : Option ℕ := (intOfStr .ascii s).map Int.toNat

/-- An id is read back. -/
theorem readId_intText (secId : ℕ) : readId (intText secId) = some secId := by
  rw [readId, intOfStr_intText]
  rfl

/-- There is no slash in the text of an integer. -/
theorem slash_notMem_intText (n : ℤ) : 47 ∉ intText n := by
  rw [intText_eq]
  intro hmem
  split_ifs at hmem with h
  · exact absurd (isDigit_toDigits hmem) (by decide)
  · obtain heq | hmem := List.mem_cons.mp hmem
    · exact absurd heq (by decide)
    · exact absurd (isDigit_toDigits hmem) (by decide)

/-- There is no slash in a plain name. -/
theorem PlainName.slash_notMem {name : Str} (h : PlainName name) : 47 ∉ name :=
  fun hmem => absurd (h.2.2.2 47 hmem) (by decide)

/-- A plain name can be encoded. -/
theorem PlainName.isText {name : Str} (h : PlainName name) : IsText name := by
  intro c hc
  have hunreserved := h.2.2.2 c hc
  simp only [isUnreserved, isDigit, Bool.or_eq_true, Bool.and_eq_true, decide_eq_true_eq]
    at hunreserved
  unfold Python.Encodable
  omega

/-- The segments of the path of a process. -/
theorem splitOn_vfPath (secId : ℕ) : (vfPath secId).splitOn 47 = [lit "vfs", intText secId] := by
  have hvfs : 47 ∉ lit "vfs" := by decide
  have hpath : vfPath secId = lit "vfs" ++ 47 :: intText secId := rfl
  rw [hpath, List.splitOn_append_cons_self_of_not_mem hvfs,
    List.splitOn_eq_singleton (slash_notMem_intText _)]

/-- The segments of a path below that of a process. -/
theorem splitOn_vfPath_append (secId : ℕ) (rest : Str) :
    (vfPath secId ++ 47 :: rest).splitOn 47 =
      lit "vfs" :: intText secId :: rest.splitOn 47 := by
  rw [List.splitOn_append_cons_self, splitOn_vfPath]
  rfl

/-- The segments of the path of the components. -/
theorem splitOn_componentsPath (secId : ℕ) : (componentsPath secId).splitOn 47 =
    [lit "vfs", intText secId, lit "components"] := by
  have hcomponents : 47 ∉ lit "components" := by decide
  have hpath : componentsPath secId = vfPath secId ++ 47 :: lit "components" := rfl
  rw [hpath, splitOn_vfPath_append, List.splitOn_eq_singleton hcomponents]

/-- The segments of the path of a component. -/
theorem splitOn_componentPath (secId : ℕ) {name : Str} (h : 47 ∉ name) :
    (componentPath secId name).splitOn 47 =
      [lit "vfs", intText secId, lit "components", name] := by
  have hslash : lit "/" = [47] := by decide
  rw [componentPath, hslash, List.append_assoc, List.singleton_append,
    List.splitOn_append_cons_self, splitOn_componentsPath, List.splitOn_eq_singleton h]
  rfl

/-- The segments of the path of the ports of a component. -/
theorem splitOn_portsPath (secId : ℕ) {name : Str} (h : 47 ∉ name) :
    (portsPath secId name).splitOn 47 =
      [lit "vfs", intText secId, lit "components", name, lit "ports"] := by
  have hports : 47 ∉ lit "ports" := by decide
  have hslash : lit "/ports" = 47 :: lit "ports" := by decide
  rw [portsPath, hslash, List.splitOn_append_cons_self, splitOn_componentPath secId h,
    List.splitOn_eq_singleton hports]
  rfl

/-- The segments of the path of the classifier table. -/
theorem splitOn_classifierTablePath (secId : ℕ) : (classifierTablePath secId).splitOn 47 =
    [lit "vfs", intText secId, lit "classifier_table"] := by
  have htable : 47 ∉ lit "classifier_table" := by decide
  have hpath : classifierTablePath secId = vfPath secId ++ 47 :: lit "classifier_table" := rfl
  rw [hpath, splitOn_vfPath_append, List.splitOn_eq_singleton htable]

/-- The handlers of a `PUT` request with plain names. -/
def literalPut (path : Str) : Option PutRoute :=
  match path.splitOn 47 with
  | [_, id, table] =>
    if table = lit "classifier_table" then (readId id).map .vfClassifier else none
  | [_, id, _, name, _] =>
    if PlainName name then (readId id).map fun secId => .vfCompPort secId name else none
  | _ => none

/-- The handlers of a `DELETE` request with plain names. -/
def literalDelete (path : Str) : Option DeleteRoute :=
  match path.splitOn 47 with
  | [_, id] => (readId id).map .vfExit
  | [_, id, _, name] =>
    if PlainName name then (readId id).map fun secId => .vfCompStop secId name else none
  | _ => none

/-- The routes of paths with plain names. -/
def Web.literal : Web where
  get path :=
    match path.splitOn 47 with
    | [_, id] => readId id
    | _ => none
  post path :=
    match path.splitOn 47 with
    | [_, id, _] => readId id
    | _ => none
  put := literalPut
  delete := literalDelete
  get_vf secId := by simp only [splitOn_vfPath, readId_intText]
  post_components secId := by simp only [splitOn_componentsPath, readId_intText]
  put_classifierTable secId := by
    simp only [literalPut, splitOn_classifierTablePath, if_true, readId_intText, Option.map_some]
  put_ports secId name h := by
    simp only [literalPut, splitOn_portsPath secId h.slash_notMem, if_pos h, readId_intText,
      Option.map_some]
  delete_component secId name h := by
    simp only [literalDelete, splitOn_componentPath secId h.slash_notMem, if_pos h,
      readId_intText, Option.map_some]
  put_noName secId := by
    have hempty : ¬ PlainName [] := fun h => h.1 rfl
    simp only [literalPut, splitOn_portsPath secId List.not_mem_nil, if_neg hempty]
  delete_noName secId := by
    have hempty : ¬ PlainName [] := fun h => h.1 rfl
    simp only [literalDelete, splitOn_componentPath secId List.not_mem_nil, if_neg hempty]
  put_isText path secId name h := by
    unfold literalPut at h
    split at h
    · split_ifs at h
      obtain ⟨_, _, hroute⟩ := Option.map_eq_some_iff.mp h
      cases hroute
    · split_ifs at h with hname
      obtain ⟨_, _, hroute⟩ := Option.map_eq_some_iff.mp h
      obtain ⟨-, rfl⟩ := PutRoute.vfCompPort.inj hroute
      exact hname.isText
    · cases h
  delete_isText path secId name h := by
    unfold literalDelete at h
    split at h
    · obtain ⟨_, _, hroute⟩ := Option.map_eq_some_iff.mp h
      cases hroute
    · split_ifs at h with hname
      obtain ⟨_, _, hroute⟩ := Option.map_eq_some_iff.mp h
      obtain ⟨-, rfl⟩ := DeleteRoute.vfCompStop.inj hroute
      exact hname.isText
    · cases h

variable (I : Interpreter) (eui : Eui) (W : Web)

/-- `vf_get`, `get_status`. -/
def vfGet : Except Exc (List UInt8) := execCommand (some (lit "status"))

/-- `vf_exit`, `do_exit`. -/
def vfExit : Except Exc (List UInt8) := execCommand (some (lit "exit"))

/-- `vf_comp_stop`, `stop_component`. -/
def vfCompStop (name : Str) : Except Exc (List UInt8) :=
  execCommand (some (joinBlank [lit "component", lit "stop", name]))

/-- The handler that serves a request: its process, and how it ends. -/
def serve : RestRequest → Option (ℕ × Except Exc (List UInt8))
  | .get req => (W.get req).map fun secId => (secId, vfGet)
  | .post req params => (W.post req).map fun secId => (secId, vfCompStart I params)
  | .put req params =>
    (W.put req).map fun
      | .vfCompPort secId name => (secId, vfCompPort I name params)
      | .vfClassifier secId => (secId, vfClassifier I eui params)
  | .delete req =>
    (W.delete req).map fun
      | .vfExit secId => (secId, vfExit)
      | .vfCompStop secId name => (secId, vfCompStop name)

/-- The command that a request sends to a `spp_vf`. -/
def Sends (request : RestRequest) (secId : ℕ) (data : List UInt8) : Prop :=
  serve I eui W request = some (secId, .ok data)

end Routes

end Spp.Ctl
