import Spp.Ctl.Validation
import Spp.Ctl.VfShell
import Spp.Lib.TokenList
import Spp.Vf.Types

/-!
# What the CLI makes of a vf command

The documented `component`, `port` and `classifier_table` commands as values, and the
token lists that spell them. A line that spells a command should reach `spp_vf` as a
line that spells the same command, and any other line as none.
-/

namespace Spp.Ctl

open Python
open CLib (bind_eq_ok)

section Grammar

/-- The VLAN operation of a `port` command. -/
inductive VlanOption
  | none
  | del
  | add (vid pcp : ℤ)
  deriving DecidableEq, Repr

/-- A command that changes the state of `spp_vf`. -/
inductive VfCommand
  | start (name : Str) (core : ℤ) (type : Vf.ComponentType)
  | stop (name : Str)
  | port (action : Vf.CommandAction) (uid : Str) (dir : Vf.PortRxtx) (name : Str)
    (vlan : VlanOption)
  | classifier (action : Vf.CommandAction) (vid : Option ℤ) (mac uid : Str)
  deriving DecidableEq, Repr

/-- The roles of a component. -/
def roleWords : List (String × Vf.ComponentType) :=
  [("forward", .forward), ("merge", .merge), ("classifier_mac", .classifierMac)]

/-- The actions on ports and on table entries. -/
def editWords : List (String × Vf.CommandAction) := [("add", .add), ("del", .del)]

/-- The directions of a port. -/
def dirWords : List (String × Vf.PortRxtx) := [("rx", .rx), ("tx", .tx)]

/-- A token is the word for a value. -/
def IsWordFor {α : Type} (table : List (String × α)) (token : Str) (x : α) : Prop :=
  ∃ w, (w, x) ∈ table ∧ token = lit w

variable (I : Interpreter) (eui : Eui)

/-- A resource UID `TYPE:NUMBER` with one of the types in a list. -/
def IsUid (types : List String) (uid : Str) : Prop :=
  ∃ t ∈ types, ∃ num, uid = lit t ++ 58 :: num ∧ 58 ∉ num ∧ (intOfStr I num).isSome

/-- The port types that `spp_vf` supports. -/
def vfPortTypes : List String := ["phy", "vhost", "ring"]

/-- A MAC address that `netaddr` knows, or `default`. -/
def IsMacToken (mac : Str) : Prop := mac ≠ [] ∧ (mac = lit "default" ∨ eui (.str mac) = true)

/-- The tokens after the name of a `port` command. -/
def VlanSpells (action : Vf.CommandAction) (rest : List Str) : VlanOption → Prop
  | .none => rest = []
  | .del => action = .add ∧ rest = [lit "del_vlantag"]
  | .add vid pcp => action = .add ∧ ∃ v p, rest = [lit "add_vlantag", v, p] ∧
      intOfStr I v = some vid ∧ intOfStr I p = some pcp

/-- The tokens between the action and the MAC address of a table entry. -/
def EntrySpells (kind : List Str) : Option ℤ → Prop
  | none => kind = [lit "mac"]
  | some vid => ∃ v, kind = [lit "vlan", v] ∧ intOfStr I v = some vid

/-- The tokens are the documented command, with its integers in any notation. -/
def Spells (ts : List Str) : VfCommand → Prop
  | .start name core type => ∃ c t, ts = [lit "component", lit "start", name, c, t] ∧
      name ≠ [] ∧ intOfStr I c = some core ∧ IsWordFor roleWords t type
  | .stop name => ts = [lit "component", lit "stop", name] ∧ name ≠ []
  | .port action uid dir name vlan => ∃ a d rest, ts = lit "port" :: a :: uid :: d :: name :: rest ∧
      IsWordFor editWords a action ∧ IsUid I vfPortTypes uid ∧ IsWordFor dirWords d dir ∧
      name ≠ [] ∧ VlanSpells I action rest vlan
  | .classifier action vid mac uid => ∃ a kind,
      ts = lit "classifier_table" :: a :: (kind ++ [mac, uid]) ∧ IsWordFor editWords a action ∧
      EntrySpells I kind vid ∧ IsMacToken eui mac ∧ IsUid I vfPortTypes uid

/-- A text that `spp_vf` may take for a command that changes its state: `exit`, or
words that begin with a documented command. What follows them is not looked at. -/
def StateChanging (text : Str) : Prop :=
  (wordsOf text).head? = some (lit "exit") ∨ ∃ ts, ts <+: wordsOf text ∧ ∃ c, Spells I eui ts c

end Grammar

section Statement

variable (I : Interpreter) (eui : Eui) (W : Web) (useCache : Bool) (secId : ℕ)

/-- A line that spells a command leads to one request, whose command spells the same
one for the same process. Any other line leads to no request whose command may change
the state of a `spp_vf`. -/
def PreservesMeaning (cmdline : Str) : Prop :=
  (∀ c, Spells I eui (tokens cmdline) c → ∃ request text data,
      run I secId useCache cmdline = refresh secId useCache ++ [request] ∧
      encode text = some data ∧ Sends I eui W request secId data ∧
      Spells I eui (tokens text) c) ∧
    ((¬ ∃ c, Spells I eui (tokens cmdline) c) → ∀ request ∈ run I secId useCache cmdline,
      ∀ id text data, encode text = some data → Sends I eui W request id data →
        ¬ StateChanging I eui text)

/-- The name that is part of a URL comes with it to the handler. -/
structure Carried (ts : List Str) : Prop where
  stop : ∀ name, ts = [lit "component", lit "stop", name] →
    W.delete (componentPath secId name) = some (.vfCompStop secId name)
  port : ∀ a u d name rest, ts = lit "port" :: a :: u :: d :: name :: rest →
    W.put (portsPath secId name) = some (.vfCompPort secId name)

/-- The path of a stop leads to a command that `spp_vf` may act on. -/
def Stops (name : Str) : Prop :=
  ∃ id, W.delete (componentPath secId name) = some (.vfExit id) ∨
    ∃ name', W.delete (componentPath secId name) = some (.vfCompStop id name') ∧ wordsOf name' ≠ []

/-- The path of a port request leads to the handler of ports. -/
def Attaches (name : Str) : Prop :=
  ∃ id name', W.put (portsPath secId name) = some (.vfCompPort id name')

/-- The lists that the CLI takes for a command without looking at all of their tokens. -/
inductive Mistakable : List Str → Prop
  /-- Tokens after a complete start. -/
  | start {name core type : Str} (more : List Str) (hname : name ≠ []) (htext : IsText name)
    (hcore : (intOfStr I core).isSome) (htype : ∃ t, IsWordFor roleWords type t) :
    Mistakable (lit "component" :: lit "start" :: name :: core :: type :: more)
  /-- Tokens after a stop. -/
  | stop {name : Str} (more : List Str) (hname : Stops W secId name) :
    Mistakable (lit "component" :: lit "stop" :: name :: more)
  /-- Five parameters of `port` are taken for `add` and `del_vlantag`. -/
  | five {uid dir name : Str} (action option : Str) (huid : IsUid I vfPortTypes uid)
    (hdir : ∃ d, IsWordFor dirWords dir d) (hname : Attaches W secId name) :
    Mistakable [lit "port", action, uid, dir, name, option]
  /-- Seven parameters are taken for `add`, and `del_vlantag` may be followed by two. -/
  | seven {uid dir name option vid pcp : Str} (action : Str) (huid : IsUid I vfPortTypes uid)
    (hdir : ∃ d, IsWordFor dirWords dir d) (hname : Attaches W secId name)
    (hoption : option = lit "add_vlantag" ∨ option = lit "del_vlantag")
    (hvid : (intOfStr I vid).isSome) (hpcp : (intOfStr I pcp).isSome) :
    Mistakable [lit "port", action, uid, dir, name, option, vid, pcp]
  /-- The VLAN ID of an entry of type `mac` is left out. -/
  | mac {action mac uid : Str} (vlan : Str) (haction : ∃ a, IsWordFor editWords action a)
    (hmac : IsMacToken eui mac) (htext : IsText mac) (huid : IsUid I vfPortTypes uid) :
    Mistakable [lit "classifier_table", action, lit "mac", vlan, mac, uid]

/-- A line keeps its meaning: one that spells a command is text whose name comes
through the URL, and any other is not taken for a command. -/
def KeptByShell (ts : List Str) : Prop :=
  ((∃ c, Spells I eui ts c) → (∀ t ∈ ts, IsText t) ∧ Carried W secId ts) ∧
    ((¬ ∃ c, Spells I eui ts c) → ¬ Mistakable I eui W secId ts)

end Statement

section Handlers

variable {I : Interpreter} {eui : Eui}

/-- `exec_command` sends the bytes of the text. -/
theorem execCommand_some {text : Str} {data : List UInt8} :
    execCommand (some text) = .ok data ↔ encode text = some data := by
  cases h : encode text with
  | none => simp [execCommand, h]
  | some d => simp [execCommand, h]

/-- Which resource UIDs `_validate_port` accepts. -/
theorem validatePort_str_iff {uid : Str} :
    validatePort I (.str uid) = .ok () ↔ IsUid I portTypes uid := by
  have hok : validatePort I (.str uid) = .ok () ↔ parsePort I (.str uid) = .ok () := by
    unfold validatePort orInvalid
    cases parsePort I (.str uid) <;> simp [keyInvalid]
  rw [hok]
  constructor
  · intro h
    unfold parsePort at h
    simp only at h
    split at h
    · rename_i ifType ifNum hsplit
      split_ifs at h with htype
      obtain ⟨t, ht, heq⟩ := Json.inStrs_eq_true.mp htype
      obtain rfl := Json.str.inj heq
      refine ⟨t, ht, ifNum, ?_, notMem_of_mem_splitOn (l := uid) (by simp [hsplit]), ?_⟩
      · have hjoin : [58].intercalate (uid.splitOn 58) = uid := List.intercalate_splitOn 58
        rw [hsplit] at hjoin
        rw [← hjoin]
        simp [List.intercalate]
      · cases hint : intOfStr I ifNum with
        | none => simp [intOf, Python.int, hint, Except.map] at h
        | some n => rfl
    · cases h
  · rintro ⟨t, ht, num, rfl, hcolon, hnum⟩
    have hsplit : (lit t ++ 58 :: num).splitOn 58 = [lit t, num] := by
      rw [List.splitOn_append_cons_self_of_not_mem (colon_notMem_portType t ht),
        List.splitOn_eq_singleton hcolon]
    have htype : (Json.str (lit t)).inStrs portTypes = true :=
      Json.inStrs_eq_true.mpr ⟨t, ht, rfl⟩
    obtain ⟨n, hn⟩ := Option.isSome_iff_exists.mp hnum
    simp only [parsePort, hsplit, htype, if_true, intOf, Python.int, hn, Except.map]

/-- A word of a table of words. -/
theorem inStrs_iff {α : Type} {table : List (String × α)} {token : Str} :
    (Json.str token).inStrs (table.map Prod.fst) = true ↔ ∃ x, IsWordFor table token x := by
  rw [Json.inStrs_eq_true]
  constructor
  · rintro ⟨w, hw, heq⟩
    obtain ⟨⟨v, x⟩, hmem, rfl⟩ := List.mem_map.mp hw
    exact ⟨x, v, hmem, Json.str.inj heq⟩
  · rintro ⟨x, w, hmem, rfl⟩
    exact ⟨w, List.mem_map.mpr ⟨_, hmem, rfl⟩, rfl⟩

/-- A check ends well if it holds. -/
theorem check_eq_ok {ok : Bool} {u : Unit} : check ok = .ok u ↔ ok = true := by
  unfold check
  cases ok <;> simp [keyInvalid]

/-- Two steps end well if both do, where the first one has no result. -/
theorem unit_bind_eq_ok {β : Type} {x : Except Exc Unit} {y : Except Exc β} {b : β} :
    (x >>= fun _ => y) = .ok b ↔ x = .ok () ∧ y = .ok b := by
  rw [bind_eq_ok]
  exact ⟨fun ⟨_, hx, hy⟩ => ⟨hx, hy⟩, fun ⟨hx, hy⟩ => ⟨(), hx, hy⟩⟩

/-- The command of a start. -/
theorem vfCompStart_iff {name type : Str} {core : ℤ} {data : List UInt8} :
    vfCompStart I [(lit "name", .str name), (lit "core", .int core), (lit "type", .str type)] =
        .ok data ↔
      (∃ t, IsWordFor roleWords type t) ∧
        encode (joinBlank [lit "component", lit "start", name, intText core, type]) =
          some data := by
  have hrun : vfCompStart I
      [(lit "name", .str name), (lit "core", .int core), (lit "type", .str type)] =
      (check ((Json.str type).inStrs (roleWords.map Prod.fst)) >>= fun _ =>
        startComponent I (.str name) (.int core) (.str type)) := rfl
  simp only [hrun, bind_eq_ok, check_eq_ok, inStrs_iff, startComponent, execCommand_some, str,
    exists_const]

/-- The words that a VLAN operation of the CLI adds to a command. -/
def AddsWords (operation : String) (vid pcp : Json) (rest : List Str) : Prop :=
  operation = "none" ∧ rest = [] ∨ operation = "del" ∧ rest = [lit "del_vlantag"] ∨
    operation = "add" ∧ ∃ v p, vid = .int v ∧ pcp = .int p ∧
      rest = [lit "add_vlantag", intText v, intText p]

/-- Which requests for a port pass the first check. -/
theorem validateCompPort_iff {action : String} {port dir : Str} {operation : String}
    {vid pcp : Json} (haction : (Json.str (lit action)).inStrs ["attach", "detach"] = true) :
    validateCompPort I (portParams action port dir operation vid pcp) = .ok () ↔
      (∃ d, IsWordFor dirWords dir d) ∧ IsUid I portTypes port := by
  have hkeys : requireKeys ["action", "port", "dir"]
      (portParams action port dir operation vid pcp) = .ok () := rfl
  have hitem : getItem (portParams action port dir operation vid pcp) "action" =
      .ok (.str (lit action)) := rfl
  have hport : getItem (portParams action port dir operation vid pcp) "port" =
      .ok (.str port) := rfl
  have hdir : getItem (portParams action port dir operation vid pcp) "dir" =
      .ok (.str dir) := rfl
  have hdirs : ["rx", "tx"] = dirWords.map Prod.fst := rfl
  simp only [validateCompPort, hkeys, hitem, haction, hport, hdir, hdirs, bind_eq_ok, check_eq_ok,
    inStrs_iff, validatePort_str_iff, Except.ok.injEq, exists_eq_left', exists_const, true_and]

/-- What `vf_comp_port` does with a request of the CLI that attaches a port. -/
theorem vfCompPort_attach_eq {name port dir : Str} {operation : String} {vid pcp : Json}
    {rest : List Str} (h : AddsWords operation vid pcp rest) :
    vfCompPort I name (portParams "attach" port dir operation vid pcp) =
      (validateCompPort I (portParams "attach" port dir operation vid pcp) >>= fun _ =>
        execCommand (some (joinBlank ([lit "port", lit "add", port, dir, name] ++ rest)))) := by
  cases hvalid : validateCompPort I (portParams "attach" port dir operation vid pcp) with
  | error e => simp only [vfCompPort, validateVfCompPort, hvalid, bind, Except.bind]
  | ok u =>
    have hcut : ∀ ws : List Str, ∀ v p, ws ++ [lit "add_vlantag", v, p] =
        ws ++ [lit "add_vlantag"] ++ [v] ++ [p] := by simp
    obtain ⟨rfl, rfl⟩ | ⟨rfl, rfl⟩ | ⟨rfl, v, p, rfl, rfl, rfl⟩ := h
    · simp only [vfCompPort, validateVfCompPort, hvalid, bind, Except.bind]
      rfl
    · rw [joinBlank_append (by simp)]
      simp only [vfCompPort, validateVfCompPort, hvalid, bind, Except.bind]
      rfl
    · rw [hcut, joinBlank_append (by simp), joinBlank_append (by simp),
        joinBlank_append (by simp)]
      simp only [vfCompPort, validateVfCompPort, hvalid, bind, Except.bind]
      rfl

/-- The command of a request that attaches a port. -/
theorem vfCompPort_attach_iff {name port dir : Str} {operation : String} {vid pcp : Json}
    {rest : List Str} {data : List UInt8} (h : AddsWords operation vid pcp rest) :
    vfCompPort I name (portParams "attach" port dir operation vid pcp) = .ok data ↔
      ((∃ d, IsWordFor dirWords dir d) ∧ IsUid I portTypes port) ∧
        encode (joinBlank ([lit "port", lit "add", port, dir, name] ++ rest)) = some data := by
  have haction : (Json.str (lit "attach")).inStrs ["attach", "detach"] = true := by decide
  rw [vfCompPort_attach_eq h, unit_bind_eq_ok, execCommand_some, validateCompPort_iff haction]

/-- The command of a request that detaches a port. -/
theorem vfCompPort_detach_iff {name port dir : Str} {operation : String} {vid pcp : Json}
    {data : List UInt8} :
    vfCompPort I name (portParams "detach" port dir operation vid pcp) = .ok data ↔
      ((∃ d, IsWordFor dirWords dir d) ∧ IsUid I portTypes port) ∧
        encode (joinBlank [lit "port", lit "del", port, dir, name]) = some data := by
  have heq : vfCompPort I name (portParams "detach" port dir operation vid pcp) =
      (validateCompPort I (portParams "detach" port dir operation vid pcp) >>= fun _ =>
        execCommand (some (joinBlank [lit "port", lit "del", port, dir, name]))) := by
    cases hvalid : validateCompPort I (portParams "detach" port dir operation vid pcp) with
    | error e => simp only [vfCompPort, validateVfCompPort, hvalid, bind, Except.bind]
    | ok u =>
      simp only [vfCompPort, validateVfCompPort, hvalid, bind, Except.bind]
      rfl
  have haction : (Json.str (lit "detach")).inStrs ["attach", "detach"] = true := by decide
  rw [heq, unit_bind_eq_ok, execCommand_some, validateCompPort_iff haction]

/-- A request for a port is none for the classifier table. -/
theorem vfClassifier_portParams {action : String} {port dir : Str} {operation : String}
    {vid pcp : Json} {data : List UInt8} :
    vfClassifier I eui (portParams action port dir operation vid pcp) ≠ .ok data := by
  intro h
  have hkeys : requireKeys ["action", "type", "port", "mac_address"]
      (portParams action port dir operation vid pcp) = .error (keyRequired "type") := rfl
  simp only [vfClassifier, validateVfClassifier, hkeys, bind, Except.bind] at h
  cases h

/-- A MAC address that passes its check. -/
def MacChecked (eui : Eui) (mac : Str) : Prop := mac = lit "default" ∨ eui (.str mac) = true

/-- The check of a MAC address. -/
theorem macChecked_iff {mac : Str} :
    (if (Json.str mac).eqStr (lit "default") = true then (.ok () : Except Exc Unit)
      else validateMac eui (.str mac)) = .ok () ↔ MacChecked eui mac := by
  unfold MacChecked validateMac
  rw [Json.eqStr_str]
  by_cases h : mac = lit "default"
  · simp [h]
  · simp [h, check_eq_ok]

/-- A body for the classifier table has these fields, in any order. -/
structure HasEntry (body : Body) (action type mac uid : Str) : Prop where
  action : body.lookup (lit "action") = some (.str action)
  type : body.lookup (lit "type") = some (.str type)
  port : body.lookup (lit "port") = some (.str uid)
  mac : body.lookup (lit "mac_address") = some (.str mac)

/-- The words of the kind of an entry. -/
theorem vfClassifier_iff {body : Body} {action type mac uid : Str} {data : List UInt8}
    (h : HasEntry body action type mac uid) :
    vfClassifier I eui body = .ok data ↔
      ((∃ a, IsWordFor editWords action a) ∧ IsUid I portTypes uid ∧ MacChecked eui mac) ∧
        (type = lit "mac" ∧ encode (joinBlank [lit "classifier_table", action, lit "mac", mac,
            uid]) = some data ∨
          type = lit "vlan" ∧ ∃ v, body.lookup (lit "vlan") = some v ∧ (Python.int I v).isSome ∧
            encode (joinBlank [lit "classifier_table", action, lit "vlan", str I v, mac, uid]) =
              some data) := by
  have hkeys : requireKeys ["action", "type", "port", "mac_address"] body = .ok () := by
    apply requireKeys_ok
    simp only [List.forall_mem_cons, List.not_mem_nil, false_implies, implies_true,
      h.action, h.type, h.port, h.mac, ne_eq, reduceCtorEq, not_false_eq_true, and_self]
  have hunit : ∀ P : Unit → Prop, (∃ u, P u) ↔ P () :=
    fun P => ⟨fun ⟨_, hu⟩ => hu, fun hu => ⟨(), hu⟩⟩
  have hactions : ["add", "del"] = editWords.map Prod.fst := rfl
  have hvalid : validateVfClassifier I eui body = .ok () ↔
      (∃ a, IsWordFor editWords action a) ∧
        (Json.str type).inStrs ["mac", "vlan"] = true ∧ IsUid I portTypes uid ∧
        MacChecked eui mac ∧ (if (Json.str type).eqStr (lit "vlan") = true then
          orInvalid (getItem body "vlan" >>= fun v => intOf I v >>= fun _ => .ok ())
          else .ok ()) = .ok () := by
    simp only [validateVfClassifier, hkeys, getItem_eq h.action, getItem_eq h.type,
      getItem_eq h.port, getItem_eq h.mac, hactions, bind_eq_ok, check_eq_ok, inStrs_iff,
      validatePort_str_iff, macChecked_iff, Except.ok.injEq, exists_eq_left', hunit,
      true_and]
  have hword : ∀ a, IsWordFor editWords action a →
      lit (if (Json.str action).eqStr (lit "add") = true then "add" else "del") = action := by
    rintro a ⟨w, hw, rfl⟩
    obtain heq | heq : (w, a) = ("add", .add) ∨ (w, a) = ("del", .del) := by
      simpa [editWords] using hw
    · obtain ⟨rfl, -⟩ := Prod.mk.inj heq
      rfl
    · obtain ⟨rfl, -⟩ := Prod.mk.inj heq
      rfl
  have hsend : vfClassifier I eui body = .ok data ↔ validateVfClassifier I eui body = .ok () ∧
      (if (Json.str type).eqStr (lit "mac") = true then
        classifierTable I (if (Json.str action).eqStr (lit "add") = true then "add" else "del")
          (.str mac) (.str uid)
      else getItem body "vlan" >>= fun v => classifierTableWithVlan I
        (if (Json.str action).eqStr (lit "add") = true then "add" else "del") (.str mac)
          (.str uid) v) = .ok data := by
    simp only [vfClassifier, bind_eq_ok, getItem_eq h.action, getItem_eq h.type,
      getItem_eq h.port, getItem_eq h.mac, Except.ok.injEq, exists_eq_left', hunit]
  -- the type decides which of the commands is built
  have hmacType : (Json.str (lit "mac")).eqStr (lit "mac") = true := rfl
  have hvlanType : (Json.str (lit "vlan")).eqStr (lit "mac") = false := rfl
  have hmacVlan : (Json.str (lit "mac")).eqStr (lit "vlan") = false := rfl
  have hvlanVlan : (Json.str (lit "vlan")).eqStr (lit "vlan") = true := rfl
  rw [hsend, hvalid]
  constructor
  · rintro ⟨⟨⟨a, ha⟩, htype, huid, hmac, hvlan⟩, hsent⟩
    refine ⟨⟨⟨a, ha⟩, huid, hmac⟩, ?_⟩
    obtain ⟨t, ht, heq⟩ := Json.inStrs_eq_true.mp htype
    obtain rfl := Json.str.inj heq
    obtain rfl | rfl : t = "mac" ∨ t = "vlan" := by simpa using ht
    · rw [hmacType, if_pos rfl, classifierTable, execCommand_some, hword a ha] at hsent
      exact .inl ⟨rfl, hsent⟩
    · rw [hvlanType, if_neg Bool.false_ne_true, bind_eq_ok] at hsent
      obtain ⟨v, hv, hsent⟩ := hsent
      rw [classifierTableWithVlan, execCommand_some, hword a ha] at hsent
      have hlookup : body.lookup (lit "vlan") = some v := by
        unfold getItem at hv
        split at hv
        · rename_i w hw
          rw [hw, Except.ok.inj hv]
        · cases hv
      refine .inr ⟨rfl, v, hlookup, ?_, hsent⟩
      rw [hvlanVlan, if_pos rfl, hv] at hvlan
      cases hint : Python.int I v with
      | none => simp [intOf, hint, bind, Except.bind, orInvalid, keyInvalid] at hvlan
      | some n => rfl
  · rintro ⟨⟨⟨a, ha⟩, huid, hmac⟩, ⟨rfl, hsent⟩ | ⟨rfl, v, hv, hint, hsent⟩⟩
    · refine ⟨⟨⟨a, ha⟩, by decide, huid, hmac, by rw [hmacVlan, if_neg Bool.false_ne_true]⟩, ?_⟩
      rw [hmacType, if_pos rfl, classifierTable, execCommand_some, hword a ha]
      exact hsent
    · obtain ⟨n, hn⟩ := Option.isSome_iff_exists.mp hint
      refine ⟨⟨⟨a, ha⟩, by decide, huid, hmac, ?_⟩, ?_⟩
      · rw [hvlanVlan, if_pos rfl, getItem_eq hv]
        simp only [intOf, hn, bind, Except.bind, orInvalid]
      · rw [hvlanType, if_neg Bool.false_ne_true, bind_eq_ok]
        refine ⟨v, getItem_eq hv, ?_⟩
        rw [classifierTableWithVlan, execCommand_some, hword a ha]
        exact hsent

end Handlers

section LeadsTo

variable (I : Interpreter) (eui : Eui) (W : Web) (secId : ℕ)

/-- What the tokens after the name of a `port` command become when the port is attached. -/
inductive AttachTail : Str → List Str → List Str → Prop
  | none : AttachTail (lit "add") [] []
  | five (action option : Str) : AttachTail action [option] [lit "del_vlantag"]
  | add {vid pcp : Str} {v p : ℤ} (action : Str) (hvid : intOfStr I vid = some v)
    (hpcp : intOfStr I pcp = some p) :
    AttachTail action [lit "add_vlantag", vid, pcp] [lit "add_vlantag", intText v, intText p]
  | del {vid pcp : Str} (action : Str) (hvid : (intOfStr I vid).isSome)
    (hpcp : (intOfStr I pcp).isSome) :
    AttachTail action [lit "del_vlantag", vid, pcp] [lit "del_vlantag"]

/-- The words of the commands that a list of tokens leads to, and their process. -/
inductive LeadsTo : List Str → ℕ → List Str → Prop
  | start {name core type : Str} {n : ℤ} (more : List Str) (hcore : intOfStr I core = some n)
    (htype : ∃ t, IsWordFor roleWords type t) :
    LeadsTo (lit "component" :: lit "start" :: name :: core :: type :: more) secId
      [lit "component", lit "start", name, intText n, type]
  | exit {name : Str} {id : ℕ} (more : List Str)
    (hroute : W.delete (componentPath secId name) = some (.vfExit id)) :
    LeadsTo (lit "component" :: lit "stop" :: name :: more) id [lit "exit"]
  | stop {name name' : Str} {id : ℕ} (more : List Str)
    (hroute : W.delete (componentPath secId name) = some (.vfCompStop id name')) :
    LeadsTo (lit "component" :: lit "stop" :: name :: more) id
      [lit "component", lit "stop", name']
  | attach {action uid dir name name' : Str} {id : ℕ} {option rest : List Str}
    (huid : IsUid I portTypes uid) (hdir : ∃ d, IsWordFor dirWords dir d)
    (hroute : W.put (portsPath secId name) = some (.vfCompPort id name'))
    (htail : AttachTail I action option rest) :
    LeadsTo (lit "port" :: action :: uid :: dir :: name :: option) id
      (lit "port" :: lit "add" :: uid :: dir :: name' :: rest)
  | detach {uid dir name name' : Str} {id : ℕ} (huid : IsUid I portTypes uid)
    (hdir : ∃ d, IsWordFor dirWords dir d)
    (hroute : W.put (portsPath secId name) = some (.vfCompPort id name')) :
    LeadsTo [lit "port", lit "del", uid, dir, name] id [lit "port", lit "del", uid, dir, name']
  | mac {action mac uid : Str} {vlan : List Str} (hvlan : vlan.length ≤ 1)
    (haction : ∃ a, IsWordFor editWords action a) (huid : IsUid I portTypes uid)
    (hmac : MacChecked eui mac) :
    LeadsTo (lit "classifier_table" :: action :: lit "mac" :: (vlan ++ [mac, uid])) secId
      [lit "classifier_table", action, lit "mac", mac, uid]
  | vlan {action mac uid vid : Str} (haction : ∃ a, IsWordFor editWords action a)
    (huid : IsUid I portTypes uid) (hmac : MacChecked eui mac)
    (hvid : (intOfStr I vid).isSome) :
    LeadsTo [lit "classifier_table", action, lit "vlan", vid, mac, uid] secId
      [lit "classifier_table", action, lit "vlan", vid, mac, uid]

variable {I eui W secId}

/-- A parameter that is there. -/
theorem param_eq_ok {params : List Str} {i : ℕ} {p : Str} :
    param params i = .ok p ↔ params[i]? = some p := by
  unfold param
  cases params[i]? <;> simp

/-- A parameter that is a number. -/
theorem intParam_eq_ok {p : Str} {n : ℤ} : intParam I p = .ok n ↔ intOfStr I p = some n := by
  unfold intParam
  cases intOfStr I p <;> simp

/-- Two steps of the CLI end well if both do. -/
theorem cliBind_eq_ok {α β : Type} {x : Except CliExc α} {f : α → Except CliExc β} {b : β} :
    (x >>= f) = .ok b ↔ ∃ a, x = .ok a ∧ f a = .ok b := by
  cases x with
  | error e => simp [bind, Except.bind]
  | ok a => simp [bind, Except.bind]

/-- The requests of `_run_component`, parameter by parameter. -/
theorem runComponent_eq_ok {params : List Str} {r : RestRequest} :
    runComponent I secId params = .ok (some r) ↔
      ∃ action, params[0]? = some action ∧
        ((action = lit "start" ∧ ∃ name, params[1]? = some name ∧ ∃ core, params[2]? = some core ∧
            ∃ n, intOfStr I core = some n ∧ ∃ type, params[3]? = some type ∧
              .post (componentsPath secId)
                [(lit "name", .str name), (lit "core", .int n), (lit "type", .str type)] = r) ∨
          (action = lit "stop" ∧ ∃ name, params[1]? = some name ∧
            .delete (componentPath secId name) = r)) := by
  have hwords : lit "stop" ≠ lit "start" := by decide
  unfold runComponent
  rw [cliBind_eq_ok]
  simp only [param_eq_ok]
  refine exists_congr fun action => and_congr_right' ?_
  by_cases hstart : action = lit "start"
  · subst hstart
    simp only [if_true, cliBind_eq_ok, param_eq_ok, intParam_eq_ok, Except.ok.injEq, true_and,
      Option.some.injEq, hwords.symm, false_and, or_false]
  · by_cases hstop : action = lit "stop"
    · subst hstop
      simp only [hwords, if_false, if_true, cliBind_eq_ok, param_eq_ok, Except.ok.injEq, true_and,
        Option.some.injEq, false_and, false_or]
    · simp only [hstart, hstop, if_false, false_and, or_false, Except.ok.injEq, reduceCtorEq]

/-- What a start sends. -/
theorem sends_post_iff {id : ℕ} {params : Body} {data : List UInt8} :
    Sends I eui W (.post (componentsPath secId) params) id data ↔
      secId = id ∧ vfCompStart I params = .ok data := by
  simp only [Sends, serve, W.post_components, Option.map_some, Option.some.injEq, Prod.mk.injEq]

/-- What a stop sends. -/
theorem sends_delete_iff {id : ℕ} {path : Str} {data : List UInt8} :
    Sends I eui W (.delete path) id data ↔
      (W.delete path = some (.vfExit id) ∧ encode (joinBlank [lit "exit"]) = some data) ∨
        ∃ name, W.delete path = some (.vfCompStop id name) ∧
          encode (joinBlank [lit "component", lit "stop", name]) = some data := by
  have hexit : joinBlank [lit "exit"] = lit "exit" := rfl
  rw [hexit]
  cases hroute : W.delete path with
  | none => simp [Sends, serve, hroute]
  | some route =>
    cases route with
    | vfExit k => simp [Sends, serve, hroute, vfExit, execCommand_some]
    | vfCompStop k name' => simp [Sends, serve, hroute, vfCompStop, execCommand_some, and_assoc]

/-- What a request for a port sends. -/
theorem sends_port_iff {id : ℕ} {path : Str} {action : String} {port dir : Str}
    {operation : String} {vid pcp : Json} {data : List UInt8} :
    Sends I eui W (.put path (portParams action port dir operation vid pcp)) id data ↔
      ∃ name, W.put path = some (.vfCompPort id name) ∧
        vfCompPort I name (portParams action port dir operation vid pcp) = .ok data := by
  cases hroute : W.put path with
  | none => simp [Sends, serve, hroute]
  | some route =>
    cases route with
    | vfCompPort k name' => simp [Sends, serve, hroute, and_assoc]
    | vfClassifier k => simp [Sends, serve, hroute, vfClassifier_portParams]

/-- What a request for the classifier table sends. -/
theorem sends_classifier_iff {id : ℕ} {params : Body} {data : List UInt8} :
    Sends I eui W (.put (classifierTablePath secId) params) id data ↔
      secId = id ∧ vfClassifier I eui params = .ok data := by
  simp only [Sends, serve, W.put_classifierTable, Option.map_some, Option.some.injEq,
    Prod.mk.injEq]

/-- What a `component` line sends. -/
theorem component_sends {params : List Str} {id : ℕ} {data : List UInt8} {r : RestRequest}
    (hrun : runComponent I secId params = .ok (some r)) (hsends : Sends I eui W r id data) :
    ∃ ws, LeadsTo I eui W secId (lit "component" :: params) id ws ∧
      encode (joinBlank ws) = some data := by
  obtain ⟨action, haction, ⟨rfl, name, hname, core, hcore, n, hn, type, htype, rfl⟩ |
    ⟨rfl, name, hname, rfl⟩⟩ := runComponent_eq_ok.mp hrun
  · obtain ⟨rfl, hstart⟩ := sends_post_iff.mp hsends
    obtain ⟨hrole, hdata⟩ := vfCompStart_iff.mp hstart
    match params, haction, hname, hcore, htype with
    | _ :: _ :: _ :: _ :: more, haction, hname, hcore, htype =>
      obtain rfl := Option.some.inj haction
      obtain rfl := Option.some.inj hname
      obtain rfl := Option.some.inj hcore
      obtain rfl := Option.some.inj htype
      exact ⟨_, .start more hn hrole, hdata⟩
  · match params, haction, hname with
    | _ :: _ :: more, haction, hname =>
      obtain rfl := Option.some.inj haction
      obtain rfl := Option.some.inj hname
      obtain ⟨hroute, hdata⟩ | ⟨name', hroute, hdata⟩ := sends_delete_iff.mp hsends
      · exact ⟨_, .exit more hroute, hdata⟩
      · exact ⟨_, .stop more hroute, hdata⟩

/-- What a `port` line sends. -/
theorem port_sends {params : List Str} {id : ℕ} {data : List UInt8} {r : RestRequest}
    (hrun : runPort I secId params = .ok (some r)) (hsends : Sends I eui W r id data) :
    ∃ ws, LeadsTo I eui W secId (lit "port" :: params) id ws ∧
      encode (joinBlank ws) = some data := by
  -- the numbers of parameters that lead to a request are 4, 5 and 7
  unfold runPort at hrun
  split at hrun
  · rename_i action port dir name
    split_ifs at hrun with hadd hdel
    · obtain rfl := Option.some.inj (Except.ok.inj hrun)
      obtain ⟨name', hroute, hport⟩ := sends_port_iff.mp hsends
      obtain ⟨⟨hdir, huid⟩, hdata⟩ := (vfCompPort_attach_iff (.inl ⟨rfl, rfl⟩)).mp hport
      rw [hadd]
      exact ⟨_, .attach huid hdir hroute .none, hdata⟩
    · obtain rfl := Option.some.inj (Except.ok.inj hrun)
      obtain ⟨name', hroute, hport⟩ := sends_port_iff.mp hsends
      obtain ⟨⟨hdir, huid⟩, hdata⟩ := vfCompPort_detach_iff.mp hport
      rw [hdel]
      exact ⟨_, .detach huid hdir hroute, hdata⟩
    · cases hrun
  · rename_i action port dir name option
    obtain rfl := Option.some.inj (Except.ok.inj hrun)
    obtain ⟨name', hroute, hport⟩ := sends_port_iff.mp hsends
    obtain ⟨⟨hdir, huid⟩, hdata⟩ := (vfCompPort_attach_iff (.inr (.inl ⟨rfl, rfl⟩))).mp hport
    exact ⟨_, .attach huid hdir hroute (.five action option), hdata⟩
  · rename_i action port dir name option vid pcp
    have hsteps : ∃ op v p, (option = lit "add_vlantag" ∧ op = "add" ∨
          option = lit "del_vlantag" ∧ op = "del") ∧ intOfStr I vid = some v ∧
        intOfStr I pcp = some p ∧ .put (portsPath secId name)
          (portParams "attach" port dir op (.int v) (.int p)) = r := by
      dsimp only at hrun
      split_ifs at hrun with hadd hdel
      · simp only [cliBind_eq_ok, intParam_eq_ok, Except.ok.injEq, exists_eq_left',
          Option.some.injEq] at hrun
        obtain ⟨v, hv, p, hp, hr⟩ := hrun
        exact ⟨"add", v, p, .inl ⟨hadd, rfl⟩, hv, hp, hr⟩
      · simp only [cliBind_eq_ok, intParam_eq_ok, Except.ok.injEq, exists_eq_left',
          Option.some.injEq] at hrun
        obtain ⟨v, hv, p, hp, hr⟩ := hrun
        exact ⟨"del", v, p, .inr ⟨hdel, rfl⟩, hv, hp, hr⟩
      · cases hrun
    obtain ⟨op, v, p, ⟨rfl, rfl⟩ | ⟨rfl, rfl⟩, hv, hp, rfl⟩ := hsteps
    · obtain ⟨name', hroute, hport⟩ := sends_port_iff.mp hsends
      obtain ⟨⟨hdir, huid⟩, hdata⟩ :=
        (vfCompPort_attach_iff (.inr (.inr ⟨rfl, v, p, rfl, rfl, rfl⟩))).mp hport
      exact ⟨_, .attach huid hdir hroute (.add action hv hp), hdata⟩
    · obtain ⟨name', hroute, hport⟩ := sends_port_iff.mp hsends
      obtain ⟨⟨hdir, huid⟩, hdata⟩ := (vfCompPort_attach_iff (.inr (.inl ⟨rfl, rfl⟩))).mp hport
      have hvid : (intOfStr I vid).isSome := by rw [hv]; rfl
      have hpcp : (intOfStr I pcp).isSome := by rw [hp]; rfl
      exact ⟨_, .attach huid hdir hroute (.del action hvid hpcp), hdata⟩
  · cases hrun

/-- What a `classifier_table` line sends. -/
theorem clsTable_sends {params : List Str} {id : ℕ} {data : List UInt8} {r : RestRequest}
    (hrun : runClsTable secId params = .ok (some r)) (hsends : Sends I eui W r id data) :
    ∃ ws, LeadsTo I eui W secId (lit "classifier_table" :: params) id ws ∧
      encode (joinBlank ws) = some data := by
  unfold runClsTable at hrun
  split at hrun
  · rename_i action type mac port
    obtain rfl := Option.some.inj (Except.ok.inj hrun)
    obtain ⟨rfl, hclassifier⟩ := sends_classifier_iff.mp hsends
    obtain ⟨⟨haction, huid, hmac⟩, ⟨rfl, hdata⟩ | ⟨-, v, hv, -⟩⟩ :=
      (vfClassifier_iff ⟨rfl, rfl, rfl, rfl⟩).mp hclassifier
    · exact ⟨_, .mac (by decide : ([] : List Str).length ≤ 1) haction huid hmac, hdata⟩
    · cases hv
  · rename_i action type vlan mac port
    obtain rfl := Option.some.inj (Except.ok.inj hrun)
    obtain ⟨rfl, hclassifier⟩ := sends_classifier_iff.mp hsends
    obtain ⟨⟨haction, huid, hmac⟩, ⟨rfl, hdata⟩ | ⟨rfl, v, hv, hvid, hdata⟩⟩ :=
      (vfClassifier_iff ⟨rfl, rfl, rfl, rfl⟩).mp hclassifier
    · exact ⟨_, .mac (Nat.le_refl [vlan].length) haction huid hmac, hdata⟩
    · obtain rfl := Option.some.inj hv
      exact ⟨_, .vlan haction huid hmac hvid, hdata⟩
  · cases hrun

/-- The request for seven parameters. -/
theorem runPort_seven (action : Str) {port dir name option vid pcp : Str} {op : String} {v p : ℤ}
    (hop : option = lit "add_vlantag" ∧ op = "add" ∨ option = lit "del_vlantag" ∧ op = "del")
    (hvid : intOfStr I vid = some v) (hpcp : intOfStr I pcp = some p) :
    runPort I secId [action, port, dir, name, option, vid, pcp] = .ok (some
      (.put (portsPath secId name) (portParams "attach" port dir op (.int v) (.int p)))) := by
  have hne : lit "del_vlantag" ≠ lit "add_vlantag" := by decide
  rw [← intParam_eq_ok] at hvid hpcp
  obtain ⟨rfl, rfl⟩ | ⟨rfl, rfl⟩ := hop
  · simp only [runPort, if_true, hvid, hpcp, bind, Except.bind]
  · simp only [runPort, if_neg hne, if_true, hvid, hpcp, bind, Except.bind]

/-- What a list of tokens leads to is sent. -/
theorem LeadsTo.sends {ts ws : List Str} {id : ℕ} {data : List UInt8}
    (h : LeadsTo I eui W secId ts id ws) (hdata : encode (joinBlank ws) = some data) :
    ∃ r, runTokens I secId ts = .ok (some r) ∧ Sends I eui W r id data := by
  cases h with
  | start more hcore htype =>
    refine ⟨_, ?_, sends_post_iff.mpr ⟨rfl, vfCompStart_iff.mpr ⟨htype, hdata⟩⟩⟩
    exact runComponent_eq_ok.mpr
      ⟨_, rfl, .inl ⟨rfl, _, rfl, _, rfl, _, hcore, _, rfl, rfl⟩⟩
  | exit more hroute =>
    refine ⟨_, ?_, sends_delete_iff.mpr (.inl ⟨hroute, hdata⟩)⟩
    exact runComponent_eq_ok.mpr ⟨_, rfl, .inr ⟨rfl, _, rfl, rfl⟩⟩
  | stop more hroute =>
    refine ⟨_, ?_, sends_delete_iff.mpr (.inr ⟨_, hroute, hdata⟩)⟩
    exact runComponent_eq_ok.mpr ⟨_, rfl, .inr ⟨rfl, _, rfl, rfl⟩⟩
  | @attach action uid dir name name' id option rest huid hdir hroute htail =>
    cases htail with
    | none =>
      exact ⟨_, rfl, sends_port_iff.mpr ⟨_, hroute,
        (vfCompPort_attach_iff (.inl ⟨rfl, rfl⟩)).mpr ⟨⟨hdir, huid⟩, hdata⟩⟩⟩
    | five =>
      exact ⟨_, rfl, sends_port_iff.mpr ⟨_, hroute,
        (vfCompPort_attach_iff (.inr (.inl ⟨rfl, rfl⟩))).mpr ⟨⟨hdir, huid⟩, hdata⟩⟩⟩
    | add _ hvid hpcp =>
      refine ⟨_, runPort_seven action (.inl ⟨rfl, rfl⟩) hvid hpcp,
        sends_port_iff.mpr ⟨_, hroute, ?_⟩⟩
      exact (vfCompPort_attach_iff (.inr (.inr ⟨rfl, _, _, rfl, rfl, rfl⟩))).mpr
        ⟨⟨hdir, huid⟩, hdata⟩
    | del _ hvid hpcp =>
      obtain ⟨v, hv⟩ := Option.isSome_iff_exists.mp hvid
      obtain ⟨p, hp⟩ := Option.isSome_iff_exists.mp hpcp
      refine ⟨_, runPort_seven action (.inr ⟨rfl, rfl⟩) hv hp, sends_port_iff.mpr ⟨_, hroute, ?_⟩⟩
      exact (vfCompPort_attach_iff (.inr (.inl ⟨rfl, rfl⟩))).mpr ⟨⟨hdir, huid⟩, hdata⟩
  | detach huid hdir hroute =>
    exact ⟨_, rfl, sends_port_iff.mpr ⟨_, hroute,
      vfCompPort_detach_iff.mpr ⟨⟨hdir, huid⟩, hdata⟩⟩⟩
  | @mac action mac uid vlan hvlan haction huid hmac =>
    match vlan, hvlan with
    | [], _ =>
      exact ⟨_, rfl, sends_classifier_iff.mpr ⟨rfl, (vfClassifier_iff ⟨rfl, rfl, rfl, rfl⟩).mpr
        ⟨⟨haction, huid, hmac⟩, .inl ⟨rfl, hdata⟩⟩⟩⟩
    | [v], _ =>
      exact ⟨_, rfl, sends_classifier_iff.mpr ⟨rfl, (vfClassifier_iff ⟨rfl, rfl, rfl, rfl⟩).mpr
        ⟨⟨haction, huid, hmac⟩, .inl ⟨rfl, hdata⟩⟩⟩⟩
  | vlan haction huid hmac hvid =>
    exact ⟨_, rfl, sends_classifier_iff.mpr ⟨rfl, (vfClassifier_iff ⟨rfl, rfl, rfl, rfl⟩).mpr
      ⟨⟨haction, huid, hmac⟩, .inr ⟨rfl, _, rfl, hvid, hdata⟩⟩⟩⟩

/-- The first token is one of a command that changes the state. -/
def FirstToken (ts : List Str) : Prop :=
  ts.head? = some (lit "component") ∨ ts.head? = some (lit "port") ∨
    ts.head? = some (lit "classifier_table")

/-- The commands that a list of tokens leads to are those that are sent. -/
theorem sends_iff {ts : List Str} (hfirst : FirstToken ts) {id : ℕ} {data : List UInt8} :
    (∃ r, runTokens I secId ts = .ok (some r) ∧ Sends I eui W r id data) ↔
      ∃ ws, LeadsTo I eui W secId ts id ws ∧ encode (joinBlank ws) = some data := by
  constructor
  · rintro ⟨r, hrun, hsends⟩
    cases ts with
    | nil => cases hrun
    | cons cmd params =>
      obtain h | h | h := hfirst
      · obtain rfl := Option.some.inj h
        exact component_sends hrun hsends
      · obtain rfl := Option.some.inj h
        exact port_sends hrun hsends
      · obtain rfl := Option.some.inj h
        exact clsTable_sends hrun hsends
  · rintro ⟨ws, hleads, hdata⟩
    exact hleads.sends hdata

end LeadsTo

section Texts

variable {I : Interpreter} {eui : Eui} {W : Web} {secId : ℕ}

/-- The tokens of words with blanks between them. -/
theorem tokens_joinBlank {ws : List Str} (hne : ws ≠ []) :
    tokens (joinBlank ws) = ws.flatMap tokens := splitOn_intercalate_flatMap 32 hne

/-- A string without a blank is one token. -/
theorem tokens_singleton {w : Str} (h : 32 ∉ w) : tokens w = [w] := List.splitOn_eq_singleton h

/-- A string is the only one of its tokens if there is only one. -/
theorem eq_of_tokens_eq {w t : Str} (h : tokens w = [t]) : w = t := by
  have hjoin : [32].intercalate (tokens w) = w := List.intercalate_splitOn 32
  rw [h] at hjoin
  simpa [List.intercalate] using hjoin.symm

/-- The words of strings with blanks between them. -/
theorem words_joinBlank {ws : List Str} (hne : ws ≠ []) :
    wordsOf (joinBlank ws) = ws.flatMap wordsOf := wordsOf_intercalate hne

/-- The words of a command have no blank, and none is empty. -/
theorem clean_lits : ∀ s ∈ ["component", "start", "stop", "port", "add", "del", "del_vlantag",
    "add_vlantag", "classifier_table", "mac", "vlan", "exit"], 32 ∉ lit s ∧ lit s ≠ [] := by
  decide

/-- A word for a value has no blank, can be encoded and is not empty. -/
theorem IsWordFor.clean {α : Type} {table : List (String × α)} {token : Str} {x : α}
    (h : IsWordFor table token x) (htable : ∀ w ∈ table.map Prod.fst, 32 ∉ lit w ∧ lit w ≠ []) :
    32 ∉ token ∧ token ≠ [] ∧ IsText token := by
  obtain ⟨w, hw, rfl⟩ := h
  obtain ⟨hblank, hne⟩ := htable w (List.mem_map.mpr ⟨_, hw, rfl⟩)
  exact ⟨hblank, hne, fun _ hc => encodable_lit hc⟩

/-- A resource UID is not empty and can be encoded. -/
theorem IsUid.text {types : List String} {uid : Str} (hI : I.Textual) (h : IsUid I types uid) :
    uid ≠ [] ∧ IsText uid := by
  obtain ⟨t, -, num, rfl, -, hnum⟩ := h
  obtain ⟨n, hn⟩ := Option.isSome_iff_exists.mp hnum
  have hcolon : Python.Encodable 58 := by decide
  refine ⟨by simp, ?_⟩
  simp only [IsText, List.forall_mem_append, List.forall_mem_cons]
  exact ⟨fun _ hc => encodable_lit hc, hcolon, isText_of_intOfStr hI hn⟩

/-- The port types of `spp_vf` are among those of `_validate_port`. -/
theorem IsUid.valid {uid : Str} (h : IsUid I vfPortTypes uid) : IsUid I portTypes uid := by
  have hsubset : ∀ t ∈ vfPortTypes, t ∈ portTypes := by decide
  obtain ⟨t, ht, num, huid⟩ := h
  exact ⟨t, hsubset t ht, num, huid⟩

/-- Clean words are the words of the text that they make. -/
theorem words_eq_of_clean {ws : List Str} (h : ∀ w ∈ ws, 32 ∉ w ∧ w ≠ []) :
    ws.flatMap wordsOf = ws := by
  induction ws with
  | nil => rfl
  | cons w ws ih =>
    obtain ⟨hblank, hne⟩ := h w List.mem_cons_self
    rw [List.flatMap_cons, wordsOf_singleton hblank hne,
      ih fun v hv => h v (List.mem_cons_of_mem _ hv)]
    rfl

/-- Words without blanks are the tokens of the text that they make. -/
theorem tokens_eq_of_clean {ws : List Str} (h : ∀ w ∈ ws, 32 ∉ w) :
    ws.flatMap tokens = ws := by
  induction ws with
  | nil => rfl
  | cons w ws ih =>
    rw [List.flatMap_cons, tokens_singleton (h w List.mem_cons_self),
      ih fun v hv => h v (List.mem_cons_of_mem _ hv)]
    rfl

/-- The tail of an attached port has no blanks. -/
theorem AttachTail.clean {action : Str} {option rest : List Str}
    (h : AttachTail I action option rest) : ∀ w ∈ rest, 32 ∉ w ∧ w ≠ [] ∧ IsText w := by
  have hadd : 32 ∉ lit "add_vlantag" ∧ lit "add_vlantag" ≠ [] := by decide
  have hdel : 32 ∉ lit "del_vlantag" ∧ lit "del_vlantag" ≠ [] := by decide
  have hlit : ∀ s, IsText (lit s) := fun s _ hc => encodable_lit hc
  cases h with
  | none => exact fun w hw => absurd hw List.not_mem_nil
  | five =>
    intro w hw
    obtain rfl := List.mem_singleton.mp hw
    exact ⟨hdel.1, hdel.2, hlit _⟩
  | add =>
    simp only [List.forall_mem_cons, List.not_mem_nil, false_implies, implies_true, and_true]
    exact ⟨⟨hadd.1, hadd.2, hlit _⟩,
      ⟨blank_notMem_intText _, intText_ne_nil _, isText_intText _⟩,
      ⟨blank_notMem_intText _, intText_ne_nil _, isText_intText _⟩⟩
  | del =>
    intro w hw
    obtain rfl := List.mem_singleton.mp hw
    exact ⟨hdel.1, hdel.2, hlit _⟩

end Texts

section Commands

variable {I : Interpreter} {eui : Eui} {W : Web} {secId : ℕ}

/-- A literal can be encoded. -/
theorem isText_lit (s : String) : IsText (lit s) := fun _ hc => encodable_lit hc

/-- A start reaches its process as the same start. -/
theorem start_kept {ts : List Str} {name : Str} {core : ℤ} {type : Vf.ComponentType}
    (hI : I.Textual) (hblank : ∀ t ∈ ts, 32 ∉ t) (h : Spells I eui ts (.start name core type)) :
    (∃ ws, LeadsTo I eui W secId ts secId ws ∧ IsText (joinBlank ws) ∧
        Spells I eui (tokens (joinBlank ws)) (.start name core type)) ↔
      (∀ t ∈ ts, IsText t) ∧ Carried W secId ts := by
  obtain ⟨c, t, rfl, hname, hcore, htype⟩ := h
  have hwords : 32 ∉ lit "component" ∧ 32 ∉ lit "start" := by decide
  have hrole : 32 ∉ t ∧ t ≠ [] ∧ IsText t := htype.clean (by decide)
  simp only [List.forall_mem_cons, List.not_mem_nil, false_implies, implies_true, and_true]
    at hblank ⊢
  constructor
  · rintro ⟨ws, hleads, htext, -⟩
    generalize hts : [lit "component", lit "start", name, c, t] = ts at hleads
    cases hleads with
    | start more hcore' htype' =>
      simp only [List.cons.injEq, true_and] at hts
      obtain ⟨rfl, rfl, rfl, rfl⟩ := hts
      have htexts := isText_intercalate.mp htext
      simp only [List.forall_mem_cons] at htexts
      refine ⟨⟨isText_lit _, isText_lit _, htexts.2.2.1, isText_of_intOfStr hI hcore,
        hrole.2.2⟩, ?_, ?_⟩
      · intro name' h
        simp at h
      · intro a u d name' rest h
        simp at h
    | _ => simp at hts
  · rintro ⟨⟨-, -, htext, -, -⟩, -⟩
    refine ⟨_, .start [] hcore ⟨type, htype⟩, ?_, ?_⟩
    · refine isText_intercalate.mpr ?_
      simp only [List.forall_mem_cons, List.not_mem_nil, false_implies, implies_true, and_true]
      exact ⟨isText_lit _, isText_lit _, htext, isText_intText _, hrole.2.2⟩
    · rw [tokens_joinBlank (List.cons_ne_nil _ _), tokens_eq_of_clean]
      · exact ⟨_, _, rfl, hname, intOfStr_intText core, htype⟩
      · simp only [List.forall_mem_cons, List.not_mem_nil, false_implies, implies_true, and_true]
        exact ⟨hwords.1, hwords.2, hblank.2.2.1, blank_notMem_intText _, hrole.1⟩

/-- A stop reaches its process as the same stop. -/
theorem stop_kept {ts : List Str} {name : Str} (hblank : ∀ t ∈ ts, 32 ∉ t)
    (h : Spells I eui ts (.stop name)) :
    (∃ ws, LeadsTo I eui W secId ts secId ws ∧ IsText (joinBlank ws) ∧
        Spells I eui (tokens (joinBlank ws)) (.stop name)) ↔
      (∀ t ∈ ts, IsText t) ∧ Carried W secId ts := by
  obtain ⟨rfl, hname⟩ := h
  have hwords : 32 ∉ lit "component" ∧ 32 ∉ lit "stop" := by decide
  simp only [List.forall_mem_cons, List.not_mem_nil, false_implies, implies_true, and_true]
    at hblank ⊢
  constructor
  · rintro ⟨ws, hleads, htext, hspells⟩
    generalize hts : [lit "component", lit "stop", name] = ts at hleads
    cases hleads with
    | exit more hroute =>
      have hexit : 32 ∉ lit "exit" := by decide
      rw [tokens_joinBlank (List.cons_ne_nil _ _), tokens_eq_of_clean (by simpa using hexit)]
        at hspells
      obtain ⟨hwrong, -⟩ := hspells
      simp at hwrong
    | @stop name₁ name' _ more hroute =>
      simp only [List.cons.injEq, true_and] at hts
      obtain ⟨rfl, rfl⟩ := hts
      rw [tokens_joinBlank (List.cons_ne_nil _ _)] at hspells
      obtain ⟨hsame, -⟩ := hspells
      simp only [List.flatMap_cons, List.flatMap_nil, tokens_singleton hwords.1,
        tokens_singleton hwords.2, List.append_nil, List.singleton_append, List.cons.injEq,
        true_and] at hsame
      obtain rfl := eq_of_tokens_eq hsame
      refine ⟨⟨isText_lit _, isText_lit _, W.delete_isText _ _ _ hroute⟩, ?_, ?_⟩
      · intro name₁ h
        simp only [List.cons.injEq, true_and, and_true] at h
        rw [← h]
        exact hroute
      · intro a u d name₁ rest h
        simp at h
    | _ => simp at hts
  · rintro ⟨⟨-, -, htext⟩, hcarried⟩
    refine ⟨_, .stop [] (hcarried.stop name rfl), ?_, ?_⟩
    · refine isText_intercalate.mpr ?_
      simp only [List.forall_mem_cons, List.not_mem_nil, false_implies, implies_true, and_true]
      exact ⟨isText_lit _, isText_lit _, htext⟩
    · rw [tokens_joinBlank (List.cons_ne_nil _ _), tokens_eq_of_clean]
      · exact ⟨rfl, hname⟩
      · simp only [List.forall_mem_cons, List.not_mem_nil, false_implies, implies_true, and_true]
        exact ⟨hwords.1, hwords.2, hblank.2.2⟩

/-- The word of an action is its own. -/
theorem editWord_eq {a : Str} {action : Vf.CommandAction} (h : IsWordFor editWords a action) :
    action = .add ∧ a = lit "add" ∨ action = .del ∧ a = lit "del" := by
  obtain ⟨w, hw, rfl⟩ := h
  simp only [editWords, List.mem_cons, Prod.mk.injEq, List.not_mem_nil, or_false] at hw
  obtain ⟨rfl, rfl⟩ | ⟨rfl, rfl⟩ := hw
  · exact .inl ⟨rfl, rfl⟩
  · exact .inr ⟨rfl, rfl⟩

/-- A documented operation becomes a tail that spells the same operation. -/
theorem VlanSpells.exists_tail {option : List Str} {vlan : VlanOption}
    (h : VlanSpells I .add option vlan) :
    ∃ rest, AttachTail I (lit "add") option rest ∧ VlanSpells I .add rest vlan := by
  cases vlan with
  | none =>
    obtain rfl : option = [] := h
    exact ⟨[], .none, rfl⟩
  | del =>
    obtain ⟨-, rfl⟩ := h
    exact ⟨_, .five _ _, rfl, rfl⟩
  | add vid pcp =>
    obtain ⟨-, v, p, rfl, hv, hp⟩ := h
    exact ⟨_, .add _ hv hp, rfl, _, _, rfl, intOfStr_intText vid, intOfStr_intText pcp⟩

/-- Every tail that a documented operation becomes is as long as one that spells it. -/
theorem AttachTail.length_eq {a : Str} {action : Vf.CommandAction} {option rest rest' : List Str}
    {vlan : VlanOption} (h : AttachTail I a option rest) (hoption : VlanSpells I action option vlan)
    (hrest : VlanSpells I action rest' vlan) : rest.length = rest'.length := by
  cases vlan with
  | none =>
    obtain rfl : rest' = [] := hrest
    cases h with
    | none => rfl
    | _ => cases hoption
  | del =>
    obtain ⟨-, hoption⟩ := hoption
    obtain ⟨-, rfl⟩ := hrest
    cases h with
    | five => rfl
    | _ => simp at hoption
  | add vid pcp =>
    obtain ⟨-, v, p, hv, -⟩ := hoption
    obtain ⟨-, v', p', rfl, -⟩ := hrest
    cases h with
    | none => cases hv
    | five => simp at hv
    | add => rfl
    | del => simp at hv

/-- The tokens of a documented operation can be encoded. -/
theorem VlanSpells.text {action : Vf.CommandAction} {option : List Str} {vlan : VlanOption}
    (hI : I.Textual) (h : VlanSpells I action option vlan) : ∀ t ∈ option, IsText t := by
  cases vlan with
  | none =>
    obtain rfl : option = [] := h
    exact fun t ht => absurd ht List.not_mem_nil
  | del =>
    obtain ⟨-, rfl⟩ := h
    intro t ht
    rw [List.mem_singleton.mp ht]
    exact isText_lit _
  | add vid pcp =>
    obtain ⟨-, v, p, rfl, hv, hp⟩ := h
    simp only [List.forall_mem_cons, List.not_mem_nil, false_implies, implies_true, and_true]
    exact ⟨isText_lit _, isText_of_intOfStr hI hv, isText_of_intOfStr hI hp⟩

/-- A name before a tail is kept if the text spells the command with the name. -/
theorem name_eq_of_tokens {name name' : Str} {rest rest' : List Str}
    (hclean : ∀ w ∈ rest, 32 ∉ w) (hlength : rest.length = rest'.length)
    (h : tokens name' ++ rest.flatMap tokens = name :: rest') : name' = name := by
  rw [tokens_eq_of_clean hclean] at h
  have hcount := congrArg List.length h
  simp only [List.length_append, List.length_cons] at hcount
  obtain ⟨t, ht⟩ := List.length_eq_one_iff.mp (by omega : (tokens name').length = 1)
  rw [ht, List.singleton_append] at h
  rw [eq_of_tokens_eq ht, (List.cons.inj h).1]

/-- The tokens of the text of a port command: its name may have become several. -/
theorem tokens_portText {a : String} (ha : 32 ∉ lit a) {uid d name : Str} {rest : List Str}
    {dir : Vf.PortRxtx} (huid : 32 ∉ uid) (hd : IsWordFor dirWords d dir) :
    tokens (joinBlank (lit "port" :: lit a :: uid :: d :: name :: rest)) =
      lit "port" :: lit a :: uid :: d :: (tokens name ++ rest.flatMap tokens) := by
  have hport : 32 ∉ lit "port" := by decide
  rw [tokens_joinBlank (List.cons_ne_nil _ _)]
  simp only [List.flatMap_cons, tokens_singleton hport, tokens_singleton ha,
    tokens_singleton huid, tokens_singleton (hd.clean (by decide)).1, List.singleton_append]

/-- A text that spells a port command with a tail of its length has the name. -/
theorem Spells.name_eq {a : String} (ha : 32 ∉ lit a) {uid d name name' : Str} {rest : List Str}
    {action : Vf.CommandAction} {uid' : Str} {dir dir' : Vf.PortRxtx} {vlan : VlanOption}
    (huid : 32 ∉ uid) (hd : IsWordFor dirWords d dir) (hclean : ∀ w ∈ rest, 32 ∉ w)
    (hlength : ∀ rest', VlanSpells I action rest' vlan → rest.length = rest'.length)
    (h : Spells I eui (tokens (joinBlank (lit "port" :: lit a :: uid :: d :: name' :: rest)))
      (.port action uid' dir' name vlan)) : name' = name := by
  rw [tokens_portText ha huid hd] at h
  obtain ⟨a₁, d₁, rest', heq, -, -, -, -, hrest⟩ := h
  simp only [List.cons.injEq, true_and] at heq
  exact name_eq_of_tokens hclean (hlength rest' hrest) heq.2.2.2

/-- A port command reaches its process as the same command. -/
theorem port_kept {ts : List Str} {action : Vf.CommandAction} {uid : Str} {dir : Vf.PortRxtx}
    {name : Str} {vlan : VlanOption} (hI : I.Textual) (hblank : ∀ t ∈ ts, 32 ∉ t)
    (h : Spells I eui ts (.port action uid dir name vlan)) :
    (∃ ws, LeadsTo I eui W secId ts secId ws ∧ IsText (joinBlank ws) ∧
        Spells I eui (tokens (joinBlank ws)) (.port action uid dir name vlan)) ↔
      (∀ t ∈ ts, IsText t) ∧ Carried W secId ts := by
  obtain ⟨a, d, option, rfl, ha, huid, hd, hname, hoption⟩ := h
  have hadd : 32 ∉ lit "add" := by decide
  have hdel : 32 ∉ lit "del" := by decide
  simp only [List.forall_mem_cons] at hblank
  constructor
  · rintro ⟨ws, hleads, -, hspells⟩
    suffices hroute : W.put (portsPath secId name) = some (.vfCompPort secId name) by
      refine ⟨?_, ?_, ?_⟩
      · simp only [List.forall_mem_cons]
        exact ⟨isText_lit _, (ha.clean (by decide)).2.2, (huid.text hI).2,
          (hd.clean (by decide)).2.2, W.put_isText _ _ _ hroute, hoption.text hI⟩
      · intro name₁ h
        simp at h
      · intro a₁ u d₁ name₁ rest h
        simp only [List.cons.injEq, true_and] at h
        rw [← h.2.2.2.1]
        exact hroute
    generalize hts : lit "port" :: a :: uid :: d :: name :: option = ts at hleads
    cases hleads with
    | attach huid' hdir hroute htail =>
      simp only [List.cons.injEq, true_and] at hts
      obtain ⟨rfl, rfl, rfl, rfl, rfl⟩ := hts
      have hsame := hspells.name_eq hadd hblank.2.2.1 hd (fun w hw => (htail.clean w hw).1)
        fun rest' hrest => htail.length_eq hoption hrest
      rw [hroute, hsame]
    | detach huid' hdir hroute =>
      simp only [List.cons.injEq, true_and] at hts
      obtain ⟨rfl, rfl, rfl, rfl, rfl⟩ := hts
      have hsame := hspells.name_eq hdel hblank.2.2.1 hd (fun w hw => absurd hw List.not_mem_nil)
        fun rest' hrest => by
          cases vlan with
          | none =>
            obtain rfl : rest' = [] := hrest
            rfl
          | del => cases hoption.2
          | add vid pcp =>
            obtain ⟨-, v, p, hnone, -⟩ := hoption
            cases hnone
      rw [hroute, hsame]
    | _ => simp at hts
  · rintro ⟨htext, hcarried⟩
    have hroute := hcarried.port _ _ _ _ _ rfl
    simp only [List.forall_mem_cons] at htext
    obtain ⟨rfl, rfl⟩ | ⟨rfl, rfl⟩ := editWord_eq ha
    · obtain ⟨rest, htail, hrest⟩ := hoption.exists_tail
      refine ⟨_, .attach huid.valid ⟨dir, hd⟩ hroute htail, ?_, ?_⟩
      · refine isText_intercalate.mpr ?_
        simp only [List.forall_mem_cons]
        exact ⟨isText_lit _, isText_lit _, htext.2.2.1, htext.2.2.2.1, htext.2.2.2.2.1,
          fun w hw => (htail.clean w hw).2.2⟩
      · rw [tokens_portText hadd hblank.2.2.1 hd, tokens_singleton hblank.2.2.2.2.1,
          tokens_eq_of_clean fun w hw => (htail.clean w hw).1]
        exact ⟨_, _, _, rfl, ha, huid, hd, hname, hrest⟩
    · have hnone : option = [] ∧ vlan = .none := by
        cases vlan with
        | none => exact ⟨hoption, rfl⟩
        | del => cases hoption.1
        | add vid pcp => cases hoption.1
      obtain ⟨rfl, rfl⟩ := hnone
      refine ⟨_, .detach huid.valid ⟨dir, hd⟩ hroute, ?_, ?_⟩
      · refine isText_intercalate.mpr ?_
        simp only [List.forall_mem_cons]
        exact ⟨isText_lit _, isText_lit _, htext.2.2.1, htext.2.2.2.1, htext.2.2.2.2.1,
          fun w hw => absurd hw List.not_mem_nil⟩
      · rw [tokens_portText hdel hblank.2.2.1 hd, tokens_singleton hblank.2.2.2.2.1]
        exact ⟨_, _, _, rfl, ha, huid, hd, hname, rfl⟩

/-- A command on a table entry reaches its process as it is. -/
theorem classifier_kept {ts : List Str} {action : Vf.CommandAction} {vid : Option ℤ}
    {mac uid : Str} (hblank : ∀ t ∈ ts, 32 ∉ t)
    (h : Spells I eui ts (.classifier action vid mac uid)) :
    (∃ ws, LeadsTo I eui W secId ts secId ws ∧ IsText (joinBlank ws) ∧
        Spells I eui (tokens (joinBlank ws)) (.classifier action vid mac uid)) ↔
      (∀ t ∈ ts, IsText t) ∧ Carried W secId ts := by
  have hspells := h
  obtain ⟨a, kind, rfl, ha, hkind, hmac, huid⟩ := h
  have hsame : LeadsTo I eui W secId (lit "classifier_table" :: a :: (kind ++ [mac, uid])) secId
      (lit "classifier_table" :: a :: (kind ++ [mac, uid])) := by
    cases vid with
    | none =>
      obtain rfl : kind = [lit "mac"] := hkind
      exact LeadsTo.mac (W := W) (by decide : ([] : List Str).length ≤ 1) ⟨action, ha⟩
        huid.valid hmac.2
    | some v =>
      obtain ⟨t, rfl, ht⟩ := hkind
      exact .vlan ⟨action, ha⟩ huid.valid hmac.2 (by rw [ht]; rfl)
  constructor
  · rintro ⟨ws, hleads, htext, -⟩
    have hws : ws = lit "classifier_table" :: a :: (kind ++ [mac, uid]) := by
      generalize hts : lit "classifier_table" :: a :: (kind ++ [mac, uid]) = ts at hleads
      cases hleads with
      | @mac action' mac' uid' vlan hvlan =>
        simp only [List.cons.injEq, true_and] at hts
        obtain ⟨rfl, hts⟩ := hts
        cases vid with
        | none =>
          obtain rfl : kind = [lit "mac"] := hkind
          match vlan, hvlan with
          | [], _ =>
            simp only [List.cons_append, List.nil_append, List.cons.injEq, true_and,
              and_true] at hts
            obtain ⟨rfl, rfl⟩ := hts
            rfl
          | [v], _ => simp at hts
        | some v =>
          obtain ⟨t, rfl, -⟩ := hkind
          simp at hts
      | vlan => rfl
      | _ => simp at hts
    rw [hws] at htext
    refine ⟨isText_intercalate.mp htext, ?_, ?_⟩
    · intro name h
      simp at h
    · intro a₁ u d name rest h
      simp at h
  · rintro ⟨htext, -⟩
    refine ⟨_, hsame, isText_intercalate.mpr htext, ?_⟩
    rw [tokens_joinBlank (List.cons_ne_nil _ _), tokens_eq_of_clean hblank]
    exact hspells

/-- A command that a line spells reaches its process as the same command. -/
theorem command_kept {ts : List Str} {c : VfCommand} (hI : I.Textual)
    (hblank : ∀ t ∈ ts, 32 ∉ t) (h : Spells I eui ts c) :
    (∃ ws, LeadsTo I eui W secId ts secId ws ∧ IsText (joinBlank ws) ∧
        Spells I eui (tokens (joinBlank ws)) c) ↔
      (∀ t ∈ ts, IsText t) ∧ Carried W secId ts := by
  cases c with
  | start => exact start_kept hI hblank h
  | stop => exact stop_kept hblank h
  | port => exact port_kept hI hblank h
  | classifier => exact classifier_kept hblank h

end Commands

section Others

variable {I : Interpreter} {eui : Eui} {W : Web} {secId : ℕ}

/-- Words that spell a command at their beginning. -/
def BeginsCommand (I : Interpreter) (eui : Eui) (ws : List Str) : Prop :=
  ∃ ts, ts <+: ws ∧ ∃ c, Spells I eui ts c

/-- A command may change the state if it does not begin with `exit` but with a command. -/
theorem stateChanging_iff {ws : List Str} (hne : ws ≠ [])
    (hexit : (ws.flatMap wordsOf).head? ≠ some (lit "exit")) :
    StateChanging I eui (joinBlank ws) ↔ BeginsCommand I eui (ws.flatMap wordsOf) := by
  unfold StateChanging BeginsCommand
  rw [words_joinBlank hne]
  exact or_iff_right hexit

/-- Words that begin with a port command name a port of `spp_vf`. -/
theorem BeginsCommand.port {a uid : Str} {ws : List Str}
    (h : BeginsCommand I eui (lit "port" :: a :: uid :: ws)) : IsUid I vfPortTypes uid := by
  obtain ⟨ts, hprefix, c, hspells⟩ := h
  cases c with
  | start name core type =>
    obtain ⟨c, t, rfl, -⟩ := hspells
    simp at hprefix
  | stop name =>
    obtain ⟨rfl, -⟩ := hspells
    simp at hprefix
  | port action uid' dir name vlan =>
    obtain ⟨a', d, rest, rfl, -, huid, -⟩ := hspells
    simp only [List.cons_prefix_cons] at hprefix
    rw [← hprefix.2.2.1]
    exact huid
  | classifier action vid mac uid' =>
    obtain ⟨a', kind, rfl, -⟩ := hspells
    simp at hprefix

/-- Words that begin with a start have a name, a core and a type. -/
theorem BeginsCommand.start {ws : List Str}
    (h : BeginsCommand I eui (lit "component" :: lit "start" :: ws)) : 3 ≤ ws.length := by
  obtain ⟨ts, hprefix, c, hspells⟩ := h
  cases c with
  | start name core type =>
    obtain ⟨c, t, rfl, -⟩ := hspells
    have hlength := hprefix.length_le
    simp only [List.length_cons, List.length_nil] at hlength
    omega
  | stop name =>
    obtain ⟨rfl, -⟩ := hspells
    simp at hprefix
  | port action uid' dir name vlan =>
    obtain ⟨a', d, rest, rfl, -⟩ := hspells
    simp at hprefix
  | classifier action vid mac uid' =>
    obtain ⟨a', kind, rfl, -⟩ := hspells
    simp at hprefix

/-- Words that begin with a stop have a name. -/
theorem BeginsCommand.stop {ws : List Str}
    (h : BeginsCommand I eui (lit "component" :: lit "stop" :: ws)) : ws ≠ [] := by
  obtain ⟨ts, hprefix, c, hspells⟩ := h
  cases c with
  | start name core type =>
    obtain ⟨c, t, rfl, -⟩ := hspells
    simp at hprefix
  | stop name =>
    obtain ⟨rfl, -⟩ := hspells
    rintro rfl
    simp at hprefix
  | port action uid' dir name vlan =>
    obtain ⟨a', d, rest, rfl, -⟩ := hspells
    simp at hprefix
  | classifier action vid mac uid' =>
    obtain ⟨a', kind, rfl, -⟩ := hspells
    simp at hprefix

/-- Words that begin with a command on a table entry spell its kind, its address and its
port. -/
theorem BeginsCommand.classifier {a : Str} {ws : List Str}
    (h : BeginsCommand I eui (lit "classifier_table" :: a :: ws)) :
    ∃ kind vid mac uid, EntrySpells I kind vid ∧ IsMacToken eui mac ∧ IsUid I vfPortTypes uid ∧
      kind ++ [mac, uid] <+: ws := by
  obtain ⟨ts, hprefix, c, hspells⟩ := h
  cases c with
  | start name core type =>
    obtain ⟨c, t, rfl, -⟩ := hspells
    simp at hprefix
  | stop name =>
    obtain ⟨rfl, -⟩ := hspells
    simp at hprefix
  | port action uid' dir name vlan =>
    obtain ⟨a', d, rest, rfl, -⟩ := hspells
    simp at hprefix
  | classifier action vid mac uid' =>
    obtain ⟨a', kind, rfl, -, hkind, hmac, huid⟩ := hspells
    simp only [List.cons_prefix_cons] at hprefix
    exact ⟨kind, vid, mac, uid', hkind, hmac, huid, hprefix.2.2⟩

/-- Words of an entry of type `mac` that begin with a command have an address and a port
of `spp_vf`. -/
theorem BeginsCommand.mac_words {a mac uid : Str} (hmac : 32 ∉ mac)
    (h : BeginsCommand I eui (lit "classifier_table" :: a :: lit "mac" :: (wordsOf mac ++ [uid]))) :
    IsMacToken eui mac ∧ IsUid I vfPortTypes uid := by
  obtain ⟨kind, vid, mac', uid', hkind, hmac', huid', hprefix⟩ := h.classifier
  rw [wordsOf_eq hmac] at hprefix
  have hlength := hprefix.length_le
  cases vid with
  | none =>
    obtain rfl : kind = [lit "mac"] := hkind
    split_ifs at hprefix hlength with hempty
    · simp at hlength
    · simp only [List.cons_append, List.nil_append, List.cons_prefix_cons, true_and,
        List.prefix_nil, and_true] at hprefix
      rw [← hprefix.1, ← hprefix.2]
      exact ⟨hmac', huid'⟩
  | some v =>
    obtain ⟨t, rfl, -⟩ := hkind
    simp at hprefix

/-- Words of an entry of type `vlan` that begin with a command have an address and a port
of `spp_vf`. -/
theorem BeginsCommand.vlan_words {a vid mac uid : Str} (hmac : 32 ∉ mac)
    (h : BeginsCommand I eui
      (lit "classifier_table" :: a :: lit "vlan" :: vid :: (wordsOf mac ++ [uid]))) :
    IsMacToken eui mac ∧ IsUid I vfPortTypes uid := by
  obtain ⟨kind, v, mac', uid', hkind, hmac', huid', hprefix⟩ := h.classifier
  rw [wordsOf_eq hmac] at hprefix
  have hlength := hprefix.length_le
  cases v with
  | none =>
    obtain rfl : kind = [lit "mac"] := hkind
    simp at hprefix
  | some v =>
    obtain ⟨t, rfl, -⟩ := hkind
    split_ifs at hprefix hlength with hempty
    · simp at hlength
    · simp only [List.cons_append, List.nil_append, List.cons_prefix_cons, true_and,
        List.prefix_nil, and_true] at hprefix
      rw [← hprefix.2.1, ← hprefix.2.2]
      exact ⟨hmac', huid'⟩

/-- The words of a text that begins with clean words. -/
theorem flatMap_words_cons {w : Str} {ws : List Str} (h : 32 ∉ w ∧ w ≠ []) :
    (w :: ws).flatMap wordsOf = w :: ws.flatMap wordsOf := by
  rw [List.flatMap_cons, wordsOf_singleton h.1 h.2, List.singleton_append]

/-- A command that begins with clean words, other than `exit`, may change the state
exactly if its words begin with a command. -/
theorem stateChanging_cons {w : String} {ws : List Str} (h : 32 ∉ lit w ∧ lit w ≠ [])
    (hexit : w ≠ "exit") :
    StateChanging I eui (joinBlank (lit w :: ws)) ↔
      BeginsCommand I eui (lit w :: ws.flatMap wordsOf) := by
  rw [stateChanging_iff (List.cons_ne_nil _ _), flatMap_words_cons h]
  rw [flatMap_words_cons h]
  simp [hexit]

/-- Whatever follows the direction, a word does: an attached port is a command. -/
theorem beginsCommand_attach {uid d name : Str} {dir : Vf.PortRxtx} {rest : List Str}
    (huid : IsUid I vfPortTypes uid) (hd : IsWordFor dirWords d dir)
    (hrest : rest ≠ []) (hclean : ∀ w ∈ rest, 32 ∉ w ∧ w ≠ []) :
    BeginsCommand I eui (lit "port" :: lit "add" :: uid :: d :: (wordsOf name ++ rest)) := by
  have hadd : IsWordFor editWords (lit "add") .add := ⟨"add", by simp [editWords], rfl⟩
  obtain ⟨w, more, hw⟩ : ∃ w more, wordsOf name ++ rest = w :: more :=
    List.exists_cons_of_ne_nil (by simp [hrest])
  have hne : w ≠ [] := by
    have hmem : w ∈ wordsOf name ++ rest := by rw [hw]; exact List.mem_cons_self
    obtain hmem | hmem := List.mem_append.mp hmem
    · exact (mem_wordsOf hmem).2
    · exact (hclean w hmem).2
  rw [hw]
  refine ⟨[lit "port", lit "add", uid, d, w], by simp, .port .add uid dir w .none, ?_⟩
  exact ⟨_, _, _, rfl, hadd, huid, hd, hne, rfl⟩

/-- The text of an attached port with an operation may change the state. -/
theorem attach_changes {action uid d name : Str} {dir : Vf.PortRxtx} {option rest : List Str}
    (hI : I.Textual) (huid : IsUid I vfPortTypes uid) (hblank : 32 ∉ uid)
    (hd : IsWordFor dirWords d dir) (hname : IsText name) (htail : AttachTail I action option rest)
    (hrest : rest ≠ []) :
    IsText (joinBlank (lit "port" :: lit "add" :: uid :: d :: name :: rest)) ∧
      StateChanging I eui (joinBlank (lit "port" :: lit "add" :: uid :: d :: name :: rest)) := by
  have hclean : ∀ w ∈ rest, 32 ∉ w ∧ w ≠ [] := fun w hw =>
    ⟨(htail.clean w hw).1, (htail.clean w hw).2.1⟩
  have hdir := hd.clean (by decide)
  constructor
  · refine isText_intercalate.mpr ?_
    simp only [List.forall_mem_cons]
    exact ⟨isText_lit _, isText_lit _, (huid.text hI).2, hdir.2.2, hname,
      fun w hw => (htail.clean w hw).2.2⟩
  · rw [stateChanging_cons (clean_lits "port" (by decide)) (by decide),
      flatMap_words_cons (clean_lits "add" (by decide)),
      flatMap_words_cons ⟨hblank, (huid.text hI).1⟩, flatMap_words_cons ⟨hdir.1, hdir.2.1⟩,
      List.flatMap_cons, words_eq_of_clean hclean]
    exact beginsCommand_attach huid hd hrest hclean

/-- What the CLI takes for a command leads to one. -/
theorem Mistakable.leadsTo {ts : List Str} (hI : I.Textual) (hblank : ∀ t ∈ ts, 32 ∉ t)
    (h : Mistakable I eui W secId ts) :
    ∃ id ws, LeadsTo I eui W secId ts id ws ∧ IsText (joinBlank ws) ∧
      StateChanging I eui (joinBlank ws) := by
  have hcomponent := clean_lits "component" (by decide)
  have hport := clean_lits "port" (by decide)
  have hadd := clean_lits "add" (by decide)
  cases h with
  | @start name core type more hname htext hcore htype =>
    obtain ⟨n, hn⟩ := Option.isSome_iff_exists.mp hcore
    obtain ⟨t, ht⟩ := htype
    simp only [List.forall_mem_cons] at hblank
    have hrole := ht.clean (by decide)
    refine ⟨_, _, .start more hn ⟨t, ht⟩, isText_intercalate.mpr ?_, ?_⟩
    · simp only [List.forall_mem_cons, List.not_mem_nil, false_implies, implies_true, and_true]
      exact ⟨isText_lit _, isText_lit _, htext, isText_intText _, hrole.2.2⟩
    · rw [stateChanging_cons hcomponent (by decide), words_eq_of_clean]
      · exact ⟨_, List.prefix_refl _, .start name n t, _, _, rfl, hname, intOfStr_intText n, ht⟩
      · simp only [List.forall_mem_cons, List.not_mem_nil, false_implies, implies_true, and_true]
        exact ⟨clean_lits "start" (by decide), ⟨hblank.2.2.1, hname⟩,
          ⟨blank_notMem_intText n, intText_ne_nil n⟩, hrole.1, hrole.2.1⟩
  | @stop name more hname =>
    obtain ⟨id, hroute | ⟨name', hroute, hwords⟩⟩ := hname
    · refine ⟨_, _, .exit more hroute, isText_lit "exit", .inl ?_⟩
      decide
    · refine ⟨_, _, .stop more hroute, isText_intercalate.mpr ?_, ?_⟩
      · simp only [List.forall_mem_cons, List.not_mem_nil, false_implies, implies_true, and_true]
        exact ⟨isText_lit _, isText_lit _, W.delete_isText _ _ _ hroute⟩
      · obtain ⟨w, rest, hw⟩ := List.exists_cons_of_ne_nil hwords
        have hne : w ≠ [] := (mem_wordsOf (hw ▸ List.mem_cons_self : w ∈ wordsOf name')).2
        rw [stateChanging_cons hcomponent (by decide),
          flatMap_words_cons (clean_lits "stop" (by decide)), List.flatMap_cons, hw]
        exact ⟨[lit "component", lit "stop", w], by simp, .stop w, rfl, hne⟩
  | @five uid dir name action option huid hdir hname =>
    obtain ⟨id, name', hroute⟩ := hname
    obtain ⟨d, hd⟩ := hdir
    simp only [List.forall_mem_cons] at hblank
    exact ⟨_, _, .attach huid.valid ⟨d, hd⟩ hroute (.five action option),
      attach_changes hI huid hblank.2.2.1 hd (W.put_isText _ _ _ hroute) (.five action option)
        (List.cons_ne_nil _ _)⟩
  | @seven uid dir name option vid pcp action huid hdir hname hoption hvid hpcp =>
    obtain ⟨id, name', hroute⟩ := hname
    obtain ⟨d, hd⟩ := hdir
    simp only [List.forall_mem_cons] at hblank
    have htail : ∃ rest, AttachTail I action [option, vid, pcp] rest ∧ rest ≠ [] := by
      obtain rfl | rfl := hoption
      · obtain ⟨v, hv⟩ := Option.isSome_iff_exists.mp hvid
        obtain ⟨p, hp⟩ := Option.isSome_iff_exists.mp hpcp
        exact ⟨_, .add action hv hp, List.cons_ne_nil _ _⟩
      · exact ⟨_, .del action hvid hpcp, List.cons_ne_nil _ _⟩
    obtain ⟨rest, htail, hrest⟩ := htail
    exact ⟨_, _, .attach huid.valid ⟨d, hd⟩ hroute htail,
      attach_changes hI huid hblank.2.2.1 hd (W.put_isText _ _ _ hroute) htail hrest⟩
  | @mac action mac uid vlan haction hmac htext huid =>
    obtain ⟨a, ha⟩ := haction
    simp only [List.forall_mem_cons] at hblank
    have haction := ha.clean (by decide)
    refine ⟨_, _, .mac (Nat.le_refl [vlan].length) ⟨a, ha⟩ huid.valid hmac.2,
      isText_intercalate.mpr ?_, ?_⟩
    · simp only [List.forall_mem_cons, List.not_mem_nil, false_implies, implies_true, and_true]
      exact ⟨isText_lit _, haction.2.2, isText_lit _, htext, (huid.text hI).2⟩
    · rw [stateChanging_cons (clean_lits "classifier_table" (by decide)) (by decide),
        words_eq_of_clean]
      · exact ⟨_, List.prefix_refl _, .classifier a none mac uid, action, [lit "mac"], rfl, ha,
          rfl, hmac, huid⟩
      · simp only [List.forall_mem_cons, List.not_mem_nil, false_implies, implies_true, and_true]
        exact ⟨⟨haction.1, haction.2.1⟩, clean_lits "mac" (by decide),
          ⟨hblank.2.2.2.2.1, hmac.1⟩, hblank.2.2.2.2.2.1, (huid.text hI).1⟩

/-- What leads to a command is a command, or is taken for one. -/
theorem LeadsTo.mistakable {ts ws : List Str} {id : ℕ} (hI : I.Textual)
    (hblank : ∀ t ∈ ts, 32 ∉ t) (h : LeadsTo I eui W secId ts id ws)
    (htext : IsText (joinBlank ws)) (hchanging : StateChanging I eui (joinBlank ws)) :
    (∃ c, Spells I eui ts c) ∨ Mistakable I eui W secId ts := by
  have hport := clean_lits "port" (by decide)
  have hcomponent := clean_lits "component" (by decide)
  have hclassifier := clean_lits "classifier_table" (by decide)
  have htexts := isText_intercalate.mp htext
  cases h with
  | @start name core type n more hcore htype =>
    obtain ⟨t, ht⟩ := htype
    simp only [List.forall_mem_cons] at hblank htexts
    have hcoreSome : (intOfStr I core).isSome := by rw [hcore]; rfl
    refine .inr (.start more ?_ htexts.2.2.1 hcoreSome ⟨t, ht⟩)
    rintro rfl
    have hrole := ht.clean (by decide)
    rw [stateChanging_cons hcomponent (by decide),
      flatMap_words_cons (clean_lits "start" (by decide)), List.flatMap_cons] at hchanging
    have hcount := hchanging.start
    have hempty : wordsOf ([] : Str) = [] := rfl
    rw [hempty, flatMap_words_cons ⟨blank_notMem_intText n, intText_ne_nil n⟩,
      flatMap_words_cons ⟨hrole.1, hrole.2.1⟩] at hcount
    simp at hcount
  | exit more hroute => exact .inr (.stop more ⟨_, .inl hroute⟩)
  | @stop name name' id more hroute =>
    refine .inr (.stop more ⟨_, .inr ⟨name', hroute, ?_⟩⟩)
    rw [stateChanging_cons hcomponent (by decide),
      flatMap_words_cons (clean_lits "stop" (by decide))] at hchanging
    simpa using hchanging.stop
  | @attach action uid dir name name' id option rest huid hdir hroute htail =>
    obtain ⟨d, hd⟩ := hdir
    simp only [List.forall_mem_cons] at hblank
    rw [stateChanging_cons hport (by decide), flatMap_words_cons (clean_lits "add" (by decide)),
      flatMap_words_cons ⟨hblank.2.2.1, (huid.text hI).1⟩] at hchanging
    have huid' := hchanging.port
    have hname : Attaches W secId name := ⟨_, _, hroute⟩
    cases htail with
    | none =>
      refine .inl ⟨.port .add uid d name .none, _, _, _, rfl, ⟨"add", by simp [editWords], rfl⟩,
        huid', hd, ?_, rfl⟩
      rintro rfl
      rw [W.put_noName] at hroute
      cases hroute
    | five => exact .inr (.five _ _ huid' ⟨d, hd⟩ hname)
    | add _ hvid hpcp =>
      exact .inr (.seven _ huid' ⟨d, hd⟩ hname (.inl rfl) (by rw [hvid]; rfl) (by rw [hpcp]; rfl))
    | del _ hvid hpcp => exact .inr (.seven _ huid' ⟨d, hd⟩ hname (.inr rfl) hvid hpcp)
  | @detach uid dir name name' id huid hdir hroute =>
    obtain ⟨d, hd⟩ := hdir
    simp only [List.forall_mem_cons] at hblank
    rw [stateChanging_cons hport (by decide), flatMap_words_cons (clean_lits "del" (by decide)),
      flatMap_words_cons ⟨hblank.2.2.1, (huid.text hI).1⟩] at hchanging
    refine .inl ⟨.port .del uid d name .none, _, _, _, rfl, ⟨"del", by simp [editWords], rfl⟩,
      hchanging.port, hd, ?_, rfl⟩
    rintro rfl
    rw [W.put_noName] at hroute
    cases hroute
  | @mac action mac uid vlan hvlan haction huid hmac =>
    obtain ⟨a, ha⟩ := haction
    have hact := ha.clean (by decide)
    have hblanks : 32 ∉ mac ∧ 32 ∉ uid := by
      constructor
      · exact hblank mac (by simp)
      · exact hblank uid (by simp)
    rw [stateChanging_cons hclassifier (by decide), flatMap_words_cons ⟨hact.1, hact.2.1⟩,
      flatMap_words_cons (clean_lits "mac" (by decide)), List.flatMap_cons,
      flatMap_words_cons ⟨hblanks.2, (huid.text hI).1⟩] at hchanging
    obtain ⟨hmacToken, huid'⟩ := hchanging.mac_words hblanks.1
    match vlan, hvlan with
    | [], _ => exact .inl ⟨.classifier a none mac uid, action, [lit "mac"], rfl, ha, rfl,
        hmacToken, huid'⟩
    | [v], _ =>
      simp only [List.forall_mem_cons] at htexts
      exact .inr (.mac v ⟨a, ha⟩ hmacToken htexts.2.2.2.1 huid')
  | @vlan action mac uid vid haction huid hmac hvid =>
    obtain ⟨a, ha⟩ := haction
    obtain ⟨n, hn⟩ := Option.isSome_iff_exists.mp hvid
    have hact := ha.clean (by decide)
    have hvidNe : vid ≠ [] := by
      rintro rfl
      cases hvid
    simp only [List.forall_mem_cons] at hblank
    rw [stateChanging_cons hclassifier (by decide), flatMap_words_cons ⟨hact.1, hact.2.1⟩,
      flatMap_words_cons (clean_lits "vlan" (by decide)),
      flatMap_words_cons ⟨hblank.2.2.2.1, hvidNe⟩, List.flatMap_cons,
      flatMap_words_cons ⟨hblank.2.2.2.2.2.1, (huid.text hI).1⟩] at hchanging
    obtain ⟨hmacToken, huid'⟩ := hchanging.vlan_words hblank.2.2.2.2.1
    exact .inl ⟨.classifier a (some n) mac uid, action, [lit "vlan", vid], rfl, ha,
      ⟨vid, rfl, hn⟩, hmacToken, huid'⟩

end Others

section Meaning

variable {I : Interpreter} {eui : Eui} {W : Web} {useCache : Bool} {secId : ℕ}

/-- The request of a line follows those of the refresh. -/
theorem run_eq_iff {cmdline : Str} {request : RestRequest} :
    run I secId useCache cmdline = refresh secId useCache ++ [request] ↔
      runTokens I secId (tokens cmdline) = .ok (some request) := by
  unfold run
  rw [List.append_cancel_left_eq]
  cases runTokens I secId (tokens cmdline) with
  | error e => simp
  | ok r => cases r <;> simp

/-- The requests of a line are those of the refresh and its own. -/
theorem mem_run_iff {cmdline : Str} {request : RestRequest} :
    request ∈ run I secId useCache cmdline ↔ request ∈ refresh secId useCache ∨
      runTokens I secId (tokens cmdline) = .ok (some request) := by
  unfold run
  rw [List.mem_append]
  cases runTokens I secId (tokens cmdline) with
  | error e => simp
  | ok r => cases r <;> simp [eq_comm]

/-- The refresh asks for the status, which changes nothing. -/
theorem refresh_harmless {request : RestRequest} (h : request ∈ refresh secId useCache) {id : ℕ}
    {text : Str} {data : List UInt8} (htext : encode text = some data)
    (hsends : Sends I eui W request id data) : ¬ StateChanging I eui text := by
  have hrequest : request = .get (vfPath secId) := by
    unfold refresh at h
    split_ifs at h
    · exact List.mem_singleton.mp h
    · cases h
  have hstatus : encode (lit "status") = some data := by
    rw [hrequest] at hsends
    simp only [Sends, serve, W.get_vf, Option.map_some, Option.some.injEq, Prod.mk.injEq,
      vfGet, execCommand_some] at hsends
    exact hsends.2
  have hwords : wordsOf (lit "status") = [lit "status"] := by decide
  rw [encode_injective htext hstatus]
  rintro (hexit | ⟨ts, hprefix, c, hspells⟩)
  · rw [hwords] at hexit
    simp at hexit
  · rw [hwords] at hprefix
    cases c with
    | start name core type =>
      obtain ⟨c, t, rfl, -⟩ := hspells
      simp at hprefix
    | stop name =>
      obtain ⟨rfl, -⟩ := hspells
      simp at hprefix
    | port action uid dir name vlan =>
      obtain ⟨a, d, rest, rfl, -⟩ := hspells
      simp at hprefix
    | classifier action vid mac uid =>
      obtain ⟨a, kind, rfl, -⟩ := hspells
      simp at hprefix

/-- A line that spells a command keeps its meaning exactly if what it leads to spells the
same command. -/
theorem exists_request_iff {cmdline : Str} {c : VfCommand} (hfirst : FirstToken (tokens cmdline)) :
    (∃ request text data, run I secId useCache cmdline = refresh secId useCache ++ [request] ∧
        encode text = some data ∧ Sends I eui W request secId data ∧
        Spells I eui (tokens text) c) ↔
      ∃ ws, LeadsTo I eui W secId (tokens cmdline) secId ws ∧ IsText (joinBlank ws) ∧
        Spells I eui (tokens (joinBlank ws)) c := by
  constructor
  · rintro ⟨request, text, data, hrun, htext, hsends, hspells⟩
    obtain ⟨ws, hleads, hdata⟩ := (sends_iff hfirst).mp ⟨request, run_eq_iff.mp hrun, hsends⟩
    obtain rfl := encode_injective htext hdata
    exact ⟨ws, hleads, (encode_eq_some.mp hdata).1, hspells⟩
  · rintro ⟨ws, hleads, htext, hspells⟩
    have hdata := encode_eq_some.mpr ⟨htext, rfl⟩
    obtain ⟨request, hrun, hsends⟩ := (sends_iff hfirst).mpr ⟨ws, hleads, hdata⟩
    exact ⟨request, _, _, run_eq_iff.mpr hrun, hdata, hsends, hspells⟩

/-- A line sends nothing that may change the state exactly if it leads to no such text. -/
theorem forall_request_iff {cmdline : Str} (hfirst : FirstToken (tokens cmdline)) :
    (∀ request ∈ run I secId useCache cmdline, ∀ id text data, encode text = some data →
        Sends I eui W request id data → ¬ StateChanging I eui text) ↔
      ∀ id ws, LeadsTo I eui W secId (tokens cmdline) id ws → IsText (joinBlank ws) →
        ¬ StateChanging I eui (joinBlank ws) := by
  constructor
  · intro h id ws hleads htext
    have hdata := encode_eq_some.mpr ⟨htext, rfl⟩
    obtain ⟨request, hrun, hsends⟩ := (sends_iff hfirst).mpr ⟨ws, hleads, hdata⟩
    exact h request (mem_run_iff.mpr (.inr hrun)) id _ _ hdata hsends
  · intro h request hrequest id text data htext hsends
    obtain hrefresh | hrun := mem_run_iff.mp hrequest
    · exact refresh_harmless hrefresh htext hsends
    · obtain ⟨ws, hleads, hdata⟩ := (sends_iff hfirst).mp ⟨request, hrun, hsends⟩
      rw [encode_injective htext hdata]
      exact h id ws hleads (encode_eq_some.mp hdata).1

/-- A `component`, `port` or `classifier_table` line keeps its meaning exactly if it is a
command in text whose name comes through the URL, or is not taken for one. -/
theorem preservesMeaning_iff (hI : I.Textual) {cmdline : Str}
    (hfirst : FirstToken (tokens cmdline)) :
    PreservesMeaning I eui W useCache secId cmdline ↔
      KeptByShell I eui W secId (tokens cmdline) := by
  have hblank : ∀ t ∈ tokens cmdline, 32 ∉ t := fun t ht => notMem_of_mem_splitOn ht
  refine and_congr ?_ ?_
  · simp only [exists_request_iff hfirst]
    constructor
    · rintro h ⟨c, hc⟩
      exact (command_kept hI hblank hc).mp (h c hc)
    · exact fun h c hc => (command_kept hI hblank hc).mpr (h ⟨c, hc⟩)
  · rw [forall_request_iff hfirst]
    refine imp_congr_right fun hnone => ?_
    constructor
    · intro h hmistakable
      obtain ⟨id, ws, hleads, htext, hchanging⟩ := hmistakable.leadsTo hI hblank
      exact h id ws hleads htext hchanging
    · intro h id ws hleads htext hchanging
      obtain hspells | hmistakable := hleads.mistakable hI hblank htext hchanging
      · exact hnone hspells
      · exact h hmistakable

/-- A port that adds a VLAN tag. -/
def addTagLine : Str := lit "port add phy:1 tx fw2 add_vlantag 101 3"

/-- The line keeps its meaning. -/
theorem preservesMeaning_addTagLine :
    PreservesMeaning .ascii euiForms Web.literal false 1 addTagLine := by
  have htokens : tokens addTagLine =
      ["port", "add", "phy:1", "tx", "fw2", "add_vlantag", "101", "3"].map lit := by decide
  have hfirst : FirstToken (tokens addTagLine) := .inr (.inl (by rw [htokens]; rfl))
  refine (preservesMeaning_iff Interpreter.textual_ascii hfirst).mpr ⟨fun _ => ⟨?_, ?_, ?_⟩, ?_⟩
  · rw [htokens]
    decide
  · intro name h
    rw [htokens] at h
    simp at h
  · intro a u d name rest h
    rw [htokens] at h
    simp only [List.map_cons, List.cons.injEq, true_and] at h
    rw [← h.2.2.2.1]
    exact Web.literal.put_ports 1 _ (by decide)
  · intro hnone
    refine absurd ⟨.port .add (lit "phy:1") .tx (lit "fw2") (.add 101 3), ?_⟩ hnone
    rw [htokens]
    exact ⟨_, _, _, rfl, ⟨"add", by decide, rfl⟩,
      ⟨"phy", by decide, lit "1", by decide, by decide, by decide⟩, ⟨"tx", by decide, rfl⟩,
      by decide, rfl, _, _, rfl, by decide, by decide⟩

/-- A deletion with a word more than it takes. -/
def delWordLine : Str := lit "port del phy:0 rx fw1 del_vlantag"

/-- The CLI attaches the port that the line is to delete. -/
theorem not_preservesMeaning_delWordLine :
    ¬ PreservesMeaning .ascii euiForms Web.literal false 1 delWordLine := by
  intro h
  have htokens : tokens delWordLine =
      ["port", "del", "phy:0", "rx", "fw1", "del_vlantag"].map lit := by decide
  have hfirst : FirstToken (tokens delWordLine) := .inr (.inl (by rw [htokens]; rfl))
  have hnone : ¬ ∃ c, Spells .ascii euiForms (tokens delWordLine) c := by
    rintro ⟨c, hc⟩
    rw [htokens] at hc
    cases c with
    | start name core type =>
      obtain ⟨c, t, hwrong, -⟩ := hc
      simp at hwrong
    | stop name =>
      obtain ⟨hwrong, -⟩ := hc
      simp at hwrong
    | port action uid dir name vlan =>
      obtain ⟨a, d, rest, hsame, ha, -, -, -, hrest⟩ := hc
      simp only [List.map_cons, List.map_nil, List.cons.injEq, true_and] at hsame
      obtain ⟨rfl, -, -, -, rfl⟩ := hsame
      have hdel : action = .del := by
        obtain ⟨-, hword⟩ | ⟨hdel, -⟩ := editWord_eq ha
        · simp at hword
        · exact hdel
      subst hdel
      cases vlan with
      | none => cases hrest
      | del => cases hrest.1
      | add vid pcp => cases hrest.1
    | classifier action vid mac uid =>
      obtain ⟨a, kind, hwrong, -⟩ := hc
      simp at hwrong
  have huid : IsUid .ascii vfPortTypes (lit "phy:0") :=
    ⟨"phy", by decide, lit "0", by decide, by decide, by decide⟩
  have hdir : ∃ d, IsWordFor dirWords (lit "rx") d := ⟨.rx, "rx", by decide, rfl⟩
  have hmistakable : Mistakable .ascii euiForms Web.literal 1 (tokens delWordLine) := by
    rw [htokens]
    exact .five _ _ huid hdir ⟨1, lit "fw1", Web.literal.put_ports 1 _ (by decide)⟩
  obtain ⟨id, ws, hleads, htext, hchanging⟩ := hmistakable.leadsTo Interpreter.textual_ascii
    fun t ht => notMem_of_mem_splitOn ht
  exact (forall_request_iff hfirst).mp (h.2 hnone) id ws hleads htext hchanging

end Meaning

end Spp.Ctl
