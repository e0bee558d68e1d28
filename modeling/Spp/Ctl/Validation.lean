import Spp.Ctl.WebApi

/-!
# Validation of REST requests

The bodies that the API reference documents, the command that such a body names,
and when a handler answers the others with status 400. `KeyInvalid` cannot be
constructed, so that only a missing key is answered so.
-/

namespace Spp.Ctl

open Python

section Documented

/-- A member that is there and has a property. -/
def Has (body : Body) (key : String) (P : Json → Prop) : Prop :=
  ∃ v, body.lookup (lit key) = some v ∧ P v

/-- A member that may be left out. -/
def MayHave (body : Body) (key : String) (P : Json → Prop) : Prop :=
  ∀ v, body.lookup (lit key) = some v → P v

/-- One of some words. -/
def IsWord (words : List String) (v : Json) : Prop := ∃ w ∈ words, v = .str (lit w)

/-- A string. -/
def IsString (v : Json) : Prop := ∃ s, v = .str s

/-- An integer. -/
def IsInteger (v : Json) : Prop := ∃ n, v = .int n

/-- Decimal digits. -/
def IsDecimal (s : Str) : Prop := s ≠ [] ∧ ∀ c ∈ s, isDigit c = true

/-- A port `{interface_type}:{interface_id}`. -/
def IsPort (v : Json) : Prop := ∃ t ∈ portTypes, ∃ n, IsDecimal n ∧ v = .str (lit t ++ 58 :: n)

/-- A hexadecimal digit. -/
def isHexDigit (c : ℕ) : Bool :=
  isDigit c || (65 ≤ c && c ≤ 70) || (97 ≤ c && c ≤ 102)

/-- As many fields of hexadecimal digits, with a separator between them. -/
def HexFields (separator count lo hi : ℕ) (s : Str) : Prop :=
  (s.splitOn separator).length = count ∧
    ∀ field ∈ s.splitOn separator, (lo ≤ field.length ∧ field.length ≤ hi) ∧
      ∀ c ∈ field, isHexDigit c = true

/-- The notations of a MAC address: with colons, with dashes, with dots and bare. -/
def IsEui48 (s : Str) : Prop :=
  HexFields 58 6 1 2 s ∨ HexFields 45 6 1 2 s ∨ HexFields 46 3 1 4 s ∨
    (s.length = 12 ∧ ∀ c ∈ s, isHexDigit c = true)

instance (separator count lo hi : ℕ) (s : Str) : Decidable (HexFields separator count lo hi s) :=
  inferInstanceAs (Decidable (_ ∧ _))

instance (s : Str) : Decidable (IsEui48 s) := inferInstanceAs (Decidable (_ ∨ _))

/-- `netaddr.EUI` on the notations above, and on nothing else. -/
def euiForms : Eui
  | .str s => decide (IsEui48 s)
  | _ => false

/-- A MAC address, or the word for packets to no other entry. -/
def IsMac (v : Json) : Prop := ∃ s, v = .str s ∧ (s = lit "default" ∨ IsEui48 s)

/-- A VLAN operation, with the id and the priority of a tag that is added. -/
def IsVlan (v : Json) : Prop :=
  ∃ items, v = .dict items ∧ Has items "operation" (IsWord ["none", "add", "del"]) ∧
    (Has items "operation" (IsWord ["add"]) → Has items "id" IsInteger ∧ Has items "pcp" IsInteger)

/-- The value of an option of a process. -/
def IsOptionValue (v : Json) : Prop := v = .null ∨ IsString v ∨ IsInteger v

/-- Options out of a list, with their values. -/
def IsOptions (known : List String) (v : Json) : Prop :=
  ∃ items, v = .dict items ∧
    ∀ key value, (key, value) ∈ items → (∃ k ∈ known, key = lit k) ∧ IsOptionValue value

/-- EAL options that name the cores and the type of the process. -/
def IsEal (v : Json) : Prop :=
  IsOptions ealOpts v ∧ ∃ items, v = .dict items ∧
    (∃ key ∈ ["-c", "-l", "--lcores"], Has items key fun _ => True) ∧
    Has items "--proc-type" fun _ => True

/-- The component bodies, for a process with the given component types. -/
def IsCompStart (types : List String) (body : Body) : Prop :=
  Has body "name" IsString ∧ Has body "core" IsInteger ∧ Has body "type" (IsWord types)

/-- The bodies that attach and detach a port. -/
def IsCompPort (body : Body) : Prop :=
  Has body "action" (IsWord ["attach", "detach"]) ∧ Has body "port" IsPort ∧
    Has body "dir" (IsWord ["rx", "tx"])

/-- The bodies that the API reference documents. -/
def Documented : Handler → Body → Prop
  | .vfCompStart, body => IsCompStart ["forward", "merge", "classifier_mac"] body
  | .vfCompPort _, body =>
    IsCompPort body ∧ MayHave body "vlan" fun v => v = .null ∨ IsVlan v
  | .vfClassifier, body =>
    Has body "action" (IsWord ["add", "del"]) ∧ Has body "type" (IsWord ["mac", "vlan"]) ∧
      Has body "mac_address" IsMac ∧ Has body "port" IsPort ∧
      (Has body "type" (IsWord ["vlan"]) → Has body "vlan" IsInteger) ∧
      MayHave body "vlan" fun v => v = .null ∨ IsInteger v
  | .mirrorCompStart, body => IsCompStart ["mirror"] body
  | .mirrorCompPort _, body => IsCompPort body
  | .nfvForward, body => Has body "action" (IsWord ["start", "stop"])
  | .nfvPort, body => Has body "action" (IsWord ["add", "del"]) ∧ Has body "port" IsPort
  | .nfvPatchAdd, body => Has body "src" IsPort ∧ Has body "dst" IsPort
  | .launchSecProc, body =>
    Has body "client_id" (fun v => IsInteger v ∨ ∃ s, v = .str s ∧ IsDecimal s) ∧
      Has body "eal" IsEal ∧ ∃ p ∈ appOpts, Has body "proc_name" (fun v => v = .str (lit p.1)) ∧
        Has body "app" (IsOptions p.2)
  | .pcapAction, body => Has body "action" (IsWord ["start", "stop"])

/-- The keys a body must have. -/
def requiredKeys : Handler → List String
  | .vfCompStart => ["name", "core", "type"]
  | .vfCompPort _ => ["action", "port", "dir"]
  | .vfClassifier => ["action", "type", "port", "mac_address"]
  | .mirrorCompStart => ["name", "core", "type"]
  | .mirrorCompPort _ => ["action", "port", "dir"]
  | .nfvForward => ["action"]
  | .nfvPort => ["action", "port"]
  | .nfvPatchAdd => ["src", "dst"]
  | .launchSecProc => ["client_id", "proc_name", "eal", "app"]
  | .pcapAction => ["action"]

/-- A required key is missing. -/
def MissingKey (h : Handler) (body : Body) : Prop :=
  ∃ key ∈ requiredKeys h, body.lookup (lit key) = none

end Documented

section Named

variable (I : Interpreter)

/-- The text of a member. -/
def field (body : Body) (key : String) : Str := (body.lookup (lit key)).elim [] (str I)

/-- A member is a given word. -/
def isField (body : Body) (key word : String) : Bool :=
  (body.lookup (lit key)).any fun v => v.eqStr (lit word)

/-- The words of a VLAN operation. -/
def vlanWords (body : Body) : List Str :=
  match body.lookup (lit "vlan") with
  | some (.dict vlan) =>
    if isField vlan "operation" "add" then [lit "add_vlantag", field I vlan "id", field I vlan "pcp"]
    else if isField vlan "operation" "del" then [lit "del_vlantag"]
    else []
  | _ => []

/-- The words of an option, if it is given: its name, and its value unless it has none. -/
def optionWords (args : Body) (opt : String) : List Str :=
  match args.lookup (lit opt) with
  | none => []
  | some .null => [lit opt]
  | some v => if v.eqStr [] then [lit opt] else [lit opt, str I v]

/-- The options of a member. -/
def optionsText (body : Body) (key : String) (opts : List String) : Str :=
  match body.lookup (lit key) with
  | some (.dict args) => joinBlank (opts.flatMap (optionWords I args))
  | _ => []

/-- The options of the process that a body names. -/
def appOptsNamed (body : Body) : List String :=
  ((appOpts.find? fun p => lit p.1 = field I body "proc_name").map Prod.snd).getD []

/-- The words of the command that a body names. -/
def namedWords : Handler → Body → List Str
  | .vfCompStart, body | .mirrorCompStart, body =>
    [lit "component", lit "start", field I body "name", field I body "core", field I body "type"]
  | .vfCompPort name, body =>
    if isField body "action" "attach" then
      [lit "port", lit "add", field I body "port", field I body "dir", lit name] ++ vlanWords I body
    else [lit "port", lit "del", field I body "port", field I body "dir", lit name]
  | .vfClassifier, body =>
    if isField body "type" "mac" then
      [lit "classifier_table", field I body "action", lit "mac", field I body "mac_address",
        field I body "port"]
    else
      [lit "classifier_table", field I body "action", lit "vlan", field I body "vlan",
        field I body "mac_address", field I body "port"]
  | .mirrorCompPort name, body =>
    [lit "port", if isField body "action" "attach" then lit "add" else lit "del",
      field I body "port", field I body "dir", lit name]
  | .nfvForward, body => [if isField body "action" "start" then lit "forward" else lit "stop"]
  | .nfvPort, body => [field I body "action", field I body "port"]
  | .nfvPatchAdd, body => [lit "patch", field I body "src", field I body "dst"]
  | .launchSecProc, body =>
    [lit "launch", field I body "client_id", field I body "proc_name",
      optionsText I body "eal" ealOpts, lit "--", optionsText I body "app" (appOptsNamed I body)]
  | .pcapAction, body => [field I body "action"]

/-- The command that a body names. -/
def named (h : Handler) (body : Body) : Str := joinBlank (namedWords I h body)

/-- A body is handled as it should be: an incomplete or malformed one is answered with
status 400, and for any other the command it names is sent. -/
def Validated (eui : Eui) (h : Handler) (body : Body) : Prop :=
  (MissingKey h body ∨ ¬ Documented h body →
      ∃ message, handle I eui h body = .error (.httpError 400 message)) ∧
    (¬ MissingKey h body → Documented h body →
      ∃ data, encode (named I h body) = some data ∧ handle I eui h body = .ok data)

end Named

section Exceptions

/-- A computation does not raise an HTTP error. -/
def Silent {α : Type} (x : Except Exc α) : Prop :=
  ∀ status message, x ≠ .error (.httpError status message)

variable {α β : Type}

/-- A value is no error. -/
theorem silent_ok (a : α) : Silent (.ok a : Except Exc α) := fun _ _ h => by cases h

/-- Of two computations in sequence neither raises an HTTP error. -/
theorem Silent.bind {x : Except Exc α} {f : α → Except Exc β} (hx : Silent x)
    (hf : ∀ a, Silent (f a)) : Silent (x >>= f) := by
  intro status message h
  cases x with
  | ok a => exact hf a status message h
  | error e =>
    cases h
    exact hx status message rfl

/-- `body[key]` raises a `KeyError` at most. -/
theorem silent_getItem (body : Body) (key : String) : Silent (getItem body key) := by
  intro status message h
  unfold getItem at h
  split at h <;> cases h

/-- `v[key]` raises no HTTP error. -/
theorem silent_subscript (v : Json) (key : String) : Silent (subscript v key) := by
  unfold subscript
  split
  · exact silent_getItem _ _
  · intro status message h
    cases h

/-- `KeyInvalid` is no HTTP error. -/
theorem silent_check (ok : Bool) : Silent (check ok) := by
  intro status message h
  unfold check at h
  split at h <;> cases h

/-- `KeyInvalid` is no HTTP error. -/
theorem silent_orInvalid (x : Except Exc Unit) : Silent (orInvalid x) := by
  intro status message h
  unfold orInvalid at h
  split at h <;> cases h

/-- Sending a command raises no HTTP error. -/
theorem silent_execCommand (command : Option Str) : Silent (execCommand command) := by
  intro status message h
  unfold execCommand at h
  split at h
  · cases h
  · split at h <;> cases h

/-- The loop over the required keys passes when they are all there. -/
theorem requireKeys_ok {keys : List String} {body : Body}
    (h : ∀ key ∈ keys, body.lookup (lit key) ≠ none) : requireKeys keys body = .ok () := by
  induction keys with
  | nil => rfl
  | cons key keys ih =>
    have hkey : (body.lookup (lit key)).isSome = true :=
      Option.isSome_iff_ne_none.mpr (h key List.mem_cons_self)
    rw [requireKeys, if_pos hkey]
    exact ih fun k hk => h k (List.mem_cons_of_mem key hk)

/-- The loop over the required keys answers the first that is missing. -/
theorem requireKeys_error {keys : List String} {body : Body}
    (h : ∃ key ∈ keys, body.lookup (lit key) = none) :
    ∃ message, requireKeys keys body = .error (.httpError 400 message) := by
  induction keys with
  | nil =>
    obtain ⟨key, hkey, -⟩ := h
    cases hkey
  | cons key keys ih =>
    rw [requireKeys]
    cases hkey : body.lookup (lit key) with
    | none =>
      rw [Option.isSome_none, if_neg Bool.false_ne_true]
      exact ⟨_, rfl⟩
    | some v =>
      rw [Option.isSome_some, if_pos rfl]
      apply ih
      obtain ⟨k, hk, hnone⟩ := h
      obtain rfl | hk' := List.mem_cons.mp hk
      · rw [hkey] at hnone
        cases hnone
      · exact ⟨k, hk', hnone⟩

/-- A branch of two computations raises no HTTP error if neither does. -/
theorem silent_ite {c : Prop} [Decidable c] {x y : Except Exc α} (hx : Silent x) (hy : Silent y) :
    Silent (if c then x else y) := by
  split
  · exact hx
  · exact hy

/-- The HTTP errors of a computation are the answers to a missing key. -/
structure Answers (keys : List String) (body : Body) (x : Except Exc α) : Prop where
  missing : (∃ key ∈ keys, body.lookup (lit key) = none) →
    ∃ message, x = .error (.httpError 400 message)
  only : ∀ status message, x = .error (.httpError status message) →
    ∃ key ∈ keys, body.lookup (lit key) = none

/-- The loop over the required keys answers them. -/
theorem answers_requireKeys (keys : List String) (body : Body) :
    Answers keys body (requireKeys keys body) where
  missing := requireKeys_error
  only status message h := by
    by_contra hall
    rw [requireKeys_ok fun key hkey hnone => hall ⟨key, hkey, hnone⟩] at h
    cases h

/-- What follows adds no HTTP error. -/
theorem Answers.bind {keys : List String} {body : Body} {x : Except Exc α}
    {f : α → Except Exc β} (hx : Answers keys body x) (hf : ∀ a, Silent (f a)) :
    Answers keys body (x >>= f) where
  missing h := by
    obtain ⟨message, hmessage⟩ := hx.missing h
    exact ⟨message, by rw [hmessage]; rfl⟩
  only status message h := by
    cases x with
    | ok a => exact absurd h (hf a status message)
    | error e =>
      cases h
      exact hx.only status message rfl

end Exceptions

section Missing

variable {I : Interpreter} {eui : Eui} {body : Body}

/-- `validate_comp_start` answers a missing key. -/
theorem answers_validateCompStart (types : List String) :
    Answers ["name", "core", "type"] body (validateCompStart body types) := by
  unfold validateCompStart
  refine (answers_requireKeys _ _).bind fun _ => ?_
  refine (silent_getItem _ _).bind fun name => (silent_check _).bind fun _ => ?_
  refine (silent_getItem _ _).bind fun core => (silent_check _).bind fun _ => ?_
  exact (silent_getItem _ _).bind fun type => silent_check _

/-- `validate_comp_port` answers a missing key. -/
theorem answers_validateCompPort :
    Answers ["action", "port", "dir"] body (validateCompPort I body) := by
  unfold validateCompPort
  refine (answers_requireKeys _ _).bind fun _ => ?_
  refine (silent_getItem _ _).bind fun action => (silent_check _).bind fun _ => ?_
  refine (silent_getItem _ _).bind fun dir => (silent_check _).bind fun _ => ?_
  exact (silent_getItem _ _).bind fun port => silent_orInvalid _

/-- The start of a component. -/
theorem silent_startComponent (name core type : Json) :
    Silent (startComponent I name core type) := silent_execCommand _

/-- The command that attaches a port to a component of `spp_vf`. -/
theorem silent_vfPortAdd (port direction : Json) (name : Str) (op : String) (vid pcp : Json) :
    Silent (vfPortAdd I port direction name op vid pcp) := by
  unfold vfPortAdd
  refine silent_ite (silent_execCommand _) (silent_ite ?_ (silent_execCommand _))
  split
  · exact silent_execCommand _
  · intro status message h
    cases h

/-- The start of a component answers a missing key. -/
theorem answers_compStart (types : List String) :
    Answers ["name", "core", "type"] body (do
      validateCompStart body types
      startComponent I (← getItem body "name") (← getItem body "core")
        (← getItem body "type")) := by
  refine (answers_validateCompStart types).bind fun _ => ?_
  refine (silent_getItem _ _).bind fun name => (silent_getItem _ _).bind fun core => ?_
  exact (silent_getItem _ _).bind fun type => silent_startComponent name core type

/-- `vf_comp_port` answers a missing key. -/
theorem answers_vfCompPort (name : Str) :
    Answers ["action", "port", "dir"] body (vfCompPort I name body) := by
  unfold vfCompPort validateVfCompPort
  refine (answers_validateCompPort.bind fun _ => ?_).bind fun _ => ?_
  · refine (silent_getItem _ _).bind fun action => silent_ite ?_ (silent_ok ())
    split
    · exact silent_orInvalid _
    · exact silent_ok ()
  · refine (silent_getItem _ _).bind fun port => (silent_getItem _ _).bind fun dir => ?_
    refine (silent_getItem _ _).bind fun action => silent_ite ?_ (silent_execCommand _)
    split
    · rename_i vlan _
      refine (silent_subscript _ _).bind fun operation => silent_ite ?_ (silent_ite ?_ ?_)
      · exact (silent_subscript _ _).bind fun vid => (silent_subscript _ _).bind fun pcp =>
          silent_vfPortAdd port dir name _ vid pcp
      · exact silent_vfPortAdd port dir name _ _ _
      · exact silent_vfPortAdd port dir name _ _ _
    · exact silent_vfPortAdd port dir name _ _ _

/-- `vf_classifier` answers a missing key. -/
theorem answers_vfClassifier :
    Answers ["action", "type", "port", "mac_address"] body (vfClassifier I eui body) := by
  unfold vfClassifier validateVfClassifier
  refine ((answers_requireKeys _ _).bind fun _ => ?_).bind fun _ => ?_
  · refine (silent_getItem _ _).bind fun action => (silent_check _).bind fun _ => ?_
    refine (silent_getItem _ _).bind fun type => (silent_check _).bind fun _ => ?_
    refine (silent_getItem _ _).bind fun port => (silent_orInvalid _).bind fun _ => ?_
    refine (silent_getItem _ _).bind fun mac => ?_
    refine (silent_ite (silent_ok ()) (silent_check _)).bind fun _ => ?_
    exact (silent_getItem _ _).bind fun type => silent_ite (silent_orInvalid _) (silent_ok ())
  · refine (silent_getItem _ _).bind fun port => (silent_getItem _ _).bind fun mac => ?_
    refine (silent_getItem _ _).bind fun action => (silent_getItem _ _).bind fun type => ?_
    refine silent_ite (silent_execCommand _) ?_
    exact (silent_getItem _ _).bind fun vlan => silent_execCommand _

/-- `mirror_comp_port` answers a missing key. -/
theorem answers_mirrorCompPort (name : Str) :
    Answers ["action", "port", "dir"] body (mirrorCompPort I name body) := by
  unfold mirrorCompPort
  refine answers_validateCompPort.bind fun _ => ?_
  refine (silent_getItem _ _).bind fun port => (silent_getItem _ _).bind fun dir => ?_
  exact (silent_getItem _ _).bind fun action =>
    silent_ite (silent_execCommand _) (silent_execCommand _)

/-- `nfv_forward` has no answer for a missing key. -/
theorem silent_nfvForward : Silent (nfvForward body) :=
  (silent_getItem _ _).bind fun _ => silent_ite (silent_execCommand _) (silent_execCommand _)

/-- `nfv_port` answers a missing key. -/
theorem answers_nfvPort : Answers ["action", "port"] body (nfvPort I body) := by
  unfold nfvPort validateNfvPort
  refine ((answers_requireKeys _ _).bind fun _ => ?_).bind fun _ => ?_
  · refine (silent_getItem _ _).bind fun action => (silent_check _).bind fun _ => ?_
    exact (silent_getItem _ _).bind fun port => silent_orInvalid _
  · refine (silent_getItem _ _).bind fun port => (silent_getItem _ _).bind fun action => ?_
    exact silent_ite (silent_execCommand _) (silent_execCommand _)

/-- `nfv_patch_add` answers a missing key. -/
theorem answers_nfvPatchAdd : Answers ["src", "dst"] body (nfvPatchAdd I body) := by
  unfold nfvPatchAdd validateNfvPatch
  refine ((answers_requireKeys _ _).bind fun _ => ?_).bind fun _ => ?_
  · refine (silent_getItem _ _).bind fun src => (silent_orInvalid _).bind fun _ => ?_
    exact (silent_getItem _ _).bind fun dst => silent_orInvalid _
  · exact (silent_getItem _ _).bind fun src => (silent_getItem _ _).bind fun dst =>
      silent_execCommand _

/-- The options of the process to launch. -/
theorem silent_appOptions (procName : Json) : Silent (appOptions I body procName) := by
  have hopts : Silent (appOptsOf procName) := by
    intro status message h
    unfold appOptsOf at h
    split at h <;> cases h
  unfold appOptions
  refine hopts.bind fun opts => ?_
  split
  · exact silent_ok _
  · refine (silent_getItem _ _).bind fun app => ?_
    split
    · exact silent_ok _
    · intro status message h
      cases h

/-- `do_launch_sec_proc` raises no HTTP error. -/
theorem silent_doLaunchSecProc : Silent (doLaunchSecProc I body) := by
  unfold doLaunchSecProc launchQuery
  refine Silent.bind ?_ fun query => silent_execCommand query
  refine (silent_getItem _ _).bind fun procName => (silent_getItem _ _).bind fun secId => ?_
  refine (silent_getItem _ _).bind fun eal => ?_
  split
  · refine silent_ite (silent_ok _) (silent_ite (silent_ok _) ?_)
    exact (silent_appOptions procName).bind fun opts => silent_ok _
  · intro status message h
    cases h

/-- `launch_sec_proc` answers a missing key. -/
theorem answers_launchSecProc :
    Answers ["client_id", "proc_name", "eal", "app"] body (launchSecProc I body) :=
  (answers_requireKeys _ _).bind fun _ => silent_doLaunchSecProc

/-- `pcap_action` answers a missing key. -/
theorem answers_pcapAction : Answers ["action"] body (pcapAction body) := by
  unfold pcapAction validatePcapAction
  refine ((answers_requireKeys _ _).bind fun _ => ?_).bind fun _ => ?_
  · exact (silent_getItem _ _).bind fun action => silent_check _
  · exact (silent_getItem _ _).bind fun action =>
      silent_ite (silent_execCommand _) (silent_execCommand _)

/-- Every handler but `nfv_forward` answers its required keys. -/
theorem answers_handle {h : Handler} (hforward : h ≠ .nfvForward) :
    Answers (requiredKeys h) body (handle I eui h body) := by
  cases h with
  | vfCompStart => exact answers_compStart _
  | vfCompPort name => exact answers_vfCompPort _
  | vfClassifier => exact answers_vfClassifier
  | mirrorCompStart => exact answers_compStart _
  | mirrorCompPort name => exact answers_mirrorCompPort _
  | nfvForward => exact absurd rfl hforward
  | nfvPort => exact answers_nfvPort
  | nfvPatchAdd => exact answers_nfvPatchAdd
  | launchSecProc => exact answers_launchSecProc
  | pcapAction => exact answers_pcapAction

/-- A handler answers with status 400 when it looks for its keys and one is missing. -/
theorem handle_error_iff {h : Handler} :
    (∃ message, handle I eui h body = .error (.httpError 400 message)) ↔
      h ≠ .nfvForward ∧ MissingKey h body := by
  constructor
  · rintro ⟨message, hmessage⟩
    have hforward : h ≠ .nfvForward := by
      rintro rfl
      exact silent_nfvForward 400 message hmessage
    exact ⟨hforward, (answers_handle hforward).only 400 message hmessage⟩
  · rintro ⟨hforward, hmissing⟩
    exact (answers_handle hforward).missing hmissing

end Missing

section Sent

variable {I : Interpreter} {eui : Eui} {body : Body}

/-- A member that is there. -/
theorem getItem_eq {key : String} {v : Json} (h : body.lookup (lit key) = some v) :
    getItem body key = .ok v := by
  rw [getItem, h]

/-- A member of a body with required keys is not missing. -/
theorem Has.ne_none {key : String} {P : Json → Prop} (h : Has body key P) :
    body.lookup (lit key) ≠ none := by
  obtain ⟨v, hv, -⟩ := h
  rw [hv]
  intro hnone
  cases hnone

/-- A value that is one of some words passes the test for them. -/
theorem IsWord.inStrs {words : List String} {v : Json} (h : IsWord words v) :
    v.inStrs words = true := by
  obtain ⟨w, hw, rfl⟩ := h
  exact Json.inStrs_eq_true.mpr ⟨w, hw, rfl⟩

/-- The text of a member. -/
theorem field_eq {key : String} {v : Json} (h : body.lookup (lit key) = some v) :
    field I body key = str I v := by
  rw [field, h, Option.elim_some]

/-- The comparison of a member with a word. -/
theorem isField_eq {key word : String} {v : Json} (h : body.lookup (lit key) = some v) :
    isField body key word = v.eqStr (lit word) := by
  rw [isField, h, Option.any_some]

/-- A port type has no colon. -/
theorem colon_notMem_portType : ∀ t ∈ portTypes, 58 ∉ lit t := by decide

/-- A documented port passes `_validate_port`. -/
theorem IsPort.validate {v : Json} (h : IsPort v) : validatePort I v = .ok () := by
  obtain ⟨t, ht, n, ⟨hne, hdigits⟩, rfl⟩ := h
  have hcolon : 58 ∉ n := fun hmem => absurd (hdigits 58 hmem) (by decide)
  have hsplit : (lit t ++ 58 :: n).splitOn 58 = [lit t, n] := by
    rw [List.splitOn_append_cons_self_of_not_mem (colon_notMem_portType t ht),
      List.splitOn_eq_singleton hcolon]
  have htype : (Json.str (lit t)).inStrs portTypes = true :=
    Json.inStrs_eq_true.mpr ⟨t, ht, rfl⟩
  have hnumber : intOf I (.str n) = .ok (digitsValue n : ℤ) := by
    rw [intOf, Python.int, intOfStr_digits hne hdigits]
  simp only [validatePort, parsePort, hsplit, htype, if_true, hnumber, Except.map, orInvalid]

/-- `check` passes. -/
@[simp] theorem check_true : check true = .ok () := rfl

/-- The start of a component is sent for a documented body. -/
theorem compStart_sent {types : List String} (h : IsCompStart types body) :
    (do
      validateCompStart body types
      startComponent I (← getItem body "name") (← getItem body "core")
        (← getItem body "type")) =
      execCommand (some (joinBlank [lit "component", lit "start", field I body "name",
        field I body "core", field I body "type"])) := by
  obtain ⟨hname, hcore, htype⟩ := h
  have hkeys : requireKeys ["name", "core", "type"] body = .ok () := by
    apply requireKeys_ok
    simp only [List.forall_mem_cons, List.not_mem_nil, false_implies, implies_true, and_true]
    exact ⟨hname.ne_none, hcore.ne_none, htype.ne_none⟩
  obtain ⟨name, hname, s, rfl⟩ := hname
  obtain ⟨core, hcore, n, rfl⟩ := hcore
  obtain ⟨type, htype, hword⟩ := htype
  simp only [validateCompStart, hkeys, getItem_eq hname, getItem_eq hcore, getItem_eq htype, isStr,
    isInt, hword.inStrs, check_true, bind, Except.bind, startComponent, field_eq hname,
    field_eq hcore, field_eq htype]

/-- A documented body passes `validate_comp_port`. -/
theorem IsCompPort.validate (h : IsCompPort body) : validateCompPort I body = .ok () := by
  obtain ⟨haction, hport, hdir⟩ := h
  have hkeys : requireKeys ["action", "port", "dir"] body = .ok () := by
    apply requireKeys_ok
    simp only [List.forall_mem_cons, List.not_mem_nil, false_implies, implies_true, and_true]
    exact ⟨haction.ne_none, hport.ne_none, hdir.ne_none⟩
  obtain ⟨action, haction, hactions⟩ := haction
  obtain ⟨port, hport, hports⟩ := hport
  obtain ⟨dir, hdir, hdirs⟩ := hdir
  simp only [validateCompPort, hkeys, getItem_eq haction, getItem_eq hport, getItem_eq hdir,
    hactions.inStrs, hdirs.inStrs, check_true, hports.validate, bind, Except.bind]

/-- A word more after a blank. -/
theorem joinBlank_append {words : List Str} (h : words ≠ []) (w : Str) :
    joinBlank (words ++ [w]) = joinBlank words ++ [32] ++ w := by
  induction words with
  | nil => exact absurd rfl h
  | cons v words ih =>
    cases words with
    | nil => simp [joinBlank, List.intercalate]
    | cons u words =>
      have htail := ih (List.cons_ne_nil u words)
      simp only [joinBlank, List.intercalate, List.cons_append, List.intersperse_cons_cons,
        List.flatten_cons] at htail ⊢
      rw [htail]
      simp

/-- A documented VLAN operation counts as true and passes its check. -/
theorem IsVlan.parse {v : Json} (h : IsVlan v) :
    v.truthy = true ∧ parseVlan I v = .ok () := by
  obtain ⟨items, rfl, ⟨operation, hoperation, hword⟩, htag⟩ := h
  have htrue : (Json.dict items).truthy = true := by
    cases items with
    | nil => cases hoperation
    | cons item items => rfl
  refine ⟨htrue, ?_⟩
  simp only [parseVlan, subscript, getItem_eq hoperation, hword.inStrs, bind, Except.bind,
    Bool.true_eq_false, if_false]
  by_cases hadd : operation.eqStr (lit "add") = true
  · have hop : Has items "operation" (IsWord ["add"]) :=
      ⟨operation, hoperation, Json.inStrs_eq_true.mp (by simp [Json.inStrs, hadd])⟩
    obtain ⟨⟨vid, hvid, n, rfl⟩, ⟨pcp, hpcp, m, rfl⟩⟩ := htag hop
    simp only [hadd, if_true, getItem_eq hvid, getItem_eq hpcp, intOf, Python.int]
  · rw [if_neg hadd]

/-- The VLAN operation of a documented body, where it has one. -/
theorem vlanOf_eq (h : MayHave body "vlan" fun v => v = .null ∨ IsVlan v) :
    (vlanOf body = none ∧ vlanWords I body = []) ∨
      ∃ v, vlanOf body = some v ∧ body.lookup (lit "vlan") = some v ∧ IsVlan v := by
  cases hlookup : body.lookup (lit "vlan") with
  | none => exact .inl ⟨by rw [vlanOf, hlookup]; rfl, by rw [vlanWords, hlookup]⟩
  | some v =>
    obtain rfl | hvlan := h v hlookup
    · exact .inl ⟨by rw [vlanOf, hlookup]; rfl, by rw [vlanWords, hlookup]⟩
    · have htrue := (IsVlan.parse (I := I) hvlan).1
      refine .inr ⟨v, ?_, rfl, hvlan⟩
      rw [vlanOf, hlookup, Option.filter_some, if_pos htrue]

/-- The command of a port that is attached with a documented VLAN operation. -/
theorem vfPortAdd_vlan {port dir v : Json} {name : Str} (h : IsVlan v)
    (hlookup : body.lookup (lit "vlan") = some v) :
    (do
      let operation ← subscript v "operation"
      if operation.eqStr (lit "add") then
        vfPortAdd I port dir name "add_vlantag" (← subscript v "id") (← subscript v "pcp")
      else if operation.eqStr (lit "del") then
        vfPortAdd I port dir name "del_vlantag" (.int 0) (.int 0)
      else vfPortAdd I port dir name "none" (.int 0) (.int 0)) =
      execCommand (some (joinBlank ([lit "port", lit "add", str I port, str I dir, name] ++
        vlanWords I body))) := by
  obtain ⟨items, rfl, ⟨operation, hoperation, hword⟩, htag⟩ := h
  simp only [subscript, getItem_eq hoperation, bind, Except.bind, vlanWords, hlookup,
    isField_eq hoperation]
  by_cases hadd : operation.eqStr (lit "add") = true
  · have hop : Has items "operation" (IsWord ["add"]) :=
      ⟨operation, hoperation, Json.inStrs_eq_true.mp (by simp [Json.inStrs, hadd])⟩
    obtain ⟨⟨vid, hvid, n, rfl⟩, ⟨pcp, hpcp, m, rfl⟩⟩ := htag hop
    have hwords : joinBlank ([lit "port", lit "add", str I port, str I dir, name] ++
        [lit "add_vlantag", intText n, intText m]) =
        portAddText I port dir name ++ [32] ++ lit "add_vlantag" ++ [32] ++ intText n ++ [32] ++
          intText m := by
      rw [show ∀ ws : List Str, ws ++ [lit "add_vlantag", intText n, intText m] =
        ws ++ [lit "add_vlantag"] ++ [intText n] ++ [intText m] by simp]
      rw [joinBlank_append (by simp), joinBlank_append (by simp), joinBlank_append (by simp)]
      rfl
    have hvidText : field I items "id" = intText n := field_eq hvid
    have hpcpText : field I items "pcp" = intText m := field_eq hpcp
    have hope : "add_vlantag" ≠ "none" := by decide
    simp only [hadd, if_true, getItem_eq hvid, getItem_eq hpcp, hvidText, hpcpText, vfPortAdd,
      percentD, hwords, if_neg hope]
  · simp only [hadd, Bool.false_eq_true, if_false]
    by_cases hdel : operation.eqStr (lit "del") = true
    · simp only [hdel, if_true, vfPortAdd, portAddText]
      rw [joinBlank_append (by simp)]
      rfl
    · simp only [hdel, Bool.false_eq_true, if_false, vfPortAdd, portAddText, List.append_nil]
      rfl

/-- Attaching and detaching a port of `spp_vf`. -/
theorem vfCompPort_sent {name : String} (h : Documented (.vfCompPort name) body) :
    vfCompPort I (lit name) body = execCommand (some (named I (.vfCompPort name) body)) := by
  obtain ⟨hcomp, hvlan⟩ := h
  have hvalidate := hcomp.validate (I := I)
  obtain ⟨⟨action, haction, -⟩, ⟨port, hport, -⟩, ⟨dir, hdir, -⟩⟩ := hcomp
  have hvalid : validateVfCompPort I body = .ok () := by
    simp only [validateVfCompPort, hvalidate, getItem_eq haction, bind, Except.bind]
    split
    · obtain ⟨hnone, -⟩ | ⟨v, hsome, -, hv⟩ := vlanOf_eq (I := I) hvlan
      · rw [hnone]
      · rw [hsome]
        simp only [hv.parse.2, orInvalid]
    · rfl
  simp only [vfCompPort, hvalid, getItem_eq haction, getItem_eq hport, getItem_eq hdir, bind,
    Except.bind, named, namedWords, isField_eq haction, field_eq hport, field_eq hdir]
  by_cases hattach : action.eqStr (lit "attach") = true
  · simp only [hattach, if_true]
    obtain ⟨hnone, hwords⟩ | ⟨v, hsome, hlookup, hv⟩ := vlanOf_eq (I := I) hvlan
    · simp only [hnone, hwords, List.append_nil, vfPortAdd, if_true, portAddText]
    · simp only [hsome]
      exact vfPortAdd_vlan hv hlookup
  · simp only [hattach, Bool.false_eq_true, if_false, portDel]

/-- An entry of the classifier table. -/
theorem vfClassifier_sent (heui : ∀ s, IsEui48 s → eui (.str s) = true)
    (h : Documented .vfClassifier body) :
    vfClassifier I eui body = execCommand (some (named I .vfClassifier body)) := by
  obtain ⟨haction, htype, hmac, hport, hvlan, -⟩ := h
  have hkeys : requireKeys ["action", "type", "port", "mac_address"] body = .ok () := by
    apply requireKeys_ok
    simp only [List.forall_mem_cons, List.not_mem_nil, false_implies, implies_true, and_true]
    exact ⟨haction.ne_none, htype.ne_none, hport.ne_none, hmac.ne_none⟩
  obtain ⟨action, haction, hactions⟩ := haction
  obtain ⟨type, htype, htypes⟩ := htype
  obtain ⟨mac, hmac, m, rfl, hm⟩ := hmac
  obtain ⟨port, hport, hports⟩ := hport
  have hmacs : (if (Json.str m).eqStr (lit "default") = true then .ok ()
      else validateMac eui (.str m)) = (.ok () : Except Exc Unit) := by
    split
    · rfl
    · rename_i hdefault
      have hm' : IsEui48 m := hm.resolve_left fun h => hdefault (decide_eq_true h)
      rw [validateMac, heui m hm', check_true]
  have haction' : lit (if action.eqStr (lit "add") = true then "add" else "del") =
      str I action := by
    obtain ⟨w, hw, rfl⟩ := hactions
    simp only [List.mem_cons, List.not_mem_nil, or_false] at hw
    rcases hw with rfl | rfl
    · rfl
    · rfl
  simp only [vfClassifier, validateVfClassifier, hkeys, getItem_eq haction, getItem_eq htype,
    getItem_eq hmac, getItem_eq hport, hactions.inStrs, htypes.inStrs, check_true, hports.validate,
    hmacs, bind, Except.bind, named, namedWords, isField_eq htype, field_eq haction, field_eq hmac,
    field_eq hport]
  obtain ⟨w, hw, rfl⟩ := htypes
  simp only [List.mem_cons, List.not_mem_nil, or_false] at hw
  rcases hw with rfl | rfl
  · have hvlan' : (Json.str (lit "mac")).eqStr (lit "vlan") = false := by decide
    have hmac' : (Json.str (lit "mac")).eqStr (lit "mac") = true := by decide
    simp only [hvlan', hmac', Bool.false_eq_true, if_false, if_true, classifierTable, haction']
  · have hvlan' : (Json.str (lit "vlan")).eqStr (lit "vlan") = true := by decide
    have hmac' : (Json.str (lit "vlan")).eqStr (lit "mac") = false := by decide
    obtain ⟨vlan, hvlan, n, rfl⟩ := hvlan ⟨_, htype, "vlan", by simp, rfl⟩
    simp only [hvlan', hmac', Bool.false_eq_true, if_false, if_true, getItem_eq hvlan, intOf,
      Python.int, orInvalid, classifierTableWithVlan, haction', field_eq hvlan]

/-- Attaching and detaching a port of `spp_mirror`. -/
theorem mirrorCompPort_sent {name : String} (h : Documented (.mirrorCompPort name) body) :
    mirrorCompPort I (lit name) body =
      execCommand (some (named I (.mirrorCompPort name) body)) := by
  have hvalidate := IsCompPort.validate (I := I) h
  obtain ⟨⟨action, haction, -⟩, ⟨port, hport, -⟩, ⟨dir, hdir, -⟩⟩ := h
  simp only [mirrorCompPort, hvalidate, getItem_eq haction, getItem_eq hport, getItem_eq hdir, bind,
    Except.bind, named, namedWords, isField_eq haction, field_eq hport, field_eq hdir]
  split
  · rfl
  · rfl

/-- A port of `spp_nfv`. -/
theorem nfvPort_sent (h : Documented .nfvPort body) :
    nfvPort I body = execCommand (some (named I .nfvPort body)) := by
  obtain ⟨haction, hport⟩ := h
  have hkeys : requireKeys ["action", "port"] body = .ok () := by
    apply requireKeys_ok
    simp only [List.forall_mem_cons, List.not_mem_nil, false_implies, implies_true, and_true]
    exact ⟨haction.ne_none, hport.ne_none⟩
  obtain ⟨action, haction, hactions⟩ := haction
  obtain ⟨port, hport, hports⟩ := hport
  simp only [nfvPort, validateNfvPort, hkeys, getItem_eq haction, getItem_eq hport, hactions.inStrs,
    check_true, hports.validate, bind, Except.bind, named, namedWords, field_eq haction,
    field_eq hport]
  obtain ⟨w, hw, rfl⟩ := hactions
  simp only [List.mem_cons, List.not_mem_nil, or_false] at hw
  rcases hw with rfl | rfl
  · rfl
  · rfl

/-- A patch of `spp_nfv`. -/
theorem nfvPatchAdd_sent (h : Documented .nfvPatchAdd body) :
    nfvPatchAdd I body = execCommand (some (named I .nfvPatchAdd body)) := by
  obtain ⟨hsrc, hdst⟩ := h
  have hkeys : requireKeys ["src", "dst"] body = .ok () := by
    apply requireKeys_ok
    simp only [List.forall_mem_cons, List.not_mem_nil, false_implies, implies_true, and_true]
    exact ⟨hsrc.ne_none, hdst.ne_none⟩
  obtain ⟨src, hsrc, hsrcs⟩ := hsrc
  obtain ⟨dst, hdst, hdsts⟩ := hdst
  simp only [nfvPatchAdd, validateNfvPatch, hkeys, getItem_eq hsrc, getItem_eq hdst,
    hsrcs.validate, hdsts.validate, bind, Except.bind, named, namedWords, field_eq hsrc,
    field_eq hdst]

/-- Forwarding of `spp_nfv`. -/
theorem nfvForward_sent (h : Documented .nfvForward body) :
    nfvForward body = execCommand (some (named I .nfvForward body)) := by
  obtain ⟨action, haction, -⟩ := h
  simp only [nfvForward, getItem_eq haction, bind, Except.bind, named, namedWords,
    isField_eq haction]
  split
  · rfl
  · rfl

/-- Capturing of `spp_pcap`. -/
theorem pcapAction_sent (h : Documented .pcapAction body) :
    pcapAction body = execCommand (some (named I .pcapAction body)) := by
  have hkeys : requireKeys ["action"] body = .ok () :=
    requireKeys_ok (by simpa using Has.ne_none h)
  obtain ⟨action, haction, hactions⟩ := h
  simp only [pcapAction, validatePcapAction, hkeys, getItem_eq haction, hactions.inStrs, check_true,
    bind, Except.bind, named, namedWords, field_eq haction]
  obtain ⟨w, hw, rfl⟩ := hactions
  simp only [List.mem_cons, List.not_mem_nil, or_false] at hw
  rcases hw with rfl | rfl
  · rfl
  · rfl

/-- One turn of the loop over the options. -/
theorem collectOpts_cons (args : Body) (opt : String) (opts : List String)
    (collected : List Str) :
    collectOpts I args (opt :: opts) collected =
      collectOpts I args opts (collected ++ optionWords I args opt) := by
  rw [collectOpts, optionWords]
  cases args.lookup (lit opt) with
  | none => rw [List.append_nil]
  | some v =>
    cases v with
    | null => rfl
    | str s =>
      by_cases hs : (Json.str s).eqStr [] = true
      · simp only [hs, if_true]
      · simp only [hs, Bool.false_eq_true, if_false]
    | _ => rfl

/-- The loops over the options collect the words of each option. -/
theorem collectOpts_eq (args : Body) (opts : List String) (collected : List Str) :
    collectOpts I args opts collected = collected ++ opts.flatMap (optionWords I args) := by
  induction opts generalizing collected with
  | nil => rw [collectOpts, List.flatMap_nil, List.append_nil]
  | cons opt opts ih => rw [collectOpts_cons, ih, List.flatMap_cons, List.append_assoc]

/-- The options of a known process. -/
theorem appOpts_find : ∀ p ∈ appOpts,
    (appOpts.find? fun q => lit q.1 = lit p.1).map Prod.snd = some p.2 := by decide

/-- The launch of a secondary process. -/
theorem launchSecProc_sent (h : Documented .launchSecProc body) :
    launchSecProc I body = execCommand (some (named I .launchSecProc body)) := by
  obtain ⟨hid, heal, p, hp, hproc, happ⟩ := h
  have hkeys : requireKeys ["client_id", "proc_name", "eal", "app"] body = .ok () := by
    apply requireKeys_ok
    simp only [List.forall_mem_cons, List.not_mem_nil, false_implies, implies_true, and_true]
    exact ⟨hid.ne_none, hproc.ne_none, heal.ne_none, happ.ne_none⟩
  obtain ⟨id, hid, -⟩ := hid
  obtain ⟨_, heal, -, eal, rfl, ⟨key, hkey, v, hv, -⟩, w, hw, -⟩ := heal
  obtain ⟨_, hproc, rfl⟩ := hproc
  obtain ⟨_, happ, app, rfl, -⟩ := happ
  have hfind := appOpts_find p hp
  have hcores : (["-c", "-l", "--lcores"].any fun key => (eal.lookup (lit key)).isSome) = true :=
    List.any_eq_true.mpr ⟨key, hkey, by rw [hv, Option.isSome_some]⟩
  have hoptions : appOptions I body (.str (lit p.1)) =
      .ok (p.2.flatMap (optionWords I app)) := by
    simp only [appOptions, appOptsOf, hfind, getItem_eq happ, bind, Except.bind, collectOpts_eq,
      List.nil_append]
  have hopts : appOptsNamed I body = p.2 := by
    have hname : field I body "proc_name" = lit p.1 := field_eq hproc
    rw [appOptsNamed, hname, hfind, Option.getD_some]
  simp only [launchSecProc, hkeys, doLaunchSecProc, launchQuery, getItem_eq hid, getItem_eq hproc,
    getItem_eq heal, hcores, hw, Option.isSome_some, Bool.true_eq_false, if_false, hoptions, bind,
    Except.bind, named, namedWords, field_eq hid, field_eq hproc, optionsText, heal, happ, hopts,
    collectOpts_eq, List.nil_append]

/-- The command that a documented body names is built and sent. -/
theorem handle_documented {h : Handler} (heui : ∀ s, IsEui48 s → eui (.str s) = true)
    (hdoc : Documented h body) : handle I eui h body = execCommand (some (named I h body)) := by
  cases h with
  | vfCompStart => exact compStart_sent hdoc
  | vfCompPort name => exact vfCompPort_sent hdoc
  | vfClassifier => exact vfClassifier_sent heui hdoc
  | mirrorCompStart => exact compStart_sent hdoc
  | mirrorCompPort name => exact mirrorCompPort_sent hdoc
  | nfvForward => exact nfvForward_sent hdoc
  | nfvPort => exact nfvPort_sent hdoc
  | nfvPatchAdd => exact nfvPatchAdd_sent hdoc
  | launchSecProc => exact launchSecProc_sent hdoc
  | pcapAction => exact pcapAction_sent hdoc

/-- A request is validated as it should be exactly when a required key is missing that
the handler looks for, or when its body is documented and the command it names has no lone
surrogate. -/
theorem validated_iff (heui : ∀ s, IsEui48 s → eui (.str s) = true) (h : Handler) :
    Validated I eui h body ↔
      (h ≠ .nfvForward ∧ MissingKey h body) ∨
        (¬ MissingKey h body ∧ Documented h body ∧ ∀ c ∈ named I h body, Encodable c) := by
  constructor
  · rintro ⟨hbad, hgood⟩
    by_cases hmissing : MissingKey h body
    · exact .inl (handle_error_iff.mp (hbad (.inl hmissing)))
    · by_cases hdoc : Documented h body
      · obtain ⟨data, hdata, -⟩ := hgood hmissing hdoc
        refine .inr ⟨hmissing, hdoc, ?_⟩
        by_contra hnot
        rw [encode, if_neg hnot] at hdata
        cases hdata
      · exact .inl (handle_error_iff.mp (hbad (.inr hdoc)))
  · rintro (hmissing | ⟨hnone, hdoc, hencodable⟩)
    · exact ⟨fun _ => handle_error_iff.mpr hmissing, fun hnot => absurd hmissing.2 hnot⟩
    · refine ⟨fun hbad => (hbad.elim hnone fun hnot => hnot hdoc).elim, fun _ _ => ?_⟩
      have hencode : encode (named I h body) = some ((named I h body).flatMap utf8) :=
        if_pos hencodable
      refine ⟨_, hencode, ?_⟩
      rw [handle_documented heui hdoc, execCommand, hencode]

end Sent

/-- A body for `nfv_port` that is in order. -/
theorem validated_nfvPort :
    Validated .ascii euiForms .nfvPort
      [(lit "action", .str (lit "add")), (lit "port", .str (lit "ring:0"))] := by
  have hport : IsPort (.str (lit "ring:0")) :=
    ⟨"ring", by decide, lit "0", ⟨by decide, by decide⟩, rfl⟩
  have haction : IsWord ["add", "del"] (.str (lit "add")) := ⟨"add", by decide, rfl⟩
  apply (validated_iff (fun s hs => decide_eq_true hs) .nfvPort).mpr
  refine .inr ⟨?_, ⟨⟨_, rfl, haction⟩, ⟨_, rfl, hport⟩⟩, by decide⟩
  rintro ⟨key, hkey, hnone⟩
  simp only [requiredKeys, List.mem_cons, List.not_mem_nil, or_false] at hkey
  rcases hkey with rfl | rfl
  · cases hnone
  · cases hnone

/-- An unknown port type is answered with a `TypeError`. -/
theorem unknown_port_type_error :
    handle .ascii euiForms .nfvPort
        [(lit "action", .str (lit "add")), (lit "port", .str (lit "foo:0"))] =
        .error .typeError ∧
      ¬ Validated .ascii euiForms .nfvPort
        [(lit "action", .str (lit "add")), (lit "port", .str (lit "foo:0"))] := by
  have herror : handle .ascii euiForms .nfvPort
      [(lit "action", .str (lit "add")), (lit "port", .str (lit "foo:0"))] =
      .error .typeError := by
    rfl
  refine ⟨herror, ?_⟩
  rintro ⟨hbad, hgood⟩
  by_cases hnot : MissingKey .nfvPort
        [(lit "action", .str (lit "add")), (lit "port", .str (lit "foo:0"))] ∨
      ¬ Documented .nfvPort [(lit "action", .str (lit "add")), (lit "port", .str (lit "foo:0"))]
  · obtain ⟨message, hmessage⟩ := hbad hnot
    rw [herror] at hmessage
    cases hmessage
  · obtain ⟨data, -, hdata⟩ := hgood (fun h => hnot (.inl h)) (not_not.mp fun h => hnot (.inr h))
    rw [herror] at hdata
    cases hdata

end Spp.Ctl
