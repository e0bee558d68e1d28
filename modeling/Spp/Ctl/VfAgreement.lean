import Spp.Ctl.VfShellCommands
import Spp.Lib.NumberText
import Spp.Vf.DecoderDefined
import Spp.Vf.TokenValues

/-!
# The encoder of spp-ctl and the decoder of spp_vf

A request that passes the validators of `V1VFHandler` becomes one command, and
`spp_vf` decodes it. The two sides read numbers, addresses and names in notations of
their own: what a decoded command says is compared here with what the body says.
-/

namespace Spp.Ctl.Agreement

open Python
open CLib (CStr strtok)
open Vf (SppCommand PortIndex PortAbility Limits MngData)

section Requests

/-- A request to `V1VFHandler` that changes a component, a port or the classifier table;
`name` is the component of the URL. -/
inductive Request
  | compStart (body : Body)
  | compStop (name : Str)
  | compPort (name : Str) (body : Body)
  | classifier (body : Body)

variable (I : Interpreter)

/-- The request passes its validator. -/
def Passes : Request → Prop
  | .compStart body => validateCompStart body ["forward", "merge", "classifier_mac"] = .ok ()
  | .compStop _ => True
  | .compPort _ body => validateVfCompPort I body = .ok ()
  | .classifier body => validateVfClassifier I euiForms body = .ok ()

/-- What the handler of a request sends. -/
def sends : Request → Except Exc (List UInt8)
  | .compStart body => vfCompStart I body
  | .compStop name => vfCompStop name
  | .compPort name body => vfCompPort I name body
  | .classifier body => vfClassifier I euiForms body

/-- The C string that is received with some bytes. -/
def received (data : List UInt8) : CStr := CLib.stringAt (data.map byteChar)

/-- The VLAN operation that a body asks for; that of a detached port is not looked at. -/
def requestedVlan (body : Body) : Option Json :=
  if isField body "action" "attach" then vlanOf body else none

end Requests

section Meaning

variable (I : Interpreter)

/-- The word of a table for a value. -/
def Names {α : Type} (table : List (String × α)) (v : Json) (x : α) : Prop :=
  ∃ w, (w, x) ∈ table ∧ v = .str (lit w)

/-- The actions on a port. -/
def attachWords : List (String × Vf.CommandAction) := [("attach", .add), ("detach", .del)]

/-- The types of a resource UID. -/
def uidWords : List (String × Vf.PortType) := [("phy", .phy), ("vhost", .vhost), ("ring", .ring)]

/-- The operations on a VLAN tag. -/
def operationWords : List (String × Vf.PortAbilityOpe) :=
  [("none", .none), ("add", .addVlantag), ("del", .delVlantag)]

/-- The port that a value of a body names. -/
def PortIs (v : Json) (port : PortIndex) : Prop :=
  ∃ t num, v = .str (lit t ++ 58 :: num) ∧ (t, port.ifaceType) ∈ uidWords ∧
    intOfStr I num = some port.ifaceNo

/-- The VLAN operation that a body asks for. -/
def VlanIs (vlan : Option Json) (ability : PortAbility) : Prop :=
  match vlan with
  | some (.dict items) => Has items "operation" (Names operationWords · ability.ope) ∧
      (ability.ope = .addVlantag →
        Has items "id" (fun v => Python.int I v = some ability.vlantag.vid) ∧
          Has items "pcp" fun v => Python.int I v = some ability.vlantag.pcp)
  | _ => ability.ope = .none

/-- The number of hexadecimal digits. -/
def hexValue (s : Str) : ℕ := CLib.digitsValue 16 (cText s)

/-- The octets of a MAC address in one of its notations, the first one first. -/
def octets (s : Str) : List ℕ :=
  if 58 ∈ s then (s.splitOn 58).map hexValue
  else if 45 ∈ s then (s.splitOn 45).map hexValue
  else if 46 ∈ s then (s.splitOn 46).flatMap fun f => [hexValue f / 256, hexValue f % 256]
  else (List.range 6).map fun i => hexValue s / 256 ^ (5 - i) % 256

/-- The MAC address that a value of a body names: `spp_vf` makes of its own text the
number whose lowest byte is the first octet. -/
def MacIs (v : Json) (mac : CStr) : Prop :=
  v = .str (lit "default") ∧ mac = "00:00:00:00:00:01".toList ∨
    ∃ s, v = .str s ∧ IsEui48 s ∧
      Vf.sppChangeMacStrToInt64 mac = .ok (Nat.ofDigits 256 (octets s) : ℤ)

/-- The fields that both kinds of table entry have. -/
def EntryIs (body : Body) (c : Vf.CommandClassifierTable) : Prop :=
  Has body "action" (Names editWords · c.action) ∧ Has body "mac_address" (MacIs · c.mac) ∧
    Has body "port" (PortIs I · c.port)

/-- The command says what the request says. -/
def Denotes : Request → SppCommand → Prop
  | .compStart body, .component c =>
    c.action = .start ∧ Has body "name" (fun v => ∃ s, v = .str s ∧ c.name = cText s) ∧
      Has body "core" (fun v => Python.int I v = some (c.core : ℤ)) ∧
      Has body "type" (Names roleWords · c.type)
  | .compStop name, .component c => c.action = .stop ∧ c.name = cText name
  | .compPort name body, .port c =>
    Has body "action" (Names attachWords · c.action) ∧ Has body "port" (PortIs I · c.port) ∧
      Has body "dir" (Names dirWords · c.rxtx) ∧ c.name = cText name ∧
      VlanIs I (requestedVlan body) c.ability
  | .classifier body, .classifierTableMac c =>
    Has body "type" (IsWord ["mac"]) ∧ c.type = .mac ∧ EntryIs I body c
  | .classifier body, .classifierTableVlan c =>
    Has body "type" (IsWord ["vlan"]) ∧ c.type = .vlan ∧
      Has body "vlan" (fun v => Python.int I v = some c.vid) ∧ EntryIs I body c
  | _, _ => False

end Meaning

section Conditions

variable (I : Interpreter)

/-- The text of the number that `%d` prints. -/
def numberText (items : Body) (key : String) : Str :=
  ((items.lookup (lit key)).bind percentD).elim [] intText

/-- The words of a VLAN operation in a command. -/
def tagWords (vlan : Option Json) : List Str :=
  match vlan with
  | some (.dict items) =>
    if isField items "operation" "add" then
      [lit "add_vlantag", numberText items "id", numberText items "pcp"]
    else if isField items "operation" "del" then [lit "del_vlantag"]
    else []
  | _ => []

/-- The words of the command of a request. -/
def commandWords : Request → List Str
  | .compStart body =>
    [lit "component", lit "start", field I body "name", field I body "core", field I body "type"]
  | .compStop name => [lit "component", lit "stop", name]
  | .compPort name body =>
    [lit "port", if isField body "action" "attach" then lit "add" else lit "del",
      field I body "port", field I body "dir", name] ++ tagWords (requestedVlan body)
  | .classifier body =>
    if isField body "type" "mac" then
      [lit "classifier_table", field I body "action", lit "mac", field I body "mac_address",
        field I body "port"]
    else
      [lit "classifier_table", field I body "action", lit "vlan", field I body "vlan",
        field I body "mac_address", field I body "port"]

/-- The body that asks for a VLAN operation has no strings for the numbers of a tag. -/
def NumbersPrintable (vlan : Option Json) : Prop :=
  ∀ items, vlan = some (.dict items) → isField items "operation" "add" = true →
    MayHave items "id" (fun v => ¬ IsString v) ∧ MayHave items "pcp" fun v => ¬ IsString v

/-- A command can be built for the request and sent. -/
def Sendable (r : Request) : Prop :=
  (∀ name body, r = .compPort name body → NumbersPrintable (requestedVlan body)) ∧
    ∀ w ∈ commandWords I r, IsText w

/-- A name that is one token of a command. -/
def IsOneToken (s : Str) : Prop := s ≠ [] ∧ 32 ∉ s ∧ 0 ∉ s

instance (s : Str) : Decidable (IsOneToken s) := inferInstanceAs (Decidable (_ ∧ _))

/-- An integer is the one that `strtol` reads: it fits an `int`, and it has no leading
zero from eight on. -/
def NumberKept (s : Str) (n : ℤ) : Prop :=
  (-2 ^ 31 ≤ n ∧ n < 2 ^ 31) ∧ (LeadingZero s → -8 < n ∧ n < 8)

/-- The number of a port is kept. -/
def PortKept (v : Json) : Prop :=
  ∀ t num n, v = .str (lit t ++ 58 :: num) → intOfStr I num = some n → NumberKept num n

/-- A MAC address is kept: it is written with colons, or all its octets are zero, or it
is written without separators and has two equal octets between zeros. -/
def MacKept (v : Json) : Prop :=
  ∀ s, v = .str s → s = lit "default" ∨ 58 ∈ s ∨ octets s = List.replicate 6 0 ∨
    45 ∉ s ∧ 46 ∉ s ∧ ∃ k < 128, octets s = [0, 0, k, k, 0, 0]

/-- The number of a value is kept in its own text. -/
def ValueKept (v : Json) : Prop := ∀ n, Python.int I v = some n → NumberKept (str I v) n

/-- The meaning of a request is kept by the command. -/
def MeaningKept : Request → Prop
  | .compStart body => Has body "name" (fun v => ∃ s, v = .str s ∧ IsOneToken s) ∧
      Has body "core" fun v => ∀ n, v = .int n → 0 ≤ n ∧ n < 2 ^ 32
  | .compStop name => IsOneToken name
  | .compPort name body => IsOneToken name ∧ Has body "port" (PortKept I) ∧
      ∀ items, requestedVlan body = some (.dict items) → isField items "operation" "add" = true →
        ∀ key ∈ ["id", "pcp"], Has items key fun v =>
          ∀ n, Python.int I v = some n → -2 ^ 31 ≤ n ∧ n < 2 ^ 31
  | .classifier body => Has body "port" (PortKept I) ∧ Has body "mac_address" MacKept ∧
      (isField body "type" "vlan" = true → Has body "vlan" (ValueKept I))

/-- The text of a `float` has a point, an exponent or no digits. -/
def IsFloatText (s : Str) : Prop :=
  (∀ c ∈ s, c < 128 ∧ c ≠ 0 ∧ c ≠ 32 ∧ c ≠ 120 ∧ c ≠ 88) ∧ ∃ c ∈ s, c = 46 ∨ c = 101 ∨ c = 110

/-- A VLAN ID that is a `float` has the text of one. -/
def FloatsPrinted : Request → Prop
  | .classifier body => ∀ x, body.lookup (lit "vlan") = some (.float x) → IsFloatText x.text
  | _ => True

end Conditions

section Sending

variable {I : Interpreter} {body : Body}

/-- `body[key]` is the member. -/
theorem getItem_eq_ok {key : String} {v : Json} :
    getItem body key = .ok v ↔ body.lookup (lit key) = some v := by
  unfold getItem
  cases body.lookup (lit key) with
  | none => simp
  | some w => simp

/-- A body that passes `validate_comp_start`. -/
theorem validateCompStart_ok {types : List String}
    (h : validateCompStart body types = .ok ()) :
    ∃ name core, body.lookup (lit "name") = some (.str name) ∧
      body.lookup (lit "core") = some core ∧ isInt core = true ∧ Has body "type" (IsWord types) := by
  simp only [validateCompStart, CLib.bind_eq_ok, check_eq_ok, getItem_eq_ok] at h
  obtain ⟨-, -, name, hname, -, hstr, core, hcore, -, hint, type, htype, hword⟩ := h
  cases name with
  | str name => exact ⟨name, core, hname, hcore, hint, type, htype, Json.inStrs_eq_true.mp hword⟩
  | _ => cases hstr

/-- A body that passes `validate_comp_port`. -/
theorem validateCompPort_ok (h : validateCompPort I body = .ok ()) :
    ∃ uid, Has body "action" (IsWord ["attach", "detach"]) ∧
      body.lookup (lit "port") = some (.str uid) ∧ IsUid I portTypes uid ∧
      Has body "dir" (IsWord ["rx", "tx"]) := by
  simp only [validateCompPort, CLib.bind_eq_ok, check_eq_ok, getItem_eq_ok] at h
  obtain ⟨-, -, action, haction, -, haword, dir, hdir, -, hdword, port, hport, huid⟩ := h
  cases port with
  | str uid =>
    exact ⟨uid, ⟨action, haction, Json.inStrs_eq_true.mp haword⟩, hport,
      validatePort_str_iff.mp huid, dir, hdir, Json.inStrs_eq_true.mp hdword⟩
  | _ => cases huid

/-- `int(v)` ends well for the values that it reads. -/
theorem intOf_eq_ok {v : Json} {n : ℤ} : intOf I v = .ok n ↔ Python.int I v = some n := by
  unfold intOf
  cases Python.int I v with
  | none => simp
  | some m => simp

/-- `v[key]` is the member of a dictionary. -/
theorem subscript_eq_ok {v w : Json} {key : String} :
    subscript v key = .ok w ↔ ∃ items, v = .dict items ∧ items.lookup (lit key) = some w := by
  cases v with
  | dict items => simp [subscript, getItem_eq_ok]
  | _ => simp [subscript]

/-- A member that is a given word. -/
theorem isField_iff {items : Body} {key word : String} :
    isField items key word = true ↔ items.lookup (lit key) = some (.str (lit word)) := by
  unfold isField
  cases items.lookup (lit key) with
  | none => simp
  | some v =>
    cases v with
    | str t => simp
    | _ => simp [Json.eqStr]

/-- A VLAN operation that passes its check. -/
theorem parseVlan_ok {vlan : Json} (h : parseVlan I vlan = .ok ()) :
    ∃ items, vlan = .dict items ∧ Has items "operation" (IsWord ["none", "add", "del"]) ∧
      (isField items "operation" "add" = true →
        Has items "id" (fun v => (Python.int I v).isSome) ∧
          Has items "pcp" fun v => (Python.int I v).isSome) := by
  unfold parseVlan at h
  obtain ⟨operation, hoperation, h⟩ := CLib.bind_eq_ok.mp h
  obtain ⟨items, rfl, hlookup⟩ := subscript_eq_ok.mp hoperation
  have hword : operation.inStrs ["none", "add", "del"] = true := by
    by_contra hnot
    rw [Bool.not_eq_true] at hnot
    rw [if_pos hnot] at h
    cases h
  refine ⟨items, rfl, ⟨operation, hlookup, Json.inStrs_eq_true.mp hword⟩, fun hadd => ?_⟩
  obtain rfl := Option.some.inj (hlookup.symm.trans (isField_iff.mp hadd))
  rw [if_neg (by rw [hword]; decide), if_pos (by simp)] at h
  obtain ⟨vid, hvid, h⟩ := CLib.bind_eq_ok.mp h
  obtain ⟨n, hn, h⟩ := CLib.bind_eq_ok.mp h
  obtain ⟨pcp, hpcp, h⟩ := CLib.bind_eq_ok.mp h
  obtain ⟨m, hm, -⟩ := CLib.bind_eq_ok.mp h
  obtain ⟨_, heq, hvid⟩ := subscript_eq_ok.mp hvid
  obtain rfl := Json.dict.inj heq
  obtain ⟨_, heq, hpcp⟩ := subscript_eq_ok.mp hpcp
  obtain rfl := Json.dict.inj heq
  exact ⟨⟨vid, hvid, Option.isSome_of_eq_some (intOf_eq_ok.mp hn)⟩, pcp, hpcp,
    Option.isSome_of_eq_some (intOf_eq_ok.mp hm)⟩

/-- A body that passes `_validate_vf_comp_port`. -/
theorem validateVfCompPort_ok (h : validateVfCompPort I body = .ok ()) :
    validateCompPort I body = .ok () ∧
      ∀ vlan, requestedVlan body = some vlan → parseVlan I vlan = .ok () := by
  unfold validateVfCompPort at h
  obtain ⟨hcomp, h⟩ := unit_bind_eq_ok.mp h
  obtain ⟨action, haction, h⟩ := CLib.bind_eq_ok.mp h
  refine ⟨hcomp, fun vlan hvlan => ?_⟩
  unfold requestedVlan at hvlan
  rw [isField_eq (getItem_eq_ok.mp haction)] at hvlan
  split_ifs at hvlan with hattach
  rw [if_pos hattach, hvlan] at h
  dsimp only at h
  unfold orInvalid at h
  split at h
  · assumption
  · cases h

/-- A body that passes `_validate_vf_classifier`. -/
theorem validateVfClassifier_ok (h : validateVfClassifier I euiForms body = .ok ()) :
    ∃ action type mac uid, HasEntry body action type mac uid ∧
      (action = lit "add" ∨ action = lit "del") ∧ IsUid I portTypes uid ∧
      (mac = lit "default" ∨ IsEui48 mac) ∧
      (type = lit "mac" ∨ type = lit "vlan" ∧ Has body "vlan" fun v => (Python.int I v).isSome) := by
  unfold validateVfClassifier at h
  obtain ⟨-, h⟩ := unit_bind_eq_ok.mp h
  obtain ⟨action, haction, h⟩ := CLib.bind_eq_ok.mp h
  obtain ⟨hactions, h⟩ := unit_bind_eq_ok.mp h
  obtain ⟨type, htype, h⟩ := CLib.bind_eq_ok.mp h
  obtain ⟨htypes, h⟩ := unit_bind_eq_ok.mp h
  obtain ⟨port, hport, h⟩ := CLib.bind_eq_ok.mp h
  obtain ⟨huid, h⟩ := unit_bind_eq_ok.mp h
  obtain ⟨mac, hmac, h⟩ := CLib.bind_eq_ok.mp h
  obtain ⟨hmacs, h⟩ := unit_bind_eq_ok.mp h
  obtain ⟨type', htype', hvlans⟩ := CLib.bind_eq_ok.mp h
  obtain rfl := Except.ok.inj (htype'.symm.trans htype)
  rw [getItem_eq_ok] at haction htype hport hmac
  obtain ⟨a, ha, rfl⟩ := Json.inStrs_eq_true.mp (check_eq_ok.mp hactions)
  obtain ⟨t, ht, rfl⟩ := Json.inStrs_eq_true.mp (check_eq_ok.mp htypes)
  have haddel : lit a = lit "add" ∨ lit a = lit "del" := by
    obtain rfl | rfl : a = "add" ∨ a = "del" := by simpa using ha
    · exact .inl rfl
    · exact .inr rfl
  obtain ⟨uid, rfl⟩ : ∃ uid, port = .str uid := by
    cases port with
    | str uid => exact ⟨uid, rfl⟩
    | _ => cases huid
  obtain ⟨m, rfl⟩ : ∃ m, mac = .str m := by
    cases mac with
    | str m => exact ⟨m, rfl⟩
    | _ => cases hmacs
  refine ⟨lit a, lit t, m, uid, ⟨haction, htype, hport, hmac⟩, haddel,
    validatePort_str_iff.mp huid, ?_, ?_⟩
  · obtain hdefault | heui := macChecked_iff.mp hmacs
    · exact .inl hdefault
    · exact .inr (of_decide_eq_true heui)
  · obtain rfl | rfl : t = "mac" ∨ t = "vlan" := by simpa using ht
    · exact .inl rfl
    · refine .inr ⟨rfl, ?_⟩
      rw [if_pos (by decide)] at hvlans
      cases hvlan : getItem body "vlan" with
      | error e => simp [hvlan, bind, Except.bind, orInvalid, keyInvalid] at hvlans
      | ok v =>
        refine ⟨v, getItem_eq_ok.mp hvlan, ?_⟩
        cases hint : Python.int I v with
        | none => simp [hvlan, intOf, hint, bind, Except.bind, orInvalid, keyInvalid] at hvlans
        | some n => exact Option.isSome_of_eq_some hint

/-- `%d` prints what `int` reads, except for strings. -/
theorem percentD_eq {v : Json} (h : ¬ IsString v) : percentD v = Python.int I v := by
  cases v with
  | str s => exact absurd ⟨s, rfl⟩ h
  | _ => rfl

/-- The command that attaches a port, with the words of its VLAN operation. -/
theorem portAddText_append {uid dir name : Str} (words : List Str) :
    joinBlank ([lit "port", lit "add", uid, dir, name] ++ words) =
      words.foldl (fun text w => text ++ [32] ++ w) (portAddText I (.str uid) (.str dir) name) := by
  induction words using List.reverseRecOn with
  | nil => rfl
  | append_singleton words w ih =>
    rw [← List.append_assoc, joinBlank_append (by simp), ih, List.foldl_append]
    rfl

/-- What is sent for a port that is attached with a VLAN operation. -/
theorem vfPortAdd_iff {items : Body} {uid dir name : Str} {data : List UInt8}
    (h : parseVlan I (.dict items) = .ok ()) :
    (do
      let operation ← subscript (.dict items) "operation"
      if operation.eqStr (lit "add") then
        vfPortAdd I (.str uid) (.str dir) name "add_vlantag" (← subscript (.dict items) "id")
          (← subscript (.dict items) "pcp")
      else if operation.eqStr (lit "del") then
        vfPortAdd I (.str uid) (.str dir) name "del_vlantag" (.int 0) (.int 0)
      else vfPortAdd I (.str uid) (.str dir) name "none" (.int 0) (.int 0)) = .ok data ↔
      NumbersPrintable (some (.dict items)) ∧
        encode (joinBlank ([lit "port", lit "add", uid, dir, name] ++
          tagWords (some (.dict items)))) = some data := by
  obtain ⟨_, heq, ⟨operation, hoperation, w, hw, rfl⟩, htag⟩ := parseVlan_ok h
  obtain rfl := Json.dict.inj heq
  have hsub : ∀ {key : String} {v : Json}, items.lookup (lit key) = some v →
      subscript (.dict items) key = .ok v := fun h => getItem_eq h
  simp only [hsub hoperation, bind, Except.bind]
  rw [portAddText_append (I := I), tagWords, isField_eq hoperation, isField_eq hoperation]
  unfold NumbersPrintable
  simp only [Option.some.injEq, Json.dict.injEq, forall_eq', isField_eq hoperation]
  obtain rfl | rfl | rfl : w = "none" ∨ w = "add" ∨ w = "del" := by simpa using hw
  · have hadd : (Json.str (lit "none")).eqStr (lit "add") = false := by decide
    have hdel : (Json.str (lit "none")).eqStr (lit "del") = false := by decide
    simp only [hadd, hdel, Bool.false_eq_true, if_false, vfPortAdd, if_true, execCommand_some,
      List.foldl_nil, false_imp_iff, true_and]
  · have hadd : (Json.str (lit "add")).eqStr (lit "add") = true := by decide
    obtain ⟨⟨vid, hvid, hvidInt⟩, pcp, hpcp, hpcpInt⟩ := htag (isField_iff.mpr hoperation)
    obtain ⟨n, hn⟩ := Option.isSome_iff_exists.mp hvidInt
    obtain ⟨m, hm⟩ := Option.isSome_iff_exists.mp hpcpInt
    have hnumbers : (MayHave items "id" (fun v => ¬ IsString v) ∧
        MayHave items "pcp" fun v => ¬ IsString v) ↔ ¬ IsString vid ∧ ¬ IsString pcp := by
      simp [MayHave, hvid, hpcp]
    have hname : "add_vlantag" ≠ "none" := by decide
    have hstring : ∀ {v : Json}, IsString v → percentD v = none := by
      rintro v ⟨s, rfl⟩
      rfl
    simp only [hadd, if_true, hsub hvid, hsub hpcp, vfPortAdd, if_neg hname, true_imp_iff, hnumbers,
      numberText, hvid, hpcp, Option.bind_some, List.foldl_cons, List.foldl_nil]
    by_cases hv : IsString vid
    · simp [hstring hv, hv]
    · by_cases hp : IsString pcp
      · simp [hstring hp, hp]
      · rw [percentD_eq (I := I) hv, percentD_eq (I := I) hp, hn, hm]
        simp only [hv, hp, not_false_eq_true, and_self, true_and, execCommand_some,
          Option.elim_some]
  · have hadd : (Json.str (lit "del")).eqStr (lit "add") = false := by decide
    have hdel : (Json.str (lit "del")).eqStr (lit "del") = true := by decide
    have hname : "del_vlantag" ≠ "none" := by decide
    have htagged : "del_vlantag" ≠ "add_vlantag" := by decide
    simp only [hadd, hdel, Bool.false_eq_true, if_false, if_true, vfPortAdd, if_neg hname,
      if_neg htagged, execCommand_some, List.foldl_cons, List.foldl_nil, false_imp_iff, true_and]

/-- The words of a request to start a component. -/
theorem commandWords_compStart {name : Str} {core type : Json}
    (hname : body.lookup (lit "name") = some (.str name))
    (hcore : body.lookup (lit "core") = some core) (htype : body.lookup (lit "type") = some type) :
    commandWords I (.compStart body) =
      [lit "component", lit "start", name, str I core, str I type] := by
  simp only [commandWords, field_eq hname, field_eq hcore, field_eq htype]
  rfl

/-- What is sent for a request that passes its validator. -/
theorem sends_iff {r : Request} (hpass : Passes I r) {data : List UInt8} :
    sends I r = .ok data ↔
      (∀ name body, r = .compPort name body → NumbersPrintable (requestedVlan body)) ∧
        encode (joinBlank (commandWords I r)) = some data := by
  cases r with
  | compStart body =>
    obtain ⟨name, core, hname, hcore, -, type, htype, -⟩ := validateCompStart_ok hpass
    have hrun : vfCompStart I body = startComponent I (.str name) core type := by
      have hvalid : validateCompStart body ["forward", "merge", "classifier_mac"] = .ok () := hpass
      simp only [vfCompStart, hvalid, getItem_eq hname, getItem_eq hcore, getItem_eq htype, bind,
        Except.bind]
    rw [commandWords_compStart hname hcore htype, sends, hrun, startComponent, execCommand_some]
    simp [str]
  | compStop name =>
    rw [sends, vfCompStop, execCommand_some, commandWords]
    simp
  | compPort name body =>
    obtain ⟨hcomp, hvlan⟩ := validateVfCompPort_ok hpass
    obtain ⟨uid, ⟨action, haction, w, hw, rfl⟩, hport, -, dir, hdir, d, hd, rfl⟩ :=
      validateCompPort_ok hcomp
    have hvalid : validateVfCompPort I body = .ok () := hpass
    have hbodies : (∀ n b, Request.compPort name body = .compPort n b →
        NumbersPrintable (requestedVlan b)) ↔ NumbersPrintable (requestedVlan body) :=
      ⟨fun h => h name body rfl, fun h n b hb => (Request.compPort.inj hb).2 ▸ h⟩
    rw [hbodies, sends, commandWords, isField_eq haction, field_eq hport, field_eq hdir, vfCompPort]
    simp only [hvalid, getItem_eq hport, getItem_eq hdir, getItem_eq haction, bind, Except.bind]
    unfold requestedVlan at hvlan ⊢
    rw [isField_eq haction] at hvlan ⊢
    by_cases hattach : (Json.str (lit w)).eqStr (lit "attach") = true
    · simp only [hattach, if_true] at hvlan ⊢
      cases hnone : vlanOf body with
      | none => simp [vfPortAdd, NumbersPrintable, tagWords, execCommand_some, portAddText, str]
      | some vlan =>
        have hparse := hvlan vlan hnone
        obtain ⟨items, rfl, -⟩ := parseVlan_ok hparse
        exact vfPortAdd_iff hparse
    · simp only [hattach, Bool.false_eq_true, if_false]
      simp [NumbersPrintable, tagWords, portDel, execCommand_some, str]
  | classifier body =>
    obtain ⟨action, type, mac, uid, hentry, haction, huid, hmac, htype⟩ :=
      validateVfClassifier_ok hpass
    have hword : ∃ a, IsWordFor editWords action a := by
      obtain rfl | rfl := haction
      · exact ⟨.add, "add", by simp [editWords], rfl⟩
      · exact ⟨.del, "del", by simp [editWords], rfl⟩
    have hmacs : MacChecked euiForms mac :=
      hmac.imp_right fun h => decide_eq_true h
    have hnumbers : ∀ name b, Request.classifier body = .compPort name b →
        NumbersPrintable (requestedVlan b) := fun _ _ h => by cases h
    rw [sends, vfClassifier_iff hentry, and_iff_right ⟨hword, huid, hmacs⟩,
      and_iff_right hnumbers, commandWords, isField_eq hentry.type, field_eq hentry.action,
      field_eq hentry.mac, field_eq hentry.port]
    obtain rfl | ⟨rfl, v, hv, hint⟩ := htype
    · have hne : lit "mac" ≠ lit "vlan" := by decide
      simp [hne, str]
    · have hne : lit "vlan" ≠ lit "mac" := by decide
      simp [hne, str, hv, hint, field_eq hv]

/-- A command is sent exactly for a request whose numbers can be printed and whose words
can be encoded. -/
theorem exists_sends_iff {r : Request} (hpass : Passes I r) :
    (∃ data, sends I r = .ok data) ↔ Sendable I r := by
  simp only [sends_iff hpass, encode_eq_some, Sendable, joinBlank, isText_intercalate]
  constructor
  · rintro ⟨_, hnumbers, htext, _⟩
    exact ⟨hnumbers, htext⟩
  · rintro ⟨hnumbers, htext⟩
    exact ⟨_, hnumbers, htext, rfl⟩

end Sending

section Tokens

/-- The characters of text have a number below the largest code point. -/
theorem lt_of_isText {s : Str} (h : IsText s) : ∀ c ∈ s, c < 0x110000 := by
  intro c hc
  have := h c hc
  unfold Python.Encodable at this
  omega

/-- The C string of text without a terminator is the text. -/
theorem nul_notMem_cText {s : Str} (htext : IsText s) (h : 0 ∉ s) : CLib.nul ∉ cText s :=
  fun hmem => h (mem_of_mem_cText (lt_of_isText htext) (by decide) hmem)

/-- A name that is one token is received as one. -/
theorem IsOneToken.strtok {s : Str} (h : IsOneToken s) (htext : IsText s) :
    strtok ' ' (cText s) = [cText s] :=
  CLib.strtok_eq_singleton (fun hnil => h.1 (cText_eq_nil.mp hnil)) fun hmem =>
    h.2.1 (mem_of_mem_cText (lt_of_isText htext) (by decide) hmem)

/-- The text of words with blanks between them, one word at a time. -/
theorem cText_joinBlank_cons (w : Str) {ws : List Str} (h : ws ≠ []) :
    cText (joinBlank (w :: ws)) = cText w ++ ' ' :: cText (joinBlank ws) := by
  obtain ⟨v, ws, rfl⟩ := List.exists_cons_of_ne_nil h
  have hcut : joinBlank (w :: v :: ws) = w ++ [32] ++ joinBlank (v :: ws) := by
    simp [joinBlank, List.intercalate]
  have hblank : cText [32] = [' '] := by decide
  rw [hcut, cText_append, cText_append, hblank]
  simp

/-- The tokens of a received text, one word at a time. -/
theorem strtok_stringAt_cons {w : Str} {ws : List Str} (hws : ws ≠ []) (htext : IsText w)
    (hnul : 0 ∉ w) :
    strtok ' ' (CLib.stringAt (cText (joinBlank (w :: ws)))) =
      strtok ' ' (cText w) ++ strtok ' ' (CLib.stringAt (cText (joinBlank ws))) := by
  have hall : ∀ c ∈ cText w, decide (c ≠ CLib.nul) = true := fun c hc =>
    decide_eq_true fun heq => nul_notMem_cText htext hnul (heq ▸ hc)
  have hcut : CLib.stringAt (cText (joinBlank (w :: ws))) =
      cText w ++ ' ' :: CLib.stringAt (cText (joinBlank ws)) := by
    rw [cText_joinBlank_cons w hws]
    unfold CLib.stringAt
    rw [List.takeWhile_append_of_pos hall, List.takeWhile_cons_of_pos (by decide)]
  rw [hcut]
  simp only [CLib.strtok, List.splitOn_append_cons_self, List.filter_append]

/-- The tokens of a received text without terminators. -/
theorem strtok_stringAt {ws : List Str} (hws : ws ≠ []) (h : ∀ w ∈ ws, IsText w ∧ 0 ∉ w) :
    strtok ' ' (CLib.stringAt (cText (joinBlank ws))) = ws.flatMap fun w => strtok ' ' (cText w) := by
  induction ws with
  | nil => exact absurd rfl hws
  | cons w ws ih =>
    obtain ⟨htext, hnul⟩ := h w List.mem_cons_self
    cases ws with
    | nil =>
      have hself : CLib.stringAt (cText (joinBlank [w])) = cText w := by
        have hjoin : joinBlank [w] = w := by simp [joinBlank, List.intercalate]
        rw [hjoin, CLib.stringAt, List.takeWhile_eq_self_iff]
        exact fun c hc => decide_eq_true fun heq => nul_notMem_cText htext hnul (heq ▸ hc)
      rw [hself]
      simp
    | cons v ws =>
      rw [strtok_stringAt_cons (List.cons_ne_nil v ws) htext hnul,
        ih (List.cons_ne_nil v ws) fun u hu => h u (List.mem_cons_of_mem w hu)]
      rfl

/-- The fixed words of a command are tokens. -/
theorem isOneToken_lit : ∀ w ∈ ["component", "start", "stop", "port", "add", "del", "rx", "tx",
    "mac", "vlan", "add_vlantag", "del_vlantag", "classifier_table", "forward", "merge",
    "classifier_mac"], IsOneToken (lit w) ∧ cText (lit w) = w.toList := by
  decide +kernel

/-- A fixed word is received as the token. -/
theorem strtok_lit {w : String} (h : IsOneToken (lit w) ∧ cText (lit w) = w.toList) :
    strtok ' ' (cText (lit w)) = [w.toList] := by
  rw [h.1.strtok (isText_lit w), h.2]

/-- A name that comes back as a token is one token. -/
theorem isOneToken_of_mem {name : Str} {text : CStr} (hnul : CLib.nul ∉ text)
    (h : cText name ∈ strtok ' ' text) : IsOneToken name := by
  refine ⟨?_, fun hblank => ?_, fun hzero => ?_⟩
  · rintro rfl
    exact CLib.ne_nil_of_mem_strtok h rfl
  · have hmem : ' ' ∈ cText name := mem_cText (by decide) hblank
    exact notMem_of_mem_splitOn (List.mem_filter.mp h).1 hmem
  · have hmem : CLib.nul ∈ cText name := mem_cText (by decide) hzero
    exact hnul (CLib.mem_of_mem_strtok h hmem)

/-- A prefix without the separator goes to the first part. -/
theorem splitOn_append_of_notMem {α : Type*} [DecidableEq α] {a : α} {p l first : List α}
    {rest : List (List α)} (hp : a ∉ p) (hl : l.splitOn a = first :: rest) :
    (p ++ l).splitOn a = (p ++ first) :: rest := by
  induction p with
  | nil => exact hl
  | cons x p ih =>
    rw [List.mem_cons, not_or] at hp
    rw [List.cons_append, List.splitOn_cons_eq_if_modifyHead, if_neg (by simpa using Ne.symm hp.1),
      ih hp.2, List.modifyHead_cons]
    rfl

end Tokens

section Numbers

variable {I : Interpreter}

/-- What `strtol` reads of a number, cut down to an `int`, is what `int` reads exactly if
the number is kept. -/
theorem toInt_eq_iff {s : Str} {t : CStr} {n w : ℤ} (ht : strtok ' ' (cText s) = [t])
    (htext : IsText s) (hn : intOfStr I s = some n) (hw : CLib.strtol 0 t = some (w, [])) :
    CLib.toInt w = n ↔ NumberKept s n := by
  obtain ⟨z, hz, hfits⟩ := CLib.toInt_strtol_eq hw
  obtain ⟨heq, hpos, hneg⟩ := literal_eq_int_iff ht (lt_of_isText htext) hn hz
  have hle := Int.le_bmod (x := w) (m := 2 ^ 32) (by decide)
  have hlt := Int.bmod_lt (x := w) (m := 2 ^ 32) (by decide)
  unfold NumberKept
  rw [← heq]
  unfold CLib.toInt at *
  constructor
  · rintro rfl
    have hz' : -2 ^ 31 ≤ z ∧ z < 2 ^ 31 := by
      rcases le_or_gt 0 (w.bmod (2 ^ 32)) with hsign | hsign
      · have := hpos hsign
        omega
      · have := hneg hsign
        omega
    exact ⟨⟨by omega, by omega⟩, (hfits.mpr hz').symm⟩
  · rintro ⟨hrange, rfl⟩
    exact hfits.mpr hrange

/-- No terminator is in what `int` reads. -/
theorem nul_notMem_of_intOfStr {s : Str} {n : ℤ} (h : intOfStr I s = some n) : 0 ∉ s := by
  intro hmem
  have hother := mem_of_intOfStr h hmem (by decide)
  revert hother
  decide

/-- What `int` reads has a token. -/
theorem strtok_ne_nil_of_intOfStr {s : Str} {n : ℤ} (htext : IsText s)
    (h : intOfStr I s = some n) : strtok ' ' (cText s) ≠ [] := by
  intro hnil
  have hblank : ∀ c ∈ cText s, c = ' ' := by
    intro c hc
    by_contra hne
    obtain ⟨g, hg, hmem⟩ := exists_mem_splitOn hc hne
    have hempty := List.filter_eq_nil_iff.mp hnil g hg
    rw [show g = [] by simpa using hempty] at hmem
    cases hmem
  have hall : ∀ c ∈ s, c = 32 := by
    intro c hc
    obtain ⟨b, bs, hbytes⟩ := List.exists_cons_of_ne_nil (utf8_ne_nil c)
    have hb : byteChar b ∈ cText s :=
      List.mem_map.mpr ⟨b, List.mem_flatMap.mpr ⟨c, hc, by rw [hbytes]; simp⟩, rfl⟩
    have h32 : b.toNat = 32 := by rw [← toNat_byteChar, hblank _ hb]; rfl
    have hmem : b ∈ utf8 c := by rw [hbytes]; exact List.mem_cons_self
    rw [← toNat_eq_of_mem_utf8 (lt_of_isText htext c hc) hmem (by omega), h32]
  have htrim : ((s.map (toAscii I)).dropWhile isBlank).rdropWhile isBlank = [] := by
    have hdrop : (s.map (toAscii I)).dropWhile isBlank = [] := by
      rw [List.dropWhile_eq_nil_iff]
      intro d hd
      obtain ⟨c, hc, rfl⟩ := List.mem_map.mp hd
      rw [hall c hc]
      rfl
    rw [hdrop, List.rdropWhile_nil]
  have hscan : scanDigits (scanSign []).2 = none := by decide
  simp only [intOfStr, htrim, hscan, Option.map_none] at h
  cases h

/-- The text of an integer is one token. -/
theorem isOneToken_intText (n : ℤ) : IsOneToken (intText n) :=
  ⟨intText_ne_nil n, blank_notMem_intText n,
    nul_notMem_of_intOfStr (I := .ascii) (intOfStr_intText n)⟩

/-- The text of an integer is kept if it is an `int`. -/
theorem numberKept_intText {n : ℤ} : NumberKept (intText n) n ↔ -2 ^ 31 ≤ n ∧ n < 2 ^ 31 := by
  refine and_iff_left_of_imp fun _ hzero => ?_
  have htok := (isOneToken_intText n).strtok (isText_intText n)
  have h := (literal_eq_int_iff (I := .ascii) htok (lt_of_isText (isText_intText n))
    (intOfStr_intText n) (intLiteral_intText n)).1
  exact (h.mp rfl) hzero

/-- The text of a port type. -/
theorem cText_portType : ∀ t ∈ portTypes,
    cText (lit t) = t.toList ∧ ' ' ∉ t.toList ∧ ':' ∉ t.toList ∧ 0 ∉ lit t := by
  decide +kernel

/-- The tokens of a resource UID: the first one has the type, and the others are tokens
of the number. A UID that is one token has the number as a token. -/
theorem strtok_uid {t : String} {num : Str} {n : ℤ} (ht : t ∈ portTypes)
    (htext : IsText (lit t ++ 58 :: num)) (hn : intOfStr I num = some n) :
    ∃ first rest, strtok ' ' (cText (lit t ++ 58 :: num)) = first :: rest ∧
      (∀ g ∈ rest, ∀ c ∈ g, c ∈ cText num) ∧
      (rest = [] → ∃ tok, strtok ' ' (cText num) = [tok] ∧ first = t.toList ++ ':' :: tok) := by
  obtain ⟨htype, hblank, -, -⟩ := cText_portType t ht
  have hnumText : IsText num := fun c hc => htext c (by simp [hc])
  have hcolon : cText (58 :: num) = ':' :: cText num := by rw [cText_cons]; rfl
  have hcut : cText (lit t ++ 58 :: num) = (t.toList ++ [':']) ++ cText num := by
    rw [cText_append, htype, hcolon, List.append_assoc, List.singleton_append]
  have hprefix : ' ' ∉ t.toList ++ [':'] := by simp [hblank]
  cases hsplit : (cText num).splitOn ' ' with
  | nil => exact absurd hsplit (List.splitOn_ne_nil _ _)
  | cons f fs =>
    have hnum : strtok ' ' (cText num) =
        (f :: fs).filter fun g => !g.isEmpty := by rw [CLib.strtok, hsplit]
    have huid : strtok ' ' (cText (lit t ++ 58 :: num)) =
        (t.toList ++ ':' :: f) :: fs.filter fun g => !g.isEmpty := by
      rw [hcut, CLib.strtok, splitOn_append_of_notMem hprefix hsplit,
        List.filter_cons_of_pos (by simp), List.append_assoc, List.singleton_append]
    refine ⟨_, _, huid, fun g hg c hc => ?_, fun hrest => ⟨f, ?_, rfl⟩⟩
    · have hmem : g ∈ strtok ' ' (cText num) := by
        rw [hnum]
        exact List.mem_filter.mpr ⟨List.mem_cons_of_mem f (List.mem_filter.mp hg).1,
          (List.mem_filter.mp hg).2⟩
      exact CLib.mem_of_mem_strtok hmem hc
    · have hne := strtok_ne_nil_of_intOfStr hnumText hn
      rw [hnum, List.filter_cons, hrest] at hne ⊢
      cases hempty : f.isEmpty with
      | false => simp
      | true => simp [hempty] at hne

/-- A text with one colon is cut at it in one way. -/
theorem eq_of_colon {a b c d : Str} (h : a ++ 58 :: b = c ++ 58 :: d) (ha : 58 ∉ a) (hb : 58 ∉ b) :
    a = c ∧ b = d := by
  have hsplit : (a ++ 58 :: b).splitOn 58 = [a, b] := by
    rw [List.splitOn_append_cons_self_of_not_mem ha, List.splitOn_eq_singleton hb]
  rw [h, List.splitOn_append_cons_self] at hsplit
  obtain ⟨x, xs, hx⟩ := List.exists_cons_of_ne_nil (List.splitOn_ne_nil 58 c)
  obtain ⟨y, ys, hy⟩ := List.exists_cons_of_ne_nil (List.splitOn_ne_nil 58 d)
  have hjoin : ∀ {l m : Str}, l.splitOn 58 = [m] → l = m := by
    intro l m hl
    have hcut : [58].intercalate (l.splitOn 58) = l := List.intercalate_splitOn 58
    rw [hl] at hcut
    rw [← hcut]
    simp
  rw [hx, hy, List.cons_append, List.cons.injEq] at hsplit
  obtain ⟨rfl, hrest⟩ := hsplit
  obtain rfl : xs = [] := by
    have hlength := congrArg List.length hrest
    simp only [List.length_append, List.length_cons, List.length_nil] at hlength
    exact List.length_eq_zero_iff.mp (by omega)
  rw [List.nil_append, List.cons.injEq] at hrest
  obtain ⟨rfl, rfl⟩ := hrest
  exact ⟨(hjoin hx).symm, (hjoin hy).symm⟩

/-- No colon is in what `int` reads. -/
theorem colon_notMem_of_intOfStr {s : Str} {n : ℤ} (h : intOfStr I s = some n) : 58 ∉ s := by
  intro hmem
  have hother := mem_of_intOfStr h hmem (by decide)
  revert hother
  decide

/-- The number of a resource UID is kept if the number after its colon is. -/
theorem portKept_iff {t : String} {num : Str} {n : ℤ} (ht : t ∈ portTypes)
    (hn : intOfStr I num = some n) :
    PortKept I (.str (lit t ++ 58 :: num)) ↔ NumberKept num n := by
  constructor
  · exact fun h => h t num n rfl hn
  · intro h t' num' n' heq hn'
    obtain ⟨-, rfl⟩ := eq_of_colon (Json.str.inj heq) (colon_notMem_portType t ht)
      (colon_notMem_of_intOfStr hn)
    obtain rfl := Option.some.inj (hn.symm.trans hn')
    exact h

/-- The port that the decoder reads is the one of the body exactly if its number is kept. -/
theorem portIs_iff {t : String} {num : Str} {tok : CStr} {n : ℤ} {port : PortIndex}
    (ht : t ∈ portTypes) (htext : IsText num) (hn : intOfStr I num = some n)
    (htok : strtok ' ' (cText num) = [tok])
    (hport : Vf.sppConvertPortToIface (t.toList ++ ':' :: tok) = .ok port) :
    PortIs I (.str (lit t ++ 58 :: num)) port ↔ PortKept I (.str (lit t ++ 58 :: num)) := by
  obtain ⟨word, number, v, hword, heq, hv, hno⟩ := Vf.sppConvertPortToIface_eq_ok hport
  have hcolon : ∀ {w : CStr} {type : Vf.PortType}, (w, type) ∈ Vf.portTypeWords →
      ∃ u : String, w = u.toList ∧ (u, type) ∈ uidWords := by
    intro w type hw
    simp only [Vf.portTypeWords, List.mem_cons, Prod.mk.injEq, List.not_mem_nil, or_false] at hw
    rcases hw with ⟨rfl, rfl⟩ | ⟨rfl, rfl⟩ | ⟨rfl, rfl⟩
    · exact ⟨"phy", rfl, by simp [uidWords]⟩
    · exact ⟨"vhost", rfl, by simp [uidWords]⟩
    · exact ⟨"ring", rfl, by simp [uidWords]⟩
  obtain ⟨u, rfl, hu⟩ := hcolon hword
  have hnotin : ':' ∉ u.toList := by
    simp only [uidWords, List.mem_cons, Prod.mk.injEq, List.not_mem_nil, or_false] at hu
    rcases hu with ⟨rfl, -⟩ | ⟨rfl, -⟩ | ⟨rfl, -⟩ <;> decide
  obtain ⟨rfl, rfl⟩ : t = u ∧ tok = number := by
    have hsplit := congrArg (List.splitOn ':') heq
    rw [List.splitOn_append_cons_self_of_not_mem (cText_portType t ht).2.2.1,
      List.splitOn_append_cons_self_of_not_mem hnotin] at hsplit
    have htu := (List.cons.inj hsplit).1
    rw [htu, List.append_cancel_left_eq, List.cons.injEq] at heq
    exact ⟨String.toList_inj.mp htu, heq.2⟩
  rw [portKept_iff ht hn, ← toInt_eq_iff htok htext hn hv, ← hno]
  constructor
  · rintro ⟨t', num', heq', -, hn'⟩
    obtain ⟨-, rfl⟩ := eq_of_colon (Json.str.inj heq') (colon_notMem_portType t ht)
      (colon_notMem_of_intOfStr hn)
    exact Option.some.inj (hn'.symm.trans hn)
  · intro hvalue
    exact ⟨t, num, rfl, hu, by rw [hn, hvalue]⟩

end Numbers

end Spp.Ctl.Agreement
