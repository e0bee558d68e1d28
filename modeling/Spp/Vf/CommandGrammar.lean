import Spp.Vf.DecodedCommand

/-!
# The documented command grammar

The requests that the command reference of `spp_vf` lists, each with the command
that it denotes. The decoder bounds the number of tokens for a command name as a
whole and cuts numbers down to their fields, so that it accepts requests outside
this grammar; they are told apart here by their tokens alone.
-/

namespace Spp.Vf

open CLib

section Tokens

/-- The actions on ports and on the classifier table. -/
def editWords : List (CStr × CommandAction) := [("add".toList, .add), ("del".toList, .del)]

/-- The directions of a port. -/
def directionWords : List (CStr × PortRxtx) := [("rx".toList, .rx), ("tx".toList, .tx)]

/-- The component types of `spp_vf`. -/
def componentTypeWords : List (CStr × ComponentType) :=
  [("classifier_mac".toList, .classifierMac), ("merge".toList, .merge),
   ("forward".toList, .forward)]

/-- The port types of a resource UID. -/
def portTypeWords : List (CStr × PortType) :=
  [("phy".toList, .phy), ("vhost".toList, .vhost), ("ring".toList, .ring)]

/-- The text of a resource UID after its first colon. -/
def uidNumber (uid : CStr) : CStr := (uid.dropWhile (· ≠ ':')).drop 1

/-- A resource UID `TYPE:NUMBER` denotes a port. -/
def DenotesPort (uid : CStr) (port : PortIndex) : Prop :=
  ∃ word, (word, port.ifaceType) ∈ portTypeWords ∧ uid = word ++ ':' :: uidNumber uid ∧
    intLiteral (uidNumber uid) = some port.ifaceNo

/-- A MAC address is `default` or six fields of one or two hexadecimal digits. -/
def IsMacAddress (mac : CStr) : Prop :=
  mac = "default".toList ∨
    (mac.splitOn ':').length = etherAddrLen ∧
      ∀ field ∈ mac.splitOn ':', 1 ≤ field.length ∧ field.length ≤ 2 ∧
        ∀ c ∈ field, isDigit 16 c = true

/-- The address that a MAC token denotes; `default` stands for an internal one. -/
def macText (mac : CStr) : CStr :=
  if mac = "default".toList then "00:00:00:00:00:01".toList else mac

/-- The number of a token, if it is one, is an `int`. -/
def FitsInt (token : CStr) : Prop :=
  ∀ z, intLiteral token = some z → -2 ^ 31 ≤ z ∧ z < 2 ^ 31

/-- The number of a token, if it is one, is an `unsigned int`. -/
def FitsUInt (token : CStr) : Prop :=
  ∀ z, intLiteral token = some z → 0 ≤ z ∧ z < 2 ^ 32

end Tokens

section Grammar

/-- `component start NAME CORE TYPE` and `component stop NAME`. -/
def ComponentForm (tokens : List CStr) (c : CommandComponent) : Prop :=
  (∃ core type, tokens = ["component".toList, "start".toList, c.name, core, type] ∧
      c.action = .start ∧ intLiteral core = some (c.core : ℤ) ∧
      (type, c.type) ∈ componentTypeWords) ∨
    tokens = ["component".toList, "stop".toList, c.name] ∧ c.action = .stop

/-- What may follow the name in a `port` request: nothing, or for an add
`add_vlantag VID PCP` or `del_vlantag`. -/
def VlanForm (tokens : List CStr) (c : CommandPort) : Prop :=
  (tokens = [] ∧ c.ability = {}) ∨
    (c.action = .add ∧ c.ability.rxtx = c.rxtx ∧
      ((∃ vid pcp, tokens = ["add_vlantag".toList, vid, pcp] ∧ c.ability.ope = .addVlantag ∧
          intLiteral vid = some c.ability.vlantag.vid ∧
          intLiteral pcp = some c.ability.vlantag.pcp) ∨
        (tokens = ["del_vlantag".toList] ∧ c.ability.ope = .delVlantag)))

/-- `port add|del RES_UID DIR NAME` and the forms of an add with a VLAN operation. -/
def PortForm (tokens : List CStr) (c : CommandPort) : Prop :=
  ∃ action uid dir rest, tokens = "port".toList :: action :: uid :: dir :: c.name :: rest ∧
    (action, c.action) ∈ editWords ∧ DenotesPort uid c.port ∧ (dir, c.rxtx) ∈ directionWords ∧
    VlanForm rest c

/-- `classifier_table add|del mac MAC RES_UID`. Such an entry has no VLAN id. -/
def ClassifierMacForm (tokens : List CStr) (c : CommandClassifierTable) : Prop :=
  ∃ action mac uid, tokens = ["classifier_table".toList, action, "mac".toList, mac, uid] ∧
    (action, c.action) ∈ editWords ∧ c.type = .mac ∧ c.vid = ethVlanIdMax ∧
    IsMacAddress mac ∧ c.mac = macText mac ∧ DenotesPort uid c.port

/-- `classifier_table add|del vlan VID MAC RES_UID`. -/
def ClassifierVlanForm (tokens : List CStr) (c : CommandClassifierTable) : Prop :=
  ∃ action vid mac uid,
    tokens = ["classifier_table".toList, action, "vlan".toList, vid, mac, uid] ∧
    (action, c.action) ∈ editWords ∧ c.type = .vlan ∧ intLiteral vid = some c.vid ∧
    IsMacAddress mac ∧ c.mac = macText mac ∧ DenotesPort uid c.port

/-- The tokens are a documented request and denote the command. -/
def Documented (tokens : List CStr) : SppCommand → Prop
  | .clientId => tokens = ["_get_client_id".toList]
  | .status => tokens = ["status".toList]
  | .exit => tokens = ["exit".toList]
  | .component c => ComponentForm tokens c
  | .port c => PortForm tokens c
  | .classifierTableMac c => ClassifierMacForm tokens c
  | .classifierTableVlan c => ClassifierVlanForm tokens c

end Grammar

section Condition

/-- The request has as many tokens as its words call for. -/
structure CompleteRequest (tokens : List CStr) : Prop where
  /-- A start names the core and the type. -/
  start : tokens.take 2 = ["component".toList, "start".toList] → tokens.length = 5
  /-- Nothing follows the name of a stop. -/
  stop : tokens.take 2 = ["component".toList, "stop".toList] → tokens.length = 3
  /-- Nothing follows the name of a port that is deleted. -/
  portDel : tokens.take 2 = ["port".toList, "del".toList] → tokens.length = 5
  /-- Only a VLAN operation with its own operands follows that of one added. -/
  portAdd : tokens.take 2 = ["port".toList, "add".toList] → tokens.length = 5 ∨
    tokens.length = 6 ∧ tokens[5]? = some "del_vlantag".toList ∨
    tokens.length = 8 ∧ tokens[5]? = some "add_vlantag".toList
  /-- A VLAN id is given iff the type of the table entry is not `mac`. -/
  classifier : tokens.head? = some "classifier_table".toList →
    (tokens[2]? = some "mac".toList ↔ tokens.length = 5)

/-- The number tokens are in the range of the fields they are stored in. -/
structure NumbersFit (tokens : List CStr) : Prop where
  /-- The core of a start. -/
  core : tokens.take 2 = ["component".toList, "start".toList] → ∀ k ∈ tokens[3]?, FitsUInt k
  /-- The number of the port of a `port` request. -/
  port : tokens.head? = some "port".toList → ∀ uid ∈ tokens[2]?, FitsInt (uidNumber uid)
  /-- The VLAN id and the priority of a tag. -/
  tag : tokens.head? = some "port".toList → tokens[5]? = some "add_vlantag".toList →
    ∀ k ∈ tokens.drop 6, FitsInt k
  /-- The VLAN id of a table entry. -/
  vid : tokens.head? = some "classifier_table".toList → tokens.length = 6 →
    ∀ k ∈ tokens[3]?, FitsInt k
  /-- The number of the port of a table entry. -/
  classifier : tokens.head? = some "classifier_table".toList →
    ∀ uid ∈ tokens.getLast?, FitsInt (uidNumber uid)

/-- The MAC address of a table entry, the last token but one, is written as one. -/
def MacWritten (tokens : List CStr) : Prop :=
  tokens.head? = some "classifier_table".toList → ∀ mac ∈ tokens[tokens.length - 2]?,
    IsMacAddress mac

/-- The conditions under which the decoder stays within the grammar. -/
def StaysDocumented (tokens : List CStr) : Prop :=
  CompleteRequest tokens ∧ NumbersFit tokens ∧ MacWritten tokens

/-- The conditions on a request that starts. -/
theorem staysDocumented_start {args : List CStr} :
    StaysDocumented ("component".toList :: "start".toList :: args) ↔
      args.length = 3 ∧ ∀ k ∈ args[1]?, FitsUInt k := by
  constructor
  · rintro ⟨hcomplete, hfit, -⟩
    exact ⟨by simpa using hcomplete.start (by simp), by simpa using hfit.core (by simp)⟩
  · rintro ⟨hlength, hcore⟩
    refine ⟨⟨?_, ?_, ?_, ?_, ?_⟩, ⟨?_, ?_, ?_, ?_, ?_⟩, ?_⟩
    · simp [hlength]
    · simp
    · simp
    · simp
    · simp
    · simpa using hcore
    · simp
    · simp
    · simp
    · simp
    · simp [MacWritten]

/-- The conditions on a request that stops. -/
theorem staysDocumented_stop {args : List CStr} :
    StaysDocumented ("component".toList :: "stop".toList :: args) ↔ args.length = 1 := by
  constructor
  · rintro ⟨hcomplete, -, -⟩
    simpa using hcomplete.stop (by simp)
  · intro hlength
    refine ⟨⟨?_, ?_, ?_, ?_, ?_⟩, ⟨?_, ?_, ?_, ?_, ?_⟩, ?_⟩
    · simp
    · simp [hlength]
    · simp
    · simp
    · simp
    · simp
    · simp
    · simp
    · simp
    · simp
    · simp [MacWritten]

/-- What may follow the name of an added port. -/
def VlanComplete (rest : List CStr) : Prop :=
  rest = [] ∨ rest = ["del_vlantag".toList] ∨
    ∃ vid pcp, rest = ["add_vlantag".toList, vid, pcp] ∧ FitsInt vid ∧ FitsInt pcp

/-- The conditions on a request that adds a port. -/
theorem staysDocumented_portAdd {uid dir name : CStr} {rest : List CStr} :
    StaysDocumented ("port".toList :: "add".toList :: uid :: dir :: name :: rest) ↔
      FitsInt (uidNumber uid) ∧ VlanComplete rest := by
  constructor
  · rintro ⟨hcomplete, hfit, -⟩
    refine ⟨by simpa using hfit.port (by simp), ?_⟩
    have hrest : rest.length = 0 ∨ rest.length = 1 ∧ rest[0]? = some "del_vlantag".toList ∨
        rest.length = 3 ∧ rest[0]? = some "add_vlantag".toList := by
      simpa using hcomplete.portAdd (by simp)
    rcases hrest with hnil | ⟨hone, hdel⟩ | ⟨hthree, hadd⟩
    · exact .inl (List.length_eq_zero_iff.mp hnil)
    · obtain ⟨ope, rfl⟩ := List.length_eq_one_iff.mp hone
      exact .inr (.inl (by simpa using hdel))
    · obtain ⟨ope, vid, pcp, rfl⟩ := List.length_eq_three.mp hthree
      obtain rfl : ope = "add_vlantag".toList := by simpa using hadd
      have htag := hfit.tag (by simp) (by simp)
      exact .inr (.inr ⟨vid, pcp, rfl, htag vid (by simp), htag pcp (by simp)⟩)
  · rintro ⟨huid, hrest⟩
    refine ⟨⟨?_, ?_, ?_, ?_, ?_⟩, ⟨?_, ?_, ?_, ?_, ?_⟩, ?_⟩
    · simp
    · simp
    · simp
    · rcases hrest with rfl | rfl | ⟨vid, pcp, rfl, -⟩
      · simp
      · simp
      · simp
    · simp
    · simp
    · simpa using huid
    · rcases hrest with rfl | rfl | ⟨vid, pcp, rfl, hvid, hpcp⟩
      · simp
      · simp
      · simp [hvid, hpcp]
    · simp
    · simp
    · simp [MacWritten]

/-- The conditions on a request that deletes a port. -/
theorem staysDocumented_portDel {uid dir name : CStr} {rest : List CStr} :
    StaysDocumented ("port".toList :: "del".toList :: uid :: dir :: name :: rest) ↔
      FitsInt (uidNumber uid) ∧ rest = [] := by
  constructor
  · rintro ⟨hcomplete, hfit, -⟩
    exact ⟨by simpa using hfit.port (by simp), by simpa using hcomplete.portDel (by simp)⟩
  · rintro ⟨huid, rfl⟩
    refine ⟨⟨?_, ?_, ?_, ?_, ?_⟩, ⟨?_, ?_, ?_, ?_, ?_⟩, ?_⟩
    · simp
    · simp
    · simp
    · simp
    · simp
    · simp
    · simpa using huid
    · simp
    · simp
    · simp
    · simp [MacWritten]

/-- The conditions on a `classifier_table` request without a VLAN id. -/
theorem staysDocumented_mac {action type mac uid : CStr} :
    StaysDocumented ["classifier_table".toList, action, type, mac, uid] ↔
      type = "mac".toList ∧ IsMacAddress mac ∧ FitsInt (uidNumber uid) := by
  constructor
  · rintro ⟨hcomplete, hfit, hmac⟩
    exact ⟨by simpa using hcomplete.classifier (by simp), by simpa [MacWritten] using hmac,
      by simpa using hfit.classifier (by simp)⟩
  · rintro ⟨rfl, hmac, huid⟩
    refine ⟨⟨?_, ?_, ?_, ?_, ?_⟩, ⟨?_, ?_, ?_, ?_, ?_⟩, ?_⟩
    · simp
    · simp
    · simp
    · simp
    · simp
    · simp
    · simp
    · simp
    · simp
    · simpa using huid
    · simpa [MacWritten] using hmac

/-- The conditions on a `classifier_table` request with a VLAN id. -/
theorem staysDocumented_vlan {action type vid mac uid : CStr} :
    StaysDocumented ["classifier_table".toList, action, type, vid, mac, uid] ↔
      type ≠ "mac".toList ∧ FitsInt vid ∧ IsMacAddress mac ∧ FitsInt (uidNumber uid) := by
  constructor
  · rintro ⟨hcomplete, hfit, hmac⟩
    exact ⟨by simpa using hcomplete.classifier (by simp),
      by simpa using hfit.vid (by simp) (by simp), by simpa [MacWritten] using hmac,
      by simpa using hfit.classifier (by simp)⟩
  · rintro ⟨htype, hvid, hmac, huid⟩
    refine ⟨⟨?_, ?_, ?_, ?_, ?_⟩, ⟨?_, ?_, ?_, ?_, ?_⟩, ?_⟩
    · simp
    · simp
    · simp
    · simp
    · simpa using htype
    · simp
    · simp
    · simp
    · simpa using hvid
    · simpa using huid
    · simpa [MacWritten] using hmac

/-- There are no conditions on a request of a single token. -/
theorem staysDocumented_single {name : CStr} (hclassifier : name ≠ "classifier_table".toList) :
    StaysDocumented [name] := by
  refine ⟨⟨?_, ?_, ?_, ?_, ?_⟩, ⟨?_, ?_, ?_, ?_, ?_⟩, ?_⟩
  · simp
  · simp
  · simp
  · simp
  · exact fun hhead => absurd (Option.some.inj hhead) hclassifier
  · simp
  · simp
  · simp
  · simp
  · exact fun hhead => absurd (Option.some.inj hhead) hclassifier
  · exact fun hhead => absurd (Option.some.inj hhead) hclassifier

end Condition

variable {L : Limits} {M : SppModule} {s : MngData}

section Numbers

/-- A number that `get_int_value` accepts is the denoted one iff that is an `int`. -/
theorem getIntValue_literal {token : CStr} {lo hi v : ℤ} (h : getIntValue token lo hi = .ok v) :
    intLiteral token = some v ↔ FitsInt token := by
  unfold getIntValue at h
  split at h
  · rename_i w hscan
    dsimp only at h
    split at h
    · cases h
    · obtain rfl := Except.ok.inj h
      obtain ⟨z, hz, hfits⟩ := toInt_strtol_eq hscan
      simp only [FitsInt, hz, Option.some.injEq, forall_eq']
      rw [eq_comm, hfits]
  · cases h

/-- A number that `get_uint_value` accepts is the denoted one iff that is an
`unsigned int`. -/
theorem getUintValue_literal {token : CStr} {lo hi v : ℕ} (h : getUintValue token lo hi = .ok v) :
    intLiteral token = some (v : ℤ) ↔ FitsUInt token := by
  unfold getUintValue at h
  split at h
  · rename_i w hscan
    dsimp only at h
    split at h
    · cases h
    · obtain rfl := Except.ok.inj h
      obtain ⟨z, hz, hfits⟩ := toUInt_strtoul_eq hscan
      simp only [FitsUInt, hz, Option.some.injEq, forall_eq']
      rw [eq_comm, hfits]
  · cases h

/-- A text after a stripped prefix. -/
theorem stripPrefix_eq_some {pre : String} {text rest : CStr}
    (h : stripPrefix pre text = some rest) : text = pre.toList ++ rest := by
  unfold stripPrefix at h
  split at h
  · rename_i hpre
    obtain ⟨tail, rfl⟩ := List.isPrefixOf_iff_prefix.mp hpre
    simpa using h
  · cases h

/-- The number of a resource UID is what follows its type word. -/
theorem uidNumber_word {word number : CStr} {type : PortType}
    (hword : (word, type) ∈ portTypeWords) : uidNumber (word ++ ':' :: number) = number := by
  have hcolon : ':' ∉ word := by
    simp only [portTypeWords, List.mem_cons, Prod.mk.injEq, List.not_mem_nil, or_false] at hword
    rcases hword with ⟨rfl, -⟩ | ⟨rfl, -⟩ | ⟨rfl, -⟩ <;> decide
  have hdrop : (word ++ ':' :: number).dropWhile (· ≠ ':') = ':' :: number := by
    rw [List.dropWhile_append_of_pos]
    · simp
    · intro c hc
      simpa using fun heq : c = ':' => hcolon (heq ▸ hc)
  rw [uidNumber, hdrop, List.drop_one, List.tail_cons]

/-- A resource UID that the decoder accepts is one of the type words and a number that
`strtol` reads to its end. -/
theorem sppConvertPortToIface_eq_ok {uid : CStr} {port : PortIndex}
    (h : sppConvertPortToIface uid = .ok port) :
    ∃ word number v, (word, port.ifaceType) ∈ portTypeWords ∧ uid = word ++ ':' :: number ∧
      strtol 0 number = some (v, []) ∧ port.ifaceNo = toInt v := by
  have hsplit : ∀ {pre : String} {word number : CStr}, pre.toList = word ++ [':'] →
      stripPrefix pre uid = some number → uid = word ++ ':' :: number := by
    intro pre word number hpre hstrip
    rw [stripPrefix_eq_some hstrip, hpre, List.append_assoc, List.singleton_append]
  unfold sppConvertPortToIface at h
  dsimp only at h
  split at h
  · rename_i number hstrip
    split at h
    · rename_i v hscan
      rw [← Except.ok.inj h]
      exact ⟨"phy".toList, number, v, by simp [portTypeWords], hsplit rfl hstrip, hscan, rfl⟩
    · cases h
  · split at h
    · rename_i number hstrip
      split at h
      · rename_i v hscan
        rw [← Except.ok.inj h]
        exact ⟨"vhost".toList, number, v, by simp [portTypeWords], hsplit rfl hstrip, hscan, rfl⟩
      · cases h
    · split at h
      · rename_i number hstrip
        split at h
        · rename_i v hscan
          rw [← Except.ok.inj h]
          exact ⟨"ring".toList, number, v, by simp [portTypeWords], hsplit rfl hstrip, hscan, rfl⟩
        · cases h
      · cases h

/-- A resource UID that the decoder accepts denotes the decoded port iff its
number is an `int`. -/
theorem sppConvertPortToIface_literal {uid : CStr} {port : PortIndex}
    (h : sppConvertPortToIface uid = .ok port) :
    DenotesPort uid port ↔ FitsInt (uidNumber uid) := by
  obtain ⟨word, number, v, hword, rfl, hscan, hport⟩ := sppConvertPortToIface_eq_ok h
  obtain ⟨z, hz, hfits⟩ := toInt_strtol_eq hscan
  rw [DenotesPort, uidNumber_word hword, hport]
  simp only [FitsInt, hz, Option.some.injEq, forall_eq', ← hfits]
  constructor
  · rintro ⟨_, _, _, heq⟩
    exact heq.symm
  · intro heq
    exact ⟨word, hword, rfl, heq.symm⟩

end Numbers

section Component

/-- A decoded type is the one that its token names. -/
theorem sppConvertComponentType_words {token : CStr}
    (h : sppConvertComponentType .vf token ≠ .unuse) :
    (token, sppConvertComponentType .vf token) ∈ componentTypeWords := by
  unfold sppConvertComponentType at h ⊢
  dsimp only at h ⊢
  by_cases hclassifier : token = "classifier_mac".toList
  · simp [hclassifier, componentTypeWords]
  · rw [if_neg hclassifier] at h ⊢
    by_cases hmerge : token = "merge".toList
    · simp [hmerge, componentTypeWords]
    · rw [if_neg hmerge] at h ⊢
      by_cases hforward : token = "forward".toList
      · simp [hforward, componentTypeWords]
      · exact absurd (if_neg hforward) h

/-- The type of a start is the one that its token names. -/
theorem decodeComponentTypeValue_start {c c' : CommandComponent} {token : CStr}
    (hstart : c.action = .start) (h : decodeComponentTypeValue .vf c token = .ok c') :
    ∃ type, c' = { c with type := type } ∧ (token, type) ∈ componentTypeWords := by
  unfold decodeComponentTypeValue at h
  rw [if_neg (not_not.mpr hstart)] at h
  split at h
  · cases h
  · rename_i hne
    exact ⟨_, (Except.ok.inj h).symm, sppConvertComponentType_words hne⟩

/-- The core of a start is the number that its token denotes, if that fits. -/
theorem decodeComponentCoreValue_start {c c' : CommandComponent} {token : CStr}
    (hstart : c.action = .start) (h : decodeComponentCoreValue L c token = .ok c') :
    ∃ core, c' = { c with core := core } ∧
      (intLiteral token = some (core : ℤ) ↔ FitsUInt token) := by
  unfold decodeComponentCoreValue at h
  rw [if_neg (not_not.mpr hstart)] at h
  obtain ⟨core, hcore, h⟩ := bind_eq_ok.mp h
  exact ⟨core, (Except.ok.inj h).symm, getUintValue_literal hcore⟩

/-- An accepted `component` request is a documented one iff it has all the
tokens of its action and no other, and its core fits. -/
theorem componentForm_iff {args : List CStr} {c : CommandComponent} (hmin : 2 ≤ args.length)
    (hmax : args.length ≤ 4)
    (h : decodeCommandParameter (parameterListComponent L .vf s) args {} = .ok c) :
    ComponentForm ("component".toList :: args) c ↔
      StaysDocumented ("component".toList :: args) := by
  obtain ⟨a, n, rest, rfl⟩ : ∃ a n rest, args = a :: n :: rest := by
    match args, hmin with
    | a :: n :: rest, _ => exact ⟨a, n, rest, rfl⟩
  obtain ⟨c₁, haction, h⟩ := decodeCommandParameter_cons_eq_ok.mp h
  obtain ⟨c₂, hname, h⟩ := decodeCommandParameter_cons_eq_ok.mp h
  obtain ⟨-, rfl, -⟩ := decodeComponentNameValue_eq_ok hname
  rcases decodeComponentActionValue_eq_ok haction with ⟨rfl, rfl⟩ | ⟨rfl, rfl⟩
  · rw [staysDocumented_start]
    match rest, hmax with
    | [], _ => simp [ComponentForm]
    | [k], _ => simp [ComponentForm]
    | [k, t], _ =>
      obtain ⟨c₃, hcore, h⟩ := decodeCommandParameter_cons_eq_ok.mp h
      obtain ⟨c₄, htype, h⟩ := decodeCommandParameter_cons_eq_ok.mp h
      obtain rfl := decodeCommandParameter_nil_eq_ok.mp h
      obtain ⟨core, rfl, hfits⟩ := decodeComponentCoreValue_start rfl hcore
      obtain ⟨type, rfl, hword⟩ := decodeComponentTypeValue_start rfl htype
      simpa [ComponentForm, hword] using hfits
  · rw [staysDocumented_stop]
    -- The core and the type of a stop are not decoded.
    have hkeeps : c.action = .stop ∧ c.name = n := by
      refine decodeCommandParameter_keeps (P := fun c => c.action = .stop ∧ c.name = n) ?_ h
        ⟨rfl, rfl⟩
      rintro p hp b token b' hfunc ⟨haction, hname⟩
      simp only [List.mem_cons, List.not_mem_nil, or_false] at hp
      rcases hp with rfl | rfl
      · obtain ⟨core, rfl, -⟩ := decodeComponentCoreValue_eq_ok hfunc
        exact ⟨haction, hname⟩
      · obtain ⟨type, rfl, -⟩ := decodeComponentTypeValue_eq_ok hfunc
        exact ⟨haction, hname⟩
    simp [ComponentForm, hkeeps]

end Component

section Port

/-- A decoded port action is the one that its token names. -/
theorem decodePortActionValue_word {c c' : CommandPort} {token : CStr}
    (h : decodePortActionValue c token = .ok c') :
    ∃ action, c' = { c with action := action } ∧ (token, action) ∈ editWords := by
  unfold decodePortActionValue at h
  split at h
  · rename_i hindex
    obtain ⟨str, hmem, rfl⟩ := mem_of_getArraryIndex hindex
    refine ⟨.add, (Except.ok.inj h).symm, ?_⟩
    simp_all [commandActionStrings, editWords]
  · rename_i hindex
    obtain ⟨str, hmem, rfl⟩ := mem_of_getArraryIndex hindex
    refine ⟨.del, (Except.ok.inj h).symm, ?_⟩
    simp_all [commandActionStrings, editWords]
  · cases h

/-- A decoded port is the one that its token is converted to. -/
theorem decodePortPortValue_converts {c c' : CommandPort} {token : CStr} {flag : Bool}
    (h : decodePortPortValue L s c token flag = .ok c') :
    ∃ port, c' = { c with port := port } ∧ sppConvertPortToIface token = .ok port := by
  unfold decodePortPortValue at h
  obtain ⟨port, hport, h⟩ := bind_eq_ok.mp h
  refine ⟨port, ?_, hport⟩
  split at h
  · obtain ⟨_, -, h⟩ := bind_eq_ok.mp h
    obtain ⟨_, -, h⟩ := bind_eq_ok.mp h
    split at h
    · cases h
    · exact (Except.ok.inj h).symm
  · exact (Except.ok.inj h).symm

/-- A decoded direction is the one that its token names. -/
theorem decodePortRxtxValue_word {c c' : CommandPort} {token : CStr} {flag : Bool}
    (h : decodePortRxtxValue L s c token flag = .ok c') :
    ∃ rxtx, c' = { c with rxtx := rxtx } ∧ (token, rxtx) ∈ directionWords := by
  obtain ⟨rxtx, hdir, rfl, -⟩ := decodePortRxtxValue_eq_ok h
  refine ⟨rxtx, rfl, ?_⟩
  unfold decodePortRxtxValue at h
  split at h
  · cases h
  · cases h
  · rename_i rxtx' _ hindex
    have hsame : rxtx' = rxtx := by
      split at h
      · obtain ⟨used, -, h⟩ := bind_eq_ok.mp h
        split at h
        · cases h
        · simpa using congrArg CommandPort.rxtx (Except.ok.inj h)
      · simpa using congrArg CommandPort.rxtx (Except.ok.inj h)
    subst hsame
    obtain ⟨str, hmem, rfl⟩ := mem_of_getArraryIndex hindex
    rcases hdir with rfl | rfl <;> simp_all [portRxtxStrings, directionWords]

/-- The first VLAN token of a request names the operation. -/
theorem decodePortVlanOperation_word {c c' : CommandPort} {token : CStr}
    (hability : c.ability = {}) (h : decodePortVlanOperation c token = .ok c') :
    (token = "add_vlantag".toList ∧
        c' = { c with ability := { ope := .addVlantag, rxtx := c.rxtx } }) ∨
      (token = "del_vlantag".toList ∧
        c' = { c with ability := { ope := .delVlantag, rxtx := c.rxtx } }) := by
  unfold decodePortVlanOperation at h
  rw [hability] at h
  dsimp only at h
  split at h
  · rename_i hindex
    obtain ⟨str, hmem, rfl⟩ := mem_of_getArraryIndex hindex
    cases h
    simp_all [portAbilityStrings]
  · rename_i hindex
    obtain ⟨str, hmem, rfl⟩ := mem_of_getArraryIndex hindex
    cases h
    simp_all [portAbilityStrings]
  · cases h

/-- The operands are decoded for an operation that adds a tag only. -/
theorem decodeOperands_delVlantag {rest : List CStr} {b c : CommandPort}
    (hope : b.ability.ope = .delVlantag)
    (h : decodeCommandParameter [("port vid", decodePortVid), ("port pcp", decodePortPcp)]
      rest b = .ok c) : c = b := by
  refine decodeCommandParameter_keeps (P := fun c => c = b) ?_ h rfl
  rintro p hp _ token b' hfunc rfl
  simp only [List.mem_cons, List.not_mem_nil, or_false] at hp
  rcases hp with rfl | rfl
  · simpa [decodePortVid, hope, eq_comm] using hfunc
  · simpa [decodePortPcp, hope, eq_comm] using hfunc

/-- Two operands of `add_vlantag` denote the decoded VLAN id and priority iff
they fit. -/
theorem decodeOperands_addVlantag {vid pcp : CStr} {b c : CommandPort}
    (hope : b.ability.ope = .addVlantag)
    (h : decodeCommandParameter [("port vid", decodePortVid), ("port pcp", decodePortPcp)]
      [vid, pcp] b = .ok c) :
    c.ability.ope = .addVlantag ∧ c.ability.rxtx = b.ability.rxtx ∧ c.rxtx = b.rxtx ∧
      (intLiteral vid = some c.ability.vlantag.vid ↔ FitsInt vid) ∧
      (intLiteral pcp = some c.ability.vlantag.pcp ↔ FitsInt pcp) := by
  obtain ⟨c₁, hvid, h⟩ := decodeCommandParameter_cons_eq_ok.mp h
  obtain ⟨c₂, hpcp, h⟩ := decodeCommandParameter_cons_eq_ok.mp h
  obtain rfl := decodeCommandParameter_nil_eq_ok.mp h
  unfold decodePortVid at hvid
  rw [if_pos hope] at hvid
  obtain ⟨v, hv, hvid⟩ := bind_eq_ok.mp hvid
  obtain rfl := Except.ok.inj hvid
  unfold decodePortPcp at hpcp
  rw [if_pos hope] at hpcp
  obtain ⟨w, hw, hpcp⟩ := bind_eq_ok.mp hpcp
  obtain rfl := Except.ok.inj hpcp
  exact ⟨hope, rfl, rfl, getIntValue_literal hv, getIntValue_literal hw⟩

/-- What follows the name is a documented VLAN operation iff it is one of an
add, with its own operands, and they fit. -/
theorem vlanForm_iff {rest : List CStr} {b c : CommandPort} (hability : b.ability = {})
    (h : decodeCommandParameter [("port vlan operation", decodePortVlanOperation),
      ("port vid", decodePortVid), ("port pcp", decodePortPcp)] rest b = .ok c) :
    VlanForm rest c ↔ rest = [] ∨ c.action = .add ∧ VlanComplete rest := by
  cases rest with
  | nil =>
    obtain rfl := decodeCommandParameter_nil_eq_ok.mp h
    simp [VlanForm, hability]
  | cons ope rest =>
    obtain ⟨b₁, hope, h⟩ := decodeCommandParameter_cons_eq_ok.mp h
    rcases decodePortVlanOperation_word hability hope with ⟨rfl, rfl⟩ | ⟨rfl, rfl⟩
    · match rest with
      | [] => simp [VlanForm, VlanComplete]
      | [vid] => simp [VlanForm, VlanComplete]
      | [vid, pcp] =>
        obtain ⟨hadd, hrxtx, hdir, hvid, hpcp⟩ := decodeOperands_addVlantag rfl h
        simp [VlanForm, VlanComplete, hadd, hrxtx, hdir, hvid, hpcp]
      | vid :: pcp :: token :: rest =>
        obtain ⟨b₂, -, h⟩ := decodeCommandParameter_cons_eq_ok.mp h
        obtain ⟨b₃, -, h⟩ := decodeCommandParameter_cons_eq_ok.mp h
        simp [decodeCommandParameter] at h
    · obtain rfl := decodeOperands_delVlantag rfl h
      simp [VlanForm, VlanComplete]

/-- What the handlers of a `port` request read of its first four tokens, and that the
tokens after them set the ability only. -/
theorem portFields_of_decode {a uid d n : CStr} {rest : List CStr} {flag : Bool} {c : CommandPort}
    (h : decodeCommandParameter (parameterListPort L s flag) (a :: uid :: d :: n :: rest) {} =
      .ok c) :
    (a, c.action) ∈ editWords ∧ sppConvertPortToIface uid = .ok c.port ∧
      (d, c.rxtx) ∈ directionWords ∧ c.name = n ∧ ∃ b : CommandPort, b.ability = {} ∧
        decodeCommandParameter [("port vlan operation", decodePortVlanOperation),
          ("port vid", decodePortVid), ("port pcp", decodePortPcp)] rest b = .ok c := by
  obtain ⟨c₁, haction, h⟩ := decodeCommandParameter_cons_eq_ok.mp h
  obtain ⟨c₂, hport, h⟩ := decodeCommandParameter_cons_eq_ok.mp h
  obtain ⟨c₃, hrxtx, h⟩ := decodeCommandParameter_cons_eq_ok.mp h
  obtain ⟨c₄, hname, h⟩ := decodeCommandParameter_cons_eq_ok.mp h
  obtain ⟨action, rfl, hedit⟩ := decodePortActionValue_word haction
  obtain ⟨port, rfl, hconverts⟩ := decodePortPortValue_converts hport
  obtain ⟨rxtx, rfl, hdir⟩ := decodePortRxtxValue_word hrxtx
  obtain rfl := decodePortNameValue_eq_ok hname
  -- The tokens after the name touch the ability only.
  obtain ⟨ability, rfl⟩ : ∃ ability : PortAbility, c =
      { action := action, port := port, rxtx := rxtx, name := n, ability := ability } := by
    refine decodeCommandParameter_keeps (P := fun c => ∃ ability : PortAbility, c =
      { action := action, port := port, rxtx := rxtx, name := n, ability := ability }) ?_ h
      ⟨_, rfl⟩
    rintro q hq _ token c' hfunc ⟨_, rfl⟩
    obtain ⟨ability, rfl⟩ := parameterListPort_ability
      (show q ∈ (parameterListPort L s flag).drop 4 from hq) hfunc
    exact ⟨ability, rfl⟩
  exact ⟨hedit, hconverts, hdir, rfl, _, rfl, h⟩

/-- An accepted `port` request is a documented one iff its tokens after the name
are a complete VLAN operation of an add, or none, and its numbers fit. -/
theorem portForm_iff {args : List CStr} {flag : Bool} {c : CommandPort} (hmin : 4 ≤ args.length)
    (h : decodeCommandParameter (parameterListPort L s flag) args {} = .ok c) :
    PortForm ("port".toList :: args) c ↔ StaysDocumented ("port".toList :: args) := by
  obtain ⟨a, uid, d, n, rest, rfl⟩ : ∃ a uid d n rest, args = a :: uid :: d :: n :: rest := by
    match args, hmin with
    | a :: uid :: d :: n :: rest, _ => exact ⟨a, uid, d, n, rest, rfl⟩
  obtain ⟨hedit, hconverts, hdir, rfl, b, hability, hrest⟩ := portFields_of_decode h
  have hvlan := vlanForm_iff hability hrest
  have hform : PortForm ("port".toList :: a :: uid :: d :: c.name :: rest) c ↔
      FitsInt (uidNumber uid) ∧ (rest = [] ∨ c.action = .add ∧ VlanComplete rest) := by
    rw [← sppConvertPortToIface_literal hconverts, ← hvlan]
    constructor
    · rintro ⟨_, _, _, _, htokens, _, hdenotes, _, hvlan⟩
      simp only [List.cons.injEq] at htokens
      obtain ⟨-, rfl, rfl, rfl, -, rfl⟩ := htokens
      exact ⟨hdenotes, hvlan⟩
    · rintro ⟨hdenotes, hvlan⟩
      exact ⟨a, uid, d, rest, rfl, hedit, hdenotes, hdir, hvlan⟩
  rw [hform]
  simp only [editWords, List.mem_cons, Prod.mk.injEq, List.not_mem_nil, or_false] at hedit
  rcases hedit with ⟨rfl, hadd⟩ | ⟨rfl, hdel⟩
  · rw [staysDocumented_portAdd]
    simp [VlanComplete, hadd]
  · rw [staysDocumented_portDel]
    simp [hdel]

end Port

section Classifier

/-- A decoded action of a table entry is the one that its token names. -/
theorem decodeClassifierActionValue_word {c c' : CommandClassifierTable} {token : CStr}
    (h : decodeClassifierActionValue c token = .ok c') :
    ∃ action, c' = { c with action := action } ∧ (token, action) ∈ editWords := by
  unfold decodeClassifierActionValue at h
  split at h
  · rename_i hindex
    obtain ⟨str, hmem, rfl⟩ := mem_of_getArraryIndex hindex
    refine ⟨.add, (Except.ok.inj h).symm, ?_⟩
    simp_all [commandActionStrings, editWords]
  · rename_i hindex
    obtain ⟨str, hmem, rfl⟩ := mem_of_getArraryIndex hindex
    refine ⟨.del, (Except.ok.inj h).symm, ?_⟩
    simp_all [commandActionStrings, editWords]
  · cases h

/-- A decoded type of a table entry is the one that its token names. -/
theorem decodeClassifierTypeValue_word {c c' : CommandClassifierTable} {token : CStr}
    (h : decodeClassifierTypeValue c token = .ok c') :
    (token = "mac".toList ∧ c' = { c with type := .mac }) ∨
      (token = "vlan".toList ∧ c' = { c with type := .vlan }) := by
  unfold decodeClassifierTypeValue at h
  split at h
  · rename_i hindex
    obtain ⟨str, hmem, rfl⟩ := mem_of_getArraryIndex hindex
    cases h
    simp_all [classifierTypeStrings]
  · rename_i hindex
    obtain ⟨str, hmem, rfl⟩ := mem_of_getArraryIndex hindex
    cases h
    simp_all [classifierTypeStrings]
  · cases h

/-- A decoded VLAN id of a table entry is the number that its token denotes, if
that fits. -/
theorem decodeClassifierVidValue_literal {c c' : CommandClassifierTable} {token : CStr}
    (h : decodeClassifierVidValue c token = .ok c') :
    ∃ vid, c' = { c with vid := vid } ∧ (intLiteral token = some vid ↔ FitsInt token) := by
  obtain ⟨vid, hvid, h⟩ := bind_eq_ok.mp h
  exact ⟨vid, (Except.ok.inj h).symm, getIntValue_literal hvid⟩

/-- A decoded MAC address is its token, or the internal address for `default`. -/
theorem decodeMacAddrStrValue_text {c c' : CommandClassifierTable} {token : CStr}
    (h : decodeMacAddrStrValue c token = .ok c') : c' = { c with mac := macText token } := by
  unfold decodeMacAddrStrValue at h
  dsimp only at h
  obtain ⟨ret, -, h⟩ := bind_eq_ok.mp h
  split at h
  · cases h
  · obtain ⟨mac, hcopy, h⟩ := bind_eq_ok.mp h
    obtain ⟨-, rfl⟩ := strcpy_eq_ok.mp hcopy
    exact (Except.ok.inj h).symm

/-- A decoded port of a table entry is the one that its token is converted to,
and an entry for a MAC address alone gets the VLAN id of no VLAN. -/
theorem decodeClassifierPortValue_converts {c c' : CommandClassifierTable} {token : CStr}
    (h : decodeClassifierPortValue L s c token = .ok c') :
    ∃ port, sppConvertPortToIface token = .ok port ∧
      c' = { c with vid := if c.type = .mac then ethVlanIdMax else c.vid, port := port } := by
  unfold decodeClassifierPortValue at h
  obtain ⟨port, hport, h⟩ := bind_eq_ok.mp h
  obtain ⟨_, -, h⟩ := bind_eq_ok.mp h
  refine ⟨port, hport, ?_⟩
  split at h
  · cases h
  · dsimp only at h
    -- Each branch that succeeds returns the entry with the port.
    generalize htable : (if c.type = .mac then { c with vid := ethVlanIdMax } else c) = table at h
    have hresult : c' = { table with port := port } := by
      split at h
      · split at h
        · cases h
        · exact (Except.ok.inj h).symm
      · split at h
        · obtain ⟨_, -, h⟩ := bind_eq_ok.mp h
          split at h
          · cases h
          · split at h
            · cases h
            · exact (Except.ok.inj h).symm
        · exact (Except.ok.inj h).symm
    rw [hresult, ← htable]
    by_cases htype : c.type = .mac
    · simp [htype]
    · simp [htype]

/-- An accepted `classifier_table` request without a VLAN id is a documented one
iff its type is `mac`, its address is written as one and its port number fits. -/
theorem classifierMacForm_iff {args : List CStr} {c : CommandClassifierTable}
    (hlength : args.length = 4)
    (h : decodeCommandParameter (parameterListMac L s) args {} = .ok c) :
    ClassifierMacForm ("classifier_table".toList :: args) c ↔
      StaysDocumented ("classifier_table".toList :: args) := by
  obtain ⟨a, t, m, uid, rfl⟩ : ∃ a t m uid, args = [a, t, m, uid] := by
    match args, hlength with
    | [a, t, m, uid], _ => exact ⟨a, t, m, uid, rfl⟩
  obtain ⟨c₁, haction, h⟩ := decodeCommandParameter_cons_eq_ok.mp h
  obtain ⟨c₂, htype, h⟩ := decodeCommandParameter_cons_eq_ok.mp h
  obtain ⟨c₃, hmac, h⟩ := decodeCommandParameter_cons_eq_ok.mp h
  obtain ⟨c₄, hport, h⟩ := decodeCommandParameter_cons_eq_ok.mp h
  obtain rfl := decodeCommandParameter_nil_eq_ok.mp h
  obtain ⟨action, rfl, hedit⟩ := decodeClassifierActionValue_word haction
  obtain rfl := decodeMacAddrStrValue_text hmac
  obtain ⟨port, hconverts, rfl⟩ := decodeClassifierPortValue_converts hport
  rw [staysDocumented_mac, ← sppConvertPortToIface_literal hconverts]
  constructor
  · rintro ⟨_, _, _, htokens, -, -, -, hwritten, -, hdenotes⟩
    simp only [List.cons.injEq] at htokens
    obtain ⟨-, rfl, rfl, rfl, rfl, -⟩ := htokens
    exact ⟨rfl, hwritten, hdenotes⟩
  · rintro ⟨rfl, hwritten, hdenotes⟩
    rcases decodeClassifierTypeValue_word htype with ⟨-, rfl⟩ | ⟨hvlan, -⟩
    · exact ⟨a, m, uid, rfl, hedit, rfl, rfl, hwritten, rfl, hdenotes⟩
    · simp at hvlan

/-- An accepted `classifier_table` request with a VLAN id is a documented one iff
its type is not `mac`, its address is written as one and its numbers fit. -/
theorem classifierVlanForm_iff {args : List CStr} {c : CommandClassifierTable}
    (hlength : args.length = 5)
    (h : decodeCommandParameter (parameterListVlan L s) args {} = .ok c) :
    ClassifierVlanForm ("classifier_table".toList :: args) c ↔
      StaysDocumented ("classifier_table".toList :: args) := by
  obtain ⟨a, t, v, m, uid, rfl⟩ : ∃ a t v m uid, args = [a, t, v, m, uid] := by
    match args, hlength with
    | [a, t, v, m, uid], _ => exact ⟨a, t, v, m, uid, rfl⟩
  obtain ⟨c₁, haction, h⟩ := decodeCommandParameter_cons_eq_ok.mp h
  obtain ⟨c₂, htype, h⟩ := decodeCommandParameter_cons_eq_ok.mp h
  obtain ⟨c₃, hvid, h⟩ := decodeCommandParameter_cons_eq_ok.mp h
  obtain ⟨c₄, hmac, h⟩ := decodeCommandParameter_cons_eq_ok.mp h
  obtain ⟨c₅, hport, h⟩ := decodeCommandParameter_cons_eq_ok.mp h
  obtain rfl := decodeCommandParameter_nil_eq_ok.mp h
  obtain ⟨action, rfl, hedit⟩ := decodeClassifierActionValue_word haction
  obtain ⟨vid, rfl, hliteral⟩ := decodeClassifierVidValue_literal hvid
  obtain rfl := decodeMacAddrStrValue_text hmac
  obtain ⟨port, hconverts, rfl⟩ := decodeClassifierPortValue_converts hport
  rw [staysDocumented_vlan, ← sppConvertPortToIface_literal hconverts, ← hliteral]
  constructor
  · rintro ⟨_, _, _, _, htokens, -, hvlan, hvid, hwritten, -, hdenotes⟩
    simp only [List.cons.injEq] at htokens
    obtain ⟨-, rfl, rfl, rfl, rfl, rfl, -⟩ := htokens
    rcases decodeClassifierTypeValue_word htype with ⟨hmac, -⟩ | ⟨-, rfl⟩
    · simp at hmac
    · exact ⟨by simp, hvid, hwritten, hdenotes⟩
  · rintro ⟨hne, hdenoted, hwritten, hdenotes⟩
    rcases decodeClassifierTypeValue_word htype with ⟨hmac, -⟩ | ⟨rfl, rfl⟩
    · exact absurd hmac hne
    · exact ⟨a, v, m, uid, rfl, hedit, rfl, hdenoted, hwritten, rfl, hdenotes⟩

end Classifier

/-- The decoder accepts a request as documented, every field being what its token
denotes, iff the request has the tokens that its words call for, its numbers fit
their fields and its MAC address is written as one. -/
theorem decodeRequest_documented_iff {text : CStr} {command : SppCommand}
    (h : sppCommandDecodeRequest L .vf s text = .ok command) :
    Documented (strtok ' ' text) command ↔ StaysDocumented (strtok ' ' text) := by
  obtain ⟨name, args, hargv, row, hrow, hname, hmin, hmax, hfunc⟩ := decodeRequest_eq_ok h
  have hnone : ∀ {n : String}, n.toList = name → args.length + 1 ≤ 1 →
      strtok ' ' text = [n.toList] := by
    intro n hn hlength
    rw [hargv, List.length_eq_zero_iff.mp (Nat.le_zero.mp (Nat.le_of_succ_le_succ hlength)), hn]
  simp only [commandList, List.mem_cons, List.not_mem_nil, or_false] at hrow
  rcases hrow with rfl | rfl | rfl | rfl | rfl | rfl | rfl
  · obtain ⟨c, hparams, rfl⟩ := map_eq_ok.mp hfunc
    rw [hargv, ← hname]
    exact classifierMacForm_iff (le_antisymm (Nat.le_of_succ_le_succ hmax)
      (Nat.le_of_succ_le_succ hmin)) hparams
  · obtain ⟨c, hparams, rfl⟩ := map_eq_ok.mp hfunc
    rw [hargv, ← hname]
    exact classifierVlanForm_iff (le_antisymm (Nat.le_of_succ_le_succ hmax)
      (Nat.le_of_succ_le_succ hmin)) hparams
  · obtain rfl := Except.ok.inj hfunc
    rw [hnone hname hmax]
    exact iff_of_true rfl (staysDocumented_single (by decide))
  · obtain rfl := Except.ok.inj hfunc
    rw [hnone hname hmax]
    exact iff_of_true rfl (staysDocumented_single (by decide))
  · obtain rfl := Except.ok.inj hfunc
    rw [hnone hname hmax]
    exact iff_of_true rfl (staysDocumented_single (by decide))
  · obtain ⟨c, hparams, rfl⟩ := map_eq_ok.mp hfunc
    rw [hargv, ← hname]
    exact componentForm_iff (Nat.le_of_succ_le_succ hmin) (Nat.le_of_succ_le_succ hmax) hparams
  · obtain ⟨c, hparams, rfl⟩ := map_eq_ok.mp hfunc
    rw [hargv, ← hname]
    exact portForm_iff (Nat.le_of_succ_le_succ hmin) hparams

/-- A start with all its tokens is decoded to what they denote. -/
theorem documented_startForwarder :
    ∃ command, sppCommandDecodeRequest .default .vf bootState
        "component start comp1 1 forward".toList = .ok command ∧
      (Documented (strtok ' ' "component start comp1 1 forward".toList) command ↔
        StaysDocumented (strtok ' ' "component start comp1 1 forward".toList)) := by
  have hdecode : sppCommandDecodeRequest .default .vf bootState
      "component start comp1 1 forward".toList = .ok (.component
        { action := .start, name := "comp1".toList, core := 1, type := .forward }) := by
    decide +kernel
  exact ⟨_, hdecode, decodeRequest_documented_iff hdecode⟩

/-- A start without its core and its type is accepted, with both at their defaults. -/
theorem not_documented_startShort :
    ∃ command, sppCommandDecodeRequest .default .vf bootState
        "component start comp1".toList = .ok command ∧
      ¬ Documented (strtok ' ' "component start comp1".toList) command := by
  have hdecode : sppCommandDecodeRequest .default .vf bootState
      "component start comp1".toList = .ok (.component
        { action := .start, name := "comp1".toList }) := by
    decide +kernel
  refine ⟨_, hdecode, ?_⟩
  have htokens : strtok ' ' "component start comp1".toList =
      ["component".toList, "start".toList, "comp1".toList] := by decide +kernel
  rw [htokens]
  simp [Documented, ComponentForm]

end Spp.Vf
