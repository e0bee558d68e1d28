import Spp.Vf.ReplyText

/-!
# Replies as JSON values

What a reply says, as a JSON value, and the text that is sent as the printed form
of it. Only the names of components can keep the text from having this value: the
other strings are fixed texts, numbers and addresses. Names come from the requests
that start components, so no reply is spoiled as long as these give plain names.
-/

namespace Spp.Vf.ReplyText

open CLib GuardedRun Json

section Values

/-- A VLAN operation. -/
def vlanValue (vlan : VlanBlock) : Value :=
  .object [("operation".toList, .string (portAbilityStatusStr vlan.operation)),
    ("id".toList, .number vlan.id), ("pcp".toList, .number vlan.pcp)]

/-- A port of a component. -/
def portValue (block : PortBlock) : Value :=
  .object [("port".toList, .string (portStr block.port)), ("vlan".toList, vlanValue block.vlan)]

/-- An element of `core`. -/
def coreValue : CoreElement → Value
  | .unuse core =>
    .object [("core".toList, .number core), ("type".toList, .string (componentTypeStr .unuse))]
  | .component core name type rxPort txPort =>
    .object [("core".toList, .number core), ("name".toList, .string name),
      ("type".toList, .string (componentTypeStr type)),
      ("rx_port".toList, .array (rxPort.map portValue)),
      ("tx_port".toList, .array (txPort.map portValue))]

/-- An element of `classifier_table`. -/
def classifierValue (element : ClassifierElement) : Value :=
  .object [("type".toList, .string (classifierTypeStatusStr element.type)),
    ("value".toList, .string (classifierValueStr element)),
    ("port".toList, .string (portStr element.port))]

/-- The numbers of the interfaces of one type. -/
def interfaceValue (ports : List ℕ) : Value := .array (ports.map fun i : ℕ => .number i)

/-- The member of `info` that only spp_vf has. -/
def classifierTableMembers : Option (List ClassifierElement) → List (CStr × Value)
  | some table => [("classifier_table".toList, .array (table.map classifierValue))]
  | none => []

/-- The members of `info`. -/
def infoMembers (info : StatusInfo) : List (CStr × Value) :=
  [("client-id".toList, .number info.clientId), ("phy".toList, interfaceValue info.phy),
    ("vhost".toList, interfaceValue info.vhost), ("ring".toList, interfaceValue info.ring),
    ("core".toList, .array (info.core.map coreValue))] ++
  classifierTableMembers info.classifierTable

/-- The members of the result of a command. -/
def resultMembers (result : CommandResult) : List (CStr × Value) :=
  ("result".toList, .string (commandResultStrs result).1) ::
    if (commandResultStrs result).2 = [] then []
    else [("error_details".toList,
      .object [("message".toList, .string (commandResultStrs result).2)])]

/-- The members that are sent for a client id. -/
def clientMembers : Option (ℤ × SppModule) → List (CStr × Value)
  | some (clientId, M) => [("client_id".toList, .number clientId),
      ("process_type".toList, .string (secondaryProcessTypeStr M))]
  | none => []

/-- The member that is sent for a status. -/
def statusMembers : Option StatusInfo → List (CStr × Value)
  | some info => [("info".toList, .object (infoMembers info))]
  | none => []

/-- The members of a reply. -/
def responseMembers (response : Response) : List (CStr × Value) :=
  [("results".toList, .array (response.results.map fun result => .object (resultMembers result)))] ++
    clientMembers response.clientId ++ statusMembers response.info

/-- What a reply says. -/
def responseValue (response : Response) : Value := .object (responseMembers response)

end Values

section Print

/-- A named value behind the members that are there. -/
theorem appendJson_print (name : CStr) (ms : List (CStr × Value)) (v : Value) :
    appendJson name (printMembers ms) v.print = printMembers (ms ++ [(name, v)]) := by
  unfold appendJson jsonAppendComma
  cases ms with
  | nil => rfl
  | cons m ms =>
    have hne : printMembers (m :: ms) ≠ [] := mt printMembers_eq_nil.mp (List.cons_ne_nil m ms)
    have hlen : (printMembers (m :: ms)).length ≠ 0 := mt List.length_eq_zero_iff.mp hne
    rw [printMembers_append (List.cons_ne_nil m ms) (List.cons_ne_nil _ _)]
    simp only [hlen, ne_eq, not_false_eq_true, decide_true, if_true, printMembers,
      List.append_assoc]

theorem appendJsonStrValue_print (name s : CStr) (ms : List (CStr × Value)) :
    appendJsonStrValue name (printMembers ms) s = printMembers (ms ++ [(name, .string s)]) :=
  appendJson_print name ms (.string s)

theorem appendJsonIntValue_print (name : CStr) (n : ℤ) (ms : List (CStr × Value)) :
    appendJsonIntValue name (printMembers ms) n = printMembers (ms ++ [(name, .number n)]) :=
  appendJson_print name ms (.number n)

theorem appendJsonUintValue_print (name : CStr) (n : ℕ) (ms : List (CStr × Value)) :
    appendJsonUintValue name (printMembers ms) n = printMembers (ms ++ [(name, .number n)]) :=
  appendJson_print name ms (.number n)

theorem appendJsonArrayBrackets_print (name : CStr) (elements : List Value)
    (ms : List (CStr × Value)) :
    appendJsonArrayBrackets name (printMembers ms) (printElements elements) =
      printMembers (ms ++ [(name, .array elements)]) :=
  appendJson_print name ms (.array elements)

theorem appendJsonBlockBrackets_print {name : CStr} (h : name ≠ [])
    (members ms : List (CStr × Value)) :
    appendJsonBlockBrackets name (printMembers ms) (printMembers members) =
      printMembers (ms ++ [(name, .object members)]) := by
  unfold appendJsonBlockBrackets
  rw [if_neg h]
  exact appendJson_print name ms (.object members)

/-- A block without a name behind the elements that are there. -/
theorem appendJsonBlockBrackets_element (members : List (CStr × Value)) (elements : List Value) :
    appendJsonBlockBrackets [] (printElements elements) (printMembers members) =
      printElements (elements ++ [.object members]) := by
  unfold appendJsonBlockBrackets jsonAppendComma
  rw [if_pos rfl]
  cases elements with
  | nil => rfl
  | cons v vs =>
    have hne : printElements (v :: vs) ≠ [] := mt printElements_eq_nil.mp (List.cons_ne_nil v vs)
    have hlen : (printElements (v :: vs)).length ≠ 0 := mt List.length_eq_zero_iff.mp hne
    rw [printElements_concat (List.cons_ne_nil v vs)]
    simp only [hlen, ne_eq, not_false_eq_true, decide_true, if_true, Value.print,
      List.append_assoc]

/-- A loop that appends one element after the other. -/
theorem foldl_print {α : Type} {append : CStr → α → CStr} {value : α → Value}
    (h : ∀ elements a, append (printElements elements) a = printElements (elements ++ [value a]))
    (as : List α) (elements : List Value) :
    as.foldl append (printElements elements) = printElements (elements ++ as.map value) := by
  induction as generalizing elements with
  | nil => rw [List.map_nil, List.append_nil, List.foldl_nil]
  | cons a as ih =>
    rw [List.foldl_cons, h, ih, List.map_cons, List.append_assoc, List.singleton_append]

/-- One entry of a response list. -/
theorem appendResponseListValue_print {tag : CStr} {func : CStr → CStr → CStr}
    {new : List (CStr × Value)} (h : func tag [] = printMembers new)
    (list : List CommandResponse) (ms : List (CStr × Value)) :
    appendResponseListValue (printMembers ms) ((tag, func) :: list) =
      appendResponseListValue (printMembers (ms ++ new)) list := by
  unfold appendResponseListValue
  rw [List.foldl_cons]
  congr 1
  dsimp only
  by_cases hnew : new = []
  · have hnil : func tag [] = [] := h.trans (printMembers_eq_nil.mpr hnew)
    rw [if_pos hnil, hnew, List.append_nil]
  · have hne : func tag [] ≠ [] := fun hnil => hnew (printMembers_eq_nil.mp (h.symm.trans hnil))
    rw [if_neg hne, h]
    by_cases hms : ms = []
    · rw [hms]
      rfl
    · rw [if_pos (mt printMembers_eq_nil.mp hms), printMembers_append hms hnew]

theorem appendVlanBlock_print {name : CStr} (h : name ≠ []) (vlan : VlanBlock)
    (ms : List (CStr × Value)) :
    appendVlanBlock name (printMembers ms) vlan = printMembers (ms ++ [(name, vlanValue vlan)]) := by
  have hvalue : appendVlanValue [] vlan.operation vlan.id vlan.pcp =
      printMembers [("operation".toList, .string (portAbilityStatusStr vlan.operation)),
        ("id".toList, .number vlan.id), ("pcp".toList, .number vlan.pcp)] := by
    unfold appendVlanValue
    dsimp only
    rw [show ([] : CStr) = printMembers [] from rfl, appendJsonStrValue_print,
      appendJsonIntValue_print, appendJsonIntValue_print]
    rfl
  unfold appendVlanBlock
  rw [hvalue, appendJsonBlockBrackets_print h]
  rfl

theorem appendPortBlock_print (elements : List Value) (block : PortBlock) :
    appendPortBlock (printElements elements) block =
      printElements (elements ++ [portValue block]) := by
  unfold appendPortBlock
  dsimp only
  rw [show appendJsonStrValue "port".toList [] (portStr block.port) =
      printMembers ([] ++ [("port".toList, .string (portStr block.port))]) from
      appendJsonStrValue_print _ _ [],
    appendVlanBlock_print (by decide), appendJsonBlockBrackets_element]
  rfl

theorem appendPortArray_print (name : CStr) (ports : List PortBlock) (ms : List (CStr × Value)) :
    appendPortArray name (printMembers ms) ports =
      printMembers (ms ++ [(name, .array (ports.map portValue))]) := by
  have hports := foldl_print appendPortBlock_print ports []
  unfold appendPortArray
  rw [show ports.foldl appendPortBlock [] = printElements ([] ++ ports.map portValue) from hports,
    appendJsonArrayBrackets_print]
  rfl

theorem appendCoreElementValue_print (elements : List Value) (element : CoreElement) :
    appendCoreElementValue (printElements elements) element =
      printElements (elements ++ [coreValue element]) := by
  cases element with
  | unuse core =>
    unfold appendCoreElementValue
    dsimp only
    rw [show ([] : CStr) = printMembers [] from rfl, appendJsonUintValue_print,
      appendJsonStrValue_print]
    exact appendJsonBlockBrackets_element _ elements
  | component core name type rxPort txPort =>
    unfold appendCoreElementValue
    dsimp only
    rw [show ([] : CStr) = printMembers [] from rfl, appendJsonUintValue_print,
      appendJsonStrValue_print, appendJsonStrValue_print, appendPortArray_print,
      appendPortArray_print]
    exact appendJsonBlockBrackets_element _ elements

theorem appendClassifierElementValue_print (elements : List Value) (element : ClassifierElement) :
    appendClassifierElementValue (printElements elements) element =
      printElements (elements ++ [classifierValue element]) := by
  unfold appendClassifierElementValue
  dsimp only
  rw [show ([] : CStr) = printMembers [] from rfl, appendJsonStrValue_print,
    appendJsonStrValue_print, appendJsonStrValue_print]
  exact appendJsonBlockBrackets_element _ elements

/-- The commas between the numbers of interfaces. -/
theorem appendInterfaceArray_print (ports : List ℕ) :
    appendInterfaceArray ports = printElements (ports.map fun i : ℕ => .number i) := by
  have hloop : ∀ (elements : List Value),
      (ports.foldl (fun (acc : CStr × ℕ) (i : ℕ) =>
        (acc.1 ++ (jsonAppendComma (acc.2 ≠ 0) ++ decimal i), acc.2 + 1))
        (printElements elements, elements.length)).1 =
      printElements (elements ++ ports.map fun i : ℕ => .number i) := by
    induction ports with
    | nil =>
      intro elements
      rw [List.map_nil, List.append_nil, List.foldl_nil]
    | cons i ports ih =>
      intro elements
      have hnext : printElements elements ++
          (jsonAppendComma (elements.length ≠ 0) ++ decimal i) =
          printElements (elements ++ [.number i]) := by
        cases elements with
        | nil => rfl
        | cons v vs =>
          rw [printElements_concat (List.cons_ne_nil v vs), List.append_assoc]
          rfl
      have hlen : elements.length + 1 = (elements ++ [Value.number i]).length := by
        rw [List.length_append, List.length_singleton]
      rw [List.foldl_cons, List.map_cons]
      dsimp only
      rw [hnext, hlen, ih, List.append_assoc, List.singleton_append]
  exact hloop []

theorem appendInterfaceValue_print (name : CStr) (ports : List ℕ) (ms : List (CStr × Value)) :
    appendInterfaceValue ports name (printMembers ms) =
      printMembers (ms ++ [(name, interfaceValue ports)]) := by
  unfold appendInterfaceValue
  rw [appendInterfaceArray_print, appendJsonArrayBrackets_print]
  rfl

/-- The list of the values in `info`. -/
theorem responseInfoList_print (info : StatusInfo) :
    appendResponseListValue [] (responseInfoList info) = printMembers (infoMembers info) := by
  have hcore : appendCoreValue info.core "core".toList [] =
      printMembers [("core".toList, .array (info.core.map coreValue))] := by
    have helements := foldl_print appendCoreElementValue_print info.core []
    unfold appendCoreValue
    rw [show info.core.foldl appendCoreElementValue [] =
      printElements ([] ++ info.core.map coreValue) from helements]
    exact appendJsonArrayBrackets_print _ _ []
  rw [show ([] : CStr) = printMembers [] from rfl]
  unfold responseInfoList infoMembers
  simp only [List.cons_append, List.nil_append]
  rw [appendResponseListValue_print (appendJsonIntValue_print _ info.clientId []),
    appendResponseListValue_print (appendInterfaceValue_print _ info.phy []),
    appendResponseListValue_print (appendInterfaceValue_print _ info.vhost []),
    appendResponseListValue_print (appendInterfaceValue_print _ info.ring []),
    appendResponseListValue_print hcore]
  cases info.classifierTable with
  | none => rfl
  | some table =>
    have htable : appendClassifierTableValue table "classifier_table".toList [] =
        printMembers [("classifier_table".toList, .array (table.map classifierValue))] := by
      have helements := foldl_print appendClassifierElementValue_print table []
      unfold appendClassifierTableValue
      rw [show table.foldl appendClassifierElementValue [] =
        printElements ([] ++ table.map classifierValue) from helements]
      exact appendJsonArrayBrackets_print _ _ []
    rw [appendResponseListValue_print htable]
    rfl

/-- The list of the values of a result. -/
theorem responseResultList_print (result : CommandResult) :
    appendResponseListValue [] (responseResultList result) =
      printMembers (resultMembers result) := by
  rw [show ([] : CStr) = printMembers [] from rfl]
  unfold responseResultList resultMembers
  rw [appendResponseListValue_print (appendJsonStrValue_print _ (commandResultStrs result).1 [])]
  by_cases hmessage : (commandResultStrs result).2 = []
  · have hnone : appendErrorDetailsValue result "error_details".toList [] = printMembers [] :=
      if_pos hmessage
    rw [appendResponseListValue_print hnone, if_pos hmessage]
    rfl
  · have hsome : appendErrorDetailsValue result "error_details".toList [] =
        printMembers [("error_details".toList,
          .object [("message".toList, .string (commandResultStrs result).2)])] := by
      unfold appendErrorDetailsValue
      rw [if_neg hmessage, show ([] : CStr) = printMembers [] from rfl, appendJsonStrValue_print]
      exact appendJsonBlockBrackets_print (by decide) _ []
    rw [appendResponseListValue_print hsome, if_neg hmessage]
    rfl

/-- The text of a reply is the printed form of what it says. -/
theorem sendCommandResultResponse_eq_print (response : Response) :
    sendCommandResultResponse response = (responseValue response).print := by
  have hresults : appendCommandResultsValue "results".toList [] response.results =
      printMembers [("results".toList,
        .array (response.results.map fun result => .object (resultMembers result)))] := by
    have hresult : ∀ elements (result : CommandResult),
        appendJsonBlockBrackets [] (printElements elements)
            (appendResponseListValue [] (responseResultList result)) =
          printElements (elements ++ [.object (resultMembers result)]) := by
      intro elements result
      rw [responseResultList_print, appendJsonBlockBrackets_element]
    have helements := @foldl_print CommandResult (fun tmpBuff result =>
      appendJsonBlockBrackets [] tmpBuff (appendResponseListValue [] (responseResultList result)))
      (fun result => .object (resultMembers result)) hresult response.results []
    unfold appendCommandResultsValue
    exact (congrArg _ helements).trans (appendJsonArrayBrackets_print _ _ [])
  have hinfo : ∀ info ms, appendInfoValue "info".toList (printMembers ms) info =
      printMembers (ms ++ [("info".toList, .object (infoMembers info))]) := by
    intro info ms
    unfold appendInfoValue
    rw [responseInfoList_print]
    exact appendJsonBlockBrackets_print (by decide) _ ms
  obtain ⟨results, clientId, info⟩ := response
  unfold sendCommandResultResponse responseValue responseMembers
  dsimp only at hresults ⊢
  rw [hresults]
  cases clientId with
  | none =>
    cases info with
    | none => exact appendJsonBlockBrackets_element _ []
    | some info =>
      dsimp only
      rw [hinfo]
      exact appendJsonBlockBrackets_element _ []
  | some shown =>
    dsimp only [appendClientIdValue, appendProcessTypeValue]
    rw [appendJsonIntValue_print, appendJsonStrValue_print]
    cases info with
    | none => exact appendJsonBlockBrackets_element _ []
    | some info =>
      dsimp only
      rw [hinfo]
      exact appendJsonBlockBrackets_element _ []

end Print

section Plain

/-- ASCII characters that stand for themselves in a string. -/
def asciiChar (c : Char) : Bool := 0x20 ≤ c.toNat && c.toNat < 128 && c ≠ '"' && c ≠ '\\'

theorem plain_of_ascii {s : CStr} (h : s.all asciiChar = true) : Json.Plain s := by
  have hchar : ∀ c ∈ s, 0x20 ≤ c.toNat ∧ c.toNat < 128 ∧ c ≠ '"' ∧ c ≠ '\\' := by
    intro c hc
    have hascii := List.all_eq_true.mp h c hc
    simp only [asciiChar, Bool.and_eq_true, decide_eq_true_eq] at hascii
    exact ⟨hascii.1.1.1, hascii.1.1.2, hascii.1.2, hascii.2⟩
  refine ⟨fun c hc => ?_, isUtf8_of_ascii fun c hc => (hchar c hc).2.1⟩
  obtain ⟨hlo, -, hquote, hslash⟩ := hchar c hc
  exact ⟨hquote, hslash, hlo⟩

/-- Digits are such characters. -/
theorem asciiChar_of_isDigit {c : Char} (h : c.isDigit = true) : asciiChar c = true := by
  have hrange : 48 ≤ c.toNat ∧ c.toNat ≤ 57 := by
    simp only [Char.isDigit, Bool.and_eq_true, decide_eq_true_eq, ge_iff_le,
      UInt32.le_iff_toNat_le] at h
    exact h
  have hquote : c ≠ '"' := by
    rintro rfl
    exact absurd hrange.1 (by decide)
  have hslash : c ≠ '\\' := by
    rintro rfl
    exact absurd hrange.2 (by decide)
  simp only [asciiChar, Bool.and_eq_true, decide_eq_true_eq]
  exact ⟨⟨⟨by omega, by omega⟩, hquote⟩, hslash⟩

theorem all_asciiChar_decimal (n : ℤ) : (decimal n).all asciiChar = true := by
  have hdigits : (Nat.toDigits 10 n.natAbs).all asciiChar = true := by
    refine List.all_eq_true.mpr fun c hc => asciiChar_of_isDigit ?_
    exact Nat.isDigit_of_mem_toDigits (by decide) (by decide) hc
  unfold decimal
  by_cases hneg : n < 0
  · rw [if_pos hneg, List.all_cons, hdigits]
    decide
  · rw [if_neg hneg, hdigits]

theorem all_asciiChar_portStr (port : PortIndex) : (portStr port).all asciiChar = true := by
  have htype : (ifaceTypeStr port.ifaceType).all asciiChar = true := by
    cases port.ifaceType <;> decide
  unfold portStr
  rw [List.all_append, htype, List.all_cons, all_asciiChar_decimal]
  decide

theorem all_asciiChar_macStr (mac : Option ℕ) : (macStr mac).all asciiChar = true := by
  have hdigit : ∀ n < 16, asciiChar (Nat.digitChar n).toUpper = true := by decide
  have hbyte : ∀ b, (hexByte b).all asciiChar = true := by
    intro b
    unfold hexByte
    simp only [List.map_cons, List.map_nil, List.all_cons, List.all_nil,
      hdigit _ (Nat.mod_lt _ (by decide)), Bool.and_self]
  cases mac with
  | none => decide
  | some key =>
    have hcolon : asciiChar ':' = true := by decide
    unfold macStr etherFormatAddr
    simp only [List.range_succ, List.range_zero, List.nil_append, List.cons_append, List.map_cons,
      List.map_nil, List.intersperse_cons_cons, List.intersperse_singleton, List.flatten_cons,
      List.flatten_nil, List.all_append, hbyte, List.all_cons, List.all_nil, hcolon,
      Bool.and_self]

theorem all_asciiChar_classifierValueStr (element : ClassifierElement) :
    (classifierValueStr element).all asciiChar = true := by
  unfold classifierValueStr
  cases element.type with
  | none => rfl
  | mac => exact all_asciiChar_macStr element.mac
  | vlan =>
    dsimp only
    rw [List.all_append, all_asciiChar_decimal, List.all_cons, all_asciiChar_macStr]
    decide

variable {p : CStr → Prop}

theorem allInElements_map {α : Type} (value : α → Value) (as : List α) :
    AllInElements p (as.map value) ↔ ∀ a ∈ as, (value a).AllStrings p := by
  induction as with
  | nil => exact iff_of_true trivial fun a ha => (by cases ha)
  | cons a as ih =>
    rw [List.map_cons, AllInElements, ih, List.forall_mem_cons]

theorem allInMembers_append (ms ms' : List (CStr × Value)) :
    AllInMembers p (ms ++ ms') ↔ AllInMembers p ms ∧ AllInMembers p ms' := by
  induction ms with
  | nil => exact (and_iff_right trivial).symm
  | cons m ms ih =>
    obtain ⟨name, v⟩ := m
    rw [List.cons_append, AllInMembers, ih, AllInMembers, and_assoc, and_assoc]

/-- The name that an element of `core` shows. -/
def coreName : CoreElement → Option CStr
  | .unuse _ => none
  | .component _ name _ _ _ => some name

/-- The names that a status shows. -/
def statusNames : Option StatusInfo → List CStr
  | some info => info.core.filterMap coreName
  | none => []

/-- The texts that are put into a reply: the messages of its errors and the names
of its components. -/
def texts (response : Response) : List CStr :=
  (response.results.map fun result => (commandResultStrs result).2) ++ statusNames response.info

theorem allStrings_portValue (block : PortBlock) : (portValue block).AllStrings Json.Plain := by
  have hport := plain_of_ascii (all_asciiChar_portStr block.port)
  have hope : Json.Plain (portAbilityStatusStr block.vlan.operation) := by
    apply plain_of_ascii
    cases block.vlan.operation <;> decide
  have hname : ∀ name : CStr, name.all asciiChar = true → Json.Plain name := fun _ => plain_of_ascii
  exact ⟨hname _ (by decide), hport, hname _ (by decide),
    ⟨hname _ (by decide), hope, hname _ (by decide), trivial, hname _ (by decide), trivial, trivial⟩,
    trivial⟩

theorem allStrings_coreValue (element : CoreElement) :
    (coreValue element).AllStrings Json.Plain ↔ ∀ name ∈ coreName element, Json.Plain name := by
  have hname : ∀ name : CStr, name.all asciiChar = true → Json.Plain name := fun _ => plain_of_ascii
  have htype : ∀ type, Json.Plain (componentTypeStr type) := by
    intro type
    apply plain_of_ascii
    cases type <;> decide
  cases element with
  | unuse core =>
    refine iff_of_true ?_ fun name h => (by cases h)
    exact ⟨hname _ (by decide), trivial, hname _ (by decide), htype _, trivial⟩
  | component core name type rxPort txPort =>
    have hports : ∀ ports : List PortBlock, AllInElements Json.Plain (ports.map portValue) :=
      fun ports => (allInElements_map portValue ports).mpr fun block _ =>
        allStrings_portValue block
    constructor
    · rintro ⟨-, -, -, hplain, -⟩ name' h
      cases h
      exact hplain
    · intro h
      exact ⟨hname _ (by decide), trivial, hname _ (by decide), h name rfl, hname _ (by decide),
        htype type, hname _ (by decide), hports rxPort, hname _ (by decide), hports txPort, trivial⟩

theorem allStrings_classifierValue (element : ClassifierElement) :
    (classifierValue element).AllStrings Json.Plain := by
  have hname : ∀ name : CStr, name.all asciiChar = true → Json.Plain name := fun _ => plain_of_ascii
  have htype : Json.Plain (classifierTypeStatusStr element.type) := by
    apply plain_of_ascii
    cases element.type <;> decide
  exact ⟨hname _ (by decide), htype, hname _ (by decide),
    hname _ (all_asciiChar_classifierValueStr element), hname _ (by decide),
    hname _ (all_asciiChar_portStr element.port), trivial⟩

theorem allStrings_infoMembers (info : StatusInfo) :
    AllInMembers Json.Plain (infoMembers info) ↔
      ∀ s ∈ info.core.filterMap coreName, Json.Plain s := by
  have hname : ∀ name : CStr, name.all asciiChar = true → Json.Plain name := fun _ => plain_of_ascii
  have hports : ∀ ports, (interfaceValue ports).AllStrings Json.Plain :=
    fun ports => (allInElements_map _ ports).mpr fun _ _ => trivial
  have hcore : AllInElements Json.Plain (info.core.map coreValue) ↔
      ∀ s ∈ info.core.filterMap coreName, Json.Plain s := by
    rw [allInElements_map]
    constructor
    · intro h s hs
      obtain ⟨element, helement, hsome⟩ := List.mem_filterMap.mp hs
      exact (allStrings_coreValue element).mp (h element helement) s hsome
    · intro h element helement
      exact (allStrings_coreValue element).mpr fun name hsome =>
        h name (List.mem_filterMap.mpr ⟨element, helement, hsome⟩)
  have htable : AllInMembers Json.Plain (classifierTableMembers info.classifierTable) := by
    cases info.classifierTable with
    | none => trivial
    | some table =>
      exact ⟨hname _ (by decide), (allInElements_map classifierValue table).mpr fun element _ =>
        allStrings_classifierValue element, trivial⟩
  unfold infoMembers
  rw [allInMembers_append, ← hcore]
  constructor
  · rintro ⟨⟨-, -, -, -, -, -, -, -, -, helements, -⟩, -⟩
    exact helements
  · intro helements
    exact ⟨⟨hname _ (by decide), trivial, hname _ (by decide), hports _, hname _ (by decide),
      hports _, hname _ (by decide), hports _, hname _ (by decide), helements, trivial⟩, htable⟩

theorem allStrings_resultMembers (result : CommandResult) :
    AllInMembers Json.Plain (resultMembers result) ↔ Json.Plain (commandResultStrs result).2 := by
  have hname : ∀ name : CStr, name.all asciiChar = true → Json.Plain name := fun _ => plain_of_ascii
  have hresult : Json.Plain (commandResultStrs result).1 := by
    apply plain_of_ascii
    cases result with
    | success | error | invalid => rfl
  unfold resultMembers
  by_cases hmessage : (commandResultStrs result).2 = []
  · rw [if_pos hmessage, hmessage]
    exact iff_of_true ⟨hname _ (by decide), hresult, trivial⟩ (hname _ rfl)
  · rw [if_neg hmessage]
    constructor
    · rintro ⟨-, -, -, ⟨-, hplain, -⟩, -⟩
      exact hplain
    · intro hplain
      exact ⟨hname _ (by decide), hresult, hname _ (by decide),
        ⟨hname _ (by decide), hplain, trivial⟩, trivial⟩

/-- The strings in a reply are plain iff the texts put into it are. -/
theorem allStrings_responseValue (response : Response) :
    (responseValue response).AllStrings Json.Plain ↔ ∀ s ∈ texts response, Json.Plain s := by
  have hname : ∀ name : CStr, name.all asciiChar = true → Json.Plain name := fun _ => plain_of_ascii
  obtain ⟨results, clientId, info⟩ := response
  have hresults :
      AllInElements Json.Plain (results.map fun result => .object (resultMembers result)) ↔
      ∀ s ∈ results.map fun result => (commandResultStrs result).2, Json.Plain s := by
    rw [allInElements_map, List.forall_mem_map]
    exact forall₂_congr fun result _ => allStrings_resultMembers result
  have hclient : AllInMembers Json.Plain (clientMembers clientId) := by
    cases clientId with
    | none => trivial
    | some shown =>
      refine ⟨hname _ (by decide), trivial, hname _ (by decide), ?_, trivial⟩
      apply plain_of_ascii
      cases shown.2 <;> decide
  unfold responseValue responseMembers texts
  rw [Value.AllStrings, allInMembers_append, allInMembers_append, List.forall_mem_append,
    ← hresults]
  cases info with
  | none =>
    constructor
    · rintro ⟨⟨⟨-, helements, -⟩, -⟩, -⟩
      exact ⟨helements, fun s hs => (by cases hs)⟩
    · rintro ⟨helements, -⟩
      exact ⟨⟨⟨hname _ (by decide), helements, trivial⟩, hclient⟩, trivial⟩
  | some info =>
    unfold statusNames statusMembers
    rw [← allStrings_infoMembers]
    constructor
    · rintro ⟨⟨⟨-, helements, -⟩, -⟩, -, hmembers, -⟩
      exact ⟨helements, hmembers⟩
    · rintro ⟨helements, hmembers⟩
      exact ⟨⟨⟨hname _ (by decide), helements, trivial⟩, hclient⟩, hname _ (by decide), hmembers,
        trivial⟩

end Plain

section Unique

theorem uniqueElements_map {α : Type} {value : α → Value} (h : ∀ a, (value a).UniqueNames)
    (as : List α) : UniqueElements (as.map value) := by
  induction as with
  | nil => trivial
  | cons a as ih => exact ⟨h a, ih⟩

theorem uniqueNames_portValue (block : PortBlock) : (portValue block).UniqueNames :=
  ⟨by simp only [List.map_cons, List.map_nil]; decide, trivial,
    ⟨by simp only [List.map_cons, List.map_nil]; decide, trivial, trivial, trivial, trivial⟩, trivial⟩

theorem uniqueNames_coreValue (element : CoreElement) : (coreValue element).UniqueNames := by
  cases element with
  | unuse core => exact ⟨by simp only [List.map_cons, List.map_nil]; decide, trivial, trivial, trivial⟩
  | component core name type rxPort txPort =>
    have hports := uniqueElements_map uniqueNames_portValue
    exact ⟨by simp only [List.map_cons, List.map_nil]; decide, trivial, trivial, trivial,
      hports rxPort, hports txPort, trivial⟩

theorem uniqueNames_classifierValue (element : ClassifierElement) :
    (classifierValue element).UniqueNames :=
  ⟨by simp only [List.map_cons, List.map_nil]; decide, trivial, trivial, trivial, trivial⟩

theorem uniqueNames_infoMembers (info : StatusInfo) :
    (Value.object (infoMembers info)).UniqueNames := by
  have hports : ∀ ports, (interfaceValue ports).UniqueNames :=
    fun ports => @uniqueElements_map ℕ (fun i : ℕ => .number i) (fun _ => trivial) ports
  have hcore := uniqueElements_map uniqueNames_coreValue info.core
  unfold infoMembers
  cases info.classifierTable with
  | none =>
    exact ⟨by simp only [List.map_append, List.map_cons, List.map_nil, classifierTableMembers]; decide,
      trivial, hports _, hports _, hports _, hcore, trivial⟩
  | some table =>
    exact ⟨by simp only [List.map_append, List.map_cons, List.map_nil, classifierTableMembers]; decide,
      trivial, hports _, hports _, hports _, hcore,
      uniqueElements_map uniqueNames_classifierValue table, trivial⟩

theorem uniqueNames_resultMembers (result : CommandResult) :
    (Value.object (resultMembers result)).UniqueNames := by
  unfold resultMembers
  by_cases hmessage : (commandResultStrs result).2 = []
  · rw [if_pos hmessage]
    exact ⟨List.nodup_singleton _, trivial, trivial⟩
  · rw [if_neg hmessage]
    exact ⟨by simp only [List.map_cons, List.map_nil]; decide, trivial,
      ⟨List.nodup_singleton _, trivial, trivial⟩, trivial⟩

/-- No object in a reply has a name twice. -/
theorem uniqueNames_responseValue (response : Response) :
    (responseValue response).UniqueNames := by
  obtain ⟨results, clientId, info⟩ := response
  have hresults := uniqueElements_map uniqueNames_resultMembers results
  have hinfo : ∀ info, (Value.object (infoMembers info)).UniqueNames := uniqueNames_infoMembers
  unfold responseValue responseMembers
  cases clientId with
  | none =>
    cases info with
    | none => exact ⟨List.nodup_singleton _, hresults, trivial⟩
    | some info =>
      exact ⟨by simp only [List.map_append, List.map_cons, List.map_nil, clientMembers,
        statusMembers]; decide, hresults, hinfo info, trivial⟩
  | some shown =>
    cases info with
    | none =>
      exact ⟨by simp only [List.map_append, List.map_cons, List.map_nil, clientMembers,
        statusMembers]; decide, hresults, trivial, trivial, trivial⟩
    | some info =>
      exact ⟨by simp only [List.map_append, List.map_cons, List.map_nil, clientMembers,
        statusMembers]; decide, hresults, trivial, trivial, hinfo info, trivial⟩

end Unique

section WellFormed

/-- The text of a reply is a JSON object that says what the reply says, and in which
no object has a name twice. -/
def WellFormed (response : Response) : Prop :=
  IsText (sendCommandResultResponse response) (responseValue response) ∧
    (responseValue response).UniqueNames

/-- A reply is well formed iff the texts that are put into it are plain. -/
theorem wellFormed_iff (response : Response) :
    WellFormed response ↔ ∀ s ∈ texts response, Json.Plain s := by
  unfold WellFormed
  rw [and_iff_left (uniqueNames_responseValue response), sendCommandResultResponse_eq_print,
    isText_print_iff, allStrings_responseValue]

end WellFormed

end Spp.Vf.ReplyText
