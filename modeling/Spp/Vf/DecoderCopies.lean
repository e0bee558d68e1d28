import Spp.Vf.CommandGrammar

/-!
# The string copies of the decoder

Every `strcpy` that the decoder makes on a request, in order, with the size of
its destination: the request itself, the names and the MAC address among its
tokens, and the token and the parameter name of an error. The lengths that the
tokens may have are compared with the buffers they are copied to.
-/

namespace Spp.Vf

open CLib

/-- `SPP_NAME_STR_LEN`. -/
def sppNameStrLen : ℕ := 128

/-- A `strcpy`: the size of the destination and the source. -/
structure StrCopy where
  bufsz : ℕ
  src : CStr
  deriving DecidableEq, Repr

/-- The source and its terminator fit the destination. -/
def StrCopy.Fits (copy : StrCopy) : Prop := copy.src.length < copy.bufsz

section Copies

variable (L : Limits) (M : SppModule) (s : MngData)

/-- The copies that a handler makes for a token. -/
abbrev HandlerCopies (γ : Type) := γ → CStr → List StrCopy

/-- A handler that copies nothing. -/
def noCopies {γ : Type} : HandlerCopies γ := fun _ _ => []

/-- The copy of `decode_str_value`. -/
def decodeStrValueCopies (bufsz : ℕ) (arg : CStr) : List StrCopy :=
  if arg.length ≥ sppCmdValueBufsz then [] else [⟨bufsz, arg⟩]

/-- The copies of `decode_component_name_value`. -/
def decodeComponentNameCopies : HandlerCopies CommandComponent := fun component arg =>
  if component.action = .start ∧ (sppGetComponentId L s arg).isSome then []
  else decodeStrValueCopies sppCmdNameBufsz arg

/-- The copies of `decode_port_name_value`. -/
def decodePortNameCopies : HandlerCopies CommandPort := fun _ arg =>
  if sppGetComponentId L s arg = none then [] else decodeStrValueCopies sppCmdNameBufsz arg

/-- The copies of `decode_mac_addr_str_value`; the first one is made by
`spp_change_mac_str_to_int64`. -/
def decodeMacAddrStrCopies : HandlerCopies CommandClassifierTable := fun _ arg =>
  let strVal := if arg = "default".toList then "00:00:00:00:00:01".toList else arg
  ⟨sppMinStrLen, strVal⟩ ::
    match sppChangeMacStrToInt64 strVal with
    | .ok ret => if ret < 0 then [] else [⟨sppCmdValueBufsz, strVal⟩]
    | .error _ => []

/-- The copies of `decode_classifier_port_value`, which converts the address of
an entry to be deleted. -/
def decodeClassifierPortCopies : HandlerCopies CommandClassifierTable := fun table arg =>
  match sppConvertPortToIface arg with
  | .ok tmpPort =>
    match ifaceEntry L tmpPort.ifaceType tmpPort.ifaceNo with
    | .ok port =>
      if sppCheckAddedPort s port = true ∧ table.action = .del then [⟨sppMinStrLen, table.mac⟩]
      else []
    | .error _ => []
  | .error _ => []

/-- The copies of the handlers in `parameterListMac`. -/
def copiesMac : List (HandlerCopies CommandClassifierTable) :=
  [noCopies, noCopies, decodeMacAddrStrCopies, decodeClassifierPortCopies L s]

/-- The copies of the handlers in `parameterListVlan`. -/
def copiesVlan : List (HandlerCopies CommandClassifierTable) :=
  [noCopies, noCopies, noCopies, decodeMacAddrStrCopies, decodeClassifierPortCopies L s]

/-- The copies of the handlers in `parameterListComponent`. -/
def copiesComponent : List (HandlerCopies CommandComponent) :=
  [noCopies, decodeComponentNameCopies L s, noCopies, noCopies]

/-- The copies of the handlers in `parameterListPort`. -/
def copiesPort : List (HandlerCopies CommandPort) :=
  [noCopies, noCopies, noCopies, decodePortNameCopies L s, noCopies, noCopies, noCopies]

/-- The copies of `set_string_value_decode_error`. -/
def errorCopies (value : CStr) (errorName : String) : List StrCopy :=
  [⟨sppCmdValueBufsz, value⟩, ⟨sppCmdNameBufsz, errorName.toList⟩]

/-- The copies of the loop of `decode_command_parameter_*`. -/
def decodeCommandParameterCopies {γ : Type} :
    List (Parameter γ) → List (HandlerCopies γ) → List CStr → γ → List StrCopy
  | (name, func) :: list, copies :: rest, arg :: args, command =>
    copies command arg ++
      match func command arg with
      | .ok command => decodeCommandParameterCopies list rest args command
      | .error .ng => errorCopies arg name
      | .error .undef => []
  | _, _, _, _ => []

/-- The copies of the functions in `commandList`. -/
def commandListCopies : List (List CStr → List StrCopy) :=
  [fun args => decodeCommandParameterCopies (parameterListMac L s) (copiesMac L s) args {},
   fun args => decodeCommandParameterCopies (parameterListVlan L s) (copiesVlan L s) args {},
   fun _ => [], fun _ => [], fun _ => [],
   fun args =>
     decodeCommandParameterCopies (parameterListComponent L M s) (copiesComponent L s) args {},
   fun args => decodeCommandParameterCopies (parameterListPort L s (args.length + 1 = 8))
     (copiesPort L s) args {}]

/-- The copies of the search loop of `decode_command_in_list`. -/
def searchCommandListCopies (command : CStr) (args : List CStr) (nameCheck : Bool) :
    List (DecodeCommandList × (List CStr → List StrCopy)) → List StrCopy
  | [] => if nameCheck then [] else errorCopies command "command"
  | (row, copies) :: rows =>
    if row.name.toList ≠ command then searchCommandListCopies command args nameCheck rows
    else if args.length + 1 < row.paramMin ∨ row.paramMax < args.length + 1 then
      searchCommandListCopies command args true rows
    else copies args

/-- The copies of `decode_command_in_list`. -/
def decodeCommandInListCopies (requestStr : CStr) : List StrCopy :=
  ⟨sppCmdMaxParameters * sppCmdValueBufsz, requestStr⟩ ::
    if requestStr.length < sppCmdMaxParameters * sppCmdValueBufsz then
      let argv := strtok ' ' requestStr
      if argv.length > sppCmdMaxParameters then []
      else
        match argv with
        | [] => []
        | command :: args =>
          searchCommandListCopies command args false
            ((commandList L M s).zip (commandListCopies L M s))
    else []

/-- The copies of the decoded strings that `execute_command` makes: the name of a
started component, and the MAC address of a table entry, which is converted
once more and stored with the port. -/
def executeCommandCopies : SppCommand → List StrCopy
  | .component c => if c.action = .start then [⟨sppNameStrLen, c.name⟩] else []
  | .classifierTableMac c | .classifierTableVlan c =>
    ⟨sppMinStrLen, c.mac⟩ :: if c.action = .add then [⟨sppMinStrLen, c.mac⟩] else []
  | _ => []

/-- The decoder finds its command name in `argv[0]`, and every copy that it or
the command it accepts makes fits its destination. -/
structure Bounded (requestStr : CStr) : Prop where
  /-- `argv[0]` is not absent. -/
  argv : strtok ' ' requestStr ≠ []
  /-- The copies of the decoder fit. -/
  decode : ∀ copy ∈ decodeCommandInListCopies L M s requestStr, copy.Fits
  /-- The copies of the decoded command fit. -/
  execute : ∀ command, sppCommandDecodeRequest L M s requestStr = .ok command →
    ∀ copy ∈ executeCommandCopies command, copy.Fits

end Copies

section Lengths

variable (L : Limits) (M : SppModule) (s : MngData)

/-- The length that a handler can take of its token, given the command so far. -/
abbrev TokenLength (γ : Type) := γ → CStr → Prop

/-- A token that has to be one of a few words. -/
def wordLength {γ : Type} : TokenLength γ := fun _ arg => arg.length < sppCmdValueBufsz

/-- A token that is copied only if it is refused; an accepted number may be long. -/
def refusedLength {γ : Type} (func : γ → CStr → Except Stop γ) : TokenLength γ :=
  fun command arg => func command arg = .error .ng → arg.length < sppCmdValueBufsz

/-- A component name: that of a start in use already is refused. -/
def componentNameLength : TokenLength CommandComponent := fun component arg =>
  arg.length < if component.action = .start ∧ (sppGetComponentId L s arg).isSome then
    sppCmdValueBufsz else sppCmdNameBufsz

/-- A component name in a `port` request: one not in use is refused. -/
def portNameLength : TokenLength CommandPort := fun _ arg =>
  arg.length < if sppGetComponentId L s arg = none then sppCmdValueBufsz else sppCmdNameBufsz

/-- A VLAN operation, which is looked at only if there is none yet. -/
def vlanLength : TokenLength CommandPort := fun port arg =>
  port.ability.ope = .none → arg.length < sppCmdValueBufsz

/-- A MAC address, before it is known to be one. -/
def macLength : TokenLength CommandClassifierTable := fun _ arg => arg.length < sppMinStrLen

/-- The lengths for `parameterListMac`. -/
def lengthsMac : List (TokenLength CommandClassifierTable) :=
  [wordLength, wordLength, macLength, refusedLength (decodeClassifierPortValue L s)]

/-- The lengths for `parameterListVlan`. -/
def lengthsVlan : List (TokenLength CommandClassifierTable) :=
  [wordLength, wordLength, refusedLength decodeClassifierVidValue, macLength,
   refusedLength (decodeClassifierPortValue L s)]

/-- The lengths for `parameterListComponent`. -/
def lengthsComponent : List (TokenLength CommandComponent) :=
  [wordLength, componentNameLength L s, refusedLength (decodeComponentCoreValue L),
   refusedLength (decodeComponentTypeValue M)]

/-- The lengths for `parameterListPort`. -/
def lengthsPort (flag : Bool) : List (TokenLength CommandPort) :=
  [wordLength, refusedLength (fun port arg => decodePortPortValue L s port arg flag), wordLength,
   portNameLength L s, vlanLength, refusedLength decodePortVid, refusedLength decodePortPcp]

/-- Every token up to the first refused one has a length that can be taken. -/
def TokensFit {γ : Type} : List (Parameter γ) → List (TokenLength γ) → List CStr → γ → Prop
  | (_, func) :: list, fits :: rest, arg :: args, command =>
    fits command arg ∧ ∀ command', func command arg = .ok command' →
      TokensFit list rest args command'
  | _, _, _, _ => True

/-- The tokens of a request fit: the command name, and the tokens after it if
there are as many as the command takes. -/
structure ArgvFits (command : CStr) (args : List CStr) : Prop where
  /-- An unknown command name is copied to the error. -/
  name : command.length < sppCmdValueBufsz
  /-- A `classifier_table` request without a VLAN id. -/
  mac : command = "classifier_table".toList → args.length = 4 →
    TokensFit (parameterListMac L s) (lengthsMac L s) args {}
  /-- A `classifier_table` request with a VLAN id. -/
  vlan : command = "classifier_table".toList → args.length = 5 →
    TokensFit (parameterListVlan L s) (lengthsVlan L s) args {}
  /-- A `component` request. -/
  component : command = "component".toList → 2 ≤ args.length → args.length ≤ 4 →
    TokensFit (parameterListComponent L M s) (lengthsComponent L M s) args {}
  /-- A `port` request. -/
  port : command = "port".toList → 4 ≤ args.length → args.length ≤ 7 →
    TokensFit (parameterListPort L s (args.length + 1 = 8))
      (lengthsPort L s (args.length + 1 = 8)) args {}

/-- The request is not blank, it is no longer than its buffer, and unless it has
more tokens than any command they fit. -/
structure RequestFits (requestStr : CStr) : Prop where
  /-- The request and its terminator fit `tmp_str`. -/
  length : requestStr.length < sppCmdMaxParameters * sppCmdValueBufsz
  /-- There is a token. -/
  tokens : strtok ' ' requestStr ≠ []
  /-- The tokens fit. -/
  argv : ∀ command args, strtok ' ' requestStr = command :: args →
    args.length < sppCmdMaxParameters → ArgvFits L M s command args

end Lengths

variable {L : Limits} {M : SppModule} {s : MngData}

section Rows

/-- The copies made for a token, and the one made if it is refused, fit iff the
token has the length. The handler keeps an invariant of the command. -/
structure RowBounded {γ : Type} (I : γ → Prop) (row : Parameter γ) (copies : HandlerCopies γ)
    (length : TokenLength γ) : Prop where
  /-- The name of the parameter fits the error. -/
  name : row.1.toList.length < sppCmdNameBufsz
  /-- The length is exact. -/
  fits_iff : ∀ command arg, I command → (((∀ copy ∈ copies command arg, copy.Fits) ∧
    (row.2 command arg = .error .ng → arg.length < sppCmdValueBufsz)) ↔ length command arg)
  /-- The handler stops where a copy does not fit. -/
  overrun : ∀ command arg, I command → (∃ copy ∈ copies command arg, ¬ copy.Fits) →
    row.2 command arg = .error (.undef)
  /-- The invariant holds after the token. -/
  keeps : ∀ command arg command', I command → row.2 command arg = .ok command' → I command'

/-- A parameter list row by row. -/
inductive ListBounded {γ : Type} (I : γ → Prop) :
    List (Parameter γ) → List (HandlerCopies γ) → List (TokenLength γ) → Prop
  | nil : ListBounded I [] [] []
  | cons {row : Parameter γ} {copies : HandlerCopies γ} {length : TokenLength γ}
      {list : List (Parameter γ)} {rest : List (HandlerCopies γ)}
      {lengths : List (TokenLength γ)} (hrow : RowBounded I row copies length)
      (hlist : ListBounded I list rest lengths) :
      ListBounded I (row :: list) (copies :: rest) (length :: lengths)

/-- The copies made for the tokens after the command name fit iff every token up
to the first refused one has the length that can be taken. -/
theorem decodeCommandParameterCopies_fit_iff {γ : Type} {I : γ → Prop}
    {list : List (Parameter γ)} {copies : List (HandlerCopies γ)}
    {lengths : List (TokenLength γ)} (hlist : ListBounded I list copies lengths)
    {args : List CStr} {command : γ} (hinv : I command) :
    (∀ copy ∈ decodeCommandParameterCopies list copies args command, copy.Fits) ↔
      TokensFit list lengths args command := by
  induction hlist generalizing args command with
  | nil => simp [decodeCommandParameterCopies, TokensFit]
  | @cons row copies length list rest lengths hrow hlist ih =>
    cases args with
    | nil => simp [decodeCommandParameterCopies, TokensFit]
    | cons arg args =>
      obtain ⟨name, func⟩ := row
      have hfits := hrow.fits_iff command arg hinv
      have hname := hrow.name
      dsimp only at hfits hname
      rw [TokensFit, ← hfits, decodeCommandParameterCopies]
      simp only [List.mem_append, or_imp, forall_and]
      cases hfunc : func command arg with
      | error e =>
        cases e with
        | ng => simp [errorCopies, StrCopy.Fits, hname]
        | undef => simp
      | ok command' => simp [ih (hrow.keeps command arg command' hinv hfunc)]

/-- The rows of a bounded list are bounded. -/
theorem ListBounded.row {γ : Type} {I : γ → Prop} {list : List (Parameter γ)}
    {copies : List (HandlerCopies γ)} {lengths : List (TokenLength γ)}
    (hlist : ListBounded I list copies lengths) {row : Parameter γ} (hrow : row ∈ list) :
    ∃ copies length, RowBounded I row copies length := by
  induction hlist with
  | nil => cases hrow
  | cons hbounded _ ih =>
    rcases List.mem_cons.mp hrow with rfl | hrow
    · exact ⟨_, _, hbounded⟩
    · exact ih hrow

/-- The invariant holds of the decoded command. -/
theorem ListBounded.keeps {γ : Type} {I : γ → Prop} {list : List (Parameter γ)}
    {copies : List (HandlerCopies γ)} {lengths : List (TokenLength γ)}
    (hlist : ListBounded I list copies lengths) {args : List CStr} {c d : γ}
    (h : decodeCommandParameter list args c = .ok d) (hc : I c) : I d := by
  refine decodeCommandParameter_keeps (P := I) ?_ h hc
  intro row hrow command arg command' hfunc hinv
  obtain ⟨_, _, hbounded⟩ := hlist.row hrow
  exact hbounded.keeps command arg command' hinv hfunc

/-- Where a copy for a token or for the error does not fit, decoding is undefined. -/
theorem decodeCommandParameter_overrun {γ : Type} {I : γ → Prop} {list : List (Parameter γ)}
    {copies : List (HandlerCopies γ)} {lengths : List (TokenLength γ)}
    (hlist : ListBounded I list copies lengths) {args : List CStr} {command : γ}
    (hinv : I command)
    (h : ∃ copy ∈ decodeCommandParameterCopies list copies args command, ¬ copy.Fits) :
    decodeCommandParameter list args command = .error .undef := by
  induction hlist generalizing args command with
  | nil => simp [decodeCommandParameterCopies] at h
  | @cons row copies length list rest lengths hrow hlist ih =>
    cases args with
    | nil => simp [decodeCommandParameterCopies] at h
    | cons arg args =>
      obtain ⟨name, func⟩ := row
      obtain ⟨copy, hcopy, hover⟩ := h
      rw [decodeCommandParameterCopies] at hcopy
      rcases List.mem_append.mp hcopy with hcopy | hcopy
      · have hfunc := hrow.overrun command arg hinv ⟨copy, hcopy, hover⟩
        dsimp only at hfunc
        rw [decodeCommandParameter, hfunc]
      · cases hfunc : func command arg with
        | ok command' =>
          rw [hfunc] at hcopy
          rw [decodeCommandParameter, hfunc]
          exact ih (hrow.keeps command arg command' hinv hfunc) ⟨copy, hcopy, hover⟩
        | error e =>
          rw [hfunc] at hcopy
          cases e with
          | undef => cases hcopy
          | ng =>
            have hname := hrow.name
            dsimp only at hname
            rw [decodeCommandParameter, hfunc]
            simp only [errorCopies, List.mem_cons, List.not_mem_nil, or_false] at hcopy
            rcases hcopy with rfl | rfl
            · have hlong : ¬ arg.length < sppCmdValueBufsz := hover
              simp only [setStringValueDecodeError, strcpy, if_neg hlong]
            · exact absurd hname hover

/-- A row whose handler copies nothing itself. -/
theorem rowBounded_refused {γ : Type} {I : γ → Prop} {name : String}
    {func : γ → CStr → Except Stop γ} (hname : name.toList.length < sppCmdNameBufsz)
    (hkeeps : ∀ command arg command', I command → func command arg = .ok command' → I command') :
    RowBounded I (name, func) noCopies (refusedLength func) := by
  refine ⟨hname, fun command arg _ => ?_, fun command arg _ => ?_, hkeeps⟩
  · simp [noCopies, refusedLength]
  · simp [noCopies]

/-- A row whose handler copies nothing and refuses every long token. -/
theorem rowBounded_word {γ : Type} {I : γ → Prop} {name : String}
    {func : γ → CStr → Except Stop γ} (hname : name.toList.length < sppCmdNameBufsz)
    (hlong : ∀ command arg, sppCmdValueBufsz ≤ arg.length → func command arg = .error .ng)
    (hkeeps : ∀ command arg command', I command → func command arg = .ok command' → I command') :
    RowBounded I (name, func) noCopies wordLength := by
  refine ⟨hname, fun command arg _ => ?_, fun command arg _ => ?_, hkeeps⟩
  · simp only [noCopies, List.not_mem_nil, false_imp_iff, implies_true, true_and, wordLength]
    constructor
    · intro hrefused
      by_contra hlength
      exact hlength (hrefused (hlong command arg (Nat.le_of_not_lt hlength)))
    · intro hlength _
      exact hlength
  · simp [noCopies]

/-- A token longer than every word of a list is none of them. -/
theorem getArraryIndex_long {α : Type} {arg : CStr} {list : List (String × α)}
    (hlist : ∀ p ∈ list, p.1.toList.length < sppCmdValueBufsz)
    (hlong : sppCmdValueBufsz ≤ arg.length) : getArraryIndex arg list = none := by
  cases hindex : getArraryIndex arg list with
  | none => rfl
  | some a =>
    obtain ⟨str, hmem, rfl⟩ := mem_of_getArraryIndex hindex
    exact absurd (hlist (str, a) hmem) (Nat.not_lt_of_le hlong)

/-- The row of a component name, which fits its buffer if it is short; one of
`SPP_CMD_VALUE_BUFSZ` characters or more is refused. -/
theorem decodeStrValueCopies_fit_iff {arg : CStr} :
    ((∀ copy ∈ decodeStrValueCopies sppCmdNameBufsz arg, copy.Fits) ∧
      (decodeStrValue sppCmdNameBufsz arg = .error .ng → arg.length < sppCmdValueBufsz)) ↔
      arg.length < sppCmdNameBufsz := by
  unfold decodeStrValueCopies decodeStrValue
  by_cases hlong : arg.length ≥ sppCmdValueBufsz
  · have hsize : sppCmdNameBufsz ≤ sppCmdValueBufsz := by decide
    simp [hlong]
    omega
  · have hcopy : strcpy sppCmdNameBufsz arg ≠ .error .ng := by
      unfold strcpy
      split <;> simp
    simp [hlong, StrCopy.Fits, hcopy]

/-- A copy of `decode_str_value` that does not fit is its undefined case. -/
theorem decodeStrValue_overrun {bufsz : ℕ} {arg : CStr}
    (h : ∃ copy ∈ decodeStrValueCopies bufsz arg, ¬ copy.Fits) :
    decodeStrValue bufsz arg = .error .undef := by
  obtain ⟨copy, hcopy, hover⟩ := h
  unfold decodeStrValueCopies at hcopy
  unfold decodeStrValue
  split at hcopy
  · cases hcopy
  · rename_i hshort
    rw [List.mem_singleton.mp hcopy] at hover
    rw [if_neg hshort]
    exact if_neg hover

/-- The row of the name in a `component` request. -/
theorem rowBounded_componentName :
    RowBounded (fun _ => True) ("component name", decodeComponentNameValue L s)
      (decodeComponentNameCopies L s) (componentNameLength L s) := by
  have hname : "component name".toList.length < sppCmdNameBufsz := by decide
  refine ⟨hname, fun component arg _ => ?_, fun component arg _ => ?_, fun _ _ _ _ _ => trivial⟩
  · by_cases hused : component.action = .start ∧ (sppGetComponentId L s arg).isSome
    · simp [decodeComponentNameCopies, decodeComponentNameValue, componentNameLength, hused]
    · have hvalue : decodeComponentNameValue L s component arg = .error .ng ↔
          decodeStrValue sppCmdNameBufsz arg = .error .ng := by
        simp only [decodeComponentNameValue, if_neg hused]
        cases decodeStrValue sppCmdNameBufsz arg <;> simp [Bind.bind, Except.bind]
      simp only [decodeComponentNameCopies, componentNameLength, if_neg hused, hvalue]
      exact decodeStrValueCopies_fit_iff
  · unfold decodeComponentNameCopies
    dsimp only [decodeComponentNameValue]
    split
    · simp
    · intro hover
      rw [decodeStrValue_overrun hover]
      rfl

/-- The row of the name in a `port` request. -/
theorem rowBounded_portName :
    RowBounded (fun _ => True) ("component name", decodePortNameValue L s)
      (decodePortNameCopies L s) (portNameLength L s) := by
  have hname : "component name".toList.length < sppCmdNameBufsz := by decide
  refine ⟨hname, fun port arg _ => ?_, fun port arg _ => ?_, fun _ _ _ _ _ => trivial⟩
  · by_cases hnone : sppGetComponentId L s arg = none
    · simp [decodePortNameCopies, decodePortNameValue, portNameLength, hnone]
    · have hvalue : decodePortNameValue L s port arg = .error .ng ↔
          decodeStrValue sppCmdNameBufsz arg = .error .ng := by
        simp only [decodePortNameValue, if_neg hnone]
        cases decodeStrValue sppCmdNameBufsz arg <;> simp [Bind.bind, Except.bind]
      simp only [decodePortNameCopies, portNameLength, if_neg hnone, hvalue]
      exact decodeStrValueCopies_fit_iff
  · unfold decodePortNameCopies
    dsimp only [decodePortNameValue]
    split
    · simp
    · intro hover
      rw [decodeStrValue_overrun hover]
      rfl

/-- The row of the VLAN operation. -/
theorem rowBounded_vlan :
    RowBounded (fun _ => True) ("port vlan operation", decodePortVlanOperation) noCopies
      vlanLength := by
  refine ⟨by decide, fun port arg _ => ?_, fun port arg _ => ?_, fun _ _ _ _ _ => trivial⟩
  · simp only [noCopies, List.not_mem_nil, false_imp_iff, implies_true, true_and, vlanLength,
      decodePortVlanOperation]
    cases hope : port.ability.ope with
    | none =>
      simp only [true_imp_iff]
      constructor
      · intro hrefused
        by_contra hlength
        rw [getArraryIndex_long (by decide) (Nat.le_of_not_lt hlength)] at hrefused
        exact hlength (hrefused rfl)
      · intro hlength _
        exact hlength
    | addVlantag => simp
    | delVlantag => simp
  · simp [noCopies]

/-- The invariant of a table entry: its MAC address fits the temporary of
`spp_change_mac_str_to_int64`. -/
def MacShort (table : CommandClassifierTable) : Prop := table.mac.length < sppMinStrLen

/-- The address that stands for `default` is no longer than a token may be. -/
theorem macText_length {arg : CStr} :
    (macText arg).length < sppMinStrLen ↔ arg.length < sppMinStrLen := by
  unfold macText
  split
  · rename_i hdefault
    subst hdefault
    decide
  · rfl

/-- A copied MAC address that fits the temporary fits all its buffers. -/
theorem decodeMacAddrStrCopies_fit {table : CommandClassifierTable} {arg : CStr}
    (h : arg.length < sppMinStrLen) : ∀ copy ∈ decodeMacAddrStrCopies table arg, copy.Fits := by
  have hshort : (macText arg).length < sppMinStrLen := macText_length.mpr h
  intro copy hcopy
  rcases List.mem_cons.mp hcopy with rfl | hcopy
  · exact hshort
  · split at hcopy
    · split at hcopy
      · cases hcopy
      · rw [List.mem_singleton.mp hcopy]
        exact lt_trans hshort (by decide : sppMinStrLen < sppCmdValueBufsz)
    · cases hcopy

/-- The row of the MAC address. -/
theorem rowBounded_mac :
    RowBounded MacShort ("mac address", decodeMacAddrStrValue) decodeMacAddrStrCopies
      macLength := by
  have hlong : ∀ table arg, ¬ arg.length < sppMinStrLen →
      decodeMacAddrStrValue table arg = .error .undef := by
    intro table arg hlength
    have hcopy : sppChangeMacStrToInt64 (macText arg) = .error .undef := by
      simp only [sppChangeMacStrToInt64, strcpy, if_neg (macText_length.not.mpr hlength)]
    change (sppChangeMacStrToInt64 (macText arg) >>= _) = _
    rw [hcopy]
    rfl
  refine ⟨by decide, fun table arg _ => ?_, fun table arg _ hover => ?_,
    fun table arg table' _ h => ?_⟩
  · constructor
    · rintro ⟨hcopies, -⟩
      exact macText_length.mp (hcopies _ List.mem_cons_self)
    · intro harg
      exact ⟨decodeMacAddrStrCopies_fit harg, fun _ => lt_trans harg (by decide)⟩
  · obtain ⟨copy, hcopy, hover⟩ := hover
    exact hlong table arg fun harg => hover (decodeMacAddrStrCopies_fit harg copy hcopy)
  · rw [decodeMacAddrStrValue_text h, MacShort, macText_length]
    by_contra hlength
    cases (hlong table arg hlength).symm.trans h

/-- The row of the port of a table entry. -/
theorem rowBounded_classifierPort :
    RowBounded MacShort ("port", decodeClassifierPortValue L s) (decodeClassifierPortCopies L s)
      (refusedLength (decodeClassifierPortValue L s)) := by
  have hname : "port".toList.length < sppCmdNameBufsz := by decide
  have hcopies : ∀ table arg, MacShort table →
      ∀ copy ∈ decodeClassifierPortCopies L s table arg, copy.Fits := by
    intro table arg hmac copy hcopy
    unfold decodeClassifierPortCopies at hcopy
    split at hcopy
    · split at hcopy
      · split at hcopy
        · rw [List.mem_singleton.mp hcopy]
          exact hmac
        · cases hcopy
      · cases hcopy
    · cases hcopy
  refine ⟨hname, fun table arg hmac => and_iff_right (hcopies table arg hmac),
    fun table arg hmac => ?_, fun table arg table' hmac h => ?_⟩
  · rintro ⟨copy, hcopy, hover⟩
    exact absurd (hcopies table arg hmac copy hcopy) hover
  · obtain ⟨port, -, rfl⟩ := decodeClassifierPortValue_converts h
    exact hmac

end Rows

section Lists

/-- No word of a list is as long as a value buffer. -/
theorem words_short :
    (∀ p ∈ commandActionStrings, p.1.toList.length < sppCmdValueBufsz) ∧
      (∀ p ∈ classifierTypeStrings, p.1.toList.length < sppCmdValueBufsz) ∧
      ∀ p ∈ portRxtxStrings, p.1.toList.length < sppCmdValueBufsz := by
  decide

/-- The handlers of a `component` request. -/
theorem listBounded_component :
    ListBounded (fun _ => True) (parameterListComponent L M s) (copiesComponent L s)
      (lengthsComponent L M s) := by
  have hcore : "core".toList.length < sppCmdNameBufsz := by decide
  have htype : "component type".toList.length < sppCmdNameBufsz := by decide
  apply ListBounded.cons
  · apply rowBounded_word (by decide)
    · intro command arg hlong
      simp only [decodeComponentActionValue, getArraryIndex_long words_short.1 hlong]
    · exact fun _ _ _ _ _ => trivial
  apply ListBounded.cons
  · exact rowBounded_componentName
  apply ListBounded.cons
  · exact rowBounded_refused hcore fun _ _ _ _ _ => trivial
  apply ListBounded.cons
  · exact rowBounded_refused htype fun _ _ _ _ _ => trivial
  exact ListBounded.nil

/-- The handlers of a `port` request. -/
theorem listBounded_port {flag : Bool} :
    ListBounded (fun _ => True) (parameterListPort L s flag) (copiesPort L s)
      (lengthsPort L s flag) := by
  have hport : "port".toList.length < sppCmdNameBufsz := by decide
  have hrxtx : "port rxtx".toList.length < sppCmdNameBufsz := by decide
  apply ListBounded.cons
  · apply rowBounded_word (by decide)
    · intro command arg hlong
      simp only [decodePortActionValue, getArraryIndex_long words_short.1 hlong]
    · exact fun _ _ _ _ _ => trivial
  apply ListBounded.cons
  · exact rowBounded_refused hport fun _ _ _ _ _ => trivial
  apply ListBounded.cons
  · apply rowBounded_word hrxtx
    · intro command arg hlong
      simp only [decodePortRxtxValue, getArraryIndex_long words_short.2.2 hlong]
    · exact fun _ _ _ _ _ => trivial
  apply ListBounded.cons
  · exact rowBounded_portName
  apply ListBounded.cons
  · exact rowBounded_vlan
  apply ListBounded.cons
  · exact rowBounded_refused (by decide) fun _ _ _ _ _ => trivial
  apply ListBounded.cons
  · exact rowBounded_refused (by decide) fun _ _ _ _ _ => trivial
  exact ListBounded.nil

/-- The row of the action of a table entry. -/
theorem rowBounded_classifierAction :
    RowBounded MacShort ("action", decodeClassifierActionValue) noCopies wordLength := by
  apply rowBounded_word (by decide)
  · intro command arg hlong
    simp only [decodeClassifierActionValue, getArraryIndex_long words_short.1 hlong]
  · intro command arg command' hmac h
    obtain ⟨action, rfl, -⟩ := decodeClassifierActionValue_word h
    exact hmac

/-- The row of the type of a table entry. -/
theorem rowBounded_classifierType :
    RowBounded MacShort ("type", decodeClassifierTypeValue) noCopies wordLength := by
  apply rowBounded_word (by decide)
  · intro command arg hlong
    simp only [decodeClassifierTypeValue, getArraryIndex_long words_short.2.1 hlong]
  · intro command arg command' hmac h
    rcases decodeClassifierTypeValue_word h with ⟨-, rfl⟩ | ⟨-, rfl⟩
    · exact hmac
    · exact hmac

/-- The handlers of a `classifier_table` request without a VLAN id. -/
theorem listBounded_mac :
    ListBounded MacShort (parameterListMac L s) (copiesMac L s) (lengthsMac L s) := by
  apply ListBounded.cons
  · exact rowBounded_classifierAction
  apply ListBounded.cons
  · exact rowBounded_classifierType
  apply ListBounded.cons
  · exact rowBounded_mac
  apply ListBounded.cons
  · exact rowBounded_classifierPort
  exact ListBounded.nil

/-- The handlers of a `classifier_table` request with a VLAN id. -/
theorem listBounded_vlan :
    ListBounded MacShort (parameterListVlan L s) (copiesVlan L s) (lengthsVlan L s) := by
  apply ListBounded.cons
  · exact rowBounded_classifierAction
  apply ListBounded.cons
  · exact rowBounded_classifierType
  apply ListBounded.cons
  · apply rowBounded_refused (by decide)
    intro command arg command' hmac h
    obtain ⟨vid, rfl, -⟩ := decodeClassifierVidValue_literal h
    exact hmac
  apply ListBounded.cons
  · exact rowBounded_mac
  apply ListBounded.cons
  · exact rowBounded_classifierPort
  exact ListBounded.nil

end Lists

section Request

/-- The zeroed table entry has no MAC address yet. -/
theorem macShort_default : MacShort {} := by
  unfold MacShort
  decide

variable {command : CStr} {args : List CStr} {nameCheck : Bool} {row : DecodeCommandList}
  {copies : List CStr → List StrCopy} {rows : List (DecodeCommandList × (List CStr → List StrCopy))}

/-- A row with another name is passed over. -/
theorem searchCommandListCopies_skip (hname : row.name.toList ≠ command) :
    searchCommandListCopies command args nameCheck ((row, copies) :: rows) =
      searchCommandListCopies command args nameCheck rows := by
  rw [searchCommandListCopies, if_pos hname]

/-- A row with the name but another number of tokens is remembered. -/
theorem searchCommandListCopies_arity (hname : row.name.toList = command)
    (harity : args.length + 1 < row.paramMin ∨ row.paramMax < args.length + 1) :
    searchCommandListCopies command args nameCheck ((row, copies) :: rows) =
      searchCommandListCopies command args true rows := by
  rw [searchCommandListCopies, if_neg (not_not.mpr hname), if_pos harity]

/-- A row with the name and the number of tokens is taken. -/
theorem searchCommandListCopies_found (hname : row.name.toList = command)
    (hmin : row.paramMin ≤ args.length + 1) (hmax : args.length + 1 ≤ row.paramMax) :
    searchCommandListCopies command args nameCheck ((row, copies) :: rows) = copies args := by
  rw [searchCommandListCopies, if_neg (not_not.mpr hname), if_neg (by omega)]

/-- Rows with other names only end in the error of an unknown command, unless
the name was found before. -/
theorem searchCommandListCopies_none (hnames : ∀ p ∈ rows, p.1.name.toList ≠ command) :
    searchCommandListCopies command args nameCheck rows =
      if nameCheck then [] else errorCopies command "command" := by
  induction rows with
  | nil => rfl
  | cons p rows ih =>
    obtain ⟨row, copies⟩ := p
    rw [searchCommandListCopies_skip (hnames _ List.mem_cons_self)]
    exact ih fun q hq => hnames q (List.mem_cons_of_mem _ hq)

/-- A row for a name alone copies nothing, with the right number of tokens or not. -/
theorem searchCommandListCopies_single (hname : row.name.toList = command)
    (hmin : row.paramMin = 1) (hmax : row.paramMax = 1)
    (hnames : ∀ p ∈ rows, p.1.name.toList ≠ command) (hcopies : copies args = []) :
    searchCommandListCopies command args nameCheck ((row, copies) :: rows) = [] := by
  by_cases hargs : args.length = 0
  · rw [searchCommandListCopies_found hname (by omega) (by omega), hcopies]
  · rw [searchCommandListCopies_arity hname (by omega), searchCommandListCopies_none hnames]
    rfl

/-- The tokens of a request whose name takes none fit iff the name does. -/
theorem argvFits_name (hclassifier : command ≠ "classifier_table".toList)
    (hcomponent : command ≠ "component".toList) (hport : command ≠ "port".toList) :
    ArgvFits L M s command args ↔ command.length < sppCmdValueBufsz := by
  constructor
  · intro h
    exact h.name
  · intro hname
    exact ⟨hname, fun h => absurd h hclassifier, fun h => absurd h hclassifier,
      fun h => absurd h hcomponent, fun h => absurd h hport⟩

/-- The tokens of a `classifier_table` request. -/
theorem argvFits_classifier :
    ArgvFits L M s "classifier_table".toList args ↔
      (args.length = 4 → TokensFit (parameterListMac L s) (lengthsMac L s) args {}) ∧
        (args.length = 5 → TokensFit (parameterListVlan L s) (lengthsVlan L s) args {}) := by
  constructor
  · intro h
    exact ⟨h.mac rfl, h.vlan rfl⟩
  · rintro ⟨hmac, hvlan⟩
    exact ⟨by decide, fun _ => hmac, fun _ => hvlan, fun h => by simp at h, fun h => by simp at h⟩

/-- The tokens of a `component` request. -/
theorem argvFits_component :
    ArgvFits L M s "component".toList args ↔ (2 ≤ args.length → args.length ≤ 4 →
      TokensFit (parameterListComponent L M s) (lengthsComponent L M s) args {}) := by
  constructor
  · intro h
    exact h.component rfl
  · intro hargs
    exact ⟨by decide, fun h => by simp at h, fun h => by simp at h, fun _ => hargs,
      fun h => by simp at h⟩

/-- The tokens of a `port` request. -/
theorem argvFits_port :
    ArgvFits L M s "port".toList args ↔ (4 ≤ args.length → args.length ≤ 7 →
      TokensFit (parameterListPort L s (args.length + 1 = 8))
        (lengthsPort L s (args.length + 1 = 8)) args {}) := by
  constructor
  · intro h
    exact h.port rfl
  · intro hargs
    exact ⟨by decide, fun h => by simp at h, fun h => by simp at h, fun h => by simp at h,
      fun _ => hargs⟩

/-- The copies of the search loop fit iff the tokens do. -/
theorem searchCommandListCopies_fit_iff :
    (∀ copy ∈ searchCommandListCopies command args false
        ((commandList L M s).zip (commandListCopies L M s)), copy.Fits) ↔
      ArgvFits L M s command args := by
  simp only [commandList, commandListCopies, List.zip_cons_cons, List.zip_nil_left]
  by_cases hclassifier : command = "classifier_table".toList
  · subst hclassifier
    rw [argvFits_classifier]
    by_cases hmac : args.length = 4
    · rw [searchCommandListCopies_found (by exact rfl) (by simp [hmac]) (by simp [hmac]),
        decodeCommandParameterCopies_fit_iff listBounded_mac macShort_default]
      simp [hmac]
    · rw [searchCommandListCopies_arity (by exact rfl) (by dsimp only; omega)]
      by_cases hvlan : args.length = 5
      · rw [searchCommandListCopies_found (by exact rfl) (by simp [hvlan]) (by simp [hvlan]),
          decodeCommandParameterCopies_fit_iff listBounded_vlan macShort_default]
        simp [hvlan]
      · rw [searchCommandListCopies_arity (by exact rfl) (by dsimp only; omega),
          searchCommandListCopies_none (by simp)]
        simp [hmac, hvlan]
  rw [searchCommandListCopies_skip (Ne.symm hclassifier),
    searchCommandListCopies_skip (Ne.symm hclassifier)]
  by_cases hcomponent : command = "component".toList
  · subst hcomponent
    rw [argvFits_component, searchCommandListCopies_skip (by simp),
      searchCommandListCopies_skip (by simp), searchCommandListCopies_skip (by simp)]
    by_cases hargs : 2 ≤ args.length ∧ args.length ≤ 4
    · rw [searchCommandListCopies_found (by exact rfl) (by dsimp only; omega)
        (by dsimp only; omega), decodeCommandParameterCopies_fit_iff listBounded_component trivial]
      simp [hargs]
    · rw [searchCommandListCopies_arity (by exact rfl) (by dsimp only; omega),
        searchCommandListCopies_none (by simp)]
      simp only [if_true, List.not_mem_nil, false_imp_iff, implies_true, true_iff]
      exact fun hmin hmax => absurd ⟨hmin, hmax⟩ hargs
  by_cases hport : command = "port".toList
  · subst hport
    rw [argvFits_port, searchCommandListCopies_skip (by simp),
      searchCommandListCopies_skip (by simp), searchCommandListCopies_skip (by simp),
      searchCommandListCopies_skip (by simp)]
    by_cases hargs : 4 ≤ args.length ∧ args.length ≤ 7
    · rw [searchCommandListCopies_found (by exact rfl) (by dsimp only; omega)
        (by dsimp only; omega), decodeCommandParameterCopies_fit_iff listBounded_port trivial]
      simp [hargs]
    · rw [searchCommandListCopies_arity (by exact rfl) (by dsimp only; omega),
        searchCommandListCopies_none (by simp)]
      simp only [if_true, List.not_mem_nil, false_imp_iff, implies_true, true_iff]
      exact fun hmin hmax => absurd ⟨hmin, hmax⟩ hargs
  rw [argvFits_name hclassifier hcomponent hport]
  -- The other names are short, and their rows copy nothing, whatever follows the name.
  by_cases hid : command = "_get_client_id".toList
  · subst hid
    rw [searchCommandListCopies_single (by exact rfl) rfl rfl (by simp) rfl]
    simp [sppCmdValueBufsz]
  by_cases hstatus : command = "status".toList
  · subst hstatus
    rw [searchCommandListCopies_skip (by simp),
      searchCommandListCopies_single (by exact rfl) rfl rfl (by simp) rfl]
    simp [sppCmdValueBufsz]
  by_cases hexit : command = "exit".toList
  · subst hexit
    rw [searchCommandListCopies_skip (by simp), searchCommandListCopies_skip (by simp),
      searchCommandListCopies_single (by exact rfl) rfl rfl (by simp) rfl]
    simp [sppCmdValueBufsz]
  rw [searchCommandListCopies_skip (Ne.symm hid), searchCommandListCopies_skip (Ne.symm hstatus),
    searchCommandListCopies_skip (Ne.symm hexit),
    searchCommandListCopies_skip (Ne.symm hcomponent),
    searchCommandListCopies_skip (Ne.symm hport), searchCommandListCopies_none (by simp)]
  simp [errorCopies, StrCopy.Fits, sppCmdNameBufsz]

/-- The copies of the decoder fit, and `argv[0]` is there, iff the request fits. -/
theorem decodeCommandInListCopies_fit_iff {requestStr : CStr} :
    (strtok ' ' requestStr ≠ [] ∧
        ∀ copy ∈ decodeCommandInListCopies L M s requestStr, copy.Fits) ↔
      RequestFits L M s requestStr := by
  unfold decodeCommandInListCopies
  by_cases hlength : requestStr.length < sppCmdMaxParameters * sppCmdValueBufsz
  · rw [if_pos hlength]
    dsimp only
    cases hargv : strtok ' ' requestStr with
    | nil =>
      constructor
      · rintro ⟨hne, -⟩
        exact absurd rfl hne
      · intro h
        exact absurd hargv h.tokens
    | cons command args =>
      by_cases hmany : (command :: args).length > sppCmdMaxParameters
      · rw [if_pos hmany]
        constructor
        · intro _
          refine ⟨hlength, by simp [hargv], fun command' args' heq hfew => ?_⟩
          obtain ⟨rfl, rfl⟩ := List.cons.inj (hargv.symm.trans heq)
          simp only [List.length_cons] at hmany
          omega
        · intro _
          refine ⟨List.cons_ne_nil _ _, fun copy hcopy => ?_⟩
          rw [List.mem_singleton.mp hcopy]
          exact hlength
      · rw [if_neg hmany]
        simp only [List.length_cons] at hmany
        constructor
        · rintro ⟨-, hcopies⟩
          refine ⟨hlength, by simp [hargv], fun command' args' heq _ => ?_⟩
          obtain ⟨rfl, rfl⟩ := List.cons.inj (hargv.symm.trans heq)
          exact searchCommandListCopies_fit_iff.mp fun copy hcopy =>
            hcopies copy (List.mem_cons_of_mem _ hcopy)
        · intro h
          refine ⟨List.cons_ne_nil _ _, fun copy hcopy => ?_⟩
          rcases List.mem_cons.mp hcopy with rfl | hcopy
          · exact hlength
          · exact searchCommandListCopies_fit_iff.mpr (h.argv command args hargv (by omega))
              copy hcopy
  · constructor
    · rintro ⟨-, hcopies⟩
      exact absurd (hcopies _ List.mem_cons_self) hlength
    · intro h
      exact absurd h.length hlength

/-- The names and MAC addresses of an accepted command fit the tables. -/
theorem executeCommandCopies_fit {requestStr : CStr} {command : SppCommand}
    (h : sppCommandDecodeRequest L M s requestStr = .ok command) :
    ∀ copy ∈ executeCommandCopies command, copy.Fits := by
  have hmac : ∀ table : CommandClassifierTable, MacShort table →
      ∀ copy ∈ (⟨sppMinStrLen, table.mac⟩ :: if table.action = .add then
        [⟨sppMinStrLen, table.mac⟩] else [] : List StrCopy), copy.Fits := by
    intro table hshort copy hcopy
    rcases List.mem_cons.mp hcopy with rfl | hcopy
    · exact hshort
    · split at hcopy
      · rw [List.mem_singleton.mp hcopy]
        exact hshort
      · cases hcopy
  obtain ⟨name, args, -, row, hrow, -, hmin, hmax, hfunc⟩ := decodeRequest_eq_ok h
  simp only [commandList, List.mem_cons, List.not_mem_nil, or_false] at hrow
  rcases hrow with rfl | rfl | rfl | rfl | rfl | rfl | rfl
  · obtain ⟨table, hparams, rfl⟩ := map_eq_ok.mp hfunc
    exact hmac table (listBounded_mac.keeps hparams macShort_default)
  · obtain ⟨table, hparams, rfl⟩ := map_eq_ok.mp hfunc
    exact hmac table (listBounded_vlan.keeps hparams macShort_default)
  · obtain rfl := Except.ok.inj hfunc
    simp [executeCommandCopies]
  · obtain rfl := Except.ok.inj hfunc
    simp [executeCommandCopies]
  · obtain rfl := Except.ok.inj hfunc
    simp [executeCommandCopies]
  · obtain ⟨c, hparams, rfl⟩ := map_eq_ok.mp hfunc
    have hname := (componentRequest_of_decode (Nat.le_of_succ_le_succ hmin)
      (Nat.le_of_succ_le_succ hmax) hparams).name_length
    intro copy hcopy
    change copy ∈ (if c.action = .start then [⟨sppNameStrLen, c.name⟩] else []) at hcopy
    split at hcopy
    · rw [List.mem_singleton.mp hcopy]
      exact lt_trans hname (by decide : sppCmdNameBufsz < sppNameStrLen)
    · cases hcopy
  · obtain ⟨c, -, rfl⟩ := map_eq_ok.mp hfunc
    simp [executeCommandCopies]

/-- Where a copy of the row that is taken, or of the unknown name, does not fit,
the search is undefined. -/
theorem searchCommandList_overrun
    (hrows : ∀ p ∈ rows, (∃ copy ∈ p.2 args, ¬ copy.Fits) → p.1.func args = .error .undef)
    (h : ∃ copy ∈ searchCommandListCopies command args nameCheck rows, ¬ copy.Fits) :
    searchCommandList command args nameCheck (rows.map Prod.fst) = .error .undef := by
  induction rows generalizing nameCheck with
  | nil =>
    obtain ⟨copy, hcopy, hover⟩ := h
    unfold searchCommandListCopies at hcopy
    split at hcopy
    · cases hcopy
    · rename_i hcheck
      simp only [errorCopies, List.mem_cons, List.not_mem_nil, or_false] at hcopy
      rw [List.map_nil, searchCommandList, if_neg hcheck]
      rcases hcopy with rfl | rfl
      · have hlong : ¬ command.length < sppCmdValueBufsz := hover
        simp only [setStringValueDecodeError, strcpy, if_neg hlong]
      · exact absurd (by decide : "command".toList.length < sppCmdNameBufsz) hover
  | cons p rows ih =>
    obtain ⟨row, copies⟩ := p
    have hrest := fun nameCheck =>
      @ih nameCheck fun q hq => hrows q (List.mem_cons_of_mem _ hq)
    rw [searchCommandListCopies] at h
    rw [List.map_cons, searchCommandList]
    split at h
    · rename_i hname
      rw [if_pos hname]
      exact hrest nameCheck h
    · rename_i hname
      rw [if_neg hname]
      split at h
      · rename_i harity
        rw [if_pos harity]
        exact hrest true h
      · rename_i harity
        rw [if_neg harity]
        exact hrows _ List.mem_cons_self h

/-- Where a copy of a row of the command list does not fit, the row is undefined. -/
theorem commandListCopies_overrun :
    ∀ p ∈ (commandList L M s).zip (commandListCopies L M s),
      (∃ copy ∈ p.2 args, ¬ copy.Fits) → p.1.func args = .error .undef := by
  intro p hp hover
  simp only [commandList, commandListCopies, List.zip_cons_cons, List.zip_nil_left, List.mem_cons,
    List.not_mem_nil, or_false] at hp
  rcases hp with rfl | rfl | rfl | rfl | rfl | rfl | rfl
  · simp only [decodeCommandParameterClsTable,
      decodeCommandParameter_overrun listBounded_mac macShort_default hover, Except.map]
  · simp only [decodeCommandParameterClsTableVlan,
      decodeCommandParameter_overrun listBounded_vlan macShort_default hover, Except.map]
  · simp at hover
  · simp at hover
  · simp at hover
  · simp only [decodeCommandParameterComponent,
      decodeCommandParameter_overrun listBounded_component trivial hover, Except.map]
  · simp only [decodeCommandParameterPort,
      decodeCommandParameter_overrun listBounded_port trivial hover, Except.map]

/-- The copies listed here are those of the decoder: where one does not fit, or
`argv[0]` is absent, decoding is undefined. -/
theorem decodeRequest_overrun {requestStr : CStr}
    (h : strtok ' ' requestStr = [] ∨
      ∃ copy ∈ decodeCommandInListCopies L M s requestStr, ¬ copy.Fits) :
    sppCommandDecodeRequest L M s requestStr = .error .undef := by
  unfold sppCommandDecodeRequest decodeCommandInList
  by_cases hlength : requestStr.length < sppCmdMaxParameters * sppCmdValueBufsz
  · rw [show strcpy _ requestStr = .ok requestStr from if_pos hlength]
    dsimp only
    rcases h with hnil | ⟨copy, hcopy, hover⟩
    · rw [hnil]
      rfl
    · unfold decodeCommandInListCopies at hcopy
      rw [if_pos hlength] at hcopy
      rcases List.mem_cons.mp hcopy with rfl | hcopy
      · exact absurd hlength hover
      · dsimp only at hcopy
        split at hcopy
        · cases hcopy
        · rename_i hfew
          rw [if_neg hfew]
          split at hcopy
          · cases hcopy
          · rename_i command args hargv
            have hsearch : searchCommandList command args false (commandList L M s) =
                .error .undef :=
              searchCommandList_overrun commandListCopies_overrun ⟨copy, hcopy, hover⟩
            simpa only [hargv] using hsearch
  · rw [show strcpy _ requestStr = .error .undef from if_neg hlength]

end Request

end Spp.Vf
