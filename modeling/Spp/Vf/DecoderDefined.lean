import Spp.Vf.DecoderCopies

/-!
# Requests on which the decoder is defined

Beside the copies of `DecoderCopies` the decoder computes one kind of pointer:
`get_iface_info` indexes the array of a port type without a look at its size. With
both, the requests on which decoding is defined are known exactly.
-/

namespace Spp.Vf

open CLib

variable {L : Limits} {M : SppModule} {s : MngData}

section Interfaces

/-- The number of an interface token is an index of its array. -/
def InTable (L : Limits) (arg : CStr) : Prop :=
  ∀ port, sppConvertPortToIface arg = .ok port → 0 ≤ port.ifaceNo ∧ port.ifaceNo < L.maxEthports

/-- A token for which no interface is looked up. -/
def noInterface {γ : Type} : TokenLength γ := fun _ _ => True

/-- The interface of a `port` request is looked up for an add with the in-use checks on. -/
def portInterface (L : Limits) (flag : Bool) : TokenLength CommandPort := fun port arg =>
  flag = false ∧ port.action = .add → InTable L arg

/-- The interfaces that the handlers of `parameterListPort` look up. -/
def interfacesPort (L : Limits) (flag : Bool) : List (TokenLength CommandPort) :=
  [noInterface, portInterface L flag, noInterface, noInterface, noInterface, noInterface,
   noInterface]

/-- The interface that the handlers of `parameterListMac` look up. -/
def interfacesMac (L : Limits) : List (TokenLength CommandClassifierTable) :=
  [noInterface, noInterface, noInterface, fun _ arg => InTable L arg]

/-- The interface that the handlers of `parameterListVlan` look up. -/
def interfacesVlan (L : Limits) : List (TokenLength CommandClassifierTable) :=
  [noInterface, noInterface, noInterface, noInterface, fun _ arg => InTable L arg]

/-- The interface that the handlers of `parameterListComponent` look up: none. -/
def interfacesComponent : List (TokenLength CommandComponent) :=
  [noInterface, noInterface, noInterface, noInterface]

/-- The interface of a request, if its handler is reached, is an entry of its array. -/
structure ArgvInTable (L : Limits) (s : MngData) (command : CStr) (args : List CStr) : Prop where
  /-- A `classifier_table` request without a VLAN id. -/
  mac : command = "classifier_table".toList → args.length = 4 →
    TokensFit (parameterListMac L s) (interfacesMac L) args {}
  /-- A `classifier_table` request with a VLAN id. -/
  vlan : command = "classifier_table".toList → args.length = 5 →
    TokensFit (parameterListVlan L s) (interfacesVlan L) args {}
  /-- A `port` request. -/
  port : command = "port".toList → 4 ≤ args.length → args.length ≤ 7 →
    TokensFit (parameterListPort L s (args.length + 1 = 8))
      (interfacesPort L (args.length + 1 = 8)) args {}

/-- The interface of a request is an entry of its array. -/
def InterfaceInTable (L : Limits) (s : MngData) (requestStr : CStr) : Prop :=
  ∀ command args, strtok ' ' requestStr = command :: args → args.length < sppCmdMaxParameters →
    ArgvInTable L s command args

end Interfaces

section Rows

/-- A token is handled without undefined behaviour iff it has the length that can be
taken and the interface it names is in the table. The handler leads from one invariant
of the command to the next. -/
structure RowDefined {γ : Type} (I I' : γ → Prop) (row : Parameter γ)
    (length interface : TokenLength γ) : Prop where
  /-- The condition is exact. -/
  defined_iff : ∀ command arg, I command →
    (row.2 command arg ≠ .error .undef ∧
        (row.2 command arg = .error .ng → arg.length < sppCmdValueBufsz) ↔
      length command arg ∧ interface command arg)
  /-- The next invariant holds after the token. -/
  keeps : ∀ command arg command', I command → row.2 command arg = .ok command' → I' command'

/-- A parameter list row by row. -/
inductive ListDefined {γ : Type} : (γ → Prop) → List (Parameter γ) → List (TokenLength γ) →
    List (TokenLength γ) → Prop
  | nil {I : γ → Prop} : ListDefined I [] [] []
  | cons {I I' : γ → Prop} {row : Parameter γ} {length interface : TokenLength γ}
      {list : List (Parameter γ)} {lengths interfaces : List (TokenLength γ)}
      (hrow : RowDefined I I' row length interface) (hlist : ListDefined I' list lengths interfaces) :
      ListDefined I (row :: list) (length :: lengths) (interface :: interfaces)

/-- The loop over the tokens is defined iff every token up to the first refused one is
handled without undefined behaviour. -/
theorem decodeCommandParameter_defined_iff {γ : Type} {I : γ → Prop} {list : List (Parameter γ)}
    {lengths interfaces : List (TokenLength γ)} (hlist : ListDefined I list lengths interfaces)
    {args : List CStr} (hargs : args.length ≤ list.length) {command : γ} (hinv : I command) :
    decodeCommandParameter list args command ≠ .error .undef ↔
      TokensFit list lengths args command ∧ TokensFit list interfaces args command := by
  induction hlist generalizing args command with
  | nil =>
    obtain rfl := List.length_eq_zero_iff.mp (Nat.le_zero.mp hargs)
    simp [decodeCommandParameter, TokensFit]
  | @cons I I' row length interface list lengths interfaces hrow hlist ih =>
    cases args with
    | nil => simp [decodeCommandParameter, TokensFit]
    | cons arg args =>
      obtain ⟨name, func⟩ := row
      have hiff := hrow.defined_iff command arg hinv
      have hlength : args.length ≤ list.length := by simpa using hargs
      dsimp only at hiff
      rw [TokensFit, TokensFit, decodeCommandParameter]
      cases hfunc : func command arg with
      | error e =>
        rw [hfunc] at hiff
        cases e with
        | ng =>
          by_cases hshort : arg.length < sppCmdValueBufsz
          · simpa [setStringValueDecodeError, strcpy, hshort] using hiff
          · simpa [setStringValueDecodeError, strcpy, hshort] using hiff
        | undef => simpa using hiff
      | ok command' =>
        rw [hfunc] at hiff
        obtain ⟨hlen, hint⟩ := hiff.mp ⟨by simp, by simp⟩
        simp only [Except.ok.injEq, forall_eq']
        rw [ih hlength (hrow.keeps command arg command' hinv hfunc)]
        simp only [hlen, hint, true_and]

/-- A row with bounded copies is defined iff its interface is in the table, if nothing
else is undefined. -/
theorem RowBounded.defined {γ : Type} {I₀ I I' : γ → Prop} {row : Parameter γ}
    {copies : HandlerCopies γ} {length interface : TokenLength γ}
    (hrow : RowBounded I₀ row copies length) (himp : ∀ command, I command → I₀ command)
    (hundef : ∀ command arg, I command → (∀ copy ∈ copies command arg, copy.Fits) →
      (row.2 command arg ≠ .error .undef ↔ interface command arg))
    (hkeeps : ∀ command arg command', I command → row.2 command arg = .ok command' → I' command') :
    RowDefined I I' row length interface := by
  refine ⟨fun command arg hinv => ?_, hkeeps⟩
  rw [← hrow.fits_iff command arg (himp command hinv)]
  constructor
  · rintro ⟨hdefined, hshort⟩
    have hfits : ∀ copy ∈ copies command arg, copy.Fits := by
      intro copy hcopy
      by_contra hover
      exact hdefined (hrow.overrun command arg (himp command hinv) ⟨copy, hcopy, hover⟩)
    exact ⟨⟨hfits, hshort⟩, (hundef command arg hinv hfits).mp hdefined⟩
  · rintro ⟨⟨hfits, hshort⟩, hinterface⟩
    exact ⟨(hundef command arg hinv hfits).mpr hinterface, hshort⟩

/-- A row that looks up no interface. -/
theorem RowBounded.defined_of_ne {γ : Type} {I : γ → Prop} {row : Parameter γ}
    {copies : HandlerCopies γ} {length : TokenLength γ} (hrow : RowBounded I row copies length)
    (hne : ∀ command arg, I command → (∀ copy ∈ copies command arg, copy.Fits) →
      row.2 command arg ≠ .error .undef) : RowDefined I I row length noInterface :=
  hrow.defined (fun _ h => h)
    (fun command arg hinv hfits => iff_of_true (hne command arg hinv hfits) trivial) hrow.keeps

end Rows

section Handlers

/-- `get_int_value` is defined on every token. -/
theorem getIntValue_ne_undef (arg : CStr) (lo hi : ℤ) : getIntValue arg lo hi ≠ .error .undef := by
  unfold getIntValue
  split
  · dsimp only
    split <;> simp
  · simp

/-- `get_uint_value` is defined on every token. -/
theorem getUintValue_ne_undef (arg : CStr) (lo hi : ℕ) :
    getUintValue arg lo hi ≠ .error .undef := by
  unfold getUintValue
  split
  · dsimp only
    split <;> simp
  · simp

/-- `spp_convert_port_to_iface` is defined on every token. -/
theorem sppConvertPortToIface_ne_undef (uid : CStr) :
    sppConvertPortToIface uid ≠ .error .undef := by
  unfold sppConvertPortToIface
  dsimp only
  split
  · split <;> simp
  · split
    · split <;> simp
    · split
      · split <;> simp
      · simp

/-- The loop over the fields of an address is defined. -/
theorem macFields_ne_undef (tokens : List CStr) (cnt : ℕ) (acc : BitVec 64) :
    macFields tokens cnt acc ≠ .error .undef := by
  induction tokens generalizing cnt acc with
  | nil => simp [macFields]
  | cons field fields ih =>
    rw [macFields]
    split
    · simp
    · split
      · exact ih _ _
      · simp

/-- `spp_change_mac_str_to_int64` is defined on a short text. -/
theorem sppChangeMacStrToInt64_ne_undef {mac : CStr} (h : mac.length < sppMinStrLen) :
    sppChangeMacStrToInt64 mac ≠ .error .undef := by
  unfold sppChangeMacStrToInt64
  simp only [strcpy_eq_ok.mpr ⟨h, rfl⟩]
  have hloop := macFields_ne_undef (strtok ':' mac) 0 0
  cases hfields : macFields (strtok ':' mac) 0 0 with
  | ok r => simp
  | error e =>
    cases e with
    | ng => simp
    | undef => exact absurd hfields hloop

/-- A step after a value that is defined. -/
theorem bind_ne_undef {α β : Type} {x : Except Stop α} {f : α → Except Stop β}
    (hx : x ≠ .error .undef) (hf : ∀ a, x = .ok a → f a ≠ .error .undef) :
    (x >>= f) ≠ .error .undef := by
  cases x with
  | ok a => exact hf a rfl
  | error e =>
    intro h
    exact hx (by rw [show e = .undef from Except.error.inj h])

/-- `decode_str_value` is defined where its copies fit. -/
theorem decodeStrValue_ne_undef {bufsz : ℕ} {arg : CStr}
    (h : ∀ copy ∈ decodeStrValueCopies bufsz arg, copy.Fits) :
    decodeStrValue bufsz arg ≠ .error .undef := by
  unfold decodeStrValueCopies at h
  unfold decodeStrValue
  split
  · simp
  · rename_i hshort
    rw [if_neg hshort] at h
    rw [strcpy_eq_ok.mpr ⟨h _ List.mem_cons_self, rfl⟩]
    simp

/-- An interface that the decoder reads is looked up without undefined behaviour iff its
number is an index of the array. -/
theorem getIfaceInfo_eq {uid : CStr} {port : PortIndex} (h : sppConvertPortToIface uid = .ok port) :
    (∃ p, getIfaceInfo L port.ifaceType port.ifaceNo = .ok (some p)) ∧
        0 ≤ port.ifaceNo ∧ port.ifaceNo < L.maxEthports ∨
      getIfaceInfo L port.ifaceType port.ifaceNo = .error .undef ∧
        ¬ (0 ≤ port.ifaceNo ∧ port.ifaceNo < L.maxEthports) := by
  obtain ⟨word, number, v, hword, -, -, -⟩ := sppConvertPortToIface_eq_ok h
  simp only [portTypeWords, List.mem_cons, Prod.mk.injEq, List.not_mem_nil, or_false] at hword
  by_cases hrange : 0 ≤ port.ifaceNo ∧ port.ifaceNo < L.maxEthports
  · refine .inl ⟨?_, hrange⟩
    rcases hword with ⟨-, htype⟩ | ⟨-, htype⟩ | ⟨-, htype⟩
    · simp [getIfaceInfo, htype, hrange]
    · simp [getIfaceInfo, htype, hrange]
    · simp [getIfaceInfo, htype, hrange]
  · refine .inr ⟨?_, hrange⟩
    rcases hword with ⟨-, htype⟩ | ⟨-, htype⟩ | ⟨-, htype⟩
    · simp only [getIfaceInfo, htype, if_neg hrange]
    · simp only [getIfaceInfo, htype, if_neg hrange]
    · simp only [getIfaceInfo, htype, if_neg hrange]

/-- The port of a command so far is in the table, if its rxtx is to be looked up. -/
def PortLookedUp (L : Limits) (flag : Bool) (port : CommandPort) : Prop :=
  flag = false ∧ port.action = .add →
    ∃ p, getIfaceInfo L port.port.ifaceType port.port.ifaceNo = .ok (some p)

/-- The row of the port of a `port` request. -/
theorem rowDefined_port {flag : Bool} :
    RowDefined (fun _ => True) (PortLookedUp L flag)
      ("port", fun port arg => decodePortPortValue L s port arg flag)
      (refusedLength fun port arg => decodePortPortValue L s port arg flag)
      (portInterface L flag) := by
  have hbounded : RowBounded (fun _ : CommandPort => True)
      ("port", fun port arg => decodePortPortValue L s port arg flag) noCopies
      (refusedLength fun port arg => decodePortPortValue L s port arg flag) :=
    rowBounded_refused (by decide) fun _ _ _ _ _ => trivial
  refine hbounded.defined (fun _ h => h) (fun command arg _ _ => ?_) fun command arg command' _ h => ?_
  · dsimp only
    unfold decodePortPortValue portInterface InTable
    cases hport : sppConvertPortToIface arg with
    | error e =>
      have hne : e ≠ .undef := fun h => sppConvertPortToIface_ne_undef arg (h ▸ hport)
      simpa [Bind.bind, Except.bind] using hne
    | ok port =>
      by_cases hadd : flag = false ∧ command.action = .add
      · obtain ⟨⟨p, hp⟩, hrange⟩ | ⟨hundef, hrange⟩ := getIfaceInfo_eq (L := L) hport
        · refine iff_of_true ?_ fun _ q hq => by rw [← Except.ok.inj hq]; exact hrange
          simp only [sppCheckUsedPort, hp, Bind.bind, Except.bind, if_pos hadd]
          split <;> simp
        · refine iff_of_false ?_ fun h => hrange (h hadd port rfl)
          simp only [sppCheckUsedPort, hundef, Bind.bind, Except.bind, if_pos hadd, ne_eq,
            not_true_eq_false, not_false_eq_true]
      · refine iff_of_true ?_ fun h => absurd h hadd
        simp [Bind.bind, Except.bind, hadd]
  · intro hadd
    obtain ⟨port, rfl, hconverts⟩ := decodePortPortValue_converts h
    obtain ⟨hp, -⟩ | ⟨hundef, -⟩ := getIfaceInfo_eq (L := L) hconverts
    · exact hp
    · dsimp only at h
      unfold decodePortPortValue at h
      rw [hconverts] at h
      simp only [sppCheckUsedPort, hundef, Bind.bind, Except.bind, if_pos hadd] at h
      cases h

/-- The row of the direction of a `port` request. -/
theorem rowDefined_rxtx {flag : Bool} :
    RowDefined (PortLookedUp L flag) (fun _ => True)
      ("port rxtx", fun port arg => decodePortRxtxValue L s port arg flag) wordLength
      noInterface := by
  have hbounded : RowBounded (fun _ : CommandPort => True)
      ("port rxtx", fun port arg => decodePortRxtxValue L s port arg flag) noCopies wordLength := by
    apply rowBounded_word (by decide)
    · intro command arg hlong
      simp only [decodePortRxtxValue, getArraryIndex_long words_short.2.2 hlong]
    · exact fun _ _ _ _ _ => trivial
  refine hbounded.defined (fun _ _ => trivial) (fun command arg hlooked _ => iff_of_true ?_ trivial)
    fun _ _ _ _ _ => trivial
  dsimp only [decodePortRxtxValue]
  split
  · simp
  · simp
  · split
    · rename_i hadd
      obtain ⟨p, hp⟩ := hlooked hadd
      simp only [sppCheckUsedPort, hp, Bind.bind, Except.bind]
      split <;> simp
    · simp

/-- The handlers of a `port` request. -/
theorem listDefined_port {flag : Bool} :
    ListDefined (fun _ => True) (parameterListPort L s flag) (lengthsPort L s flag)
      (interfacesPort L flag) := by
  apply ListDefined.cons
  · have haction : RowBounded (fun _ : CommandPort => True) ("action", decodePortActionValue)
        noCopies wordLength := by
      apply rowBounded_word (by decide)
      · intro command arg hlong
        simp only [decodePortActionValue, getArraryIndex_long words_short.1 hlong]
      · exact fun _ _ _ _ _ => trivial
    refine haction.defined_of_ne fun command arg _ _ => ?_
    dsimp only [decodePortActionValue]
    split <;> simp
  apply ListDefined.cons
  · exact rowDefined_port
  apply ListDefined.cons
  · exact rowDefined_rxtx
  apply ListDefined.cons
  · refine rowBounded_portName.defined_of_ne fun command arg _ hfits => ?_
    dsimp only [decodePortNameValue]
    unfold decodePortNameCopies at hfits
    split
    · simp
    · rename_i hnone
      rw [if_neg hnone] at hfits
      exact bind_ne_undef (decodeStrValue_ne_undef hfits) fun _ _ => by simp
  apply ListDefined.cons
  · refine rowBounded_vlan.defined_of_ne fun command arg _ _ => ?_
    dsimp only [decodePortVlanOperation]
    split
    · split <;> simp
    · simp
  apply ListDefined.cons
  · have hvid : RowBounded (fun _ : CommandPort => True) ("port vid", decodePortVid) noCopies
        (refusedLength decodePortVid) := rowBounded_refused (by decide) fun _ _ _ _ _ => trivial
    refine hvid.defined_of_ne fun command arg _ _ => ?_
    dsimp only [decodePortVid]
    split
    · exact bind_ne_undef (getIntValue_ne_undef _ _ _) fun _ _ => by simp
    · simp
  apply ListDefined.cons
  · have hpcp : RowBounded (fun _ : CommandPort => True) ("port pcp", decodePortPcp) noCopies
        (refusedLength decodePortPcp) := rowBounded_refused (by decide) fun _ _ _ _ _ => trivial
    refine hpcp.defined_of_ne fun command arg _ _ => ?_
    dsimp only [decodePortPcp]
    split
    · exact bind_ne_undef (getIntValue_ne_undef _ _ _) fun _ _ => by simp
    · simp
  exact ListDefined.nil

/-- The handlers of a `component` request. -/
theorem listDefined_component :
    ListDefined (fun _ => True) (parameterListComponent L M s) (lengthsComponent L M s)
      interfacesComponent := by
  apply ListDefined.cons
  · have haction : RowBounded (fun _ : CommandComponent => True)
        ("action", decodeComponentActionValue) noCopies wordLength := by
      apply rowBounded_word (by decide)
      · intro command arg hlong
        simp only [decodeComponentActionValue, getArraryIndex_long words_short.1 hlong]
      · exact fun _ _ _ _ _ => trivial
    refine haction.defined_of_ne fun command arg _ _ => ?_
    dsimp only [decodeComponentActionValue]
    split <;> simp
  apply ListDefined.cons
  · refine rowBounded_componentName.defined_of_ne fun command arg _ hfits => ?_
    dsimp only [decodeComponentNameValue]
    unfold decodeComponentNameCopies at hfits
    split
    · simp
    · rename_i hused
      rw [if_neg hused] at hfits
      exact bind_ne_undef (decodeStrValue_ne_undef hfits) fun _ _ => by simp
  apply ListDefined.cons
  · have hcore : RowBounded (fun _ : CommandComponent => True) ("core", decodeComponentCoreValue L)
        noCopies (refusedLength (decodeComponentCoreValue L)) :=
      rowBounded_refused (by decide) fun _ _ _ _ _ => trivial
    refine hcore.defined_of_ne fun command arg _ _ => ?_
    dsimp only [decodeComponentCoreValue, decodeCoreValue]
    split
    · simp
    · exact bind_ne_undef (getUintValue_ne_undef _ _ _) fun _ _ => by simp
  apply ListDefined.cons
  · have htype : RowBounded (fun _ : CommandComponent => True)
        ("component type", decodeComponentTypeValue M) noCopies
        (refusedLength (decodeComponentTypeValue M)) :=
      rowBounded_refused (by decide) fun _ _ _ _ _ => trivial
    refine htype.defined_of_ne fun command arg _ _ => ?_
    dsimp only [decodeComponentTypeValue]
    split
    · simp
    · split <;> simp
  exact ListDefined.nil

/-- The row of the MAC address of a table entry. -/
theorem rowDefined_mac :
    RowDefined MacShort MacShort ("mac address", decodeMacAddrStrValue) macLength noInterface := by
  refine rowBounded_mac.defined_of_ne fun command arg _ hfits => ?_
  dsimp only [decodeMacAddrStrValue]
  have hshort : (macText arg).length < sppMinStrLen := hfits _ List.mem_cons_self
  refine bind_ne_undef (sppChangeMacStrToInt64_ne_undef hshort) fun ret _ => ?_
  split
  · simp
  · have hcopy : (macText arg).length < sppCmdValueBufsz := lt_trans hshort (by decide)
    have hok : strcpy sppCmdValueBufsz (macText arg) = .ok (macText arg) :=
      strcpy_eq_ok.mpr ⟨hcopy, rfl⟩
    refine bind_ne_undef ?_ fun _ _ => by simp
    change strcpy sppCmdValueBufsz (macText arg) ≠ _
    rw [hok]
    simp

/-- The row of the port of a table entry. -/
theorem rowDefined_classifierPort :
    RowDefined MacShort MacShort ("port", decodeClassifierPortValue L s)
      (refusedLength (decodeClassifierPortValue L s)) (fun _ arg => InTable L arg) := by
  refine rowBounded_classifierPort.defined (fun _ h => h) (fun command arg hmac _ => ?_)
    rowBounded_classifierPort.keeps
  dsimp only
  unfold decodeClassifierPortValue InTable
  cases hport : sppConvertPortToIface arg with
  | error e =>
    have hne : e ≠ .undef := fun h => sppConvertPortToIface_ne_undef arg (h ▸ hport)
    simpa [Bind.bind, Except.bind] using hne
  | ok port =>
    obtain ⟨⟨p, hp⟩, hrange⟩ | ⟨hundef, hrange⟩ := getIfaceInfo_eq (L := L) hport
    · refine iff_of_true ?_ fun q hq => by rw [← Except.ok.inj hq]; exact hrange
      have hentry : ifaceEntry L port.ifaceType port.ifaceNo = .ok p := by
        simp only [ifaceEntry, hp]
      have hshort : ∀ table : CommandClassifierTable, table.mac = command.mac →
          sppChangeMacStrToInt64 table.mac ≠ .error .undef := fun table htable =>
        sppChangeMacStrToInt64_ne_undef (htable ▸ hmac)
      refine bind_ne_undef (by simp) fun q hq => ?_
      obtain rfl := Except.ok.inj hq
      rw [hentry]
      refine bind_ne_undef (by simp) fun entry _ => ?_
      -- The address is converted again for an entry that is deleted.
      have htail : ∀ table : CommandClassifierTable, table.mac = command.mac →
          (if table.action = .add then
            if sppCheckClassidUsedPort s ethVlanIdMax 0 entry = false then .error .ng
            else .ok { table with port := port }
          else if table.action = .del then do
            let macAddr ← sppChangeMacStrToInt64 table.mac
            if macAddr < 0 then .error .ng
            else if sppCheckClassidUsedPort s table.vid (macToUInt64 macAddr) entry = false then
              .error .ng
            else .ok { table with port := port }
          else .ok { table with port := port } : Except Stop CommandClassifierTable) ≠
            .error .undef := by
        intro table htable
        split
        · split <;> simp
        · split
          · refine bind_ne_undef (hshort table htable) fun macAddr _ => ?_
            split
            · simp
            · split <;> simp
          · simp
      split
      · simp
      · refine htail (if command.type = .mac then { command with vid := ethVlanIdMax } else command) ?_
        split <;> rfl
    · refine iff_of_false ?_ fun h => hrange (h port rfl)
      have hentry : ifaceEntry L port.ifaceType port.ifaceNo = .error .undef := by
        simp only [ifaceEntry, hundef]
      simp only [hentry, Bind.bind, Except.bind, ne_eq, not_true_eq_false, not_false_eq_true]

/-- The handlers of a `classifier_table` request without a VLAN id. -/
theorem listDefined_mac :
    ListDefined MacShort (parameterListMac L s) (lengthsMac L s) (interfacesMac L) := by
  apply ListDefined.cons
  · refine rowBounded_classifierAction.defined_of_ne fun command arg _ _ => ?_
    dsimp only [decodeClassifierActionValue]
    split <;> simp
  apply ListDefined.cons
  · refine rowBounded_classifierType.defined_of_ne fun command arg _ _ => ?_
    dsimp only [decodeClassifierTypeValue]
    split <;> simp
  apply ListDefined.cons
  · exact rowDefined_mac
  apply ListDefined.cons
  · exact rowDefined_classifierPort
  exact ListDefined.nil

/-- The handlers of a `classifier_table` request with a VLAN id. -/
theorem listDefined_vlan :
    ListDefined MacShort (parameterListVlan L s) (lengthsVlan L s) (interfacesVlan L) := by
  apply ListDefined.cons
  · refine rowBounded_classifierAction.defined_of_ne fun command arg _ _ => ?_
    dsimp only [decodeClassifierActionValue]
    split <;> simp
  apply ListDefined.cons
  · refine rowBounded_classifierType.defined_of_ne fun command arg _ _ => ?_
    dsimp only [decodeClassifierTypeValue]
    split <;> simp
  apply ListDefined.cons
  · have hvid : RowBounded MacShort ("vlan id", decodeClassifierVidValue) noCopies
        (refusedLength decodeClassifierVidValue) := by
      apply rowBounded_refused (by decide)
      intro command arg command' hmac h
      obtain ⟨vid, rfl, -⟩ := decodeClassifierVidValue_literal h
      exact hmac
    refine hvid.defined_of_ne fun command arg _ _ => ?_
    dsimp only [decodeClassifierVidValue]
    exact bind_ne_undef (getIntValue_ne_undef _ _ _) fun _ _ => by simp
  apply ListDefined.cons
  · exact rowDefined_mac
  apply ListDefined.cons
  · exact rowDefined_classifierPort
  exact ListDefined.nil

end Handlers

section Request

variable {command : CStr} {args : List CStr}

/-- A decoded member of a command is undefined only where the decoding is. -/
theorem map_ne_undef {α β : Type} {x : Except DecodeFailure α} {f : α → β} :
    x.map f ≠ .error .undef ↔ x ≠ .error .undef := by
  cases x <;> simp [Except.map]

/-- Conditions that always hold hold of every token. -/
theorem tokensFit_of_forall {γ : Type} {list : List (Parameter γ)} {conds : List (TokenLength γ)}
    (h : ∀ cond ∈ conds, ∀ c arg, cond c arg) (args : List CStr) (c : γ) :
    TokensFit list conds args c := by
  induction list generalizing conds args c with
  | nil => simp [TokensFit]
  | cons row list ih =>
    obtain _ | ⟨cond, conds⟩ := conds
    · simp [TokensFit]
    · obtain _ | ⟨arg, args⟩ := args
      · simp [TokensFit]
      · exact ⟨h cond List.mem_cons_self c arg, fun c' _ =>
          ih (fun d hd => h d (List.mem_cons_of_mem cond hd)) args c'⟩

/-- A row of the command list takes a request. -/
def DecodeCommandList.Takes (row : DecodeCommandList) (command : CStr) (args : List CStr) : Prop :=
  row.name.toList = command ∧ row.paramMin ≤ args.length + 1 ∧ args.length + 1 ≤ row.paramMax

/-- The search is defined iff the row that takes the request is, and an unknown name
fits the error. -/
theorem searchCommandList_ne_undef_iff {rows : List DecodeCommandList} {nameCheck : Bool}
    (hrows : rows.Pairwise fun r r' => ¬ (r.Takes command args ∧ r'.Takes command args)) :
    searchCommandList command args nameCheck rows ≠ .error .undef ↔
      (∀ row ∈ rows, row.Takes command args → row.func args ≠ .error .undef) ∧
        (nameCheck = false → (∀ row ∈ rows, row.name.toList ≠ command) →
          command.length < sppCmdValueBufsz) := by
  induction rows generalizing nameCheck with
  | nil =>
    unfold searchCommandList
    cases nameCheck
    · by_cases hshort : command.length < sppCmdValueBufsz
      · simp [setStringValueDecodeError, strcpy, hshort]
      · simp [setStringValueDecodeError, strcpy, hshort]
    · simp
  | cons row rows ih =>
    obtain ⟨hfirst, hrest⟩ := List.pairwise_cons.mp hrows
    rw [searchCommandList]
    simp only [List.forall_mem_cons]
    split
    · rename_i hname
      have hskip : ¬ row.Takes command args := fun h => hname h.1
      rw [ih hrest]
      simp only [hskip, false_imp_iff, true_and, hname, ne_eq, not_false_eq_true]
    · rename_i hname
      rw [not_ne_iff] at hname
      split
      · rename_i harity
        have hskip : ¬ row.Takes command args := fun h => by
          obtain ⟨-, hmin, hmax⟩ := h
          omega
        rw [ih hrest]
        simp [hskip, hname]
      · rename_i harity
        have htakes : row.Takes command args := ⟨hname, by omega, by omega⟩
        simp only [htakes, true_imp_iff, hname, ne_eq, not_true_eq_false, false_and, false_imp_iff,
          implies_true, and_true]
        refine ⟨fun h => ⟨h, fun r hr hr' => absurd ⟨htakes, hr'⟩ (hfirst r hr)⟩, fun h => h.1⟩

/-- No two rows of the command list take one request. -/
theorem commandList_pairwise : (commandList L M s).Pairwise fun r r' =>
    ¬ (r.Takes command args ∧ r'.Takes command args) := by
  have hapart : (commandList L M s).Pairwise fun r r' =>
      r.name ≠ r'.name ∨ r.paramMax < r'.paramMin := by
    simp [commandList]
  refine hapart.imp ?_
  rintro r r' hne ⟨⟨hname, hmin, hmax⟩, hname', hmin', hmax'⟩
  obtain hne | hlt := hne
  · exact hne (String.toList_inj.mp (hname.trans hname'.symm))
  · omega

/-- The search of the command list is defined iff the tokens of the row that is taken
fit and its interface is in the table. -/
theorem searchCommandList_defined_iff :
    searchCommandList command args false (commandList L M s) ≠ .error .undef ↔
      ArgvFits L M s command args ∧ ArgvInTable L s command args := by
  rw [searchCommandList_ne_undef_iff commandList_pairwise]
  have hcomponent : ∀ {args : List CStr}, args.length ≤ 4 →
      (decodeCommandParameterComponent L M s args ≠ .error .undef ↔
        TokensFit (parameterListComponent L M s) (lengthsComponent L M s) args {} ∧
          TokensFit (parameterListComponent L M s) interfacesComponent args {}) := fun h =>
    map_ne_undef.trans (decodeCommandParameter_defined_iff listDefined_component h trivial)
  have hport : ∀ {args : List CStr}, args.length ≤ 7 →
      (decodeCommandParameterPort L s 8 args ≠ .error .undef ↔
        TokensFit (parameterListPort L s (args.length + 1 = 8))
            (lengthsPort L s (args.length + 1 = 8)) args {} ∧
          TokensFit (parameterListPort L s (args.length + 1 = 8))
            (interfacesPort L (args.length + 1 = 8)) args {}) := fun h =>
    map_ne_undef.trans (decodeCommandParameter_defined_iff listDefined_port h trivial)
  have hmac : ∀ {args : List CStr}, args.length ≤ 4 →
      (decodeCommandParameterClsTable L s args ≠ .error .undef ↔
        TokensFit (parameterListMac L s) (lengthsMac L s) args {} ∧
          TokensFit (parameterListMac L s) (interfacesMac L) args {}) := fun h =>
    map_ne_undef.trans (decodeCommandParameter_defined_iff listDefined_mac h macShort_default)
  have hvlan : ∀ {args : List CStr}, args.length ≤ 5 →
      (decodeCommandParameterClsTableVlan L s args ≠ .error .undef ↔
        TokensFit (parameterListVlan L s) (lengthsVlan L s) args {} ∧
          TokensFit (parameterListVlan L s) (interfacesVlan L) args {}) := fun h =>
    map_ne_undef.trans (decodeCommandParameter_defined_iff listDefined_vlan h macShort_default)
  simp only [commandList, List.forall_mem_cons, List.not_mem_nil, false_imp_iff, implies_true,
    and_true, DecodeCommandList.Takes, true_imp_iff]
  constructor
  · rintro ⟨⟨h1, h2, -, -, -, h6, h7⟩, hname⟩
    refine ⟨⟨?_, fun hc hn => ?_, fun hc hn => ?_, fun hc hlo hhi => ?_, fun hc hlo hhi => ?_⟩,
      ⟨fun hc hn => ?_, fun hc hn => ?_, fun hc hlo hhi => ?_⟩⟩
    · by_contra hlong
      have hknown : ∀ w ∈ ["classifier_table", "_get_client_id", "status", "exit", "component",
          "port"], w.toList ≠ command := by
        rintro w hw rfl
        exact hlong ((show ∀ w ∈ ["classifier_table", "_get_client_id", "status", "exit",
          "component", "port"], w.toList.length < sppCmdValueBufsz by decide) w hw)
      simp only [List.forall_mem_cons] at hknown
      exact hlong (hname ⟨hknown.1, hknown.1, hknown.2.1, hknown.2.2.1, hknown.2.2.2.1,
        hknown.2.2.2.2.1, hknown.2.2.2.2.2.1⟩)
    · exact ((hmac hn.le).mp (h1 ⟨hc.symm, by omega, by omega⟩)).1
    · exact ((hvlan hn.le).mp (h2 ⟨hc.symm, by omega, by omega⟩)).1
    · exact ((hcomponent hhi).mp (h6 ⟨hc.symm, by omega, by omega⟩)).1
    · exact ((hport hhi).mp (h7 ⟨hc.symm, by omega, by omega⟩)).1
    · exact ((hmac hn.le).mp (h1 ⟨hc.symm, by omega, by omega⟩)).2
    · exact ((hvlan hn.le).mp (h2 ⟨hc.symm, by omega, by omega⟩)).2
    · exact ((hport hhi).mp (h7 ⟨hc.symm, by omega, by omega⟩)).2
  · rintro ⟨hfits, hin⟩
    refine ⟨⟨fun h => ?_, fun h => ?_, by simp, by simp, by simp, fun h => ?_, fun h => ?_⟩,
      fun _ => hfits.name⟩
    · obtain ⟨hc, hlo, hhi⟩ := h
      exact (hmac (by omega)).mpr ⟨hfits.mac hc.symm (by omega), hin.mac hc.symm (by omega)⟩
    · obtain ⟨hc, hlo, hhi⟩ := h
      exact (hvlan (by omega)).mpr ⟨hfits.vlan hc.symm (by omega), hin.vlan hc.symm (by omega)⟩
    · obtain ⟨hc, hlo, hhi⟩ := h
      refine (hcomponent (by omega)).mpr ⟨hfits.component hc.symm (by omega) (by omega), ?_⟩
      apply tokensFit_of_forall
      simp [interfacesComponent, noInterface]
    · obtain ⟨hc, hlo, hhi⟩ := h
      exact (hport (by omega)).mpr ⟨hfits.port hc.symm (by omega) (by omega),
        hin.port hc.symm (by omega) (by omega)⟩

/-- Decoding is defined on a request iff the request fits its buffers and the interface
it names is in the table. -/
theorem decodeRequest_ne_undef_iff {requestStr : CStr} :
    sppCommandDecodeRequest L M s requestStr ≠ .error .undef ↔
      RequestFits L M s requestStr ∧ InterfaceInTable L s requestStr := by
  unfold sppCommandDecodeRequest decodeCommandInList
  by_cases hlength : requestStr.length < sppCmdMaxParameters * sppCmdValueBufsz
  · rw [show strcpy _ requestStr = .ok requestStr from if_pos hlength]
    dsimp only
    cases hargv : strtok ' ' requestStr with
    | nil =>
      refine iff_of_false ?_ fun h => h.1.tokens hargv
      simp
    | cons command args =>
      rw [List.length_cons]
      by_cases hfew : args.length < sppCmdMaxParameters
      · rw [if_neg (by omega)]
        dsimp only
        rw [searchCommandList_defined_iff]
        constructor
        · rintro ⟨hfits, hin⟩
          refine ⟨⟨hlength, by simp [hargv], fun c a heq _ => ?_⟩, fun c a heq _ => ?_⟩
          · obtain ⟨rfl, rfl⟩ := List.cons.inj (hargv.symm.trans heq)
            exact hfits
          · obtain ⟨rfl, rfl⟩ := List.cons.inj (hargv.symm.trans heq)
            exact hin
        · rintro ⟨hfits, hin⟩
          exact ⟨hfits.argv command args hargv hfew, hin command args hargv hfew⟩
      · rw [if_pos (by omega)]
        refine iff_of_true (by simp) ⟨⟨hlength, by simp [hargv], fun c a heq hlt => ?_⟩,
          fun c a heq hlt => ?_⟩
        · obtain ⟨rfl, rfl⟩ := List.cons.inj (hargv.symm.trans heq)
          exact absurd hlt hfew
        · obtain ⟨rfl, rfl⟩ := List.cons.inj (hargv.symm.trans heq)
          exact absurd hlt hfew
  · rw [show strcpy _ requestStr = .error .undef from if_neg hlength]
    exact iff_of_false (by simp) fun h => hlength h.1.length

end Request

end Spp.Vf
