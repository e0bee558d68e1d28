import Spp.Vf.CommandGrammar
import Spp.Vf.PortDevice

/-!
# What the numbers of a request mean

The numeric tokens of an accepted request against the values stored for them. The
decoder converts with `strtol` and `strtoul` into variables of 32 bits before it tests
the range, and it does not test the number of an interface at all.
-/

namespace Spp.Vf

open CLib

section Statement

/-- A token is an integer literal for a value within bounds. -/
def IsNumber (token : CStr) (v lo hi : ℤ) : Prop :=
  intLiteral token = some v ∧ lo ≤ v ∧ v ≤ hi

/-- A resource UID has an integer literal for the number of an interface. -/
def IsInterface (L : Limits) (uid : CStr) (ifaceNo : ℤ) : Prop :=
  IsNumber (uidNumber uid) ifaceNo 0 (L.maxEthports - 1)

/-- Every numeric parameter is what its token denotes, and in its legal range. -/
def NumbersMean (L : Limits) (tokens : List CStr) : SppCommand → Prop
  | .component c => c.action = .start →
      ∀ core ∈ tokens[3]?, IsNumber core c.core 0 (L.maxLcore - 1 : ℕ)
  | .port c => (∀ uid ∈ tokens[2]?, IsInterface L uid c.port.ifaceNo) ∧
      (c.ability.ope = .addVlantag →
        (∀ vid ∈ tokens[6]?, IsNumber vid c.ability.vlantag.vid 0 ethVlanIdMax) ∧
          ∀ pcp ∈ tokens[7]?, IsNumber pcp c.ability.vlantag.pcp 0 sppVlanPcpMax)
  | .classifierTableMac c => ∀ uid ∈ tokens[4]?, IsInterface L uid c.port.ifaceNo
  | .classifierTableVlan c => (∀ vid ∈ tokens[3]?, IsNumber vid c.vid 0 ethVlanIdMax) ∧
      ∀ uid ∈ tokens[5]?, IsInterface L uid c.port.ifaceNo
  | _ => True

/-- The interface of a `port` request is one of the table. -/
def InterfaceExists (L : Limits) (tokens : List CStr) : Prop :=
  tokens.head? = some "port".toList → ∀ uid ∈ tokens[2]?, ∀ z,
    intLiteral (uidNumber uid) = some z → 0 ≤ z ∧ z < L.maxEthports

/-- The VLAN ID of an entry of type `mac`, if it is given, is the one of no VLAN, which
is stored for such an entry. -/
def VidKept (tokens : List CStr) : Prop :=
  tokens.head? = some "classifier_table".toList → tokens.length = 6 →
    tokens[2]? = some "mac".toList → ∀ vid ∈ tokens[3]?, intLiteral vid = some ethVlanIdMax

/-- The numeric tokens of a request are kept as they are. -/
def NumbersKept (L : Limits) (tokens : List CStr) : Prop :=
  NumbersFit tokens ∧ InterfaceExists L tokens ∧ VidKept tokens

end Statement

variable {L : Limits} {M : SppModule} {s : MngData}

section Values

/-- A token is the VLAN ID of no VLAN iff it denotes that. -/
theorem isNumber_ethVlanIdMax {token : CStr} :
    IsNumber token ethVlanIdMax 0 ethVlanIdMax ↔
      FitsInt token ∧ intLiteral token = some ethVlanIdMax := by
  constructor
  · rintro ⟨hliteral, -, -⟩
    refine ⟨fun z hz => ?_, hliteral⟩
    obtain rfl := Option.some.inj (hliteral.symm.trans hz)
    decide
  · rintro ⟨-, hliteral⟩
    exact ⟨hliteral, by decide, le_refl _⟩

/-- A number that `get_uint_value` accepts is in its bounds and the denoted one iff that
fits. -/
theorem getUintValue_isNumber {token : CStr} {hi v : ℕ} (h : getUintValue token 0 hi = .ok v) :
    IsNumber token v 0 hi ↔ FitsUInt token := by
  have hbounds := getUintValue_eq_ok h
  rw [← getUintValue_literal h]
  exact ⟨fun hnumber => hnumber.1, fun hliteral => ⟨hliteral, by omega, by omega⟩⟩

/-- A number that `get_int_value` accepts is in its bounds. -/
theorem getIntValue_bounds {token : CStr} {lo hi v : ℤ} (h : getIntValue token lo hi = .ok v) :
    lo ≤ v ∧ v ≤ hi := by
  unfold getIntValue at h
  split at h
  · dsimp only at h
    split at h
    · cases h
    · cases h
      omega
  · cases h

/-- A number that `get_int_value` accepts is in its bounds and the denoted one iff that
fits. -/
theorem getIntValue_isNumber {token : CStr} {lo hi v : ℤ} (h : getIntValue token lo hi = .ok v) :
    IsNumber token v lo hi ↔ FitsInt token := by
  rw [← getIntValue_literal h]
  exact ⟨fun hnumber => hnumber.1, fun hliteral => ⟨hliteral, getIntValue_bounds h⟩⟩

/-- The number that is stored for a resource UID is an `int`. -/
theorem sppConvertPortToIface_range {uid : CStr} {port : PortIndex}
    (h : sppConvertPortToIface uid = .ok port) :
    -2 ^ 31 ≤ port.ifaceNo ∧ port.ifaceNo < 2 ^ 31 := by
  obtain ⟨word, number, v, -, -, -, hv⟩ := sppConvertPortToIface_eq_ok h
  have hle := Int.le_bmod (x := v) (m := 2 ^ 32) (by decide)
  have hlt := Int.bmod_lt (x := v) (m := 2 ^ 32) (by decide)
  rw [hv, toInt]
  omega

/-- The number that is stored for a resource UID is the denoted one iff that is an `int`. -/
theorem sppConvertPortToIface_number {uid : CStr} {port : PortIndex}
    (h : sppConvertPortToIface uid = .ok port) :
    intLiteral (uidNumber uid) = some port.ifaceNo ↔ FitsInt (uidNumber uid) := by
  constructor
  · intro hliteral z hz
    rw [hliteral] at hz
    rw [← Option.some.inj hz]
    exact sppConvertPortToIface_range h
  · intro hfits
    obtain ⟨word, -, -, hliteral⟩ := (sppConvertPortToIface_literal h).mpr hfits
    exact hliteral

/-- The interface of a resource UID is the denoted one and in the table iff its number
fits and denotes an interface of the table. -/
theorem sppConvertPortToIface_isInterface {uid : CStr} {port : PortIndex}
    (h : sppConvertPortToIface uid = .ok port) :
    IsInterface L uid port.ifaceNo ↔ FitsInt (uidNumber uid) ∧
      ∀ z, intLiteral (uidNumber uid) = some z → 0 ≤ z ∧ z < L.maxEthports := by
  rw [← sppConvertPortToIface_number h]
  constructor
  · rintro ⟨hliteral, hlo, hhi⟩
    refine ⟨hliteral, fun z hz => ?_⟩
    rw [hliteral] at hz
    obtain rfl := Option.some.inj hz
    omega
  · rintro ⟨hliteral, hrange⟩
    have hbounds := hrange _ hliteral
    exact ⟨hliteral, by omega, by omega⟩

/-- The core of a start is in its bounds and the number that its token denotes iff that
fits. -/
theorem decodeComponentCoreValue_isNumber {c c' : CommandComponent} {token : CStr}
    (hstart : c.action = .start) (h : decodeComponentCoreValue L c token = .ok c') :
    ∃ core, c' = { c with core := core } ∧
      (IsNumber token core 0 (L.maxLcore - 1 : ℕ) ↔ FitsUInt token) := by
  unfold decodeComponentCoreValue at h
  rw [if_neg (not_not.mpr hstart)] at h
  obtain ⟨core, hcore, h⟩ := bind_eq_ok.mp h
  exact ⟨core, (Except.ok.inj h).symm, getUintValue_isNumber hcore⟩

end Values

section Requests

/-- The conditions on the numbers of a `component` request. -/
theorem numbersKept_component {args : List CStr} :
    NumbersKept L ("component".toList :: args) ↔
      (args.head? = some "start".toList → ∀ core ∈ args[2]?, FitsUInt core) := by
  constructor
  · rintro ⟨hfit, -, -⟩ hstart
    refine hfit.core ?_
    cases args with
    | nil => cases hstart
    | cons a args => simp [Option.some.inj hstart]
  · intro h
    refine ⟨⟨fun hwords => h ?_, ?_, ?_, ?_, ?_⟩, ?_, ?_⟩
    · cases args with
      | nil => simp at hwords
      | cons a args => simp_all
    all_goals
      intro hhead
      simp at hhead

/-- The conditions on the numbers of a `port` request. -/
theorem numbersKept_port {args : List CStr} :
    NumbersKept L ("port".toList :: args) ↔
      (∀ uid ∈ args[1]?, FitsInt (uidNumber uid) ∧
          ∀ z, intLiteral (uidNumber uid) = some z → 0 ≤ z ∧ z < L.maxEthports) ∧
        (args[4]? = some "add_vlantag".toList → ∀ k ∈ args.drop 5, FitsInt k) := by
  constructor
  · rintro ⟨hfit, hexists, -⟩
    exact ⟨fun uid huid => ⟨hfit.port rfl uid huid, hexists rfl uid huid⟩, hfit.tag rfl⟩
  · rintro ⟨hport, htag⟩
    refine ⟨⟨?_, fun _ uid huid => (hport uid huid).1, fun _ => htag, ?_, ?_⟩,
      fun _ uid huid => (hport uid huid).2, ?_⟩
    all_goals
      intro hhead
      simp at hhead

/-- The conditions on the numbers of a `classifier_table` request. -/
theorem numbersKept_classifier {args : List CStr} :
    NumbersKept L ("classifier_table".toList :: args) ↔
      (args.length = 5 → ∀ vid ∈ args[2]?, FitsInt vid ∧
          (args[1]? = some "mac".toList → intLiteral vid = some ethVlanIdMax)) ∧
        ∀ uid ∈ ("classifier_table".toList :: args).getLast?, FitsInt (uidNumber uid) := by
  constructor
  · rintro ⟨hfit, -, hkept⟩
    refine ⟨fun hlength vid hvid => ⟨hfit.vid rfl ?_ vid hvid, fun hmac => ?_⟩, hfit.classifier rfl⟩
    · simp [hlength]
    · exact hkept rfl (by simp [hlength]) hmac vid hvid
  · rintro ⟨hvid, hport⟩
    refine ⟨⟨?_, ?_, ?_, fun _ hlength vid hv => (hvid ?_ vid hv).1, fun _ => hport⟩, ?_,
      fun _ hlength hmac vid hv => (hvid ?_ vid hv).2 hmac⟩
    · intro hhead
      simp at hhead
    · intro hhead
      simp at hhead
    · intro hhead
      simp at hhead
    · simpa using hlength
    · intro hhead
      simp at hhead
    · simpa using hlength

/-- The numbers of an accepted `component` request. -/
theorem numbersMean_component {args : List CStr} {c : CommandComponent}
    (hmin : 2 ≤ args.length) (hmax : args.length ≤ 4)
    (h : decodeCommandParameter (parameterListComponent L M s) args {} = .ok c) :
    NumbersMean L ("component".toList :: args) (.component c) ↔
      NumbersKept L ("component".toList :: args) := by
  rw [numbersKept_component]
  obtain ⟨a, n, rest, rfl⟩ : ∃ a n rest, args = a :: n :: rest := by
    match args, hmin with
    | a :: n :: rest, _ => exact ⟨a, n, rest, rfl⟩
  obtain ⟨c₁, haction, h⟩ := decodeCommandParameter_cons_eq_ok.mp h
  obtain ⟨c₂, hname, h⟩ := decodeCommandParameter_cons_eq_ok.mp h
  obtain ⟨-, rfl, -⟩ := decodeComponentNameValue_eq_ok hname
  -- The core and the type leave the action as it is.
  have hkeeps : c.action = c₁.action := by
    refine decodeCommandParameter_keeps (P := fun c => c.action = c₁.action) ?_ h rfl
    rintro p hp b token b' hfunc haction
    simp only [List.mem_cons, List.not_mem_nil, or_false] at hp
    rcases hp with rfl | rfl
    · obtain ⟨core, rfl, -⟩ := decodeComponentCoreValue_eq_ok hfunc
      exact haction
    · obtain ⟨type, rfl, -⟩ := decodeComponentTypeValue_eq_ok hfunc
      exact haction
  rcases decodeComponentActionValue_eq_ok haction with ⟨rfl, rfl⟩ | ⟨rfl, rfl⟩
  · match rest, hmax with
    | [], _ => simp [NumbersMean]
    | [k], _ =>
      obtain ⟨c₃, hcore, h⟩ := decodeCommandParameter_cons_eq_ok.mp h
      obtain rfl := decodeCommandParameter_nil_eq_ok.mp h
      obtain ⟨core, rfl, hnumber⟩ := decodeComponentCoreValue_isNumber rfl hcore
      simpa [NumbersMean] using hnumber
    | [k, t], _ =>
      obtain ⟨c₃, hcore, h⟩ := decodeCommandParameter_cons_eq_ok.mp h
      obtain ⟨c₄, htype, h⟩ := decodeCommandParameter_cons_eq_ok.mp h
      obtain rfl := decodeCommandParameter_nil_eq_ok.mp h
      obtain ⟨core, rfl, hnumber⟩ := decodeComponentCoreValue_isNumber rfl hcore
      obtain ⟨type, rfl, -⟩ := decodeComponentTypeValue_eq_ok htype
      simpa [NumbersMean] using hnumber
  · have hstop : c.action = .stop := hkeeps
    simp [NumbersMean, hstop]

/-- The VLAN ID of a tag is in its bounds and the number that its token denotes iff that
fits. -/
theorem decodePortVid_isNumber {c c' : CommandPort} {token : CStr}
    (hope : c.ability.ope = .addVlantag) (h : decodePortVid c token = .ok c') :
    c'.ability.ope = .addVlantag ∧
      (IsNumber token c'.ability.vlantag.vid 0 ethVlanIdMax ↔ FitsInt token) := by
  unfold decodePortVid at h
  rw [if_pos hope] at h
  obtain ⟨vid, hvid, h⟩ := bind_eq_ok.mp h
  obtain rfl := Except.ok.inj h
  exact ⟨hope, getIntValue_isNumber hvid⟩

/-- The priority of a tag is in its bounds and the number that its token denotes iff that
fits. -/
theorem decodePortPcp_isNumber {c c' : CommandPort} {token : CStr}
    (hope : c.ability.ope = .addVlantag) (h : decodePortPcp c token = .ok c') :
    c'.ability.ope = .addVlantag ∧ c'.ability.vlantag.vid = c.ability.vlantag.vid ∧
      (IsNumber token c'.ability.vlantag.pcp 0 sppVlanPcpMax ↔ FitsInt token) := by
  unfold decodePortPcp at h
  rw [if_pos hope] at h
  obtain ⟨pcp, hpcp, h⟩ := bind_eq_ok.mp h
  obtain rfl := Except.ok.inj h
  exact ⟨hope, rfl, getIntValue_isNumber hpcp⟩

/-- The numbers of what follows the name of an accepted `port` request. -/
theorem vlanNumbers_iff {rest : List CStr} {b c : CommandPort} (hability : b.ability = {})
    (h : decodeCommandParameter [("port vlan operation", decodePortVlanOperation),
      ("port vid", decodePortVid), ("port pcp", decodePortPcp)] rest b = .ok c) :
    (c.ability.ope = .addVlantag →
        (∀ vid ∈ rest[1]?, IsNumber vid c.ability.vlantag.vid 0 ethVlanIdMax) ∧
          ∀ pcp ∈ rest[2]?, IsNumber pcp c.ability.vlantag.pcp 0 sppVlanPcpMax) ↔
      (rest[0]? = some "add_vlantag".toList → ∀ k ∈ rest.drop 1, FitsInt k) := by
  cases rest with
  | nil => simp
  | cons ope rest =>
    obtain ⟨b₁, hope, h⟩ := decodeCommandParameter_cons_eq_ok.mp h
    rcases decodePortVlanOperation_word hability hope with ⟨rfl, rfl⟩ | ⟨rfl, rfl⟩
    · match rest with
      | [] => simp
      | [vid] =>
        obtain ⟨c₁, hvid, h⟩ := decodeCommandParameter_cons_eq_ok.mp h
        obtain rfl := decodeCommandParameter_nil_eq_ok.mp h
        obtain ⟨hadd, hnumber⟩ := decodePortVid_isNumber rfl hvid
        simp [hadd, hnumber]
      | [vid, pcp] =>
        obtain ⟨c₁, hvid, h⟩ := decodeCommandParameter_cons_eq_ok.mp h
        obtain ⟨c₂, hpcp, h⟩ := decodeCommandParameter_cons_eq_ok.mp h
        obtain rfl := decodeCommandParameter_nil_eq_ok.mp h
        obtain ⟨hadd, hvidNumber⟩ := decodePortVid_isNumber rfl hvid
        obtain ⟨hadd', hsame, hpcpNumber⟩ := decodePortPcp_isNumber hadd hpcp
        simp [hadd', hsame, hvidNumber, hpcpNumber]
      | vid :: pcp :: token :: rest =>
        obtain ⟨b₂, -, h⟩ := decodeCommandParameter_cons_eq_ok.mp h
        obtain ⟨b₃, -, h⟩ := decodeCommandParameter_cons_eq_ok.mp h
        simp [decodeCommandParameter] at h
    · obtain rfl := decodeOperands_delVlantag rfl h
      simp

/-- The numbers of an accepted `port` request. -/
theorem numbersMean_port {args : List CStr} {flag : Bool} {c : CommandPort}
    (hmin : 4 ≤ args.length)
    (h : decodeCommandParameter (parameterListPort L s flag) args {} = .ok c) :
    NumbersMean L ("port".toList :: args) (.port c) ↔ NumbersKept L ("port".toList :: args) := by
  rw [numbersKept_port]
  obtain ⟨a, uid, d, n, rest, rfl⟩ : ∃ a uid d n rest, args = a :: uid :: d :: n :: rest := by
    match args, hmin with
    | a :: uid :: d :: n :: rest, _ => exact ⟨a, uid, d, n, rest, rfl⟩
  obtain ⟨c₁, haction, h⟩ := decodeCommandParameter_cons_eq_ok.mp h
  obtain ⟨c₂, hport, h⟩ := decodeCommandParameter_cons_eq_ok.mp h
  obtain ⟨c₃, hrxtx, h⟩ := decodeCommandParameter_cons_eq_ok.mp h
  obtain ⟨c₄, hname, h⟩ := decodeCommandParameter_cons_eq_ok.mp h
  obtain ⟨action, rfl, -⟩ := decodePortActionValue_word haction
  obtain ⟨port, rfl, hconverts⟩ := decodePortPortValue_converts hport
  obtain ⟨rxtx, rfl, -⟩ := decodePortRxtxValue_word hrxtx
  obtain rfl := decodePortNameValue_eq_ok hname
  have hvlan := vlanNumbers_iff rfl h
  -- The tokens after the name touch the ability only.
  have hkeeps : c.port = port := by
    refine decodeCommandParameter_keeps (P := fun c => c.port = port) ?_ h rfl
    rintro q hq b token c' hfunc hb
    obtain ⟨ability, rfl⟩ := parameterListPort_ability
      (show q ∈ (parameterListPort L s flag).drop 4 from hq) hfunc
    exact hb
  have hinterface := sppConvertPortToIface_isInterface (L := L) hconverts
  rw [← hkeeps] at hinterface
  simpa [NumbersMean, hinterface] using fun _ _ => hvlan

/-- The interface of a table entry that the decoder accepts is in the table, and the
number that its token denotes iff that fits. -/
theorem decodeClassifierPortValue_isInterface {c c' : CommandClassifierTable} {token : CStr}
    (h : decodeClassifierPortValue L s c token = .ok c') :
    c'.vid = (if c.type = .mac then (ethVlanIdMax : ℤ) else c.vid) ∧
      (IsInterface L token c'.port.ifaceNo ↔ FitsInt (uidNumber token)) := by
  obtain ⟨port, hconverts, rfl⟩ := decodeClassifierPortValue_converts h
  have hrange : 0 ≤ port.ifaceNo ∧ port.ifaceNo < L.maxEthports := by
    unfold decodeClassifierPortValue at h
    obtain ⟨port', hport', h⟩ := bind_eq_ok.mp h
    obtain rfl := Except.ok.inj (hport'.symm.trans hconverts)
    obtain ⟨entry, hentry, -⟩ := bind_eq_ok.mp h
    obtain ⟨hlt, -, hno, -⟩ := ifaceEntry_eq_ok hentry
    omega
  have hbounds : 0 ≤ port.ifaceNo ∧ port.ifaceNo ≤ L.maxEthports - 1 := by omega
  refine ⟨rfl, ?_⟩
  rw [← sppConvertPortToIface_number hconverts]
  exact ⟨fun hinterface => hinterface.1, fun hliteral => ⟨hliteral, hbounds⟩⟩

/-- The numbers of an accepted `classifier_table` request without a VLAN ID. -/
theorem numbersMean_mac {args : List CStr} {c : CommandClassifierTable}
    (hlength : args.length = 4)
    (h : decodeCommandParameter (parameterListMac L s) args {} = .ok c) :
    NumbersMean L ("classifier_table".toList :: args) (.classifierTableMac c) ↔
      NumbersKept L ("classifier_table".toList :: args) := by
  rw [numbersKept_classifier]
  obtain ⟨a, t, m, uid, rfl⟩ : ∃ a t m uid, args = [a, t, m, uid] := by
    match args, hlength with
    | [a, t, m, uid], _ => exact ⟨a, t, m, uid, rfl⟩
  obtain ⟨c₁, -, h⟩ := decodeCommandParameter_cons_eq_ok.mp h
  obtain ⟨c₂, -, h⟩ := decodeCommandParameter_cons_eq_ok.mp h
  obtain ⟨c₃, -, h⟩ := decodeCommandParameter_cons_eq_ok.mp h
  obtain ⟨c₄, hport, h⟩ := decodeCommandParameter_cons_eq_ok.mp h
  obtain rfl := decodeCommandParameter_nil_eq_ok.mp h
  simp [NumbersMean, (decodeClassifierPortValue_isInterface hport).2]

/-- The numbers of an accepted `classifier_table` request with a VLAN ID. -/
theorem numbersMean_vlan {args : List CStr} {c : CommandClassifierTable}
    (hlength : args.length = 5)
    (h : decodeCommandParameter (parameterListVlan L s) args {} = .ok c) :
    NumbersMean L ("classifier_table".toList :: args) (.classifierTableVlan c) ↔
      NumbersKept L ("classifier_table".toList :: args) := by
  rw [numbersKept_classifier]
  obtain ⟨a, t, v, m, uid, rfl⟩ : ∃ a t v m uid, args = [a, t, v, m, uid] := by
    match args, hlength with
    | [a, t, v, m, uid], _ => exact ⟨a, t, v, m, uid, rfl⟩
  obtain ⟨c₁, haction, h⟩ := decodeCommandParameter_cons_eq_ok.mp h
  obtain ⟨c₂, htype, h⟩ := decodeCommandParameter_cons_eq_ok.mp h
  obtain ⟨c₃, hvid, h⟩ := decodeCommandParameter_cons_eq_ok.mp h
  obtain ⟨c₄, hmac, h⟩ := decodeCommandParameter_cons_eq_ok.mp h
  obtain ⟨c₅, hport, h⟩ := decodeCommandParameter_cons_eq_ok.mp h
  obtain rfl := decodeCommandParameter_nil_eq_ok.mp h
  obtain ⟨vid, hvalue, hvid⟩ := bind_eq_ok.mp hvid
  obtain rfl := Except.ok.inj hvid
  obtain rfl := decodeMacAddrStrValue_text hmac
  obtain ⟨hstored, hinterface⟩ := decodeClassifierPortValue_isInterface hport
  have hnumber := getIntValue_isNumber hvalue
  rcases decodeClassifierTypeValue_word htype with ⟨rfl, rfl⟩ | ⟨rfl, rfl⟩
  · -- The VLAN ID of such an entry is overwritten.
    simp [NumbersMean, hinterface, hstored, isNumber_ethVlanIdMax]
  · simp [NumbersMean, hinterface, hstored, hnumber]

end Requests

end Spp.Vf
