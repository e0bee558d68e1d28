import Spp.Ctl.MacNotations

/-!
# What the decoder makes of the commands of spp-ctl

A command that `V1VFHandler` sends and that `spp_vf` decodes says what the body says
exactly if the names, numbers and addresses in the body are written in the notation that
the two sides share.
-/

namespace Spp.Ctl.Agreement

open Python
open CLib (CStr strtok)
open Vf (SppCommand PortIndex PortAbility Limits MngData)

section Rows

variable {L : Limits} {s : MngData} {text : CStr} {args : List CStr} {command : SppCommand}

/-- A decoded command comes from a row with the name of the request. -/
theorem decoded_row {name : String} (h : Vf.sppCommandDecodeRequest L .vf s text = .ok command)
    (hargv : strtok ' ' text = name.toList :: args) :
    ∃ row ∈ Vf.commandList L .vf s, row.name = name ∧ row.paramMin ≤ args.length + 1 ∧
      args.length + 1 ≤ row.paramMax ∧ row.func args = .ok command := by
  obtain ⟨_, _, hargv', row, hrow, hname, hmin, hmax, hfunc⟩ := Vf.decodeRequest_eq_ok h
  obtain ⟨rfl, rfl⟩ := List.cons.inj (hargv'.symm.trans hargv)
  exact ⟨row, hrow, String.toList_inj.mp hname, hmin, hmax, hfunc⟩

/-- A decoded `component` request. -/
theorem decoded_component (h : Vf.sppCommandDecodeRequest L .vf s text = .ok command)
    (hargv : strtok ' ' text = "component".toList :: args) :
    ∃ c, command = .component c ∧ 2 ≤ args.length ∧ args.length ≤ 4 ∧
      Vf.decodeCommandParameter (Vf.parameterListComponent L .vf s) args {} = .ok c := by
  obtain ⟨row, hrow, hname, hmin, hmax, hfunc⟩ := decoded_row h hargv
  simp only [Vf.commandList, List.mem_cons, List.not_mem_nil, or_false] at hrow
  rcases hrow with rfl | rfl | rfl | rfl | rfl | rfl | rfl
  · simp at hname
  · simp at hname
  · simp at hname
  · simp at hname
  · simp at hname
  · obtain ⟨c, hc, rfl⟩ := Vf.map_eq_ok.mp hfunc
    exact ⟨c, rfl, Nat.le_of_succ_le_succ hmin, Nat.le_of_succ_le_succ hmax, hc⟩
  · simp at hname

/-- A decoded `port` request. -/
theorem decoded_port (h : Vf.sppCommandDecodeRequest L .vf s text = .ok command)
    (hargv : strtok ' ' text = "port".toList :: args) :
    ∃ c flag, command = .port c ∧ 4 ≤ args.length ∧ args.length ≤ 7 ∧
      Vf.decodeCommandParameter (Vf.parameterListPort L s flag) args {} = .ok c := by
  obtain ⟨row, hrow, hname, hmin, hmax, hfunc⟩ := decoded_row h hargv
  simp only [Vf.commandList, List.mem_cons, List.not_mem_nil, or_false] at hrow
  rcases hrow with rfl | rfl | rfl | rfl | rfl | rfl | rfl
  · simp at hname
  · simp at hname
  · simp at hname
  · simp at hname
  · simp at hname
  · simp at hname
  · obtain ⟨c, hc, rfl⟩ := Vf.map_eq_ok.mp hfunc
    exact ⟨c, _, rfl, Nat.le_of_succ_le_succ hmin, Nat.le_of_succ_le_succ hmax, hc⟩

/-- A decoded `classifier_table` request. -/
theorem decoded_classifier (h : Vf.sppCommandDecodeRequest L .vf s text = .ok command)
    (hargv : strtok ' ' text = "classifier_table".toList :: args) :
    (∃ c, command = .classifierTableMac c ∧ args.length = 4 ∧
        Vf.decodeCommandParameter (Vf.parameterListMac L s) args {} = .ok c) ∨
      ∃ c, command = .classifierTableVlan c ∧ args.length = 5 ∧
        Vf.decodeCommandParameter (Vf.parameterListVlan L s) args {} = .ok c := by
  obtain ⟨row, hrow, hname, hmin, hmax, hfunc⟩ := decoded_row h hargv
  simp only [Vf.commandList, List.mem_cons, List.not_mem_nil, or_false] at hrow
  rcases hrow with rfl | rfl | rfl | rfl | rfl | rfl | rfl
  · obtain ⟨c, hc, rfl⟩ := Vf.map_eq_ok.mp hfunc
    exact .inl ⟨c, rfl, le_antisymm (Nat.le_of_succ_le_succ hmax) (Nat.le_of_succ_le_succ hmin), hc⟩
  · obtain ⟨c, hc, rfl⟩ := Vf.map_eq_ok.mp hfunc
    exact .inr ⟨c, rfl, le_antisymm (Nat.le_of_succ_le_succ hmax) (Nat.le_of_succ_le_succ hmin), hc⟩
  · simp at hname
  · simp at hname
  · simp at hname
  · simp at hname
  · simp at hname

end Rows

section Component

variable {I : Interpreter} {L : Limits} {s : MngData} {command : SppCommand} {data : List UInt8}

/-- What is received for a command. -/
theorem received_eq {words : List Str} (h : encode (joinBlank words) = some data) :
    received data = CLib.stringAt (cText (joinBlank words)) := by
  obtain ⟨-, rfl⟩ := encode_eq_some.mp h
  rfl

/-- The words of a command that is sent are text. -/
theorem isText_of_encode {words : List Str} (h : encode (joinBlank words) = some data) :
    ∀ w ∈ words, IsText w :=
  isText_intercalate.mp (encode_eq_some.mp h).1

/-- A text that is received has no terminator in it. -/
theorem nul_notMem_stringAt (mem : List Char) : CLib.nul ∉ CLib.stringAt mem := by
  intro h
  have := List.mem_takeWhile_imp h
  simp at this

/-- The tokens of a command that begins with two fixed words. -/
theorem strtok_two {v w : String} (words : List Str) (hwords : words ≠ [])
    (hv : v ∈ ["component", "port"]) (hw : w ∈ ["start", "stop", "add", "del"]) :
    strtok ' ' (CLib.stringAt (cText (joinBlank (lit v :: lit w :: words)))) =
      v.toList :: w.toList :: strtok ' ' (CLib.stringAt (cText (joinBlank words))) := by
  have hv' := isOneToken_lit v (by simp at hv; rcases hv with rfl | rfl <;> simp)
  have hw' := isOneToken_lit w (by simp at hw; rcases hw with rfl | rfl | rfl | rfl <;> simp)
  rw [strtok_stringAt_cons (List.cons_ne_nil _ _) (isText_lit v) hv'.1.2.2, strtok_lit hv',
    strtok_stringAt_cons hwords (isText_lit w) hw'.1.2.2, strtok_lit hw']
  rfl

/-- A stop that is decoded says what the request says if the name is one token. -/
theorem compStop_iff {name : Str}
    (hsend : encode (joinBlank (commandWords I (.compStop name))) = some data)
    (h : Vf.sppCommandDecodeRequest L .vf s (received data) = .ok command) :
    Denotes I (.compStop name) command ↔ MeaningKept I (.compStop name) := by
  have htext := isText_of_encode hsend name (by simp [commandWords])
  rw [received_eq hsend] at h
  have hargv : strtok ' ' (CLib.stringAt (cText (joinBlank (commandWords I (.compStop name))))) =
      "component".toList :: "stop".toList ::
        strtok ' ' (CLib.stringAt (cText (joinBlank [name]))) :=
    strtok_two [name] (List.cons_ne_nil _ _) (by simp) (by simp)
  obtain ⟨c, rfl, hmin, hmax, hparams⟩ := decoded_component h hargv
  have hrequest := Vf.componentRequest_of_decode hmin hmax hparams
  have hstop : c.action = .stop := by
    obtain ⟨hstart, -⟩ | ⟨-, hstop⟩ := hrequest.action
    · simp at hstart
    · exact hstop
  constructor
  · rintro ⟨-, hname⟩
    have hmem : c.name ∈ strtok ' ' (CLib.stringAt (cText (joinBlank
        (commandWords I (.compStop name))))) := by
      rw [hargv]
      exact List.mem_cons_of_mem _ (List.mem_of_getElem? hrequest.name)
    exact isOneToken_of_mem (nul_notMem_stringAt _) (hname ▸ hmem)
  · intro hone
    have htokens : strtok ' ' (CLib.stringAt (cText (joinBlank [name]))) = [cText name] := by
      rw [strtok_stringAt (by simp) (by simpa using ⟨htext, hone.2.2⟩)]
      simpa using hone.strtok htext
    have hname := hrequest.name
    rw [htokens] at hname
    exact ⟨hstop, (Option.some.inj hname).symm⟩

/-- The types of a component, as a request spells them and as the decoder reads them. -/
theorem names_roleWords_iff {w : String} (hw : w ∈ ["forward", "merge", "classifier_mac"])
    {type : Vf.ComponentType} :
    Names roleWords (.str (lit w)) type ↔ (cText (lit w), type) ∈ Vf.componentTypeWords := by
  have hnames : Names roleWords (.str (lit w)) type ↔ (w, type) ∈ roleWords := by
    unfold Names
    simp only [Json.str.injEq, lit_inj]
    constructor
    · rintro ⟨_, hmem, rfl⟩
      exact hmem
    · exact fun hmem => ⟨w, hmem, rfl⟩
  rw [hnames]
  simp only [List.mem_cons, List.not_mem_nil, or_false] at hw
  have htext := (isOneToken_lit w (by rcases hw with rfl | rfl | rfl <;> simp)).2
  rw [htext]
  rcases hw with rfl | rfl | rfl
  · simp [roleWords, Vf.componentTypeWords]
  · simp [roleWords, Vf.componentTypeWords]
  · simp [roleWords, Vf.componentTypeWords]

/-- The text of a core is one token. -/
theorem isOneToken_core {v : Json} (h : isInt v = true) :
    IsOneToken (str I v) ∧ IsText (str I v) := by
  cases v with
  | int n => exact ⟨isOneToken_intText n, isText_intText n⟩
  | bool b =>
    cases b
    · exact ⟨show IsOneToken (lit "False") by decide, isText_lit "False"⟩
    · exact ⟨show IsOneToken (lit "True") by decide, isText_lit "True"⟩
  | _ => cases h

/-- A `bool` is no number of base zero. -/
theorem scanNumber_bool (b : Bool) : CLib.scanNumber 0 (cText (str I (.bool b))) = none := by
  cases b
  · show CLib.scanNumber 0 (cText (lit "False")) = none
    decide
  · show CLib.scanNumber 0 (cText (lit "True")) = none
    decide

/-- A start that is decoded says what the request says if the name is one token and the
core is an `unsigned int`. -/
theorem compStart_iff {body : Body} (hpass : Passes I (.compStart body))
    (hsend : encode (joinBlank (commandWords I (.compStart body))) = some data)
    (h : Vf.sppCommandDecodeRequest L .vf s (received data) = .ok command) :
    Denotes I (.compStart body) command ↔ MeaningKept I (.compStart body) := by
  obtain ⟨name, core, hname, hcore, hint, _, htype, w, hw, rfl⟩ := validateCompStart_ok hpass
  have hwords := commandWords_compStart (I := I) hname hcore htype
  have htexts := isText_of_encode hsend
  rw [received_eq hsend, hwords] at h
  rw [hwords] at htexts
  have hargv : strtok ' ' (CLib.stringAt (cText (joinBlank [lit "component", lit "start", name,
      str I core, str I (.str (lit w))]))) = "component".toList :: "start".toList ::
        strtok ' ' (CLib.stringAt (cText (joinBlank [name, str I core, str I (.str (lit w))]))) :=
    strtok_two _ (List.cons_ne_nil _ _) (by simp) (by simp)
  obtain ⟨c, rfl, hmin, hmax, hparams⟩ := decoded_component h hargv
  have hrequest := Vf.componentRequest_of_decode hmin hmax hparams
  have hstart : c.action = .start := by
    obtain ⟨-, hstart⟩ | ⟨hstop, -⟩ := hrequest.action
    · exact hstart
    · simp at hstop
  have hkept : MeaningKept I (.compStart body) ↔
      IsOneToken name ∧ ∀ n, core = .int n → 0 ≤ n ∧ n < 2 ^ 32 := by
    simp [MeaningKept, Has, hname, hcore]
  have hdenotes : Denotes I (.compStart body) (.component c) ↔ c.name = cText name ∧
      Python.int I core = some (c.core : ℤ) ∧ Names roleWords (.str (lit w)) c.type := by
    simp [Denotes, Has, hname, hcore, htype, hstart]
  rw [hkept, hdenotes]
  -- A name that comes back is one token, and with such a name the tokens are known.
  have hmem : c.name = cText name → IsOneToken name := fun heq => by
    have hmem : c.name ∈ strtok ' ' (CLib.stringAt (cText (joinBlank [lit "component", lit "start",
        name, str I core, str I (.str (lit w))]))) := by
      rw [hargv]
      exact List.mem_cons_of_mem _ (List.mem_of_getElem? hrequest.name)
    exact isOneToken_of_mem (nul_notMem_stringAt _) (heq ▸ hmem)
  by_cases hone : IsOneToken name
  · have hcoreToken := isOneToken_core (I := I) hint
    have htypeToken : IsOneToken (lit w) := (isOneToken_lit w (by
      simp at hw; rcases hw with rfl | rfl | rfl <;> simp)).1
    have hnul : ∀ u ∈ [name, str I core, str I (.str (lit w))], IsText u ∧ 0 ∉ u := by
      simp only [List.forall_mem_cons, List.not_mem_nil, false_imp_iff, implies_true, and_true]
      exact ⟨⟨htexts name (by simp), hone.2.2⟩, ⟨hcoreToken.2, hcoreToken.1.2.2⟩,
        isText_lit w, htypeToken.2.2⟩
    have htokens : strtok ' ' (CLib.stringAt (cText (joinBlank [name, str I core,
        str I (.str (lit w))]))) = [cText name, cText (str I core), cText (lit w)] := by
      rw [strtok_stringAt (by simp) hnul]
      simp [hone.strtok (hnul name (by simp)).1, hcoreToken.1.strtok hcoreToken.2,
        show str I (.str (lit w)) = lit w from rfl, htypeToken.strtok (isText_lit w)]
    rw [htokens] at hparams hmin hmax hrequest
    have hnameEq : c.name = cText name := (Option.some.inj hrequest.name).symm
    have hform := Vf.componentForm_iff hmin hmax hparams
    rw [Vf.staysDocumented_start] at hform
    cases core with
    | int n =>
      have hliteral : CLib.intLiteral (cText (str I (.int n))) = some n := intLiteral_intText n
      have hfits : Vf.FitsUInt (cText (str I (.int n))) ↔ 0 ≤ n ∧ n < 2 ^ 32 := by
        simp [Vf.FitsUInt, hliteral]
      have hargs : (∀ k ∈ [cText name, cText (str I (.int n)), cText (lit w)][1]?,
          Vf.FitsUInt k) ↔ 0 ≤ n ∧ n < 2 ^ 32 := by
        simp [hfits]
      rw [and_iff_right (by simp : [cText name, cText (str I (.int n)), cText (lit w)].length = 3),
        hargs] at hform
      have hvalue : Python.int I (.int n) = some (c.core : ℤ) ↔ n = c.core := by
        simp [Python.int]
      rw [names_roleWords_iff hw, hvalue, and_iff_right hnameEq, and_iff_right hone]
      simp only [Json.int.injEq, forall_eq']
      rw [← hform]
      constructor
      · rintro ⟨rfl, htypes⟩
        exact .inl ⟨_, _, by rw [hnameEq], hstart, hliteral, htypes⟩
      · rintro (⟨_, _, heq, -, hcoreText, htypes⟩ | ⟨-, hstop⟩)
        · simp only [List.cons.injEq, and_true, true_and] at heq
          obtain ⟨-, rfl, rfl⟩ := heq
          exact ⟨Option.some.inj (hliteral.symm.trans hcoreText), htypes⟩
        · rw [hstart] at hstop
          cases hstop
    | bool b =>
      obtain ⟨c₁, haction, hrest⟩ := Vf.decodeCommandParameter_cons_eq_ok.mp hparams
      obtain ⟨c₂, hn, hrest⟩ := Vf.decodeCommandParameter_cons_eq_ok.mp hrest
      obtain ⟨c₃, hk, hrest⟩ := Vf.decodeCommandParameter_cons_eq_ok.mp hrest
      obtain ⟨-, rfl, -⟩ := Vf.decodeComponentNameValue_eq_ok hn
      obtain ⟨-, rfl⟩ | ⟨hstop, -⟩ := Vf.decodeComponentActionValue_eq_ok haction
      · unfold Vf.decodeComponentCoreValue at hk
        rw [if_neg (by simp)] at hk
        obtain ⟨v, hv, -⟩ := CLib.bind_eq_ok.mp hk
        simp only [Vf.decodeCoreValue, Vf.getUintValue, CLib.strtoul, scanNumber_bool,
          Option.map_none] at hv
        cases hv
      · simp at hstop
    | _ => cases hint
  · exact iff_of_false (fun hd => hone (hmem hd.1)) fun hk => hone hk.1

end Component

section Port

variable {I : Interpreter} {L : Limits} {s : MngData} {command : SppCommand} {data : List UInt8}

/-- The number that a value of a body is printed as. -/
theorem numberText_eq {items : Body} {key : String} {v : Json} {n : ℤ}
    (h : items.lookup (lit key) = some v) (hprint : ¬ IsString v) (hn : Python.int I v = some n) :
    numberText items key = intText n := by
  rw [numberText, h, Option.bind_some, percentD_eq (I := I) hprint, hn, Option.elim_some]

/-- An integer that is printed is the decoded one exactly if it is an `int`. -/
theorem fitsInt_intText {n : ℤ} : Vf.FitsInt (cText (intText n)) ↔ -2 ^ 31 ≤ n ∧ n < 2 ^ 31 := by
  simp [Vf.FitsInt, intLiteral_intText]

/-- The decoded VLAN operation is the one of the body exactly if its numbers are `int`s. -/
theorem vlanIs_iff {vlan : Option Json} {b c : Vf.CommandPort} {rest : List CStr}
    (hparse : ∀ v, vlan = some v → parseVlan I v = .ok ()) (hprint : NumbersPrintable vlan)
    (hrest : rest = (tagWords vlan).flatMap fun w => strtok ' ' (cText w))
    (hability : b.ability = {})
    (h : Vf.decodeCommandParameter [("port vlan operation", Vf.decodePortVlanOperation),
      ("port vid", Vf.decodePortVid), ("port pcp", Vf.decodePortPcp)] rest b = .ok c) :
    VlanIs I vlan c.ability ↔
      ∀ items, vlan = some (.dict items) → isField items "operation" "add" = true →
        ∀ key ∈ ["id", "pcp"], Has items key fun v =>
          ∀ n, Python.int I v = some n → -2 ^ 31 ≤ n ∧ n < 2 ^ 31 := by
  cases vlan with
  | none =>
    subst hrest
    obtain rfl := Vf.decodeCommandParameter_nil_eq_ok.mp h
    simp [VlanIs, hability]
  | some v =>
    obtain ⟨items, rfl, ⟨_, hoperation, w, hw, rfl⟩, htag⟩ := parseVlan_ok (hparse v rfl)
    have hfield : ∀ word, isField items "operation" word = true ↔ w = word := fun word => by
      rw [isField_iff, hoperation, Option.some.injEq, Json.str.injEq, lit_inj]
    have hoperations : ∀ ope, Has items "operation" (Names operationWords · ope) ↔
        (w, ope) ∈ operationWords := fun ope => by
      simp only [Has, hoperation, Option.some.injEq, exists_eq_left', Names, Json.str.injEq, lit_inj]
      constructor
      · rintro ⟨_, hmem, rfl⟩
        exact hmem
      · exact fun hmem => ⟨w, hmem, rfl⟩
    simp only [Option.some.injEq, Json.dict.injEq, forall_eq', hfield, VlanIs, hoperations]
    obtain rfl | rfl | rfl : w = "none" ∨ w = "add" ∨ w = "del" := by simpa using hw
    · have hwords : tagWords (some (.dict items)) = [] := by
        simp [tagWords, hfield]
      rw [hwords] at hrest
      subst hrest
      obtain rfl := Vf.decodeCommandParameter_nil_eq_ok.mp h
      simp [hability, operationWords]
    · obtain ⟨⟨vid, hvid, hvidInt⟩, pcp, hpcp, hpcpInt⟩ := htag ((hfield "add").mpr rfl)
      obtain ⟨n, hn⟩ := Option.isSome_iff_exists.mp hvidInt
      obtain ⟨m, hm⟩ := Option.isSome_iff_exists.mp hpcpInt
      have hprints := hprint items rfl ((hfield "add").mpr rfl)
      simp only [MayHave, hvid, hpcp, Option.some.injEq, forall_eq'] at hprints
      have hwords : tagWords (some (.dict items)) = [lit "add_vlantag", intText n, intText m] := by
        simp [tagWords, hfield, numberText_eq hvid hprints.1 hn, numberText_eq hpcp hprints.2 hm]
      have hadd := isOneToken_lit "add_vlantag" (by simp)
      rw [hwords] at hrest
      simp only [List.flatMap_cons, List.flatMap_nil, strtok_lit hadd,
        (isOneToken_intText _).strtok (isText_intText _), List.singleton_append] at hrest
      subst hrest
      obtain ⟨b₁, hope, h⟩ := Vf.decodeCommandParameter_cons_eq_ok.mp h
      obtain ⟨-, rfl⟩ | ⟨hdel, -⟩ := Vf.decodePortVlanOperation_word hability hope
      · obtain ⟨hope, -, -, hvidText, hpcpText⟩ := Vf.decodeOperands_addVlantag rfl h
        rw [intLiteral_intText, Option.some.injEq, fitsInt_intText] at hvidText hpcpText
        simp [hope, operationWords, Has, hvid, hpcp, hn, hm, hvidText, hpcpText]
      · simp at hdel
    · have hwords : tagWords (some (.dict items)) = [lit "del_vlantag"] := by
        simp [tagWords, hfield]
      rw [hwords] at hrest
      simp only [List.flatMap_cons, List.flatMap_nil,
        strtok_lit (isOneToken_lit "del_vlantag" (by simp)), List.singleton_append] at hrest
      subst hrest
      obtain ⟨b₁, hope, h⟩ := Vf.decodeCommandParameter_cons_eq_ok.mp h
      obtain rfl := Vf.decodeCommandParameter_nil_eq_ok.mp h
      obtain ⟨hadd, -⟩ | ⟨-, rfl⟩ := Vf.decodePortVlanOperation_word hability hope
      · simp at hadd
      · simp [operationWords]

/-- A direction is no part of a number. -/
theorem not_direction_of_intOfStr {num : Str} {n : ℤ} {g : CStr} {rxtx : Vf.PortRxtx}
    (htext : IsText num) (hn : intOfStr I num = some n) (hg : ∀ c ∈ g, c ∈ cText num) :
    (g, rxtx) ∉ Vf.directionWords := by
  intro hdir
  have hx : 'x' ∈ g := by
    simp only [Vf.directionWords, List.mem_cons, Prod.mk.injEq, List.not_mem_nil, or_false] at hdir
    rcases hdir with ⟨rfl, -⟩ | ⟨rfl, -⟩ <;> decide
  have hmem := mem_of_mem_cText (lt_of_isText htext) (by decide) (hg 'x' hx)
  have hother := mem_of_intOfStr hn hmem (by decide)
  revert hother
  decide

/-- The words of the VLAN operation of a body are text without terminators. -/
theorem tagWords_text {vlan : Option Json} (hparse : ∀ v, vlan = some v → parseVlan I v = .ok ())
    (hprint : NumbersPrintable vlan) : ∀ w ∈ tagWords vlan, IsText w ∧ 0 ∉ w := by
  cases vlan with
  | none => simp [tagWords]
  | some v =>
    obtain ⟨items, rfl, -, htag⟩ := parseVlan_ok (hparse v rfl)
    unfold tagWords
    dsimp only
    split_ifs with hadd hdel
    · obtain ⟨⟨vid, hvid, hvidInt⟩, pcp, hpcp, hpcpInt⟩ := htag hadd
      obtain ⟨n, hn⟩ := Option.isSome_iff_exists.mp hvidInt
      obtain ⟨m, hm⟩ := Option.isSome_iff_exists.mp hpcpInt
      obtain ⟨hvidPrint, hpcpPrint⟩ := hprint items rfl hadd
      rw [numberText_eq hvid (hvidPrint vid hvid) hn, numberText_eq hpcp (hpcpPrint pcp hpcp) hm]
      simp only [List.forall_mem_cons, List.not_mem_nil, false_imp_iff, implies_true, and_true]
      exact ⟨⟨isText_lit _, (isOneToken_lit "add_vlantag" (by simp)).1.2.2⟩,
        ⟨isText_intText n, (isOneToken_intText n).2.2⟩, isText_intText m, (isOneToken_intText m).2.2⟩
    · simpa using ⟨isText_lit "del_vlantag", (isOneToken_lit "del_vlantag" (by simp)).1.2.2⟩
    · simp

/-- The action of a `port` command, as a body spells it and as the decoder reads it. -/
theorem names_attachWords_iff {w : String} (hw : w ∈ ["attach", "detach"])
    {action : Vf.CommandAction}
    (h : ((if w = "attach" then "add" else "del").toList, action) ∈ Vf.editWords) :
    Names attachWords (.str (lit w)) action := by
  simp only [List.mem_cons, List.not_mem_nil, or_false] at hw
  rcases hw with rfl | rfl
  · obtain rfl : action = .add := by simpa [Vf.editWords] using h
    exact ⟨"attach", by simp [attachWords], rfl⟩
  · obtain rfl : action = .del := by simpa [Vf.editWords] using h
    exact ⟨"detach", by simp [attachWords], rfl⟩

/-- An attach or a detach that is decoded says what the request says if the name is one
token and the numbers are the ones that `strtol` reads. -/
theorem compPort_iff {name : Str} {body : Body} (hpass : Passes I (.compPort name body))
    (hprint : NumbersPrintable (requestedVlan body))
    (hsend : encode (joinBlank (commandWords I (.compPort name body))) = some data)
    (h : Vf.sppCommandDecodeRequest L .vf s (received data) = .ok command) :
    Denotes I (.compPort name body) command ↔ MeaningKept I (.compPort name body) := by
  obtain ⟨hcomp, hparse⟩ := validateVfCompPort_ok hpass
  obtain ⟨_, ⟨_, haction, w, hw, rfl⟩, hport, ⟨t, ht, num, rfl, -, hnum⟩, _, hdir, d, hd, rfl⟩ :=
    validateCompPort_ok hcomp
  obtain ⟨n, hn⟩ := Option.isSome_iff_exists.mp hnum
  have htexts := isText_of_encode hsend
  have hwords : commandWords I (.compPort name body) =
      lit "port" :: lit (if w = "attach" then "add" else "del") ::
        (lit t ++ 58 :: num) :: lit d :: name :: tagWords (requestedVlan body) := by
    simp only [commandWords, isField_eq haction, field_eq hport, field_eq hdir, Json.eqStr_str]
    by_cases hattach : w = "attach"
    · simp [hattach, str]
    · simp [hattach, str]
  rw [received_eq hsend, hwords] at h
  rw [hwords] at htexts
  have huid : IsText (lit t ++ 58 :: num) := htexts _ (by simp)
  have hnumText : IsText num := fun c hc => huid c (by simp [hc])
  have hname : IsText name := htexts _ (by simp)
  have hdirLit := isOneToken_lit d (by simp at hd; rcases hd with rfl | rfl <;> simp)
  have hnul : 0 ∉ lit t ++ 58 :: num := by
    simp [(cText_portType t ht).2.2.2, nul_notMem_of_intOfStr hn]
  obtain ⟨first, rest, hfirst, hparts, hone⟩ := strtok_uid ht huid hn
  generalize htail : strtok ' ' (CLib.stringAt (cText (joinBlank
    (name :: tagWords (requestedVlan body))))) = tail
  have hargv : strtok ' ' (CLib.stringAt (cText (joinBlank (lit "port" ::
      lit (if w = "attach" then "add" else "del") :: (lit t ++ 58 :: num) :: lit d :: name ::
        tagWords (requestedVlan body))))) =
      "port".toList :: (if w = "attach" then "add" else "del").toList :: first ::
        (rest ++ d.toList :: tail) := by
    rw [strtok_two _ (List.cons_ne_nil _ _) (by simp) (by split_ifs <;> simp),
      strtok_stringAt_cons (List.cons_ne_nil _ _) huid hnul, hfirst,
      strtok_stringAt_cons (List.cons_ne_nil _ _) (isText_lit d) hdirLit.1.2.2, strtok_lit hdirLit,
      htail]
    rfl
  obtain ⟨c, flag, rfl, hmin, hmax, hparams⟩ := decoded_port h hargv
  -- The token after the UID is a direction, and no part of the UID is one.
  obtain rfl : rest = [] := by
    cases rest with
    | nil => rfl
    | cons g gs =>
      obtain ⟨x, xs, hx⟩ := List.exists_cons_of_ne_nil
        (List.append_ne_nil_of_right_ne_nil gs (List.cons_ne_nil d.toList tail))
      rw [List.cons_append, hx] at hparams
      obtain ⟨-, -, hdirection, -⟩ := Vf.portFields_of_decode hparams
      exact absurd hdirection
        (not_direction_of_intOfStr hnumText hn (hparts g List.mem_cons_self))
  obtain ⟨tok, htok, rfl⟩ := hone rfl
  obtain ⟨token, rest, rfl⟩ : ∃ token rest, tail = token :: rest := by
    refine List.exists_cons_of_ne_nil ?_
    rintro rfl
    simp at hmin
  rw [List.nil_append] at hparams hargv
  obtain ⟨hedit, hconverts, hdirection, hnameEq, b, hability, hrest⟩ :=
    Vf.portFields_of_decode hparams
  have hdirs : Names dirWords (.str (lit d)) c.rxtx := by
    simp only [List.mem_cons, List.not_mem_nil, or_false] at hd
    rcases hd with rfl | rfl
    · exact ⟨"rx", by simpa [dirWords, Vf.directionWords] using hdirection, rfl⟩
    · exact ⟨"tx", by simpa [dirWords, Vf.directionWords] using hdirection, rfl⟩
  have hkept : MeaningKept I (.compPort name body) ↔ IsOneToken name ∧
      PortKept I (.str (lit t ++ 58 :: num)) ∧
      ∀ items, requestedVlan body = some (.dict items) → isField items "operation" "add" = true →
        ∀ key ∈ ["id", "pcp"], Has items key fun v =>
          ∀ n, Python.int I v = some n → -2 ^ 31 ≤ n ∧ n < 2 ^ 31 := by
    simp only [MeaningKept, Has, hport, Option.some.injEq, exists_eq_left']
  have hdenotes : Denotes I (.compPort name body) (.port c) ↔ c.name = cText name ∧
      PortIs I (.str (lit t ++ 58 :: num)) c.port ∧ VlanIs I (requestedVlan body) c.ability := by
    simp only [Denotes, Has, haction, hport, hdir, Option.some.injEq, exists_eq_left',
      names_attachWords_iff hw hedit, hdirs, true_and]
    exact and_left_comm
  rw [hkept, hdenotes, portIs_iff ht hnumText hn htok hconverts]
  by_cases hone : IsOneToken name
  · rw [strtok_stringAt (List.cons_ne_nil _ _)
      (List.forall_mem_cons.mpr ⟨⟨hname, hone.2.2⟩, tagWords_text hparse hprint⟩),
      List.flatMap_cons, hone.strtok hname, List.singleton_append, List.cons.injEq] at htail
    rw [vlanIs_iff hparse hprint htail.2.symm hability hrest, and_iff_right hone,
      and_iff_right (hnameEq.trans htail.1.symm)]
  · refine iff_of_false (fun hd => hone ?_) fun hk => hone hk.1
    have hmem : cText name ∈ strtok ' ' (CLib.stringAt (cText (joinBlank
        (name :: tagWords (requestedVlan body))))) := by
      rw [htail, ← hd.1, hnameEq]
      exact List.mem_cons_self
    exact isOneToken_of_mem (nul_notMem_stringAt _) hmem

end Port

section Classifier

variable {I : Interpreter} {L : Limits} {s : MngData} {command : SppCommand} {data : List UInt8}

/-- What the handlers of a request for a table entry without a VLAN id read of its tokens. -/
theorem macEntry_of_decode {a t m uid : CStr} {c : Vf.CommandClassifierTable}
    (h : Vf.decodeCommandParameter (Vf.parameterListMac L s) [a, t, m, uid] {} = .ok c) :
    (a, c.action) ∈ Vf.editWords ∧ (t = "mac".toList → c.type = .mac) ∧ c.mac = Vf.macText m ∧
      Vf.sppConvertPortToIface uid = .ok c.port := by
  obtain ⟨c₁, haction, h⟩ := Vf.decodeCommandParameter_cons_eq_ok.mp h
  obtain ⟨c₂, htype, h⟩ := Vf.decodeCommandParameter_cons_eq_ok.mp h
  obtain ⟨c₃, hmac, h⟩ := Vf.decodeCommandParameter_cons_eq_ok.mp h
  obtain ⟨c₄, hport, h⟩ := Vf.decodeCommandParameter_cons_eq_ok.mp h
  obtain rfl := Vf.decodeCommandParameter_nil_eq_ok.mp h
  obtain ⟨action, rfl, hedit⟩ := Vf.decodeClassifierActionValue_word haction
  obtain rfl := Vf.decodeMacAddrStrValue_text hmac
  obtain ⟨port, hconverts, rfl⟩ := Vf.decodeClassifierPortValue_converts hport
  obtain ⟨rfl, rfl⟩ | ⟨rfl, rfl⟩ := Vf.decodeClassifierTypeValue_word htype
  · exact ⟨hedit, fun _ => rfl, rfl, hconverts⟩
  · exact ⟨hedit, fun hne => by simp at hne, rfl, hconverts⟩

/-- What the handlers of a request for a table entry with a VLAN id read of its tokens. -/
theorem vlanEntry_of_decode {a t v m uid : CStr} {c : Vf.CommandClassifierTable}
    (h : Vf.decodeCommandParameter (Vf.parameterListVlan L s) [a, t, v, m, uid] {} = .ok c) :
    (a, c.action) ∈ Vf.editWords ∧
      (t = "vlan".toList → c.type = .vlan ∧ ∃ w, CLib.strtol 0 v = some (w, []) ∧
        c.vid = CLib.toInt w) ∧
      c.mac = Vf.macText m ∧ Vf.sppConvertPortToIface uid = .ok c.port := by
  obtain ⟨c₁, haction, h⟩ := Vf.decodeCommandParameter_cons_eq_ok.mp h
  obtain ⟨c₂, htype, h⟩ := Vf.decodeCommandParameter_cons_eq_ok.mp h
  obtain ⟨c₃, hvid, h⟩ := Vf.decodeCommandParameter_cons_eq_ok.mp h
  obtain ⟨c₄, hmac, h⟩ := Vf.decodeCommandParameter_cons_eq_ok.mp h
  obtain ⟨c₅, hport, h⟩ := Vf.decodeCommandParameter_cons_eq_ok.mp h
  obtain rfl := Vf.decodeCommandParameter_nil_eq_ok.mp h
  obtain ⟨action, rfl, hedit⟩ := Vf.decodeClassifierActionValue_word haction
  obtain ⟨vid, hv, hvid⟩ := CLib.bind_eq_ok.mp hvid
  obtain rfl := Except.ok.inj hvid
  obtain rfl := Vf.decodeMacAddrStrValue_text hmac
  obtain ⟨port, hconverts, rfl⟩ := Vf.decodeClassifierPortValue_converts hport
  have hscan : ∃ w, CLib.strtol 0 v = some (w, []) ∧ vid = CLib.toInt w := by
    unfold Vf.getIntValue at hv
    split at hv
    · rename_i w hscan
      dsimp only at hv
      split_ifs at hv
      exact ⟨w, hscan, (Except.ok.inj hv).symm⟩
    · cases hv
  obtain ⟨rfl, rfl⟩ | ⟨rfl, rfl⟩ := Vf.decodeClassifierTypeValue_word htype
  · exact ⟨hedit, fun hne => by simp at hne, rfl, hconverts⟩
  · exact ⟨hedit, fun _ => ⟨rfl, hscan⟩, rfl, hconverts⟩

/-- The last token of a resource UID with blanks in it is no resource UID. -/
theorem not_uid_of_intOfStr {num : Str} {n : ℤ} {g : CStr} {port : PortIndex} (htext : IsText num)
    (hn : intOfStr I num = some n) (hg : ∀ c ∈ g, c ∈ cText num) :
    Vf.sppConvertPortToIface g ≠ .ok port := by
  intro hconverts
  obtain ⟨word, number, v, -, rfl, -⟩ := Vf.sppConvertPortToIface_eq_ok hconverts
  exact colon_notMem_of_intOfStr hn (mem_of_mem_cText (lt_of_isText htext) (by decide)
    (hg ':' (by simp)))

/-- The text of a VLAN ID that `int` reads is text without a terminator, and it has a
token. -/
theorem vlanText_tokens {v : Json} {n : ℤ} (hn : Python.int I v = some n)
    (hfloat : ∀ x, v = .float x → IsFloatText x.text) (htext : IsText (str I v)) :
    0 ∉ str I v ∧ strtok ' ' (cText (str I v)) ≠ [] := by
  have hone : IsOneToken (str I v) → 0 ∉ str I v ∧ strtok ' ' (cText (str I v)) ≠ [] := fun h =>
    ⟨h.2.2, by rw [h.strtok htext]; simp⟩
  cases v with
  | int m => exact hone (isOneToken_intText m)
  | bool b => exact hone (isOneToken_core (I := I) (v := .bool b) rfl).1
  | str t => exact ⟨nul_notMem_of_intOfStr hn, strtok_ne_nil_of_intOfStr htext hn⟩
  | float x =>
    obtain ⟨hchars, c, hc, -⟩ := hfloat x rfl
    refine hone ⟨fun hnil => ?_, fun hmem => (hchars 32 hmem).2.2.1 rfl, fun hmem => (hchars 0 hmem).2.1 rfl⟩
    rw [show x.text = [] from hnil] at hc
    cases hc
  | _ => cases hn

/-- The text of a `float` is no number of base zero. -/
theorem strtol_floatText {t : Str} {w : ℤ} (h : IsFloatText t) :
    CLib.strtol 0 (cText t) ≠ some (w, []) := by
  intro hscan
  obtain ⟨hchars, c, hc, hother⟩ := h
  obtain ⟨z, hz, -⟩ := CLib.toInt_strtol_eq hscan
  have hlt : ∀ d ∈ t, d < 0x110000 := fun d hd => (hchars d hd).1.trans (by decide)
  have hnotX : 'x' ∉ cText t ∧ 'X' ∉ cText t :=
    ⟨fun hmem => (hchars _ (mem_of_mem_cText hlt (by decide) hmem)).2.2.2.1 rfl,
      fun hmem => (hchars _ (mem_of_mem_cText hlt (by decide) hmem)).2.2.2.2 rfl⟩
  obtain ⟨negative, digits, hsign, -, hdigits⟩ := intLiteral_eq_some hnotX hz
  -- The character is no blank and no sign, so it is one of the digits.
  have hmem : Char.ofNat c ∈ (cText t).dropWhile CLib.isSpace :=
    mem_dropWhile_of_mem (mem_cText (hchars c hc).1 hc) (by rcases hother with rfl | rfl | rfl <;> decide)
  have hin : Char.ofNat c ∈ digits := by
    obtain heq | heq | heq := scanSign_cases hsign
    · rwa [heq] at hmem
    · rw [heq, List.mem_cons] at hmem
      refine hmem.resolve_left ?_
      rcases hother with rfl | rfl | rfl <;> decide
    · rw [heq, List.mem_cons] at hmem
      refine hmem.resolve_left ?_
      rcases hother with rfl | rfl | rfl <;> decide
  obtain ⟨-, hall, -⟩ | ⟨-, hall, -⟩ := hdigits
  · have := hall _ hin
    rcases hother with rfl | rfl | rfl <;> revert this <;> decide
  · have := hall _ hin
    rcases hother with rfl | rfl | rfl <;> revert this <;> decide

/-- The VLAN ID that the decoder reads is the one of the body exactly if it is kept. -/
theorem vid_iff {v : Json} {n w : ℤ} {tok : CStr} (hn : Python.int I v = some n)
    (hfloat : ∀ x, v = .float x → IsFloatText x.text) (htext : IsText (str I v))
    (htok : strtok ' ' (cText (str I v)) = [tok]) (hw : CLib.strtol 0 tok = some (w, [])) :
    Python.int I v = some (CLib.toInt w) ↔ ValueKept I v := by
  have hkept : ValueKept I v ↔ NumberKept (str I v) n := by
    simp [ValueKept, hn]
  rw [hkept, hn, Option.some.injEq, eq_comm]
  cases v with
  | int m =>
    obtain rfl := Option.some.inj hn
    exact toInt_eq_iff (I := I) htok htext (intOfStr_intText m) hw
  | str t => exact toInt_eq_iff htok htext hn hw
  | bool b =>
    rw [(isOneToken_core (I := I) (v := .bool b) rfl).1.strtok htext, List.cons.injEq] at htok
    rw [← htok.1] at hw
    rw [CLib.strtol, scanNumber_bool] at hw
    cases hw
  | float x =>
    have hone : IsOneToken x.text := by
      obtain ⟨hchars, c, hc, -⟩ := hfloat x rfl
      exact ⟨List.ne_nil_of_mem hc, fun hmem => (hchars 32 hmem).2.2.1 rfl,
        fun hmem => (hchars 0 hmem).2.1 rfl⟩
    rw [show str I (.float x) = x.text from rfl, hone.strtok htext, List.cons.injEq] at htok
    rw [← htok.1] at hw
    exact absurd hw (strtol_floatText (hfloat x rfl))
  | _ => cases hn

/-- The fields that both kinds of entry have, as the decoder reads them. -/
theorem entryIs_iff {body : Body} {action type m : Str} {a t : String} {num : Str} {n : ℤ}
    {tok : CStr} {c : Vf.CommandClassifierTable}
    (hentry : HasEntry body action type m (lit t ++ 58 :: num)) (ha : action = lit a)
    (hword : a = "add" ∨ a = "del") (hmac : m = lit "default" ∨ IsEui48 m) (ht : t ∈ portTypes)
    (hnum : IsText num) (hn : intOfStr I num = some n) (htok : strtok ' ' (cText num) = [tok])
    (hedit : (a.toList, c.action) ∈ Vf.editWords) (hmacEq : c.mac = Vf.macText (cText m))
    (hconverts : Vf.sppConvertPortToIface (t.toList ++ ':' :: tok) = .ok c.port) :
    EntryIs I body c ↔ MacKept (.str m) ∧ PortKept I (.str (lit t ++ 58 :: num)) := by
  have haction : Names editWords (.str action) c.action := by
    refine ⟨a, ?_, congrArg Json.str ha⟩
    rcases hword with rfl | rfl
    · simpa [Vf.editWords, editWords] using hedit
    · simpa [Vf.editWords, editWords] using hedit
  simp only [EntryIs, Has, hentry.action, hentry.mac, hentry.port, Option.some.injEq,
    exists_eq_left', haction, true_and]
  rw [hmacEq, macIs_iff hmac, portIs_iff ht hnum hn htok hconverts]

/-- The tokens of a command for a table entry. -/
theorem strtok_classifier {a k : String} {m uid : Str} (ws : List Str) (ha : a = "add" ∨ a = "del")
    (hk : k = "mac" ∨ k = "vlan") (hws : ∀ w ∈ ws, IsText w ∧ 0 ∉ w)
    (hmac : m = lit "default" ∨ IsEui48 m) (huid : IsText uid ∧ 0 ∉ uid) :
    strtok ' ' (CLib.stringAt (cText (joinBlank (lit "classifier_table" :: lit a :: lit k ::
      (ws ++ [m, uid]))))) = "classifier_table".toList :: a.toList :: k.toList ::
        ((ws.flatMap fun w => strtok ' ' (cText w)) ++ cText m :: strtok ' ' (cText uid)) := by
  obtain ⟨hmacToken, hmacText⟩ := isOneToken_mac hmac
  have haLit := isOneToken_lit a (by rcases ha with rfl | rfl <;> simp)
  have hkLit := isOneToken_lit k (by rcases hk with rfl | rfl <;> simp)
  have htable := isOneToken_lit "classifier_table" (by simp)
  rw [strtok_stringAt_cons (List.cons_ne_nil _ _) (isText_lit _) htable.1.2.2, strtok_lit htable,
    strtok_stringAt_cons (List.cons_ne_nil _ _) (isText_lit _) haLit.1.2.2, strtok_lit haLit,
    strtok_stringAt_cons (by simp) (isText_lit _) hkLit.1.2.2, strtok_lit hkLit,
    strtok_stringAt (by simp) (List.forall_mem_append.mpr ⟨hws, by simpa using
      ⟨⟨hmacText, hmacToken.2.2⟩, huid⟩⟩),
    List.flatMap_append]
  simp [hmacToken.strtok hmacText]

/-- A table entry that is decoded says what the request says if its address is one that
the decoder keeps, and its numbers are the ones that `strtol` reads. -/
theorem classifier_iff {body : Body} (hpass : Passes I (.classifier body))
    (hfloats : FloatsPrinted (.classifier body))
    (hsend : encode (joinBlank (commandWords I (.classifier body))) = some data)
    (h : Vf.sppCommandDecodeRequest L .vf s (received data) = .ok command) :
    Denotes I (.classifier body) command ↔ MeaningKept I (.classifier body) := by
  obtain ⟨action, type, m, _, hentry, haction, ⟨t, ht, num, rfl, -, hnum⟩, hmac, htype⟩ :=
    validateVfClassifier_ok hpass
  obtain ⟨n, hn⟩ := Option.isSome_iff_exists.mp hnum
  obtain ⟨a, rfl, hword⟩ : ∃ a, action = lit a ∧ (a = "add" ∨ a = "del") := by
    obtain rfl | rfl := haction
    · exact ⟨"add", rfl, .inl rfl⟩
    · exact ⟨"del", rfl, .inr rfl⟩
  have htexts := isText_of_encode hsend
  have huid : IsText (lit t ++ 58 :: num) := by
    refine htexts _ ?_
    rw [commandWords]
    split_ifs <;> simp [field_eq hentry.port, str]
  have hnumText : IsText num := fun c hc => huid c (by simp [hc])
  have hnul : 0 ∉ lit t ++ 58 :: num := by
    simp [(cText_portType t ht).2.2.2, nul_notMem_of_intOfStr hn]
  obtain ⟨first, rest, hfirst, hparts, hone⟩ := strtok_uid ht huid hn
  have hport : Has body "port" (PortKept I) ↔ PortKept I (.str (lit t ++ 58 :: num)) := by
    simp [Has, hentry.port]
  have hmacs : Has body "mac_address" MacKept ↔ MacKept (.str m) := by
    simp [Has, hentry.mac]
  rw [received_eq hsend] at h
  obtain rfl | ⟨rfl, v, hv, hint⟩ := htype
  · have hwords : commandWords I (.classifier body) = lit "classifier_table" :: lit a ::
        lit "mac" :: ([] ++ [m, lit t ++ 58 :: num]) := by
      rw [commandWords, isField_eq hentry.type, field_eq hentry.action, field_eq hentry.mac,
        field_eq hentry.port]
      simp [str]
    rw [hwords] at h
    have hargv := strtok_classifier (m := m) [] hword (.inl rfl) (by simp) hmac ⟨huid, hnul⟩
    rw [List.flatMap_nil, List.nil_append, hfirst] at hargv
    have hkept : MeaningKept I (.classifier body) ↔ PortKept I (.str (lit t ++ 58 :: num)) ∧
        MacKept (.str m) := by
      have hvlan : isField body "type" "vlan" = false := by
        rw [isField_eq hentry.type]
        decide
      simp [MeaningKept, hport, hmacs, hvlan]
    rw [hkept]
    obtain ⟨c, rfl, hlength, hparams⟩ | ⟨c, rfl, hlength, hparams⟩ := decoded_classifier h hargv
    · obtain rfl : rest = [] := List.length_eq_zero_iff.mp (by simpa using hlength)
      obtain ⟨tok, htok, rfl⟩ := hone rfl
      obtain ⟨hedit, htype, hmacEq, hconverts⟩ := macEntry_of_decode hparams
      have hentries := entryIs_iff hentry rfl hword hmac ht hnumText hn htok hedit hmacEq hconverts
      have hmacWord : Has body "type" (IsWord ["mac"]) := ⟨_, hentry.type, "mac", by simp, rfl⟩
      simp only [Denotes, hmacWord, htype rfl, true_and, hentries]
      exact And.comm
    · -- The tokens of a UID with blanks are no address and no UID.
      obtain ⟨g, rfl⟩ : ∃ g, rest = [g] := List.length_eq_one_iff.mp (by simpa using hlength)
      obtain ⟨-, -, -, hconverts⟩ := vlanEntry_of_decode hparams
      exact absurd hconverts (not_uid_of_intOfStr hnumText hn (hparts g List.mem_cons_self))
  · have hwords : commandWords I (.classifier body) = lit "classifier_table" :: lit a ::
        lit "vlan" :: ([str I v] ++ [m, lit t ++ 58 :: num]) := by
      have hne : lit "vlan" ≠ lit "mac" := by decide
      rw [commandWords, isField_eq hentry.type, field_eq hentry.action, field_eq hentry.mac,
        field_eq hentry.port, field_eq hv]
      simp [str, hne]
    rw [hwords] at h htexts
    obtain ⟨k, hk⟩ := Option.isSome_iff_exists.mp hint
    have hfloat : ∀ x, v = .float x → IsFloatText x.text := by
      rintro x rfl
      exact hfloats x hv
    have hvText : IsText (str I v) := htexts _ (by simp)
    obtain ⟨hvNul, hvTokens⟩ := vlanText_tokens hk hfloat hvText
    have hargv := strtok_classifier (m := m) [str I v] hword (.inr rfl)
      (by simpa using ⟨hvText, hvNul⟩) hmac ⟨huid, hnul⟩
    obtain ⟨tok₁, toks, htoks⟩ := List.exists_cons_of_ne_nil hvTokens
    rw [List.flatMap_singleton, htoks, hfirst] at hargv
    have hkept : MeaningKept I (.classifier body) ↔ PortKept I (.str (lit t ++ 58 :: num)) ∧
        MacKept (.str m) ∧ ValueKept I v := by
      have hvlan : isField body "type" "vlan" = true := by
        rw [isField_eq hentry.type]
        decide
      have hvalue : Has body "vlan" (ValueKept I) ↔ ValueKept I v := by simp [Has, hv]
      simp [MeaningKept, hport, hmacs, hvlan, hvalue]
    rw [hkept]
    obtain ⟨c, rfl, hlength, hparams⟩ | ⟨c, rfl, hlength, hparams⟩ := decoded_classifier h hargv
    · simp at hlength
      omega
    · obtain ⟨rfl, rfl⟩ : toks = [] ∧ rest = [] := by
        simp only [List.length_cons, List.length_append] at hlength
        exact ⟨List.length_eq_zero_iff.mp (by omega), List.length_eq_zero_iff.mp (by omega)⟩
      obtain ⟨tok, htok, rfl⟩ := hone rfl
      obtain ⟨hedit, htype, hmacEq, hconverts⟩ := vlanEntry_of_decode hparams
      obtain ⟨htypeEq, w, hw, hvid⟩ := htype rfl
      have hentries := entryIs_iff hentry rfl hword hmac ht hnumText hn htok hedit hmacEq hconverts
      have hvlanWord : Has body "type" (IsWord ["vlan"]) := ⟨_, hentry.type, "vlan", by simp, rfl⟩
      have hvids : Has body "vlan" (fun v => Python.int I v = some c.vid) ↔ ValueKept I v := by
        rw [hvid, ← vid_iff hk hfloat hvText htoks hw]
        simp [Has, hv]
      simp only [Denotes, hvlanWord, htypeEq, true_and, hentries, hvids]
      exact and_rotate.trans and_rotate |>.trans (and_congr_right fun _ => and_comm)

end Classifier

section Agreement

variable {I : Interpreter}

/-- Whatever state `spp_vf` is in, a command of a validated request that it decodes says
what the request says exactly if the meaning of the request is kept. -/
theorem denotes_iff {r : Request} (hpass : Passes I r) (hfloats : FloatsPrinted r)
    {data : List UInt8} (hsend : sends I r = .ok data) {L : Limits} {s : MngData}
    {command : SppCommand} (h : Vf.sppCommandDecodeRequest L .vf s (received data) = .ok command) :
    Denotes I r command ↔ MeaningKept I r := by
  obtain ⟨hprint, hencode⟩ := (sends_iff hpass).mp hsend
  cases r with
  | compStart body => exact compStart_iff hpass hencode h
  | compStop name => exact compStop_iff hencode h
  | compPort name body => exact compPort_iff hpass (hprint name body rfl) hencode h
  | classifier body => exact classifier_iff hpass hfloats hencode h

/-- A body that attaches a port. -/
def attachBody : Body :=
  [(lit "action", .str (lit "attach")), (lit "port", .str (lit "phy:0")), (lit "dir", .str (lit "rx"))]

end Agreement

end Spp.Ctl.Agreement
