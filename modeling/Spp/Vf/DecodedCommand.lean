import Spp.Lib.TokenList
import Spp.Vf.CommandDec

/-!
# What an accepted request says

Inversion of the decoder. A request is accepted by one row of the command list,
and the decoded command is what the handlers of that row make of the tokens
after the name. For `component` and `port` the fields are read off token by
token.
-/

namespace Spp.Vf

open CLib

variable {L : Limits} {M : SppModule} {s : MngData}

/-- A copy that fits is the copied string. -/
theorem strcpy_eq_ok {bufsz : ℕ} {src dst : CStr} :
    strcpy bufsz src = .ok dst ↔ src.length < bufsz ∧ dst = src := by
  unfold strcpy
  by_cases h : src.length < bufsz
  · simp [h, eq_comm]
  · simp [h]

/-- A decoded string is the token itself, and it fits the buffer. -/
theorem decodeStrValue_eq_ok {bufsz : ℕ} {arg out : CStr}
    (h : decodeStrValue bufsz arg = .ok out) : arg.length < bufsz ∧ out = arg := by
  unfold decodeStrValue at h
  split at h
  · cases h
  · exact strcpy_eq_ok.mp h

/-- The parameter loop accepts a token iff its handler does. -/
theorem decodeCommandParameter_cons_eq_ok {γ : Type} {name : String}
    {func : γ → CStr → Except Stop γ} {list : List (Parameter γ)} {arg : CStr}
    {args : List CStr} {c d : γ} :
    decodeCommandParameter ((name, func) :: list) (arg :: args) c = .ok d ↔
      ∃ c', func c arg = .ok c' ∧ decodeCommandParameter list args c' = .ok d := by
  cases hfunc : func c arg with
  | error e => cases e <;> simp [decodeCommandParameter, hfunc]
  | ok c' => simp [decodeCommandParameter, hfunc]

/-- Without tokens the parameter loop leaves the command as it is. -/
@[simp] theorem decodeCommandParameter_nil_eq_ok {γ : Type} {list : List (Parameter γ)} {c d : γ} :
    decodeCommandParameter list [] c = .ok d ↔ c = d := by
  simp [decodeCommandParameter]

/-- A command found in the list comes from a row with its name and arity. -/
theorem searchCommandList_eq_ok {command : CStr} {args : List CStr} {nameCheck : Bool}
    {rows : List DecodeCommandList} {cmd : SppCommand}
    (h : searchCommandList command args nameCheck rows = .ok cmd) :
    ∃ row ∈ rows, row.name.toList = command ∧ row.paramMin ≤ args.length + 1 ∧
      args.length + 1 ≤ row.paramMax ∧ row.func args = .ok cmd := by
  induction rows generalizing nameCheck with
  | nil =>
    unfold searchCommandList at h
    split at h <;> cases h
  | cons row rows ih =>
    unfold searchCommandList at h
    split at h
    · obtain ⟨row', hmem, hrow⟩ := ih h
      exact ⟨row', List.mem_cons_of_mem _ hmem, hrow⟩
    · rename_i hname
      split at h
      · obtain ⟨row', hmem, hrow⟩ := ih h
        exact ⟨row', List.mem_cons_of_mem _ hmem, hrow⟩
      · rename_i harity
        have harity := not_or.mp harity
        exact ⟨row, List.mem_cons_self, not_not.mp hname, Nat.le_of_not_lt harity.1,
          Nat.le_of_not_lt harity.2, h⟩

/-- An accepted request is accepted by a row of the command list. -/
theorem decodeRequest_eq_ok {text : CStr} {cmd : SppCommand}
    (h : sppCommandDecodeRequest L M s text = .ok cmd) :
    ∃ command args, strtok ' ' text = command :: args ∧
      ∃ row ∈ commandList L M s, row.name.toList = command ∧ row.paramMin ≤ args.length + 1 ∧
        args.length + 1 ≤ row.paramMax ∧ row.func args = .ok cmd := by
  unfold sppCommandDecodeRequest decodeCommandInList at h
  split at h
  · cases h
  · rename_i tmpStr hcopy
    obtain ⟨-, rfl⟩ := strcpy_eq_ok.mp hcopy
    dsimp only at h
    split at h
    · cases h
    · split at h
      · cases h
      · rename_i command args hargv
        exact ⟨command, args, hargv, searchCommandList_eq_ok h⟩

/-- The mapped result of a decoding function succeeds iff the function does. -/
theorem map_eq_ok {ε α β : Type} {x : Except ε α} {f : α → β} {b : β} :
    x.map f = .ok b ↔ ∃ a, x = .ok a ∧ f a = b := by
  cases x with
  | error e => simp [Except.map]
  | ok a => simp [Except.map]

/-- An accepted `component` request has three to five tokens, which its
handlers accept. -/
theorem decodeRequest_component {text : CStr} {c : CommandComponent}
    (h : sppCommandDecodeRequest L M s text = .ok (.component c)) :
    ∃ args, strtok ' ' text = "component".toList :: args ∧ 2 ≤ args.length ∧ args.length ≤ 4 ∧
      decodeCommandParameter (parameterListComponent L M s) args {} = .ok c := by
  obtain ⟨command, args, hargv, row, hrow, hname, hmin, hmax, hfunc⟩ := decodeRequest_eq_ok h
  simp only [commandList, List.mem_cons, List.not_mem_nil, or_false] at hrow
  rcases hrow with rfl | rfl | rfl | rfl | rfl | rfl | rfl
  · obtain ⟨_, _, hc⟩ := map_eq_ok.mp hfunc
    cases hc
  · obtain ⟨_, _, hc⟩ := map_eq_ok.mp hfunc
    cases hc
  · cases hfunc
  · cases hfunc
  · cases hfunc
  · obtain ⟨c', hparams, hc⟩ := map_eq_ok.mp hfunc
    cases hc
    exact ⟨args, by rw [hargv, ← hname], Nat.le_of_succ_le_succ hmin,
      Nat.le_of_succ_le_succ hmax, hparams⟩
  · obtain ⟨_, _, hc⟩ := map_eq_ok.mp hfunc
    cases hc

/-- An accepted `port` request has five to eight tokens, which its handlers
accept; with eight tokens the in-use checks are off. -/
theorem decodeRequest_port {text : CStr} {c : CommandPort}
    (h : sppCommandDecodeRequest L M s text = .ok (.port c)) :
    ∃ args, strtok ' ' text = "port".toList :: args ∧ 4 ≤ args.length ∧ args.length ≤ 7 ∧
      decodeCommandParameter (parameterListPort L s (args.length = 7)) args {} = .ok c := by
  obtain ⟨command, args, hargv, row, hrow, hname, hmin, hmax, hfunc⟩ := decodeRequest_eq_ok h
  simp only [commandList, List.mem_cons, List.not_mem_nil, or_false] at hrow
  rcases hrow with rfl | rfl | rfl | rfl | rfl | rfl | rfl
  · obtain ⟨_, _, hc⟩ := map_eq_ok.mp hfunc
    cases hc
  · obtain ⟨_, _, hc⟩ := map_eq_ok.mp hfunc
    cases hc
  · cases hfunc
  · cases hfunc
  · cases hfunc
  · obtain ⟨_, _, hc⟩ := map_eq_ok.mp hfunc
    cases hc
  · obtain ⟨c', hparams, hc⟩ := map_eq_ok.mp hfunc
    cases hc
    refine ⟨args, by rw [hargv, ← hname], Nat.le_of_succ_le_succ hmin,
      Nat.le_of_succ_le_succ hmax, ?_⟩
    simpa using hparams

/-- An enumerator found in a string list is listed with the token. -/
theorem mem_of_getArraryIndex {α : Type} {arg : CStr} {list : List (String × α)} {a : α}
    (h : getArraryIndex arg list = some a) : ∃ str, (str, a) ∈ list ∧ str.toList = arg := by
  obtain ⟨p, hfind, rfl⟩ := Option.map_eq_some_iff.mp h
  exact ⟨p.1, List.mem_of_find?_eq_some hfind, by simpa using List.find?_some hfind⟩

/-- A decoded action is the one its token names. -/
theorem decodeComponentActionValue_eq_ok {c c' : CommandComponent} {arg : CStr}
    (h : decodeComponentActionValue c arg = .ok c') :
    (arg = "start".toList ∧ c' = { c with action := .start }) ∨
      (arg = "stop".toList ∧ c' = { c with action := .stop }) := by
  unfold decodeComponentActionValue at h
  split at h
  · rename_i hindex
    obtain ⟨str, hmem, rfl⟩ := mem_of_getArraryIndex hindex
    cases h
    simp_all [commandActionStrings]
  · rename_i hindex
    obtain ⟨str, hmem, rfl⟩ := mem_of_getArraryIndex hindex
    cases h
    simp_all [commandActionStrings]
  · cases h

/-- A decoded component name is its token; for a start it names no component yet. -/
theorem decodeComponentNameValue_eq_ok {c c' : CommandComponent} {arg : CStr}
    (h : decodeComponentNameValue L s c arg = .ok c') :
    arg.length < sppCmdNameBufsz ∧ c' = { c with name := arg } ∧
      (c.action = .start → sppGetComponentId L s arg = none) := by
  unfold decodeComponentNameValue at h
  split at h
  · cases h
  · rename_i hused
    obtain ⟨name, hname, hc⟩ := bind_eq_ok.mp h
    obtain ⟨hfits, rfl⟩ := decodeStrValue_eq_ok hname
    cases hc
    refine ⟨hfits, rfl, fun hstart => ?_⟩
    simpa [hstart] using hused

/-- A decoded unsigned number lies between the bounds. -/
theorem getUintValue_eq_ok {arg : CStr} {min max v : ℕ} (h : getUintValue arg min max = .ok v) :
    min ≤ v ∧ v ≤ max := by
  unfold getUintValue at h
  split at h
  · dsimp only at h
    split at h
    · cases h
    · cases h
      omega
  · cases h

/-- A decoded core is an lcore id; a stop leaves the core as it is. -/
theorem decodeComponentCoreValue_eq_ok {c c' : CommandComponent} {arg : CStr}
    (h : decodeComponentCoreValue L c arg = .ok c') :
    ∃ core, c' = { c with core := core } ∧ (core = c.core ∨ core ≤ L.maxLcore - 1) := by
  unfold decodeComponentCoreValue at h
  split at h
  · cases h
    exact ⟨c.core, rfl, .inl rfl⟩
  · obtain ⟨core, hcore, hc⟩ := bind_eq_ok.mp h
    cases hc
    exact ⟨core, rfl, .inr (getUintValue_eq_ok hcore).2⟩

/-- A type decoded for a start is a type of the build; a stop leaves it as it is. -/
theorem decodeComponentTypeValue_eq_ok {c c' : CommandComponent} {arg : CStr}
    (h : decodeComponentTypeValue M c arg = .ok c') :
    ∃ type, c' = { c with type := type } ∧ (c.action = .start → type ≠ .unuse) := by
  unfold decodeComponentTypeValue at h
  split at h
  · rename_i hstart
    cases h
    exact ⟨c.type, rfl, fun h => absurd h hstart⟩
  · split at h
    · cases h
    · rename_i htype
      cases h
      exact ⟨_, rfl, fun _ => htype⟩

/-- The fields of an accepted `component` request. The core defaults to zero and
the type to `SPP_COMPONENT_UNUSE` when their tokens are missing. -/
structure ComponentRequest (L : Limits) (s : MngData) (args : List CStr) (c : CommandComponent) :
    Prop where
  /-- The action is start or stop, as the first token says. -/
  action : (args.head? = some "start".toList ∧ c.action = .start) ∨
    (args.head? = some "stop".toList ∧ c.action = .stop)
  /-- The name is the second token. -/
  name : args[1]? = some c.name
  /-- The name fits its buffer. -/
  name_length : c.name.length < sppCmdNameBufsz
  /-- A start names no component in use. -/
  name_free : c.action = .start → sppGetComponentId L s c.name = none
  /-- The core is an lcore id. -/
  core_le : c.core ≤ L.maxLcore - 1
  /-- A start with all its tokens has a type. -/
  type_ne : c.action = .start → args.length = 4 → c.type ≠ .unuse
  /-- Without the last token there is no type. -/
  type_eq : args.length < 4 → c.type = .unuse

/-- The handlers of a `component` request read its fields off the tokens. -/
theorem componentRequest_of_decode {args : List CStr} {c : CommandComponent}
    (hmin : 2 ≤ args.length) (hmax : args.length ≤ 4)
    (h : decodeCommandParameter (parameterListComponent L M s) args {} = .ok c) :
    ComponentRequest L s args c := by
  obtain ⟨a, n, rest, rfl⟩ : ∃ a n rest, args = a :: n :: rest := by
    match args, hmin with
    | a :: n :: rest, _ => exact ⟨a, n, rest, rfl⟩
  obtain ⟨c₁, haction, h⟩ := decodeCommandParameter_cons_eq_ok.mp h
  obtain ⟨c₂, hname, h⟩ := decodeCommandParameter_cons_eq_ok.mp h
  obtain ⟨hfits, rfl, hfree⟩ := decodeComponentNameValue_eq_ok hname
  -- The first two fields do not depend on how many tokens follow.
  have hfields : ∀ d : CommandComponent, d.action = c₁.action → d.name = n →
      ((a :: n :: rest).head? = some "start".toList ∧ d.action = .start ∨
        (a :: n :: rest).head? = some "stop".toList ∧ d.action = .stop) ∧
      (a :: n :: rest)[1]? = some d.name ∧ d.name.length < sppCmdNameBufsz ∧
      (d.action = .start → sppGetComponentId L s d.name = none) := by
    intro d hd hdn
    subst hdn
    refine ⟨?_, rfl, hfits, fun hstart => hfree (hd ▸ hstart)⟩
    rcases decodeComponentActionValue_eq_ok haction with ⟨rfl, rfl⟩ | ⟨rfl, rfl⟩
    · exact .inl ⟨rfl, hd⟩
    · exact .inr ⟨rfl, hd⟩
  have hzero : c₁.core = 0 ∧ c₁.type = .unuse := by
    rcases decodeComponentActionValue_eq_ok haction with ⟨-, rfl⟩ | ⟨-, rfl⟩ <;> exact ⟨rfl, rfl⟩
  match rest, hmax with
  | [], _ =>
    obtain rfl := decodeCommandParameter_nil_eq_ok.mp h
    obtain ⟨h1, h2, h3, h4⟩ := hfields { c₁ with name := n } rfl rfl
    exact ⟨h1, h2, h3, h4, by simp [hzero.1], fun _ hlen => by simp at hlen, fun _ => hzero.2⟩
  | [k], _ =>
    obtain ⟨c₃, hcore, h⟩ := decodeCommandParameter_cons_eq_ok.mp h
    obtain rfl := decodeCommandParameter_nil_eq_ok.mp h
    obtain ⟨core, rfl, hle⟩ := decodeComponentCoreValue_eq_ok hcore
    obtain ⟨h1, h2, h3, h4⟩ := hfields { c₁ with name := n, core := core } rfl rfl
    refine ⟨h1, h2, h3, h4, ?_, fun _ hlen => by simp at hlen, fun _ => hzero.2⟩
    rcases hle with rfl | hle
    · simp [hzero.1]
    · exact hle
  | [k, t], _ =>
    obtain ⟨c₃, hcore, h⟩ := decodeCommandParameter_cons_eq_ok.mp h
    obtain ⟨c₄, htype, h⟩ := decodeCommandParameter_cons_eq_ok.mp h
    obtain rfl := decodeCommandParameter_nil_eq_ok.mp h
    obtain ⟨core, rfl, hle⟩ := decodeComponentCoreValue_eq_ok hcore
    obtain ⟨type, rfl, hne⟩ := decodeComponentTypeValue_eq_ok htype
    obtain ⟨h1, h2, h3, h4⟩ :=
      hfields { c₁ with name := n, core := core, type := type } rfl rfl
    refine ⟨h1, h2, h3, h4, ?_, fun hstart _ => hne hstart, fun hlen => by simp at hlen⟩
    rcases hle with rfl | hle
    · simp [hzero.1]
    · exact hle

/-- A property that every handler of a list keeps holds of the decoded command. -/
theorem decodeCommandParameter_keeps {γ : Type} {P : γ → Prop} {list : List (Parameter γ)}
    (hkeep : ∀ p ∈ list, ∀ c arg c', p.2 c arg = .ok c' → P c → P c') {args : List CStr}
    {c d : γ} (h : decodeCommandParameter list args c = .ok d) (hc : P c) : P d := by
  induction list generalizing args c with
  | nil =>
    cases args with
    | nil => exact decodeCommandParameter_nil_eq_ok.mp h ▸ hc
    | cons arg args => cases h
  | cons p list ih =>
    cases args with
    | nil => exact decodeCommandParameter_nil_eq_ok.mp h ▸ hc
    | cons arg args =>
      obtain ⟨c', hfunc, hrest⟩ := decodeCommandParameter_cons_eq_ok.mp h
      exact ih (fun q hq => hkeep q (List.mem_cons_of_mem p hq)) hrest
        (hkeep p List.mem_cons_self c arg c' hfunc hc)

/-- A decoded port action is add or del. -/
theorem decodePortActionValue_eq_ok {c c' : CommandPort} {arg : CStr}
    (h : decodePortActionValue c arg = .ok c') :
    c' = { c with action := .add } ∨ c' = { c with action := .del } := by
  unfold decodePortActionValue at h
  split at h
  · exact .inl (Except.ok.inj h).symm
  · exact .inr (Except.ok.inj h).symm
  · cases h

/-- A decoded port changes nothing but the port. -/
theorem decodePortPortValue_eq_ok {c c' : CommandPort} {arg : CStr} {flag : Bool}
    (h : decodePortPortValue L s c arg flag = .ok c') : ∃ port, c' = { c with port := port } := by
  unfold decodePortPortValue at h
  obtain ⟨port, -, h⟩ := bind_eq_ok.mp h
  refine ⟨port, ?_⟩
  split at h
  · obtain ⟨_, -, h⟩ := bind_eq_ok.mp h
    obtain ⟨_, -, h⟩ := bind_eq_ok.mp h
    split at h
    · cases h
    · exact (Except.ok.inj h).symm
  · exact (Except.ok.inj h).symm

/-- A decoded direction is rx or tx. For an add with the checks on, no used
component holds the port in it. -/
theorem decodePortRxtxValue_eq_ok {c c' : CommandPort} {arg : CStr} {flag : Bool}
    (h : decodePortRxtxValue L s c arg flag = .ok c') :
    ∃ rxtx, (rxtx = .rx ∨ rxtx = .tx) ∧ c' = { c with rxtx := rxtx } ∧
      (flag = false → c.action = .add →
        sppCheckUsedPort L s c.port.ifaceType c.port.ifaceNo rxtx = .ok none) := by
  unfold decodePortRxtxValue at h
  split at h
  · cases h
  · cases h
  rename_i rxtx hne hindex
  refine ⟨rxtx, ?_, ?_⟩
  · obtain ⟨str, hmem, -⟩ := mem_of_getArraryIndex hindex
    simp only [portRxtxStrings, List.mem_cons, Prod.mk.injEq, List.not_mem_nil, or_false] at hmem
    rcases hmem with ⟨-, rfl⟩ | ⟨-, rfl⟩ | ⟨-, rfl⟩
    · exact absurd rfl hne
    · exact .inl rfl
    · exact .inr rfl
  · split at h
    · obtain ⟨used, hused, h⟩ := bind_eq_ok.mp h
      cases used with
      | some id => simp at h
      | none => exact ⟨by simpa [eq_comm] using h, fun _ _ => hused⟩
    · rename_i hcheck
      exact ⟨(Except.ok.inj h).symm, fun hflag hadd => absurd ⟨hflag, hadd⟩ hcheck⟩

/-- A decoded component name is its token, and it fits the buffer. -/
theorem decodePortNameValue_eq_ok {c c' : CommandPort} {arg : CStr}
    (h : decodePortNameValue L s c arg = .ok c') : c' = { c with name := arg } := by
  unfold decodePortNameValue at h
  split at h
  · cases h
  · obtain ⟨name, hname, hc⟩ := bind_eq_ok.mp h
    obtain ⟨-, rfl⟩ := decodeStrValue_eq_ok hname
    exact (Except.ok.inj hc).symm

/-- The handlers of the tokens after the name set nothing but the ability. -/
theorem parameterListPort_ability {flag : Bool} {p : Parameter CommandPort}
    (hp : p ∈ (parameterListPort L s flag).drop 4) {c c' : CommandPort} {arg : CStr}
    (h : p.2 c arg = .ok c') : ∃ ability, c' = { c with ability := ability } := by
  simp only [parameterListPort, List.drop_succ_cons, List.drop_zero, List.mem_cons,
    List.not_mem_nil, or_false] at hp
  rcases hp with rfl | rfl | rfl
  · dsimp only [decodePortVlanOperation] at h
    split at h
    · split at h
      · exact ⟨_, (Except.ok.inj h).symm⟩
      · exact ⟨_, (Except.ok.inj h).symm⟩
      · cases h
    · exact ⟨c.ability, (Except.ok.inj h).symm⟩
  · dsimp only [decodePortVid] at h
    split at h
    · obtain ⟨vid, -, h⟩ := bind_eq_ok.mp h
      exact ⟨_, (Except.ok.inj h).symm⟩
    · exact ⟨c.ability, (Except.ok.inj h).symm⟩
  · dsimp only [decodePortPcp] at h
    split at h
    · obtain ⟨pcp, -, h⟩ := bind_eq_ok.mp h
      exact ⟨_, (Except.ok.inj h).symm⟩
    · exact ⟨c.ability, (Except.ok.inj h).symm⟩

/-- The fields of an accepted `port` request; `flag` says that the in-use
checks were off. -/
structure PortRequest (L : Limits) (s : MngData) (flag : Bool) (c : CommandPort) : Prop where
  /-- The action is add or del. -/
  action : c.action = .add ∨ c.action = .del
  /-- The direction is rx or tx. -/
  rxtx : c.rxtx = .rx ∨ c.rxtx = .tx
  /-- A checked add names a port that no used component holds in the direction. -/
  unheld : flag = false → c.action = .add →
    sppCheckUsedPort L s c.port.ifaceType c.port.ifaceNo c.rxtx = .ok none

/-- The handlers of a `port` request read its fields off the tokens. -/
theorem portRequest_of_decode {args : List CStr} {flag : Bool} {c : CommandPort}
    (hmin : 4 ≤ args.length)
    (h : decodeCommandParameter (parameterListPort L s flag) args {} = .ok c) :
    PortRequest L s flag c := by
  obtain ⟨a, p, d, n, rest, rfl⟩ : ∃ a p d n rest, args = a :: p :: d :: n :: rest := by
    match args, hmin with
    | a :: p :: d :: n :: rest, _ => exact ⟨a, p, d, n, rest, rfl⟩
  obtain ⟨c₁, haction, h⟩ := decodeCommandParameter_cons_eq_ok.mp h
  obtain ⟨c₂, hport, h⟩ := decodeCommandParameter_cons_eq_ok.mp h
  obtain ⟨c₃, hrxtx, h⟩ := decodeCommandParameter_cons_eq_ok.mp h
  obtain ⟨c₄, hname, h⟩ := decodeCommandParameter_cons_eq_ok.mp h
  obtain ⟨port, rfl⟩ := decodePortPortValue_eq_ok hport
  obtain ⟨rxtx, hdir, rfl, hunheld⟩ := decodePortRxtxValue_eq_ok hrxtx
  obtain rfl := decodePortNameValue_eq_ok hname
  -- The remaining tokens only fill in the ability.
  obtain ⟨ability, rfl⟩ : ∃ ability : PortAbility,
      c = { c₁ with port := port, rxtx := rxtx, name := n, ability := ability } := by
    refine decodeCommandParameter_keeps (P := fun c => ∃ ability : PortAbility,
      c = { c₁ with port := port, rxtx := rxtx, name := n, ability := ability }) ?_ h ⟨_, rfl⟩
    rintro q hq _ arg c' hfunc ⟨_, rfl⟩
    obtain ⟨ability, rfl⟩ := parameterListPort_ability
      (show q ∈ (parameterListPort L s flag).drop 4 from hq) hfunc
    exact ⟨ability, rfl⟩
  refine ⟨?_, hdir, hunheld⟩
  rcases decodePortActionValue_eq_ok haction with rfl | rfl
  · exact .inl rfl
  · exact .inr rfl

/-- A decoded VLAN operation is recorded with the direction of the port. -/
theorem decodeCommandParameterPort_ability {args : List CStr} {flag : Bool} {c : CommandPort}
    (hmin : 4 ≤ args.length)
    (h : decodeCommandParameter (parameterListPort L s flag) args {} = .ok c) :
    c.ability.ope ≠ .none → c.ability.rxtx = c.rxtx := by
  obtain ⟨a, p, d, n, rest, rfl⟩ : ∃ a p d n rest, args = a :: p :: d :: n :: rest := by
    match args, hmin with
    | a :: p :: d :: n :: rest, _ => exact ⟨a, p, d, n, rest, rfl⟩
  obtain ⟨c₁, haction, h⟩ := decodeCommandParameter_cons_eq_ok.mp h
  obtain ⟨c₂, hport, h⟩ := decodeCommandParameter_cons_eq_ok.mp h
  obtain ⟨c₃, hrxtx, h⟩ := decodeCommandParameter_cons_eq_ok.mp h
  obtain ⟨c₄, hname, h⟩ := decodeCommandParameter_cons_eq_ok.mp h
  obtain ⟨port, rfl⟩ := decodePortPortValue_eq_ok hport
  obtain ⟨rxtx, -, rfl, -⟩ := decodePortRxtxValue_eq_ok hrxtx
  obtain rfl := decodePortNameValue_eq_ok hname
  -- No operation is decoded before the fifth token.
  refine decodeCommandParameter_keeps
    (P := fun c => c.ability.ope ≠ .none → c.ability.rxtx = c.rxtx) ?_ h ?_
  · rintro q hq b arg b' hfunc hb
    simp only [List.mem_cons, List.not_mem_nil, or_false] at hq
    rcases hq with rfl | rfl | rfl
    · dsimp only [decodePortVlanOperation] at hfunc
      split at hfunc
      · split at hfunc
        · cases hfunc
          exact fun _ => rfl
        · cases hfunc
          exact fun _ => rfl
        · cases hfunc
      · cases hfunc
        exact hb
    · dsimp only [decodePortVid] at hfunc
      split at hfunc
      · obtain ⟨vid, -, hfunc⟩ := bind_eq_ok.mp hfunc
        cases hfunc
        exact hb
      · cases hfunc
        exact hb
    · dsimp only [decodePortPcp] at hfunc
      split at hfunc
      · obtain ⟨pcp, -, hfunc⟩ := bind_eq_ok.mp hfunc
        cases hfunc
        exact hb
      · cases hfunc
        exact hb
  · rcases decodePortActionValue_eq_ok haction with rfl | rfl <;>
      exact fun hne => absurd rfl hne

end Spp.Vf
