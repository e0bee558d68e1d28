import Mathlib.Data.List.TakeWhile
import Spp.Nfv.Forward

/-!
# Commands that are to be rejected

An `add`, `del` or `patch` whose resource UIDs are ill-formed or name no port is to
leave both tables alone. The commands only look at what `parse_resource_uid` makes of
the texts, and at that not always, so that some of them get as far as the tables.
-/

namespace Spp.Nfv

open CLib
open Spp.Vf (PortType)

section Texts

/-- The integer that a string denotes as a whole in base ten, whatever its size. -/
def decimal (s : CStr) : Option ℤ :=
  match scanNumber 10 s with
  | some (negative, magnitude, []) => some (if negative then -(magnitude : ℤ) else magnitude)
  | _ => none

/-- Base ten is settled from the start. -/
theorem scanBase_ten (s : CStr) : scanBase 10 s = (10, s) := by
  unfold scanBase
  split
  · simp
  · simp
  · simp

/-- The sign is one of two characters. -/
theorem scanSign_mem {c : Char} {s : CStr} (hc : c ∈ s) :
    c = '-' ∨ c = '+' ∨ c ∈ (scanSign s).2 := by
  unfold scanSign
  split
  · rcases List.mem_cons.mp hc with rfl | hc
    · exact .inl rfl
    · exact .inr (.inr hc)
  · rcases List.mem_cons.mp hc with rfl | hc
    · exact .inr (.inl rfl)
    · exact .inr (.inr hc)
  · exact .inr (.inr hc)

/-- A number is written with blanks, a sign and digits. -/
theorem decimal_chars {s : CStr} {z : ℤ} (h : decimal s = some z) {c : Char} (hc : c ∈ s) :
    isSpace c = true ∨ c = '-' ∨ c = '+' ∨ isDigit 10 c = true := by
  have hrest : ((scanSign (s.dropWhile isSpace)).2).dropWhile (isDigit 10) = [] := by
    unfold decimal at h
    split at h
    · rename_i negative magnitude hscan
      unfold scanNumber at hscan
      simp only [scanBase_ten] at hscan
      split at hscan
      · cases hscan
      · exact (Prod.mk.inj (Prod.mk.inj (Option.some.inj hscan)).2).2
    · cases h
  rw [← List.takeWhile_append_dropWhile (p := isSpace) (l := s)] at hc
  rcases List.mem_append.mp hc with hspace | hc
  · exact .inl (List.mem_takeWhile_imp hspace)
  · rcases scanSign_mem hc with rfl | rfl | hdigit
    · exact .inr (.inl rfl)
    · exact .inr (.inr (.inl rfl))
    · exact .inr (.inr (.inr (List.dropWhile_eq_nil_iff.mp hrest c hdigit)))

/-- `strtol` reads a number that is an `int`. -/
theorem strtol_decimal {s : CStr} {z : ℤ} (h : decimal s = some z)
    (hint : -2 ^ 31 ≤ z ∧ z < 2 ^ 31) : ∃ v, strtol 10 s = some (v, []) ∧ toInt v = z := by
  unfold decimal at h
  split at h
  · rename_i negative magnitude hscan
    have hz := Option.some.inj h
    refine ⟨z, ?_, ?_⟩
    · rw [strtol, hscan, Option.map_some]
      simp only [Option.some.injEq, Prod.mk.injEq, and_true]
      cases negative
      · simp only [Bool.false_eq_true, if_false] at hz ⊢
        omega
      · simp only [if_true] at hz ⊢
        omega
    · unfold toInt
      exact Int.bmod_eq_of_le (by omega) (by omega)
  · cases h

/-- A resource UID of a word and a number is taken apart at its colon. -/
theorem parseResourceUid_of_decimal {word number : CStr} {id : ℤ} (hne : word ≠ [])
    (hword : ':' ∉ word) (hid : decimal number = some id) (hint : -2 ^ 31 ≤ id ∧ id < 2 ^ 31) :
    parseResourceUid (word ++ ':' :: number) = .ok (some ⟨word, id, true⟩) := by
  have hnumber : ':' ∉ number := by
    intro hc
    have hchar := decimal_chars hid hc
    revert hchar
    decide
  have hnil : number ≠ [] := by
    rintro rfl
    cases hid
  have htokens : strtok ':' (word ++ ':' :: number) = [word, number] := by
    have hcut := strtok_intercalate ':' [word, number]
    simpa [List.intercalate, strtok_eq_singleton hne hword,
      strtok_eq_singleton hnil hnumber] using hcut
  obtain ⟨v, hv, hvalue⟩ := strtol_decimal hid hint
  unfold parseResourceUid
  rw [if_neg (by simp), htokens]
  simp [hv, hvalue]

end Texts

section Statement

/-- A text `TYPE:ID` with one of the given type words. -/
def Names (types : List (CStr × PortType)) (uid : CStr) (type : PortType) (id : ℤ) : Prop :=
  ∃ word number, uid = word ++ ':' :: number ∧ (word, type) ∈ types ∧ decimal number = some id

/-- The types of ports that are added and deleted, each with its counters in
`client_stats`. -/
def clientTypes : List (CStr × PortType) :=
  [("ring".toList, .ring), ("vhost".toList, .vhost), ("pcap".toList, .pcap),
    ("nullpmd".toList, .nullpmd)]

/-- A well-formed resource UID of `add` or `del`: the id is one of `client_stats`. -/
def ClientUid (uid : CStr) (type : PortType) (id : ℤ) : Prop :=
  Names clientTypes uid type id ∧ 0 ≤ id ∧ id < maxClient

/-- A well-formed resource UID of `patch`, which may be of a physical port. -/
def PortUid (uid : CStr) (type : PortType) (id : ℤ) : Prop :=
  ClientUid uid type id ∨ Names [("phy".toList, .phy)] uid type id ∧ 0 ≤ id

variable (b : Build)

/-- The tables have a port of the type and id. -/
def State.HasPort (s : State) (type : PortType) (id : ℤ) : Prop :=
  ∃ i < b.maxEthports, (s.portMap i).portType = type ∧ (s.portMap i).id = id

/-- The commands that are to be rejected: a resource UID is ill-formed, or it names a
port that does not exist, which for `add` is one whose device cannot be made. -/
def Command.Rejected (s : State) (pmd : Pmd) : Command → Prop
  | .add uid => (¬ ∃ type id, ClientUid uid type id) ∨ pmd.portId = none
  | .del uid => ¬ ∃ type id, ClientUid uid type id ∧ s.HasPort b type id
  | .patch src dst => (¬ ∃ type id, PortUid src type id ∧ s.HasPort b type id) ∨
      ¬ ∃ type id, PortUid dst type id ∧ s.HasPort b type id
  | _ => False

/-- A pointer into the statistics is to an element of its array. -/
def StatsPtr.InArray : StatsPtr → Prop
  | .null => True
  | .portStats i => i < b.maxEthports
  | .clientStats i => 0 ≤ i ∧ i < maxClient
  | .defaultStats i => i < b.maxEthports

/-- A store is to an element of its table. -/
def Store.InTable : Store → Prop
  | .inPortId i _ | .outPortId i _ | .rxFunc i | .txFunc i | .mapId i _ | .mapPortType i _ =>
    i < b.maxEthports
  | .mapStats i p => i < b.maxEthports ∧ p.InArray b
  | _ => True

/-- Two states have the same tables. -/
def State.SameTables (s t : State) : Prop :=
  t.portsFwdArray = s.portsFwdArray ∧ t.portMap = s.portMap

/-- A command runs to its end, within the bounds of the arrays, and changes no table. -/
def LeavesTables (s : State) (result : Except Fault (List Store)) : Prop :=
  ∃ stores, result = .ok stores ∧ (∀ c ∈ stores, c.InTable b) ∧ s.SameTables (applyAll s stores)

/-- A command runs to its end, within the bounds of the arrays, and changes only the
entries of one port id, to those of a new port. -/
def AddsPort (s : State) (result : Except Fault (List Store)) (k : ℕ) (type : PortType)
    (id : ℤ) : Prop :=
  ∃ stores, result = .ok stores ∧ (∀ c ∈ stores, c.InTable b) ∧
    (applyAll s stores).portMap k = ⟨id, type, .clientStats id⟩ ∧
    ((applyAll s stores).portsFwdArray k).inPortId = k ∧
    ∀ j, j ≠ k → (applyAll s stores).portMap j = s.portMap j ∧
      (applyAll s stores).portsFwdArray j = s.portsFwdArray j

/-- A rejected command leaves the tables, and an accepted `add` enters its port. -/
def TablesGuarded (s : State) (pmd : Pmd) (detached : Bool) (c : Command) : Prop :=
  (c.Rejected b s pmd → LeavesTables b s (runCommand b s pmd detached c)) ∧
    ∀ uid type id k, c = .add uid → ClientUid uid type id → pmd.portId = some k →
      AddsPort b s (runCommand b s pmd detached c) k type id

end Statement

section Condition

/-- The tables hold a port at a port id already. -/
def State.Holds (s : State) (k : ℕ) (id : ℤ) (type : PortType) : Prop :=
  s.portMap k = ⟨id, type, .clientStats id⟩ ∧ (s.portsFwdArray k).inPortId = k

/-- The port id and the type that `do_add` enters: those of the device, or for a type it
does not know port id zero and no type. -/
def enteredPort (pmd : Pmd) (uid : ResourceUid) : Option (ℕ × PortType) :=
  match resourceType uid.portType with
  | none => some (0, .undef)
  | some type => pmd.portId.map fun k => (k, type)

/-- `add` enters nothing: the resource UID has both its parts, and where it is parsed
either there is no device or the tables hold the port already, with an id of
`client_stats`. -/
def AddQuiet (s : State) (pmd : Pmd) (resUid : CStr) : Prop :=
  match parseResourceUid resUid with
  | .error _ => False
  | .ok none => True
  | .ok (some uid) => uid.valid = true → ∀ k type, enteredPort pmd uid = some (k, type) →
      (0 ≤ uid.portId ∧ uid.portId < maxClient) ∧ s.Holds k uid.portId type

variable (b : Build)

/-- `del` removes nothing: the resource UID has both its parts, and where it is parsed it
is of one of the four types and no such port is in the tables. -/
def DelQuiet (s : State) (resUid : CStr) : Prop :=
  match parseResourceUid resUid with
  | .error _ => False
  | .ok none => True
  | .ok (some uid) => uid.valid = true →
      ∃ type, resourceType uid.portType = some type ∧ ¬ s.HasPort b type uid.portId

/-- The tables hold a patch already. -/
def State.Patched (s : State) (i o : ℕ) : Prop :=
  s.portsFwdArray i = ⟨i, o, true, true⟩ ∧
    ∃ out, s.portsFwdArray o = ⟨o, out, true, true⟩

/-- `patch` patches nothing: both resource UIDs have both their parts, the message about
ports that are not found fits its buffer, and where both ports are found they are no
valid ports or patched already. -/
def PatchQuiet (s : State) (src dst : CStr) : Prop :=
  ∃ i o, patchArgument src = .ok i ∧ patchArgument dst = .ok o ∧
    (patchMessage i o (findPortId b s i.portId (getPortType i.portType))
      (findPortId b s o.portId (getPortType o.portType))).length < 128 ∧
    (s.ValidPort b (findPortId b s i.portId (getPortType i.portType)) →
      s.ValidPort b (findPortId b s o.portId (getPortType o.portType)) →
      s.Patched (findPortId b s i.portId (getPortType i.portType))
        (findPortId b s o.portId (getPortType o.portType)))

/-- The commands that leave the tables alone. -/
def Command.Quiet (s : State) (pmd : Pmd) : Command → Prop
  | .add resUid => AddQuiet s pmd resUid
  | .del resUid => DelQuiet b s resUid
  | .patch src dst => PatchQuiet b s src dst
  | _ => True

end Condition

section Effects

variable {b : Build} {s : State}

/-- The stores of a new port are within the tables iff its id is one of `client_stats`. -/
theorem inTable_registerPort {k : ℕ} {id : ℤ} {type : PortType} (hk : k < b.maxEthports) :
    (∀ c ∈ registerPort k id type, c.InTable b) ↔ 0 ≤ id ∧ id < maxClient := by
  simp [registerPort, Store.InTable, StatsPtr.InArray, hk]

/-- A new port changes nothing iff the tables hold it. -/
theorem sameTables_registered {k : ℕ} {id : ℤ} {type : PortType} :
    s.SameTables (s.registered k id type) ↔ s.Holds k id type := by
  constructor
  · rintro ⟨hports, hmap⟩
    have hport := congrFun hports k
    have hentry := congrFun hmap k
    simp only [State.registered, Function.update_self] at hport hentry
    exact ⟨hentry.symm, by rw [← hport]⟩
  · rintro ⟨hmap, hport⟩
    refine ⟨Function.update_eq_self_iff.mpr ?_, Function.update_eq_self_iff.mpr hmap.symm⟩
    cases hentry : s.portsFwdArray k
    rw [hentry] at hport
    simpa using hport.symm

/-- The calls of `add_*_pmd` leave the tables alone. -/
theorem pmd_tables (pmd : Pmd) (type : PortType) (id : ℤ) :
    (applyAll s (pmd.stores type id)).portsFwdArray = s.portsFwdArray ∧
      (applyAll s (pmd.stores type id)).portMap = s.portMap := by
  cases pmd with
  | failed => exact ⟨rfl, rfl⟩
  | attached k => exact ⟨rfl, rfl⟩
  | found k started => cases started <;> exact ⟨rfl, rfl⟩

/-- The device stores are not to a table. -/
theorem inTable_pmd (pmd : Pmd) (type : PortType) (id : ℤ) :
    ∀ c ∈ pmd.stores type id, c.InTable b := by
  cases pmd with
  | failed => simp [Pmd.stores]
  | attached k => simp [Pmd.stores, Store.InTable]
  | found k started => cases started <;> simp [Pmd.stores, Store.InTable]

/-- A command that makes no store leaves the tables. -/
theorem leavesTables_nil : LeavesTables b s (.ok []) := ⟨[], rfl, by simp, rfl, rfl⟩

/-- A command that runs into undefined behaviour does not. -/
theorem not_leavesTables_error {e : Fault} : ¬ LeavesTables b s (.error e) := by
  rintro ⟨stores, h, -⟩
  cases h

/-- What is known of the tables for the stores that a command ends with. -/
theorem leavesTables_ok {stores : List Store} : LeavesTables b s (.ok stores) ↔
    (∀ c ∈ stores, c.InTable b) ∧ s.SameTables (applyAll s stores) := by
  constructor
  · rintro ⟨stores', h, hboth⟩
    rwa [Except.ok.inj h]
  · rintro hboth
    exact ⟨stores, rfl, hboth⟩

/-- The tables after the stores of a new port with its device. -/
theorem leavesTables_register {pmd : Pmd} {k : ℕ} {id : ℤ} {type : PortType}
    (hk : k < b.maxEthports) :
    LeavesTables b s (.ok (pmd.stores type id ++ registerPort k id type)) ↔
      (0 ≤ id ∧ id < maxClient) ∧ s.Holds k id type := by
  obtain ⟨hports, hmap⟩ := pmd_tables (s := s) pmd type id
  have hholds : (applyAll s (pmd.stores type id)).Holds k id type ↔ s.Holds k id type := by
    unfold State.Holds
    rw [hports, hmap]
  rw [leavesTables_ok, List.forall_mem_append, inTable_registerPort hk, applyAll_append,
    registerPort_state, ← hholds, ← sameTables_registered]
  unfold State.SameTables
  rw [hports, hmap]
  exact and_congr_left fun _ => and_iff_right (inTable_pmd pmd type id)

/-- `do_add` leaves the tables iff it enters nothing. -/
theorem leavesTables_doAdd {pmd : Pmd} {resUid : CStr}
    (hpmd : ∀ k, pmd.portId = some k → k < b.maxEthports) :
    LeavesTables b s (doAdd pmd resUid) ↔ AddQuiet s pmd resUid := by
  unfold doAdd AddQuiet
  cases parseResourceUid resUid with
  | error e => exact iff_of_false not_leavesTables_error id
  | ok r =>
    cases r with
    | none => exact iff_of_true leavesTables_nil trivial
    | some uid =>
      cases hvalid : uid.valid with
      | false =>
        simp only [bind, Except.bind, pure, Except.pure, hvalid]
        exact iff_of_true leavesTables_nil (by simp)
      | true =>
        simp only [bind, Except.bind, pure, Except.pure, hvalid, enteredPort]
        cases resourceType uid.portType with
        | none =>
          have hregister : LeavesTables b s
              (.ok (Pmd.stores .undef uid.portId .failed ++ registerPort 0 uid.portId .undef)) ↔
                (0 ≤ uid.portId ∧ uid.portId < maxClient) ∧ s.Holds 0 uid.portId .undef :=
            leavesTables_register b.pos
          simpa [Pmd.stores] using hregister
        | some type =>
          cases hk : pmd.portId with
          | none => exact iff_of_true leavesTables_nil (by simp)
          | some k => simpa using leavesTables_register (hpmd k hk)

/-- A look-up fails iff the tables do not have the port. -/
theorem findPortId_eq_reset {id : ℤ} {type : PortType} :
    findPortId b s id type = portReset ↔ ¬ s.HasPort b type id := by
  have hlt := b.lt_reset
  unfold findPortId State.HasPort
  cases hfind : (List.range b.maxEthports).find? fun i =>
      (s.portMap i).portType = type ∧ (s.portMap i).id = id with
  | none =>
    rw [List.find?_eq_none] at hfind
    simpa using hfind
  | some i =>
    have hi := List.mem_range.mp (List.mem_of_find?_eq_some hfind)
    have hport := List.find?_some hfind
    simp only [Option.getD_some]
    refine iff_of_false (by omega) (not_not.mpr ⟨i, hi, by simpa using hport⟩)

/-- A removal of a port that has a type changes the tables. -/
theorem not_leavesTables_remove (type : PortType) (detached : Bool) {k : ℕ}
    (htype : (s.portMap k).portType ≠ .undef) :
    ¬ LeavesTables b s ((removePort b (applyAll s (releaseDevice type k detached)) k).map
      (releaseDevice type k detached ++ ·)) := by
  cases hrem : removePort b (applyAll s (releaseDevice type k detached)) k with
  | error e => exact not_leavesTables_error
  | ok stores =>
    intro h
    obtain ⟨-, -, hsame⟩ := leavesTables_ok.mp h
    rw [applyAll_append, (removePort_state hrem).2] at hsame
    have hentry := congrFun hsame k
    simp only [State.removed, Function.update_self] at hentry
    exact htype (by rw [← hentry])

/-- `do_del` leaves the tables iff it removes nothing. -/
theorem leavesTables_doDel {detached : Bool} {resUid : CStr} :
    LeavesTables b s (doDel b s detached resUid) ↔ DelQuiet b s resUid := by
  unfold doDel DelQuiet
  cases parseResourceUid resUid with
  | error e => exact iff_of_false not_leavesTables_error id
  | ok r =>
    cases r with
    | none => exact iff_of_true leavesTables_nil trivial
    | some uid =>
      cases hvalid : uid.valid with
      | false =>
        simp only [bind, Except.bind, pure, Except.pure, hvalid]
        exact iff_of_true leavesTables_nil (by simp)
      | true =>
        simp only [bind, Except.bind, pure, Except.pure, hvalid]
        cases htype : resourceType uid.portType with
        | none =>
          have hlt := b.lt_reset
          have hremove : removePort b s portReset = .error .outOfBounds :=
            if_neg (by omega)
          simp only [hremove]
          exact iff_of_false not_leavesTables_error (by simp)
        | some type =>
          by_cases hk : findPortId b s uid.portId type = portReset
          · simp only [hk]
            exact iff_of_true leavesTables_nil fun _ =>
              ⟨type, rfl, findPortId_eq_reset.mp hk⟩
          · have hhas : s.HasPort b type uid.portId := by
              by_contra hnot
              exact hk (findPortId_eq_reset.mpr hnot)
            refine iff_of_false ?_ ?_
            · rcases findPortId_spec b s uid.portId type with hreset | ⟨-, hsame, -⟩
              · exact absurd hreset hk
              · have htyped : (s.portMap (findPortId b s uid.portId type)).portType ≠ .undef := by
                  rw [hsame]
                  exact (resourceType_known htype).1
                have hnot := not_leavesTables_remove (b := b) type detached htyped
                simp only [hk]
                cases hrem : removePort b (applyAll s
                    (releaseDevice type (findPortId b s uid.portId type) detached))
                    (findPortId b s uid.portId type) with
                | error e => exact not_leavesTables_error
                | ok stores => simpa [hrem, Except.map] using hnot
            · intro hquiet
              obtain ⟨type', htype', hnot⟩ := hquiet trivial
              rw [Option.some.inj htype'] at hhas
              exact hnot hhas

/-- A patch between valid ports changes nothing iff the tables hold it. -/
theorem sameTables_patchedTo {i o : ℕ} : s.SameTables (s.patchedTo i o) ↔ s.Patched i o := by
  constructor
  · rintro ⟨hports, -⟩
    have hin := congrFun hports i
    have hout := congrFun hports o
    simp only [State.patchedTo] at hin hout
    simp only [true_or, or_true, if_true, decide_true, Bool.true_or] at hin hout
    exact ⟨hin.symm, _, hout.symm⟩
  · rintro ⟨hin, out, hout⟩
    refine ⟨funext fun k => ?_, rfl⟩
    simp only [State.patchedTo]
    by_cases hi : k = i
    · subst hi
      simp [hin]
    · by_cases ho : k = o
      · subst ho
        simp [hi, hout]
      · simp [hi, ho]

/-- The branch for `patch` leaves the tables iff it patches nothing. -/
theorem leavesTables_patchPorts {src dst : CStr} :
    LeavesTables b s (patchPorts b s src dst) ↔ PatchQuiet b s src dst := by
  unfold patchPorts PatchQuiet
  cases patchArgument src with
  | error e => exact iff_of_false not_leavesTables_error (by simp)
  | ok inUid =>
    cases patchArgument dst with
    | error e => exact iff_of_false not_leavesTables_error (by simp)
    | ok outUid =>
      have hin := findPortId_spec b s inUid.portId (getPortType inUid.portType)
      have hout := findPortId_spec b s outUid.portId (getPortType outUid.portType)
      simp only [bind, Except.bind, pure, Except.pure, Except.ok.injEq, ↓existsAndEq, true_and]
      generalize findPortId b s inUid.portId (getPortType inUid.portType) = i at hin ⊢
      generalize findPortId b s outUid.portId (getPortType outUid.portType) = o at hout ⊢
      rw [addPatch_eq (hin.imp_right And.left) (hout.imp_right And.left)]
      by_cases hlong : 128 ≤ (patchMessage inUid outUid i o).length
      · rw [if_pos hlong]
        exact iff_of_false not_leavesTables_error fun h => absurd h.1 (by omega)
      · rw [if_neg hlong]
        by_cases hvalid : s.ValidPort b i ∧ s.ValidPort b o
        · rw [if_pos hvalid]
          dsimp only [Option.getD_some]
          rw [leavesTables_ok, addPatch_state, sameTables_patchedTo]
          obtain ⟨hi, ho⟩ := hvalid
          simp [Store.InTable, hi.1, ho.1, hi, ho]
          omega
        · rw [if_neg hvalid]
          refine iff_of_true leavesTables_nil ⟨by omega, fun hi ho => absurd ⟨hi, ho⟩ hvalid⟩

/-- `cmd` plays no part in what `del` does to the tables. -/
theorem leavesTables_del {detached : Bool} {resUid : CStr} :
    LeavesTables b s (runCommand b s .failed detached (.del resUid)) ↔ DelQuiet b s resUid := by
  have hstopped : LeavesTables b { s with cmd := .stop }
      (doDel b { s with cmd := .stop } detached resUid) ↔ DelQuiet b s resUid :=
    leavesTables_doDel
  rw [← hstopped]
  simp only [runCommand, bind, Except.bind, pure, Except.pure]
  cases doDel b { s with cmd := .stop } detached resUid with
  | error e => exact iff_of_false not_leavesTables_error not_leavesTables_error
  | ok stores =>
    rw [leavesTables_ok, leavesTables_ok]
    simp [Store.InTable, State.SameTables, Store.apply]

/-- A word of the four types is read as its type. -/
theorem resourceType_client {word : CStr} {type : PortType} (h : (word, type) ∈ clientTypes) :
    resourceType word = some type ∧ word ≠ [] ∧ ':' ∉ word := by
  simp only [clientTypes, List.mem_cons, Prod.mk.injEq, List.not_mem_nil, or_false] at h
  rcases h with ⟨rfl, rfl⟩ | ⟨rfl, rfl⟩ | ⟨rfl, rfl⟩ | ⟨rfl, rfl⟩ <;> decide

/-- A well-formed `add` whose device is made enters its port. -/
theorem addsPort_of_clientUid {uid : CStr} {type : PortType} {id : ℤ} {pmd : Pmd} {k : ℕ}
    (huid : ClientUid uid type id) (hpmd : pmd.portId = some k) (hk : k < b.maxEthports) :
    AddsPort b s (doAdd pmd uid) k type id := by
  obtain ⟨⟨word, number, rfl, hword, hnumber⟩, hlo, hhi⟩ := huid
  obtain ⟨htype, hne, hcolon⟩ := resourceType_client hword
  have hparse := parseResourceUid_of_decimal hne hcolon hnumber
    (by unfold maxClient at hhi; omega)
  have hresult : doAdd pmd (word ++ ':' :: number) =
      .ok (pmd.stores type id ++ registerPort k id type) := by
    simp [doAdd, hparse, htype, hpmd, bind, Except.bind, pure, Except.pure]
  obtain ⟨hports, hmap⟩ := pmd_tables (s := s) pmd type id
  refine ⟨_, hresult, ?_, ?_, ?_, fun j hj => ?_⟩
  · rw [List.forall_mem_append, inTable_registerPort hk]
    exact ⟨inTable_pmd pmd type id, hlo, hhi⟩
  · rw [applyAll_append, registerPort_state]
    simp [State.registered]
  · rw [applyAll_append, registerPort_state]
    simp [State.registered]
  · rw [applyAll_append, registerPort_state]
    simp [State.registered, hj, hports, hmap]

end Effects

/-- A rejected command leaves both tables and stays within the arrays iff it gets as far
as no port, and an accepted `add` changes the entries of its own port only. A port id
that DPDK returns is one of the tables. -/
theorem tablesGuarded_iff {b : Build} {s : State} {pmd : Pmd} {detached : Bool} {c : Command}
    (hpmd : ∀ k, pmd.portId = some k → k < b.maxEthports) :
    TablesGuarded b s pmd detached c ↔ (c.Rejected b s pmd → c.Quiet b s pmd) := by
  have hadds : ∀ uid type id k, c = .add uid → ClientUid uid type id → pmd.portId = some k →
      AddsPort b s (runCommand b s pmd detached c) k type id := by
    rintro uid type id k rfl huid hk
    exact addsPort_of_clientUid huid hk (hpmd k hk)
  have hleaves : c.Rejected b s pmd →
      (LeavesTables b s (runCommand b s pmd detached c) ↔ c.Quiet b s pmd) := by
    intro hrejected
    cases c with
    | add resUid => exact leavesTables_doAdd hpmd
    | del resUid => exact leavesTables_del
    | patch src dst => exact leavesTables_patchPorts
    | other | stop | forward | reset => exact absurd hrejected id
  constructor
  · rintro ⟨hrejects, -⟩ hrejected
    exact (hleaves hrejected).mp (hrejects hrejected)
  · intro hquiet
    exact ⟨fun hrejected => (hleaves hrejected).mpr (hquiet hrejected), hadds⟩

/-- A ring that does not exist is not deleted. -/
theorem tablesGuarded_missingRing :
    (∀ k, Pmd.failed.portId = some k → k < Build.default.maxEthports) ∧
      (TablesGuarded .default (started twoPhys) .failed true (.del "ring:5".toList) ↔
        ((Command.del "ring:5".toList).Rejected .default (started twoPhys) .failed →
          (Command.del "ring:5".toList).Quiet .default (started twoPhys) .failed)) := by
  have hpmd : ∀ k, Pmd.failed.portId = some k → k < Build.default.maxEthports := by
    intro k hk
    cases hk
  exact ⟨hpmd, tablesGuarded_iff hpmd⟩

/-- A type that `do_add` does not know is entered over the first physical port. -/
theorem not_tablesGuarded_unknownType :
    ¬ TablesGuarded .default (started twoPhys) .failed true (.add "foo:5".toList) := by
  rintro ⟨hrejects, -⟩
  obtain ⟨stores, hresult, -, -, hmap⟩ := hrejects (.inr rfl)
  have hstores : runCommand .default (started twoPhys) .failed true (.add "foo:5".toList) =
      .ok (registerPort 0 5 .undef) := by decide +kernel
  rw [Except.ok.inj (hresult.symm.trans hstores), registerPort_state] at hmap
  have hentry := congrFun hmap 0
  simp only [State.registered, Function.update_self] at hentry
  exact absurd hentry (by decide +kernel)

end Spp.Nfv
