import Mathlib.Data.List.Nodup
import Spp.Ctl.AgreedCommands

/-!
# From a line of the CLI to the command of spp_vf

A line goes through the CLI, a request, a handler of spp-ctl and the decoder of
`spp_vf`. What the decoded command says is compared here with what the line spells.
-/

namespace Spp.Ctl.Agreement

open Python
open CLib (CStr strtok)
open Vf (SppCommand Limits MngData)

section Statement

variable (I : Interpreter)

/-- The decoded ability is the VLAN operation of a line. -/
def SaysVlan (ability : Vf.PortAbility) : VlanOption → Prop
  | .none => ability.ope = .none
  | .del => ability.ope = .delVlantag
  | .add vid pcp => ability.ope = .addVlantag ∧ ability.vlantag.vid = vid ∧
      ability.vlantag.pcp = pcp

/-- The decoded command is the one that a line spells. -/
def Says : VfCommand → SppCommand → Prop
  | .start name core type, .component c =>
    c.action = .start ∧ c.name = cText name ∧ (c.core : ℤ) = core ∧ c.type = type
  | .stop name, .component c => c.action = .stop ∧ c.name = cText name
  | .port action uid dir name vlan, .port c =>
    c.action = action ∧ PortIs I (.str uid) c.port ∧ c.rxtx = dir ∧ c.name = cText name ∧
      SaysVlan c.ability vlan
  | .classifier action none mac uid, .classifierTableMac c =>
    c.type = .mac ∧ c.action = action ∧ MacIs (.str mac) c.mac ∧ PortIs I (.str uid) c.port
  | .classifier action (some vid) mac uid, .classifierTableVlan c =>
    c.type = .vlan ∧ c.vid = vid ∧ c.action = action ∧ MacIs (.str mac) c.mac ∧
      PortIs I (.str uid) c.port
  | _, _ => False

/-- An integer that an `int` holds. -/
def FitsCInt (n : ℤ) : Prop := -2 ^ 31 ≤ n ∧ n < 2 ^ 31

/-- The name, the numbers and the address of a line are the ones that the decoder reads. -/
def KeptByDecoder (ts : List Str) : VfCommand → Prop
  | .start name core _ => 0 ∉ name ∧ 0 ≤ core ∧ core < 2 ^ 32
  | .stop name => 0 ∉ name
  | .port _ uid _ name vlan => 0 ∉ name ∧ PortKept I (.str uid) ∧
      ∀ vid pcp, vlan = .add vid pcp → FitsCInt vid ∧ FitsCInt pcp
  | .classifier _ vid mac uid => PortKept I (.str uid) ∧ MacKept (.str mac) ∧
      ∀ n, vid = some n → ∀ v ∈ ts[3]?, NumberKept v n

end Statement

section Lines

variable {I : Interpreter}

/-- Only a body that passes its validator leads to a command. -/
theorem passes_of_sends {r : Request} {data : List UInt8} (h : sends I r = .ok data) :
    Passes I r := by
  cases r with
  | compStart body => exact (unit_bind_eq_ok.mp h).1
  | compStop name => trivial
  | compPort name body => exact (unit_bind_eq_ok.mp h).1
  | classifier body => exact (unit_bind_eq_ok.mp h).1

/-- A word of a table stands for one value. -/
theorem names_iff_of_word {α : Type} {table : List (String × α)} (hkeys : (table.map Prod.fst).Nodup)
    {token : Str} {x y : α} (h : IsWordFor table token x) : Names table (.str token) y ↔ y = x := by
  obtain ⟨w, hw, rfl⟩ := h
  constructor
  · rintro ⟨v, hv, heq⟩
    obtain rfl := lit_inj.mp (Json.str.inj heq)
    have hpair := List.inj_on_of_nodup_map hkeys hv hw rfl
    exact (Prod.mk.inj hpair).2
  · rintro rfl
    exact ⟨w, hw, rfl⟩

/-- A token of a line is one token of its command unless it has a terminator. -/
theorem isOneToken_iff {name : Str} (hne : name ≠ []) (hblank : 32 ∉ name) :
    IsOneToken name ↔ 0 ∉ name :=
  ⟨fun h => h.2.2, fun h => ⟨hne, hblank, h⟩⟩

/-- What a body says and whether its meaning is kept decide what the line says. -/
theorem says_iff {c : VfCommand} {ts : List Str} {r : Request} {data : List UInt8} {L : Limits}
    {s : MngData} {command : SppCommand} (hsend : sends I r = .ok data) (hfloats : FloatsPrinted r)
    (h : Vf.sppCommandDecodeRequest L .vf s (received data) = .ok command)
    (hmeaning : Denotes I r command ↔ Says I c command)
    (hkept : MeaningKept I r ↔ KeptByDecoder I ts c) :
    Says I c command ↔ KeptByDecoder I ts c := by
  rw [← hmeaning, ← hkept]
  exact denotes_iff (passes_of_sends hsend) hfloats hsend h

variable {ts : List Str} {data : List UInt8} {L : Limits} {s : MngData} {command : SppCommand}

/-- A start that is decoded is the start of the line. -/
theorem says_start_iff {name type : Str} {core : ℤ} {t : Vf.ComponentType} (hname : name ≠ [])
    (hblank : 32 ∉ name) (htype : IsWordFor roleWords type t)
    (hsend : sends I (.compStart [(lit "name", .str name), (lit "core", .int core),
      (lit "type", .str type)]) = .ok data)
    (h : Vf.sppCommandDecodeRequest L .vf s (received data) = .ok command) :
    Says I (.start name core t) command ↔ KeptByDecoder I ts (.start name core t) := by
  have hlookups : ∀ body : Body, body = [(lit "name", .str name), (lit "core", .int core),
      (lit "type", .str type)] → body.lookup (lit "name") = some (.str name) ∧
        body.lookup (lit "core") = some (.int core) ∧ body.lookup (lit "type") = some (.str type) := by
    rintro body rfl
    exact ⟨rfl, rfl, rfl⟩
  generalize hbody : [(lit "name", Json.str name), (lit "core", .int core),
    (lit "type", .str type)] = body at hsend
  obtain ⟨hnames, hcores, htypes⟩ := hlookups body hbody.symm
  refine says_iff hsend trivial h ?_ ?_
  · cases command with
    | component c =>
      simp only [Denotes, Says, Has, hnames, hcores, htypes, Option.some.injEq, exists_eq_left',
        names_iff_of_word (by decide) htype, Json.str.injEq]
      simp [Python.int, eq_comm]
    | _ => rfl
  · simp [MeaningKept, Has, hnames, hcores, KeptByDecoder, isOneToken_iff hname hblank]

/-- A stop that is decoded is the stop of the line. -/
theorem says_stop_iff {name : Str} (hname : name ≠ []) (hblank : 32 ∉ name)
    (hsend : sends I (.compStop name) = .ok data)
    (h : Vf.sppCommandDecodeRequest L .vf s (received data) = .ok command) :
    Says I (.stop name) command ↔ KeptByDecoder I ts (.stop name) := by
  refine says_iff hsend trivial h ?_ ?_
  · cases command with
    | component c => rfl
    | _ => rfl
  · simp [MeaningKept, KeptByDecoder, isOneToken_iff hname hblank]

/-- The operation that the CLI sends for a VLAN option. -/
def optionOf : VlanOption → Body
  | .none => [(lit "operation", .str (lit "none")), (lit "id", .str (lit "none")),
      (lit "pcp", .str (lit "none"))]
  | .del => [(lit "operation", .str (lit "del")), (lit "id", .str (lit "none")),
      (lit "pcp", .str (lit "none"))]
  | .add vid pcp => [(lit "operation", .str (lit "add")), (lit "id", .int vid), (lit "pcp", .int pcp)]

/-- A port command that is decoded is the one of the line. -/
theorem says_port_iff {action : Vf.CommandAction} {uid d name : Str} {dir : Vf.PortRxtx}
    {vlan : VlanOption} {body : Body} (hname : name ≠ []) (hblank : 32 ∉ name)
    (hdir : IsWordFor dirWords d dir) (hvlan : vlan ≠ .none → action = .add)
    (haction : ∃ w, (w, action) ∈ attachWords ∧ body.lookup (lit "action") = some (.str (lit w)))
    (hport : body.lookup (lit "port") = some (.str uid))
    (hdirs : body.lookup (lit "dir") = some (.str d))
    (hoption : body.lookup (lit "vlan") = some (.dict (optionOf vlan)))
    (hsend : sends I (.compPort name body) = .ok data)
    (h : Vf.sppCommandDecodeRequest L .vf s (received data) = .ok command) :
    Says I (.port action uid dir name vlan) command ↔
      KeptByDecoder I ts (.port action uid dir name vlan) := by
  obtain ⟨w, hw, hactions⟩ := haction
  have hedit : ∀ y, Names attachWords (.str (lit w)) y ↔ y = action := fun y =>
    names_iff_of_word (by decide) ⟨w, hw, rfl⟩
  have hrequested : requestedVlan body = some (.dict (optionOf vlan)) ∨
      vlan = .none ∧ requestedVlan body = none := by
    rw [requestedVlan, isField_eq hactions, Json.eqStr_str, vlanOf, hoption]
    have htruthy : (Json.dict (optionOf vlan)).truthy = true := by
      cases vlan <;> rfl
    simp only [attachWords, List.mem_cons, Prod.mk.injEq, List.not_mem_nil, or_false] at hw
    rcases hw with ⟨rfl, -⟩ | ⟨rfl, hdel⟩
    · exact .inl (by simp [htruthy])
    · refine .inr ⟨?_, rfl⟩
      by_contra hne
      rw [hvlan hne] at hdel
      cases hdel
  refine says_iff hsend trivial h ?_ ?_
  · cases command with
    | port c =>
      have hvlans : VlanIs I (requestedVlan body) c.ability ↔ SaysVlan c.ability vlan := by
        have hword : ∀ (op : String) (x : Vf.PortAbilityOpe), (op, x) ∈ operationWords → ∀ y,
            Names operationWords (.str (lit op)) y ↔ y = x := fun _ _ hop _ =>
          names_iff_of_word (by decide) ⟨_, hop, rfl⟩
        obtain hsome | ⟨rfl, hnone⟩ := hrequested
        · rw [hsome]
          cases vlan with
          | none =>
            have hlookup : (optionOf .none).lookup (lit "operation") = some (.str (lit "none")) := rfl
            simp only [VlanIs, SaysVlan, Has, hlookup, Option.some.injEq, exists_eq_left',
              hword "none" .none (by decide)]
            exact and_iff_left_of_imp fun hope hadd => by simp [hope] at hadd
          | del =>
            have hlookup : (optionOf .del).lookup (lit "operation") = some (.str (lit "del")) := rfl
            simp only [VlanIs, SaysVlan, Has, hlookup, Option.some.injEq, exists_eq_left',
              hword "del" .delVlantag (by decide)]
            exact and_iff_left_of_imp fun hope hadd => by simp [hope] at hadd
          | add vid pcp =>
            have hlookup : (optionOf (.add vid pcp)).lookup (lit "operation") =
              some (.str (lit "add")) := rfl
            have hvid : (optionOf (.add vid pcp)).lookup (lit "id") = some (.int vid) := rfl
            have hpcp : (optionOf (.add vid pcp)).lookup (lit "pcp") = some (.int pcp) := rfl
            simp only [VlanIs, SaysVlan, Has, hlookup, hvid, hpcp, Option.some.injEq,
              exists_eq_left', hword "add" .addVlantag (by decide), Python.int]
            exact and_congr_right fun hope => by simp [hope, eq_comm]
        · rw [hnone]
          rfl
      simp only [Denotes, Says, Has, hactions, hport, hdirs, Option.some.injEq, exists_eq_left',
        hedit, names_iff_of_word (by decide) hdir, hvlans]
    | _ => rfl
  · simp only [MeaningKept, Has, hport, Option.some.injEq, exists_eq_left', KeptByDecoder,
      isOneToken_iff hname hblank]
    refine and_congr_right' (and_congr_right' ?_)
    obtain hsome | ⟨rfl, hnone⟩ := hrequested
    · simp only [hsome, Option.some.injEq, Json.dict.injEq, forall_eq']
      cases vlan with
      | none =>
        have hfield : isField (optionOf .none) "operation" "add" = false := by decide
        simp [hfield]
      | del =>
        have hfield : isField (optionOf .del) "operation" "add" = false := by decide
        simp [hfield]
      | add vid pcp =>
        have hfield : isField (optionOf (.add vid pcp)) "operation" "add" = true := rfl
        have hvid : (optionOf (.add vid pcp)).lookup (lit "id") = some (.int vid) := rfl
        have hpcp : (optionOf (.add vid pcp)).lookup (lit "pcp") = some (.int pcp) := rfl
        simp [hfield, hvid, hpcp, Python.int, FitsCInt]
    · simp [hnone]

/-- A member that is a word is that word only. -/
theorem has_isWord_iff {body : Body} {key w v : String}
    (h : body.lookup (lit key) = some (.str (lit w))) : Has body key (IsWord [v]) ↔ w = v := by
  simp [Has, h, IsWord]

/-- A command for the classifier table that is decoded is the one of the line. -/
theorem says_classifier_iff {action : Vf.CommandAction} {a mac uid : Str} {vid : Option ℤ}
    {kind : List Str} {body : Body} (haction : IsWordFor editWords a action)
    (hkind : EntrySpells I kind vid)
    (hentry : HasEntry body a (lit (if vid = none then "mac" else "vlan")) mac uid)
    (hvlan : body.lookup (lit "vlan") = kind[1]?.map Json.str)
    (hts : ts = lit "classifier_table" :: a :: (kind ++ [mac, uid]))
    (hsend : sends I (.classifier body) = .ok data)
    (h : Vf.sppCommandDecodeRequest L .vf s (received data) = .ok command) :
    Says I (.classifier action vid mac uid) command ↔
      KeptByDecoder I ts (.classifier action vid mac uid) := by
  have hfloats : FloatsPrinted (.classifier body) := by
    intro x hx
    rw [hvlan, Option.map_eq_some_iff] at hx
    obtain ⟨_, -, heq⟩ := hx
    cases heq
  have hentries : ∀ c, EntryIs I body c ↔
      c.action = action ∧ MacIs (.str mac) c.mac ∧ PortIs I (.str uid) c.port := fun c => by
    simp only [EntryIs, Has, hentry.action, hentry.mac, hentry.port, Option.some.injEq,
      exists_eq_left', names_iff_of_word (show (editWords.map Prod.fst).Nodup by decide) haction]
  cases vid with
  | none =>
    obtain rfl : kind = [lit "mac"] := hkind
    rw [if_pos rfl] at hentry
    refine says_iff hsend hfloats h ?_ ?_
    · cases command with
      | classifierTableMac c =>
        simp only [Denotes, Says, has_isWord_iff hentry.type, true_and, hentries]
      | classifierTableVlan c =>
        have hne : "mac" ≠ "vlan" := by decide
        simp only [Denotes, Says, has_isWord_iff hentry.type, hne, false_and]
      | _ => rfl
    · have hfield : isField body "type" "vlan" = false := by
        rw [isField_eq hentry.type]
        decide
      simp [MeaningKept, KeptByDecoder, Has, hentry.port, hentry.mac, hfield]
  | some n =>
    obtain ⟨v, rfl, hv⟩ := hkind
    rw [if_neg (by simp)] at hentry
    refine says_iff hsend hfloats h ?_ ?_
    · cases command with
      | classifierTableMac c =>
        have hne : "vlan" ≠ "mac" := by decide
        simp only [Denotes, Says, has_isWord_iff hentry.type, hne, false_and]
      | classifierTableVlan c =>
        have hvids : Has body "vlan" (fun w => Python.int I w = some c.vid) ↔ c.vid = n := by
          simp [Has, hvlan, Python.int, hv, eq_comm]
        simp only [Denotes, Says, has_isWord_iff hentry.type, true_and, hentries, hvids]
      | _ => rfl
    · have hfield : isField body "type" "vlan" = true := by
        rw [isField_eq hentry.type]
        decide
      simp [MeaningKept, KeptByDecoder, Has, hentry.port, hentry.mac, hfield, hvlan, ValueKept,
        Python.int, hv, hts, str]

end Lines

section Shell

variable {I : Interpreter} {W : Web} {useCache : Bool} {secId : ℕ}

/-- A line that spells a command leads to one request, and whatever state `spp_vf` is in,
the command that it decodes is the one of the line exactly if the name, the numbers and
the address of the line are the ones that the decoder reads. -/
theorem shell_says_iff {cmdline : Str} {c : VfCommand}
    (hspells : Spells I euiForms (tokens cmdline) c) (htext : ∀ t ∈ tokens cmdline, IsText t)
    (hcarried : Carried W secId (tokens cmdline)) :
    ∃ request data, run I secId useCache cmdline = refresh secId useCache ++ [request] ∧
      Sends I euiForms W request secId data ∧
      ∀ (L : Limits) (s : MngData) (command : SppCommand),
        Vf.sppCommandDecodeRequest L .vf s (received data) = .ok command →
          (Says I c command ↔ KeptByDecoder I (tokens cmdline) c) := by
  have hblank : ∀ t ∈ tokens cmdline, 32 ∉ t := fun t ht => notMem_of_mem_splitOn ht
  have hencode : ∀ ws : List Str, (∀ w ∈ ws, IsText w) → ∃ data, encode (joinBlank ws) = some data :=
    fun ws hws => ⟨_, encode_eq_some.mpr ⟨isText_intercalate.mpr hws, rfl⟩⟩
  simp only [run_eq_iff]
  generalize tokens cmdline = ts at *
  cases c with
  | start name core type =>
    obtain ⟨k, t, rfl, hname, hcore, htype⟩ := hspells
    obtain ⟨data, hdata⟩ := hencode [lit "component", lit "start", name, intText core, t] (by
      simp only [List.forall_mem_cons, List.not_mem_nil, false_implies, implies_true, and_true]
        at htext ⊢
      exact ⟨htext.1, htext.2.1, htext.2.2.1, isText_intText core, htext.2.2.2.2⟩)
    have hsend := vfCompStart_iff (I := I).mpr ⟨⟨type, htype⟩, hdata⟩
    refine ⟨_, data, runComponent_eq_ok.mpr
      ⟨_, rfl, .inl ⟨rfl, _, rfl, _, rfl, _, hcore, _, rfl, rfl⟩⟩, sends_post_iff.mpr ⟨rfl, hsend⟩, ?_⟩
    exact fun L s command h => says_start_iff hname (hblank name (by simp)) htype hsend h
  | stop name =>
    obtain ⟨rfl, hname⟩ := hspells
    obtain ⟨data, hdata⟩ := hencode [lit "component", lit "stop", name] htext
    refine ⟨_, data, runComponent_eq_ok.mpr ⟨_, rfl, .inr ⟨rfl, _, rfl, rfl⟩⟩,
      sends_delete_iff.mpr (.inr ⟨_, hcarried.stop name rfl, hdata⟩), fun L s command h => ?_⟩
    exact says_stop_iff hname (hblank name (by simp)) (execCommand_some.mpr hdata) h
  | port action uid dir name vlan =>
    obtain ⟨a, d, rest, rfl, haction, huid, hdir, hname, hvlan⟩ := hspells
    have hroute := hcarried.port a uid d name rest rfl
    have hport := huid.valid
    -- The request for the port, with its words, and what the CLI makes of the line.
    obtain ⟨act, operation, vid, pcp, words, hrun, hsends, hact, hoption, hadd, hwords⟩ :
        ∃ act operation vid pcp words,
          runTokens I secId (lit "port" :: a :: uid :: d :: name :: rest) = .ok (some
            (.put (portsPath secId name) (portParams act uid d operation vid pcp))) ∧
          (∀ data, encode (joinBlank words) = some data →
            vfCompPort I name (portParams act uid d operation vid pcp) = .ok data) ∧
          (act, action) ∈ attachWords ∧
          [(lit "operation", Json.str (lit operation)), (lit "id", vid), (lit "pcp", pcp)] =
            optionOf vlan ∧
          (vlan ≠ .none → action = .add) ∧ ∀ w ∈ words, IsText w := by
      simp only [List.forall_mem_cons] at htext
      obtain ⟨-, -, huidText, hdText, hnameText, -⟩ := htext
      have hfive : ∀ (b : String) (more : List Str), (∀ w ∈ more, IsText w) →
          ∀ w ∈ lit "port" :: lit b :: uid :: d :: name :: more, IsText w := fun b more hmore => by
        simp only [List.forall_mem_cons]
        exact ⟨isText_lit _, isText_lit _, huidText, hdText, hnameText, hmore⟩
      cases vlan with
      | none =>
        obtain rfl : rest = [] := hvlan
        obtain ⟨rfl, rfl⟩ | ⟨rfl, rfl⟩ := editWord_eq haction
        · exact ⟨"attach", "none", _, _, _, rfl, fun data hdata =>
            (vfCompPort_attach_iff (.inl ⟨rfl, rfl⟩)).mpr ⟨⟨⟨dir, hdir⟩, hport⟩, hdata⟩,
            by decide, rfl, fun hne => absurd rfl hne, hfive "add" [] (by simp)⟩
        · exact ⟨"detach", "none", _, _, _, rfl, fun data hdata =>
            vfCompPort_detach_iff.mpr ⟨⟨⟨dir, hdir⟩, hport⟩, hdata⟩,
            by decide, rfl, fun hne => absurd rfl hne, hfive "del" [] (by simp)⟩
      | del =>
        obtain ⟨rfl, rfl⟩ := hvlan
        exact ⟨"attach", "del", _, _, _, rfl, fun data hdata =>
          (vfCompPort_attach_iff (.inr (.inl ⟨rfl, rfl⟩))).mpr ⟨⟨⟨dir, hdir⟩, hport⟩, hdata⟩,
          by decide, rfl, fun _ => rfl, hfive "add" _ (by simpa using isText_lit "del_vlantag")⟩
      | add vid pcp =>
        obtain ⟨rfl, v, p, rfl, hv, hp⟩ := hvlan
        exact ⟨"attach", "add", _, _, _, runPort_seven a (.inl ⟨rfl, rfl⟩) hv hp, fun data hdata =>
          (vfCompPort_attach_iff (.inr (.inr ⟨rfl, _, _, rfl, rfl, rfl⟩))).mpr
            ⟨⟨⟨dir, hdir⟩, hport⟩, hdata⟩, by decide, rfl, fun _ => rfl,
          hfive "add" _ (by simpa using
            ⟨isText_lit "add_vlantag", isText_intText vid, isText_intText pcp⟩)⟩
    obtain ⟨data, hdata⟩ := hencode words hwords
    refine ⟨_, data, hrun, sends_port_iff.mpr ⟨name, hroute, hsends data hdata⟩,
      fun L s command h => ?_⟩
    exact says_port_iff hname (hblank name (by simp)) hdir hadd ⟨act, hact, rfl⟩ rfl rfl
      (by rw [← hoption]; rfl) (hsends data hdata) h
  | classifier action vid mac uid =>
    obtain ⟨a, kind, rfl, haction, hkind, ⟨-, hmac⟩, huid⟩ := hspells
    have hport := huid.valid
    cases vid with
    | none =>
      obtain rfl : kind = [lit "mac"] := hkind
      obtain ⟨data, hdata⟩ := hencode [lit "classifier_table", a, lit "mac", mac, uid] htext
      have hsend : vfClassifier I euiForms [(lit "action", .str a), (lit "type", .str (lit "mac")),
          (lit "mac_address", .str mac), (lit "port", .str uid)] = .ok data :=
        (vfClassifier_iff ⟨rfl, rfl, rfl, rfl⟩).mpr
          ⟨⟨⟨action, haction⟩, hport, hmac⟩, .inl ⟨rfl, hdata⟩⟩
      refine ⟨_, data, rfl, sends_classifier_iff.mpr ⟨rfl, hsend⟩, fun L s command h => ?_⟩
      exact says_classifier_iff haction (show EntrySpells I [lit "mac"] none from rfl)
        ⟨rfl, rfl, rfl, rfl⟩ rfl rfl hsend h
    | some n =>
      obtain ⟨v, rfl, hv⟩ := hkind
      obtain ⟨data, hdata⟩ := hencode [lit "classifier_table", a, lit "vlan", v, mac, uid] htext
      have hsend : vfClassifier I euiForms [(lit "action", .str a), (lit "type", .str (lit "vlan")),
          (lit "vlan", .str v), (lit "mac_address", .str mac), (lit "port", .str uid)] = .ok data :=
        (vfClassifier_iff ⟨rfl, rfl, rfl, rfl⟩).mpr
        ⟨⟨⟨action, haction⟩, hport, hmac⟩, .inr ⟨rfl, _, rfl, Option.isSome_of_eq_some hv, hdata⟩⟩
      refine ⟨_, data, rfl, sends_classifier_iff.mpr ⟨rfl, hsend⟩, fun L s command h => ?_⟩
      have hspelled : EntrySpells I [lit "vlan", v] (some n) := ⟨v, rfl, hv⟩
      exact says_classifier_iff haction hspelled
        ⟨rfl, rfl, rfl, rfl⟩ rfl rfl hsend h

/-- A line that adds a VLAN tag is the command that `spp_vf` decodes. -/
theorem shell_says_addTagLine :
    ∃ request data, run .ascii 1 false addTagLine = refresh 1 false ++ [request] ∧
      Sends .ascii euiForms Web.literal request 1 data ∧
      ∀ (L : Limits) (s : MngData) (command : SppCommand),
        Vf.sppCommandDecodeRequest L .vf s (received data) = .ok command →
          (Says .ascii (.port .add (lit "phy:1") .tx (lit "fw2") (.add 101 3)) command ↔
            KeptByDecoder .ascii (tokens addTagLine)
              (.port .add (lit "phy:1") .tx (lit "fw2") (.add 101 3))) := by
  have htokens : tokens addTagLine =
      ["port", "add", "phy:1", "tx", "fw2", "add_vlantag", "101", "3"].map lit := by decide
  refine shell_says_iff ?_ ?_ ⟨fun name h => ?_, fun a u d name rest h => ?_⟩
  · rw [htokens]
    exact ⟨_, _, _, rfl, ⟨"add", by decide, rfl⟩,
      ⟨"phy", by decide, lit "1", by decide, by decide, by decide⟩, ⟨"tx", by decide, rfl⟩,
      by decide, rfl, _, _, rfl, by decide, by decide⟩
  · rw [htokens]
    decide
  · rw [htokens] at h
    simp at h
  · rw [htokens] at h
    simp only [List.map_cons, List.cons.injEq, true_and] at h
    rw [← h.2.2.2.1]
    exact Web.literal.put_ports 1 _ (by decide)

end Shell

end Spp.Ctl.Agreement
