import Spp.Ctl.Launch
import Spp.Primary.ParseCommand

/-!
# Which launch options reach a secondary

The options of `pri; launch` become a dictionary, pass two tables, become one
string and are cut into tokens again. Here is what arrives in `sec_args`, and for
which parameters these are all options with their values.
-/

namespace Spp.Ctl

open Python Options CLib Primary

section Parameters

variable (params : List Str)

/-- The arguments of a launch, after the type and the ID. -/
def launchArgs : List Str := (splitId (params.drop 1)).2

/-- The arguments before the separator. -/
def ealArgs : List Str := (launchArgs params).takeWhile (· ≠ lit "--")

/-- The arguments after the separator. -/
def appArgs : List Str := ((launchArgs params).dropWhile (· ≠ lit "--")).drop 1

/-- The options before the separator, with their values. -/
def givenEal : List (Str × Option Str) := occurrences startsWithDash (ealArgs params)

/-- The options after the separator, with their values. -/
def givenApp : List (Str × Option Str) := occurrences startsWithDash (appArgs params)

/-- The name of the process to launch. -/
def launchName : Str := procNameOf (params.headD [])

/-- The requested ID: in its place, or else the value of an option. -/
def requestedId : Option Str :=
  (splitId (params.drop 1)).1.or
    (if procTypeOf (params.headD []) = lit "nfv" ∧ lit "-n" ∈ (givenApp params).map Prod.fst then
      (lastValue (givenApp params) (lit "-n")).join
    else (lastValue (givenApp params) (lit "--client-id")).join)

/-- The options that the secondary is to get before the separator. -/
def expectedEal : List (Str × Option Str) :=
  givenEal params ++
    if lit "--proc-type" ∈ (givenEal params).map Prod.fst then []
    else [(lit "--proc-type", some (lit "secondary"))]

/-- The options that the secondary is to get after the separator. -/
def expectedApp (secId : Option Str) : List (Str × Option Str) :=
  (givenApp params).filter (fun o => o.1 ≠ idOption (launchName params)) ++
    [(idOption (launchName params), secId)]

/-- The options before the separator that the CLI sends. -/
def sentEal : List (Str × Option Str) :=
  givenEal params ++
    if lit "--proc-type" ∉ launchArgs params then [(lit "--proc-type", some (lit "secondary"))]
    else []

end Parameters

section Dictionary

/-- The value that is set after its option is the one that the option keeps. -/
theorem setupOpts_some (rest : List Str) (key : Str) (d : Body) :
    setupOpts rest (some key) d =
      setupOpts rest none ((rest.head?.filter fun v => !startsWithDash v).elim d fun v =>
        setItem d key (.str v)) := by
  cases rest with
  | nil => rfl
  | cons v rest =>
    by_cases hv : startsWithDash v = true
    · simp [setupOpts, hv, Option.filter]
    · simp [setupOpts, hv, Option.filter]

/-- The loop sets every option to its last value. -/
theorem lookup_setupOpts (l : List Str) (d : Body) (k : Str) :
    (setupOpts l none d).lookup k =
      ((lastValue (occurrences startsWithDash l) k).map strOrNone).or (d.lookup k) := by
  induction l generalizing d with
  | nil => rfl
  | cons t rest ih =>
    by_cases ht : startsWithDash t = true
    · rw [setupOpts, if_pos ht, setupOpts_some, ih, occurrences, if_pos ht, lastValue_cons]
      have hset : ((rest.head?.filter fun v => !startsWithDash v).elim (setItem d t .null)
          fun v => setItem (setItem d t .null) t (.str v)).lookup k =
          if k == t then some (strOrNone (rest.head?.filter fun v => !startsWithDash v))
          else d.lookup k := by
        cases rest.head?.filter fun v => !startsWithDash v with
        | none => exact lookup_setItem d t k .null
        | some v =>
          simp only [Option.elim, lookup_setItem]
          cases k == t <;> rfl
      rw [hset]
      cases lastValue (occurrences startsWithDash rest) k with
      | none => cases k == t <;> simp
      | some v => simp
    · rw [setupOpts, if_neg ht, occurrences, if_neg ht]
      exact ih d

/-- The dictionary of a command line has the last value of every option. -/
theorem lookup_setupOptsDict (l : List Str) (k : Str) :
    (setupOptsDict l).lookup k =
      (lastValue (occurrences startsWithDash l) k).map strOrNone := by
  rw [setupOptsDict, lookup_setupOpts]
  simp

end Dictionary

section Tokens

variable {params : List Str} {P : Str → Prop}

/-- The arguments of a launch are parameters. -/
theorem mem_of_mem_launchArgs {t : Str} (h : t ∈ launchArgs params) : t ∈ params := by
  cases params with
  | nil => exact absurd h List.not_mem_nil
  | cons procType params =>
    cases params with
    | nil => exact absurd h List.not_mem_nil
    | cons param params =>
      simp only [launchArgs, List.drop_succ_cons, List.drop_zero, splitId] at h
      split at h
      · exact List.mem_cons_of_mem procType h
      · exact List.mem_cons_of_mem procType (List.mem_cons_of_mem param h)

/-- The given options consist of parameters. -/
theorem mem_of_mem_words_given {t : Str}
    (h : t ∈ words (givenEal params) ∨ t ∈ words (givenApp params)) : t ∈ params := by
  obtain h | h := h
  · exact mem_of_mem_launchArgs
      ((List.takeWhile_sublist _).subset (mem_of_mem_words_occurrences h))
  · exact mem_of_mem_launchArgs
      ((List.dropWhile_sublist _).subset (List.mem_of_mem_drop (mem_of_mem_words_occurrences h)))

/-- The requested ID is a parameter. -/
theorem mem_of_requestedId {id : Str} (h : requestedId params = some id) : id ∈ params := by
  have hvalue (k : Str) (hk : (lastValue (givenApp params) k).join = some id) : id ∈ params := by
    have hlast := Option.join_eq_some_iff.mp hk
    exact mem_of_mem_words_given (.inr (mem_words.mpr ⟨_, mem_of_lastValue hlast, .inr rfl⟩))
  unfold requestedId at h
  cases hplace : (splitId (params.drop 1)).1 with
  | none =>
    rw [hplace, Option.none_or] at h
    split at h
    · exact hvalue _ h
    · exact hvalue _ h
  | some place =>
    rw [hplace, Option.some_or] at h
    cases h
    match params with
    | [] => cases hplace
    | [_] => cases hplace
    | procType :: param :: params =>
      simp only [List.drop_succ_cons, List.drop_zero, splitId] at hplace
      split at hplace
      · cases hplace
      · cases hplace
        exact List.mem_cons_of_mem procType List.mem_cons_self

/-- What holds of the parameters and of the words of the option for the process type
holds of the options before the separator. -/
theorem forall_words_sentEal (hparams : ∀ t ∈ params, P t) (htype : P (lit "--proc-type"))
    (hsecondary : P (lit "secondary")) : ∀ t ∈ words (sentEal params), P t := by
  intro t ht
  obtain ⟨o, ho, hto⟩ := mem_words.mp ht
  obtain ho | ho := List.mem_append.mp ho
  · exact hparams t (mem_of_mem_words_given (.inl (mem_words.mpr ⟨o, ho, hto⟩)))
  · split at ho
    · obtain rfl := List.mem_singleton.mp ho
      obtain rfl | hto := hto
      · exact htype
      · obtain rfl := Option.some.inj hto
        exact hsecondary
    · exact absurd ho List.not_mem_nil

/-- What holds of the parameters and of the option for the ID holds of the options
after the separator. -/
theorem forall_words_sentApp (hparams : ∀ t ∈ params, P t)
    (hid : P (idOption (launchName params))) :
    ∀ t ∈ words (givenApp params ++ [(idOption (launchName params), requestedId params)]), P t := by
  intro t ht
  obtain ⟨o, ho, hto⟩ := mem_words.mp ht
  obtain ho | ho := List.mem_append.mp ho
  · exact hparams t (mem_of_mem_words_given (.inr (mem_words.mpr ⟨o, ho, hto⟩)))
  · obtain rfl := List.mem_singleton.mp ho
    obtain rfl | hto := hto
    · exact hid
    · exact hparams t (mem_of_requestedId hto)

/-- The words of a selection are words of the options. -/
theorem mem_words_of_select {t : Str} {table : List Str} {os : List (Str × Option Str)}
    (h : t ∈ words (select table os)) : t ∈ words os := by
  obtain ⟨o, ho, hto⟩ := mem_words.mp h
  exact mem_words.mpr ⟨o, (mem_select ho).2, hto⟩

end Tokens

section Request

variable {params : List Str} {secIds : List Json} {request : Body}

/-- The dictionary of the options that the CLI sends before the separator. -/
theorem lookup_sentEal (k : Str) :
    (setupOptsDict (if lit "--proc-type" ∉ launchArgs params then
      ealArgs params ++ [lit "--proc-type", lit "secondary"] else ealArgs params)).lookup k =
        (lastValue (sentEal params) k).map strOrNone := by
  rw [lookup_setupOptsDict, sentEal, givenEal]
  by_cases hpt : lit "--proc-type" ∉ launchArgs params
  · have hdash : ∀ t ∈ [lit "--proc-type", lit "secondary"].head?, startsWithDash t = true := by
      decide
    rw [if_pos hpt, if_pos hpt, occurrences_append _ hdash]
    rfl
  · rw [if_neg hpt, if_neg hpt, List.append_nil]

/-- The name of a supported type is its name with the prefix. -/
theorem procNameOf_eq (procType : Str) :
    procNameOf procType = lit "spp_" ++ procTypeOf procType := by
  unfold procNameOf procTypeOf
  split
  · rename_i hprefix
    obtain ⟨rest, rfl⟩ := List.isPrefixOf_iff_prefix.mp hprefix
    rfl
  · rfl

/-- The ID of the request is the requested one. -/
theorem findSecId_eq {procType : Str} {app : Body} {os : List (Str × Option Str)} {secId : Json}
    (happ : ∀ k, app.lookup k = (lastValue os k).map strOrNone)
    (h : findSecId procType app = some secId) :
    secId = strOrNone (if procType = lit "nfv" ∧ lit "-n" ∈ os.map Prod.fst then
      (lastValue os (lit "-n")).join else (lastValue os (lit "--client-id")).join) := by
  have hsome : (app.lookup (lit "-n")).isSome ↔ lit "-n" ∈ os.map Prod.fst := by
    rw [happ, Option.isSome_map, isSome_lastValue]
  have hvalue (k : Str) (hk : app.lookup k = some secId) :
      secId = strOrNone (lastValue os k).join := by
    rw [happ, Option.map_eq_some_iff] at hk
    obtain ⟨v, hv, rfl⟩ := hk
    rw [hv]
    rfl
  unfold findSecId at h
  split at h
  · rename_i hnfv
    rw [if_pos ⟨hnfv.1, hsome.mp hnfv.2⟩]
    exact hvalue _ h
  · rename_i hother
    rw [if_neg fun hnfv => hother ⟨hnfv.1, hsome.mpr hnfv.2⟩]
    exact hvalue _ h

/-- The request of `_run_launch`. -/
theorem runLaunch_ok (h : runLaunch secIds params = .ok request) :
    (∃ w ∈ secTypes, launchName params = lit "spp_" ++ lit w) ∧ lit "--" ∈ launchArgs params ∧
      ∃ eal app, request = [(lit "proc_name", .str (launchName params)), (lit "eal", .dict eal),
          (lit "app", .dict app), (lit "client_id", strOrNone (requestedId params))] ∧
        (∀ k, eal.lookup k = (lastValue (sentEal params) k).map strOrNone) ∧
        ∀ k, app.lookup k = (lastValue (givenApp params ++
          [(idOption (launchName params), requestedId params)]) k).map strOrNone := by
  match params with
  | [] => cases h
  | [_] => cases h
  | procType :: param :: params =>
    simp only [runLaunch] at h
    split at h
    · cases h
    rename_i htype
    split at h
    · cases h
    rename_i hseparator
    split at h
    · cases h
    rename_i secId hid
    split at h
    · cases h
    cases h
    have happ (k : Str) : (setupOptsDict (appArgs (procType :: param :: params))).lookup k =
        (lastValue (givenApp (procType :: param :: params)) k).map strOrNone :=
      lookup_setupOptsDict _ k
    have hsecId : secId = strOrNone (requestedId (procType :: param :: params)) := by
      unfold requestedId
      cases hplace : (splitId (param :: params)).1 with
      | none =>
        rw [hplace] at hid
        simp only [List.drop_succ_cons, List.drop_zero, hplace, Option.none_or]
        exact findSecId_eq happ hid
      | some id =>
        rw [hplace] at hid
        simp only [List.drop_succ_cons, List.drop_zero, hplace, Option.some_or]
        exact (Option.some.inj hid).symm
    refine ⟨?_, not_not.mp hseparator, _,
      setItem (setupOptsDict (appArgs (procType :: param :: params)))
        (idOption (launchName (procType :: param :: params))) secId, ?_, lookup_sentEal,
      fun k => ?_⟩
    · have hin : (Json.str (procTypeOf procType)).inStrs secTypes = true := by simpa using htype
      obtain ⟨w, hw, heq⟩ := Json.inStrs_eq_true.mp hin
      refine ⟨w, hw, ?_⟩
      rw [launchName, List.headD_cons, procNameOf_eq, Json.str.inj heq]
    · rw [← hsecId]
      rfl
    · rw [lookup_setItem, lastValue_append, hsecId, happ]
      split <;> rfl

end Request

section Command

variable (I : Interpreter)

/-- The options of a table are collected in its order, each with its last value. -/
theorem collectOpts_select {args : Body} {os : List (Str × Option Str)}
    (hargs : ∀ k, args.lookup k = (lastValue os k).map strOrNone)
    (hvalues : ∀ o ∈ os, ∀ v ∈ o.2, v ≠ []) (opts : List String) (collected : List Str) :
    collectOpts I args opts collected = collected ++ words (select (opts.map lit) os) := by
  induction opts generalizing collected with
  | nil => simp [collectOpts, select, words]
  | cons opt opts ih =>
    have hopt := hargs (lit opt)
    unfold select words at ih ⊢
    cases hlast : lastValue os (lit opt) with
    | none =>
      rw [hlast] at hopt
      simp only [collectOpts, hopt, Option.map_none, ih, List.map_cons, List.filterMap_cons, hlast]
    | some value =>
      rw [hlast] at hopt
      cases value with
      | none =>
        simp only [collectOpts, hopt, Option.map_some, strOrNone, ih, List.map_cons,
          List.filterMap_cons, hlast, List.flatMap_cons, Option.toList_none, List.append_assoc]
      | some v =>
        have hv : v ≠ [] := hvalues _ (mem_of_lastValue hlast) v rfl
        have hne : (Json.str v).eqStr [] = false := by simpa using hv
        simp only [collectOpts, hopt, Option.map_some, strOrNone, hne, Bool.false_eq_true, if_false,
          ih, List.map_cons, List.filterMap_cons, hlast, List.flatMap_cons, Option.toList_some,
          List.append_assoc, str]

/-- The options of `APP_OPTS` for a process. -/
def appTable (procName : Str) : List Str :=
  (((appOpts.find? fun p => lit p.1 = procName).map Prod.snd).getD []).map lit

/-- No option is twice in `EAL_OPTS`. -/
theorem nodup_ealOpts : (ealOpts.map lit).Nodup := by decide +kernel

/-- Every process has a table, which names no option twice and has the option for the
ID but not the one for the process type. -/
theorem appTable_spec : ∀ w ∈ secTypes,
    (appOpts.find? fun p => lit p.1 = lit "spp_" ++ lit w).isSome = true ∧
      (appTable (lit "spp_" ++ lit w)).Nodup ∧
      idOption (lit "spp_" ++ lit w) ∈ appTable (lit "spp_" ++ lit w) ∧
      lit "--proc-type" ∉ appTable (lit "spp_" ++ lit w) := by
  decide

/-- The words of the command that `do_launch_sec_proc` makes of a request. -/
def commandWords (params : List Str) : List Str × List Str :=
  (words (select (ealOpts.map lit) (sentEal params)),
    words (select (appTable (launchName params))
      (givenApp params ++ [(idOption (launchName params), requestedId params)])))

/-- A text of the command that `do_launch_sec_proc` makes of a request. -/
def commandText (params : List Str) : Str :=
  joinBlank [lit "launch", str I (strOrNone (requestedId params)), launchName params,
    joinBlank (commandWords params).1, lit "--", joinBlank (commandWords params).2]

/-- The request is carried out if it has options for the cores and the process
type, and its text can be encoded. -/
theorem launchSecProc_eq_ok_iff {params : List Str} {secIds : List Json} {request : Body}
    {bytes : List UInt8} (h : runLaunch secIds params = .ok request)
    (hvalues : ∀ t ∈ params, t ≠ []) :
    launchSecProc I request = .ok bytes ↔
      (∃ key ∈ ["-c", "-l", "--lcores"], lit key ∈ (sentEal params).map Prod.fst) ∧
        lit "--proc-type" ∈ (sentEal params).map Prod.fst ∧
        (∀ c ∈ commandText I params, Encodable c) ∧
        bytes = (commandText I params).flatMap utf8 := by
  obtain ⟨⟨w, hw, hname⟩, -, eal, app, rfl, heal, happ⟩ := runLaunch_ok h
  generalize hrequest : ([(lit "proc_name", .str (launchName params)), (lit "eal", .dict eal),
    (lit "app", .dict app), (lit "client_id", strOrNone (requestedId params))] : Body) = request
  have hkeys : requireKeys ["client_id", "proc_name", "eal", "app"] request = .ok () := by
    rw [← hrequest]
    rfl
  have hproc : getItem request "proc_name" = .ok (.str (launchName params)) := by
    rw [← hrequest]
    rfl
  have hclient : getItem request "client_id" = .ok (strOrNone (requestedId params)) := by
    rw [← hrequest]
    rfl
  have hdict : getItem request "eal" = .ok (.dict eal) := by
    rw [← hrequest]
    rfl
  have happDict : getItem request "app" = .ok (.dict app) := by
    rw [← hrequest]
    rfl
  have hisSome (key : Str) : (eal.lookup key).isSome ↔ key ∈ (sentEal params).map Prod.fst := by
    rw [heal, Option.isSome_map, isSome_lastValue]
  have hne : ∀ t ∈ params, t ≠ [] := hvalues
  have hidOption : idOption (launchName params) ≠ [] := by
    unfold idOption
    split <;> decide
  have hcollectEal := collectOpts_select I heal (fun o ho v hv =>
    forall_words_sentEal hne (by decide) (by decide) v (mem_words.mpr ⟨o, ho, .inr hv⟩)) ealOpts []
  have hcollectApp := collectOpts_select I happ (fun o ho v hv =>
    forall_words_sentApp hne hidOption v (mem_words.mpr ⟨o, ho, .inr hv⟩))
  obtain ⟨opts, hopts⟩ : ∃ opts,
      (appOpts.find? fun p => lit p.1 = launchName params) = some opts := by
    rw [hname]
    exact Option.isSome_iff_exists.mp (appTable_spec w hw).1
  have happOptions : appOptions I request (.str (launchName params)) =
      .ok (commandWords params).2 := by
    have htable : appTable (launchName params) = opts.2.map lit := by simp [appTable, hopts]
    have hfind : appOptsOf (.str (launchName params)) = .ok (some opts.2) := by
      simp [appOptsOf, hopts]
    simp only [appOptions, hfind, happDict, bind, Except.bind, commandWords, htable]
    exact congrArg Except.ok (hcollectApp opts.2 [])
  have hquery : launchSecProc I request =
      if (["-c", "-l", "--lcores"].any fun key => (eal.lookup (lit key)).isSome) = false then
        execCommand none
      else if (eal.lookup (lit "--proc-type")).isSome = false then execCommand none
      else execCommand (some (commandText I params)) := by
    simp only [launchSecProc, hkeys, doLaunchSecProc, launchQuery, hproc, hclient, hdict,
      happOptions, bind, Except.bind, hcollectEal, List.nil_append]
    by_cases hkey : (["-c", "-l", "--lcores"].any fun key => (eal.lookup (lit key)).isSome) = false
    · simp only [if_pos hkey]
    by_cases htype : (eal.lookup (lit "--proc-type")).isSome = false
    · simp only [if_neg hkey, if_pos htype]
    · simp only [if_neg hkey, if_neg htype]
      rfl
  have hcores : (["-c", "-l", "--lcores"].any fun key => (eal.lookup (lit key)).isSome) = true ↔
      ∃ key ∈ ["-c", "-l", "--lcores"], lit key ∈ (sentEal params).map Prod.fst := by
    rw [List.any_eq_true]
    exact exists_congr fun key => and_congr_right fun _ => hisSome (lit key)
  rw [hquery]
  by_cases hkey : (["-c", "-l", "--lcores"].any fun key => (eal.lookup (lit key)).isSome) = true
  swap
  · rw [if_pos (Bool.eq_false_iff.mpr hkey)]
    simp only [execCommand, reduceCtorEq, false_iff]
    exact fun h => hkey (hcores.mpr h.1)
  by_cases htype : (eal.lookup (lit "--proc-type")).isSome = true
  swap
  · rw [if_neg (by rw [hkey]; decide), if_pos (Bool.eq_false_iff.mpr htype)]
    simp only [execCommand, reduceCtorEq, false_iff]
    exact fun h => htype ((hisSome _).mpr h.2.1)
  rw [if_neg (by rw [hkey]; decide), if_neg (by rw [htype]; decide), execCommand, encode]
  by_cases hencodable : ∀ c ∈ commandText I params, Encodable c
  · simp only [if_pos hencodable, Except.ok.injEq]
    constructor
    · rintro rfl
      exact ⟨hcores.mp hkey, (hisSome _).mp htype, hencodable, rfl⟩
    · exact fun h => h.2.2.2.symm
  · simp only [if_neg hencodable, reduceCtorEq, false_iff]
    exact fun h => hencodable h.2.2.1

end Command

section Tokenised

/-- A token of a command line: not empty, without blanks, and with the code points of
Python. -/
structure IsToken (t : Str) : Prop where
  ne_nil : t ≠ []
  blank : 32 ∉ t
  codePoint : ∀ c ∈ t, c < 0x110000

/-- The option that takes the ID is a token. -/
theorem isToken_idOption (procName : Str) : IsToken (idOption procName) := by
  unfold idOption
  split <;> exact ⟨by decide, by decide, by decide⟩

/-- A token is tokenised as it is. -/
theorem IsToken.strtok {t : Str} (h : IsToken t) : strtok ' ' (cText t) = [cText t] :=
  strtok_eq_singleton (mt cText_eq_nil.mp h.ne_nil) fun hmem =>
    h.blank (mem_of_mem_cText h.codePoint (by decide) hmem)

/-- Tokens with blanks between them are taken apart again. -/
theorem strtok_joinBlank {tokens : List Str} (h : ∀ t ∈ tokens, IsToken t) :
    strtok ' ' (cText (joinBlank tokens)) = tokens.map cText := by
  rw [joinBlank, cText_intercalate, strtok_intercalate, List.flatMap_map]
  induction tokens with
  | nil => rfl
  | cons t tokens ih =>
    rw [List.flatMap_cons, (h t List.mem_cons_self).strtok,
      ih fun u hu => h u (List.mem_cons_of_mem t hu), List.map_cons, List.singleton_append]

/-- What holds of the blank holds of a text if it holds of its words. -/
theorem forall_mem_joinBlank {P : ℕ → Prop} (hblank : P 32) {tokens : List Str} :
    (∀ c ∈ joinBlank tokens, P c) ↔ ∀ t ∈ tokens, ∀ c ∈ t, P c := by
  induction tokens with
  | nil => simp [joinBlank, List.intercalate]
  | cons t tokens ih =>
    cases tokens with
    | nil => simp [joinBlank, List.intercalate]
    | cons u tokens =>
      have hcut : joinBlank (t :: u :: tokens) = t ++ 32 :: joinBlank (u :: tokens) := by
        simp [joinBlank, List.intercalate]
      rw [hcut, List.forall_mem_append, List.forall_mem_cons, List.forall_mem_cons, ih]
      exact ⟨fun h => ⟨h.1, h.2.2⟩, fun h => ⟨h.1, hblank, h.2⟩⟩

/-- The bytes of tokens, each with the blank or the terminator after it. -/
def byteSize (tokens : List Str) : ℕ := (tokens.map fun t => (cText t).length + 1).sum

/-- The length of a text of tokens. -/
theorem length_joinBlank {tokens : List Str} (h : tokens ≠ []) :
    (cText (joinBlank tokens)).length + 1 = byteSize tokens := by
  induction tokens with
  | nil => exact absurd rfl h
  | cons t tokens ih =>
    cases tokens with
    | nil => simp [joinBlank, List.intercalate, byteSize]
    | cons u tokens =>
      have hcut : joinBlank (t :: u :: tokens) = t ++ [32] ++ joinBlank (u :: tokens) := by
        simp [joinBlank, List.intercalate]
      have hrest := ih (by simp)
      have hblank : (cText [32]).length = 1 := by decide
      unfold byteSize at hrest ⊢
      rw [hcut, cText_append, cText_append, List.length_append, List.length_append, hblank,
        List.map_cons, List.sum_cons]
      omega

variable (I : Interpreter) {params : List Str}

/-- The tokens of the command that `do_launch_sec_proc` makes of a request. -/
def commandTokens (params : List Str) : List Str :=
  [lit "launch", str I (strOrNone (requestedId params)), launchName params] ++
    ((commandWords params).1 ++ lit "--" :: (commandWords params).2)

/-- What holds of the blank holds of the command if it holds of its tokens. -/
theorem forall_mem_commandText {P : ℕ → Prop} (hblank : P 32) :
    (∀ c ∈ commandText I params, P c) ↔ ∀ t ∈ commandTokens I params, ∀ c ∈ t, P c := by
  unfold commandText commandTokens
  rw [forall_mem_joinBlank hblank]
  simp only [List.forall_mem_cons, List.forall_mem_append, List.cons_append, List.nil_append,
    forall_mem_joinBlank hblank, List.not_mem_nil, false_implies, implies_true, and_true]

/-- The tokens of the command are tokens. -/
theorem isToken_commandTokens (hname : ∃ w ∈ secTypes, launchName params = lit "spp_" ++ lit w)
    (hparams : ∀ t ∈ params, IsToken t) : ∀ t ∈ commandTokens I params, IsToken t := by
  have hliteral (t : Str) (h : t ≠ [] ∧ 32 ∉ t ∧ ∀ c ∈ t, c < 0x110000) : IsToken t :=
    ⟨h.1, h.2.1, h.2.2⟩
  have hid : IsToken (str I (strOrNone (requestedId params))) := by
    cases hrequested : requestedId params with
    | none =>
      have hnone : str I (strOrNone none) = lit "None" := rfl
      rw [hnone]
      exact hliteral _ (by decide)
    | some id => exact hparams id (mem_of_requestedId hrequested)
  have hlaunchName : IsToken (launchName params) := by
    obtain ⟨w, hw, hname⟩ := hname
    rw [hname]
    have hall : ∀ w ∈ secTypes, lit "spp_" ++ lit w ≠ [] ∧ 32 ∉ lit "spp_" ++ lit w ∧
        ∀ c ∈ lit "spp_" ++ lit w, c < 0x110000 := by decide
    exact hliteral _ (hall w hw)
  simp only [commandTokens, commandWords, List.cons_append, List.nil_append, List.forall_mem_cons,
    List.forall_mem_append]
  refine ⟨hliteral _ (by decide), hid, hlaunchName, fun t ht => ?_, hliteral _ (by decide),
    fun t ht => ?_⟩
  · exact forall_words_sentEal hparams (hliteral _ (by decide)) (hliteral _ (by decide)) t
      (mem_words_of_select ht)
  · exact forall_words_sentApp hparams (isToken_idOption _) t (mem_words_of_select ht)

/-- spp_primary takes the command apart into its tokens. -/
theorem strtok_commandText (h : ∀ t ∈ commandTokens I params, IsToken t) :
    strtok ' ' (cText (commandText I params)) = (commandTokens I params).map cText := by
  simp only [commandTokens, List.cons_append, List.nil_append, List.forall_mem_cons,
    List.forall_mem_append] at h
  obtain ⟨hlaunch, hid, hname, heal, hseparator, happ⟩ := h
  rw [commandText, joinBlank, cText_intercalate, strtok_intercalate]
  simp only [List.map_cons, List.map_nil, List.flatMap_cons, List.flatMap_nil, hlaunch.strtok,
    hid.strtok, hname.strtok, hseparator.strtok, strtok_joinBlank heal, strtok_joinBlank happ,
    commandTokens, List.cons_append, List.nil_append, List.map_append, List.append_nil]

/-- The bytes of the command. -/
theorem length_commandText (heal : (commandWords params).1 ≠ [])
    (happ : (commandWords params).2 ≠ []) :
    (cText (commandText I params)).length + 1 = byteSize (commandTokens I params) := by
  have hsize1 := length_joinBlank heal
  have hsize2 := length_joinBlank happ
  rw [commandText, length_joinBlank (by simp)]
  unfold byteSize commandTokens at *
  simp only [List.map_cons, List.map_nil, List.sum_cons, List.sum_nil, List.cons_append,
    List.nil_append, List.map_append, List.sum_append]
  omega

end Tokenised

section Faithful

variable (I : Interpreter) (running : List ℤ) (params : List Str)

/-- The launch is faithful: its ID is not the one of a running secondary, and what
spp_primary stores in `sec_args` are the options before the separator, the separator
and the options after it, in some order, with the requested ID for the option that
takes it. -/
structure LaunchFaithful (request : Body) : Prop where
  unused : ∀ k ∈ running, requestedId params ≠ some (intText k)
  arrives : ∃ id bytes secName secId secArgs eal app, requestedId params = some id ∧
    launchSecProc I request = .ok bytes ∧
    parseCommand (bytes.map byteChar) = some (.launch secName secId secArgs) ∧
    eal.Perm (expectedEal params) ∧ app.Perm (expectedApp params (some id)) ∧
    secArgs = (words eal ++ lit "--" :: words app).map cText

/-- The words of a faithful command. -/
def launchWords : List Str :=
  [lit "launch", (requestedId params).getD [], launchName params] ++
    (words (expectedEal params) ++ lit "--" :: words (expectedApp params (requestedId params)))

/-- What a launch has to meet to be faithful: an ID is requested that no running
secondary has, the cores are given, every option is in its table and is given once,
except for the option that takes the ID, and the words can be encoded, contain no NUL
and fit into the message and the list of tokens. -/
structure Launchable : Prop where
  id : ∃ id, requestedId params = some id
  unused : ∀ k ∈ running, requestedId params ≠ some (intText k)
  cores : ∃ key ∈ ["-c", "-l", "--lcores"], lit key ∈ (givenEal params).map Prod.fst
  ealKnown : ∀ o ∈ givenEal params, o.1 ∈ ealOpts.map lit
  ealOnce : ((givenEal params).map Prod.fst).Nodup
  appKnown : ∀ o ∈ givenApp params,
    o.1 ≠ idOption (launchName params) → o.1 ∈ appTable (launchName params)
  appOnce : (((givenApp params).filter fun o => o.1 ≠ idOption (launchName params)).map
    Prod.fst).Nodup
  text : ∀ t ∈ launchWords params, ∀ c ∈ t, Encodable c ∧ c ≠ 0
  count : (launchWords params).length < maxParameter
  size : byteSize (launchWords params) ≤ Primary.msgSize

variable {running params}

/-- The options that are sent before the separator are the expected ones, if the
process type is among them. -/
theorem sentEal_eq (h : lit "--proc-type" ∈ (sentEal params).map Prod.fst) :
    sentEal params = expectedEal params := by
  unfold sentEal expectedEal at *
  by_cases hgiven : lit "--proc-type" ∈ (givenEal params).map Prod.fst
  · have hargs : lit "--proc-type" ∈ launchArgs params :=
      (List.takeWhile_sublist _).subset (mem_keys_occurrences.mp hgiven).1
    rw [if_neg (not_not.mpr hargs), if_pos hgiven]
  · by_cases hargs : lit "--proc-type" ∉ launchArgs params
    · rw [if_pos hargs, if_neg hgiven]
    · rw [if_neg hargs, List.append_nil] at h
      exact absurd h hgiven

/-- The requested ID overrides every other value of its option. -/
theorem select_expectedApp (table : List Str) (secId : Option Str) :
    select table (givenApp params ++ [(idOption (launchName params), secId)]) =
      select table (expectedApp params secId) := by
  have hlast (k : Str) : lastValue (givenApp params ++ [(idOption (launchName params), secId)]) k =
      lastValue (expectedApp params secId) k := by
    have hfilter : (givenApp params).filter (fun o => o.1 ≠ idOption (launchName params)) =
        (givenApp params).filter fun o => !(o.1 == idOption (launchName params)) :=
      List.filter_congr fun o _ => by
        by_cases heq : o.1 = idOption (launchName params) <;> simp [heq]
    rw [expectedApp, lastValue_append, lastValue_append, hfilter]
    by_cases hk : k = idOption (launchName params)
    · rw [if_pos (by simpa using hk), if_pos (by simpa using hk)]
    · rw [lastValue_filter hk]
  unfold select
  exact List.filterMap_congr fun k _ => by rw [hlast]

/-- The option that takes the ID is an option. -/
theorem startsWithDash_idOption (procName : Str) : startsWithDash (idOption procName) = true := by
  unfold idOption
  split <;> decide

/-- The requested ID is no option. -/
theorem startsWithDash_requestedId {id : Str} (h : requestedId params = some id) :
    startsWithDash id = false := by
  have hvalue (k : Str) (hk : (lastValue (givenApp params) k).join = some id) :
      startsWithDash id = false :=
    (wellFormed_occurrences _ _ (mem_of_lastValue (Option.join_eq_some_iff.mp hk))).2 id rfl
  unfold requestedId at h
  cases hplace : (splitId (params.drop 1)).1 with
  | none =>
    rw [hplace, Option.none_or] at h
    split at h
    · exact hvalue _ h
    · exact hvalue _ h
  | some place =>
    rw [hplace, Option.some_or] at h
    cases h
    cases hparams : params.drop 1 with
    | nil =>
      rw [hparams] at hplace
      cases hplace
    | cons param rest =>
      rw [hparams, splitId] at hplace
      split at hplace
      · cases hplace
      · rename_i hdash
        cases hplace
        simpa using hdash

/-- The expected options are well formed. -/
theorem wellFormed_expected {id : Str} (h : requestedId params = some id) :
    WellFormed startsWithDash (expectedEal params) ∧
      WellFormed startsWithDash (expectedApp params (some id)) := by
  constructor
  · intro o ho
    obtain ho | ho := List.mem_append.mp ho
    · exact wellFormed_occurrences _ o ho
    · split at ho
      · exact absurd ho List.not_mem_nil
      · obtain rfl := List.mem_singleton.mp ho
        exact ⟨by decide, fun v hv => by obtain rfl := Option.some.inj hv; decide⟩
  · intro o ho
    obtain ho | ho := List.mem_append.mp ho
    · exact wellFormed_occurrences _ o (List.mem_filter.mp ho).1
    · obtain rfl := List.mem_singleton.mp ho
      refine ⟨startsWithDash_idOption _, fun v hv => ?_⟩
      obtain rfl := Option.some.inj hv
      exact startsWithDash_requestedId h

/-- The words of the expected options are tokens. -/
theorem isToken_expected {id : Str} (h : requestedId params = some id)
    (hparams : ∀ t ∈ params, IsToken t) :
    ∀ t ∈ words (expectedEal params) ++ lit "--" :: words (expectedApp params (some id)),
      IsToken t := by
  have htype : IsToken (lit "--proc-type") ∧ IsToken (lit "secondary") ∧ IsToken (lit "--") :=
    ⟨⟨by decide, by decide, by decide⟩, ⟨by decide, by decide, by decide⟩,
      ⟨by decide, by decide, by decide⟩⟩
  rw [List.forall_mem_append, List.forall_mem_cons]
  refine ⟨fun t ht => ?_, htype.2.2, fun t ht => ?_⟩
  · obtain ⟨o, ho, hto⟩ := mem_words.mp ht
    obtain ho | ho := List.mem_append.mp ho
    · exact hparams t (mem_of_mem_words_given (.inl (mem_words.mpr ⟨o, ho, hto⟩)))
    · split at ho
      · exact absurd ho List.not_mem_nil
      · obtain rfl := List.mem_singleton.mp ho
        obtain rfl | hto := hto
        · exact htype.1
        · obtain rfl := Option.some.inj hto
          exact htype.2.1
  · obtain ⟨o, ho, hto⟩ := mem_words.mp ht
    obtain ho | ho := List.mem_append.mp ho
    · have hgiven := (List.mem_filter.mp ho).1
      exact hparams t (mem_of_mem_words_given (.inr (mem_words.mpr ⟨o, hgiven, hto⟩)))
    · obtain rfl := List.mem_singleton.mp ho
      obtain rfl | hto := hto
      · exact isToken_idOption _
      · obtain rfl := Option.some.inj hto
        exact hparams _ (mem_of_requestedId h)

/-- A token of the CLI is an option exactly if its text begins with a dash. -/
theorem countP_cText {tokens : List Str} (h : ∀ t ∈ tokens, IsToken t) :
    (tokens.map cText).countP (fun t => t.head? = some '-') = tokens.countP startsWithDash := by
  rw [List.countP_map]
  refine List.countP_congr fun t ht => ?_
  have hhead := head?_cText (h t ht).codePoint (d := '-') (by decide)
  simpa [startsWithDash] using hhead

/-- Every option is in a table and is given once. -/
def Kept (table : List Str) (os : List (Str × Option Str)) : Prop :=
  (∀ o ∈ os, o.1 ∈ table) ∧ (os.map Prod.fst).Nodup

/-- The expected options before the separator are kept if the given ones are. -/
theorem kept_expectedEal_iff :
    Kept (ealOpts.map lit) (expectedEal params) ↔ Kept (ealOpts.map lit) (givenEal params) := by
  unfold Kept expectedEal
  split
  · rw [List.append_nil]
  · rename_i htype
    have hmem : lit "--proc-type" ∈ ealOpts.map lit := by decide
    rw [List.forall_mem_append, List.forall_mem_singleton, List.map_append, List.map_singleton,
      ← List.concat_eq_append, List.nodup_concat]
    exact ⟨fun h => ⟨h.1.1, h.2.2⟩, fun h => ⟨⟨h.1, hmem⟩, htype, h.2⟩⟩

/-- The expected options after the separator are kept if the given ones are, except
for the one that takes the ID. -/
theorem kept_expectedApp_iff {secId : Option Str}
    (hid : idOption (launchName params) ∈ appTable (launchName params)) :
    Kept (appTable (launchName params)) (expectedApp params secId) ↔
      (∀ o ∈ givenApp params, o.1 ≠ idOption (launchName params) →
        o.1 ∈ appTable (launchName params)) ∧
      (((givenApp params).filter fun o => o.1 ≠ idOption (launchName params)).map
        Prod.fst).Nodup := by
  have hother : idOption (launchName params) ∉
      ((givenApp params).filter fun o => o.1 ≠ idOption (launchName params)).map Prod.fst := by
    intro hmem
    obtain ⟨o, ho, heq⟩ := List.mem_map.mp hmem
    exact of_decide_eq_true (List.mem_filter.mp ho).2 heq
  have hknown : (∀ o ∈ (givenApp params).filter fun o => o.1 ≠ idOption (launchName params),
      o.1 ∈ appTable (launchName params)) ↔ ∀ o ∈ givenApp params,
        o.1 ≠ idOption (launchName params) → o.1 ∈ appTable (launchName params) := by
    simp only [List.mem_filter, decide_eq_true_eq, and_imp]
  unfold Kept expectedApp
  rw [List.forall_mem_append, List.forall_mem_singleton, List.map_append, List.map_singleton,
    ← List.concat_eq_append, List.nodup_concat, hknown]
  exact ⟨fun h => ⟨h.1.1, h.2.2⟩, fun h => ⟨⟨h.1, hid⟩, hother, h.2⟩⟩

/-- The tokens of the command are the words of a faithful one in another order, if all
options are kept. -/
theorem commandTokens_perm {id : Str} (hid : requestedId params = some id)
    (hsent : sentEal params = expectedEal params) (hw : ∃ w ∈ secTypes,
      launchName params = lit "spp_" ++ lit w)
    (heal : Kept (ealOpts.map lit) (expectedEal params))
    (happ : Kept (appTable (launchName params)) (expectedApp params (requestedId params))) :
    (commandTokens I params).Perm (launchWords params) := by
  obtain ⟨w, hw, hname⟩ := hw
  have hnodup : (appTable (launchName params)).Nodup := by
    rw [hname]
    exact (appTable_spec w hw).2.1
  have hpermEal : (select (ealOpts.map lit) (expectedEal params)).Perm (expectedEal params) :=
    select_perm nodup_ealOpts heal.1 heal.2
  have hpermApp := select_perm hnodup happ.1 happ.2
  unfold commandTokens launchWords commandWords
  rw [hsent, select_expectedApp, hid]
  rw [hid] at hpermApp
  exact ((words_perm hpermEal).append ((words_perm hpermApp).cons _)).append_left _

/-- The tokens of the command are words of a faithful one. -/
theorem commandTokens_subset {id : Str} (hid : requestedId params = some id)
    (hsent : sentEal params = expectedEal params) :
    ∀ t ∈ commandTokens I params, t ∈ launchWords params := by
  unfold commandTokens launchWords commandWords
  rw [hsent, select_expectedApp, hid]
  intro t ht
  simp only [List.cons_append, List.nil_append, List.mem_cons, List.mem_append] at ht ⊢
  obtain rfl | rfl | rfl | ht | rfl | ht := ht
  · exact .inl rfl
  · exact .inr (.inl rfl)
  · exact .inr (.inr (.inl rfl))
  · exact .inr (.inr (.inr (.inl (mem_words_of_select ht))))
  · exact .inr (.inr (.inr (.inr (.inl rfl))))
  · exact .inr (.inr (.inr (.inr (.inr (mem_words_of_select ht)))))

/-- The bytes of the command are those of a faithful one, if all options are kept. -/
theorem length_commandText_of_perm (hperm : (commandTokens I params).Perm (launchWords params))
    (heal : (commandWords params).1 ≠ []) (happ : (commandWords params).2 ≠ []) :
    (cText (commandText I params)).length + 1 = byteSize (launchWords params) := by
  rw [length_commandText I heal happ]
  exact (hperm.map fun t => (cText t).length + 1).sum_nat

/-- There are options before and after the separator. -/
theorem commandWords_ne_nil (hsent : sentEal params = expectedEal params)
    (hnodup : (appTable (launchName params)).Nodup)
    (heal : Kept (ealOpts.map lit) (expectedEal params))
    (happ : Kept (appTable (launchName params)) (expectedApp params (requestedId params))) :
    (commandWords params).1 ≠ [] ∧ (commandWords params).2 ≠ [] := by
  have hpermEal : (select (ealOpts.map lit) (expectedEal params)).Perm (expectedEal params) :=
    select_perm nodup_ealOpts heal.1 heal.2
  have hpermApp := select_perm hnodup happ.1 happ.2
  rw [commandWords, hsent, select_expectedApp]
  refine ⟨words_ne_nil fun hnil => ?_, words_ne_nil fun hnil => ?_⟩
  · rw [hnil] at hpermEal
    have hempty := hpermEal.nil_eq
    unfold expectedEal at hempty
    split at hempty
    · rename_i htype
      rw [List.append_nil] at hempty
      rw [← hempty] at htype
      exact absurd htype List.not_mem_nil
    · simp at hempty
  · rw [hnil] at hpermApp
    have hempty := hpermApp.nil_eq
    simp [expectedApp] at hempty

/-- The name of a process fits and contains no NUL. -/
theorem launchName_fits (hw : ∃ w ∈ secTypes, launchName params = lit "spp_" ++ lit w) :
    (∀ c ∈ launchName params, c ≠ 0) ∧ (cText (launchName params)).length < secNameSize := by
  obtain ⟨w, hw, hname⟩ := hw
  have hall : ∀ w ∈ secTypes, (∀ c ∈ lit "spp_" ++ lit w, c ≠ 0) ∧
      (cText (lit "spp_" ++ lit w)).length < secNameSize := by decide
  rw [hname]
  exact hall w hw

/-- The options for the cores are sent if they are given. -/
theorem cores_iff : (∃ key ∈ ["-c", "-l", "--lcores"], lit key ∈ (sentEal params).map Prod.fst) ↔
    ∃ key ∈ ["-c", "-l", "--lcores"], lit key ∈ (givenEal params).map Prod.fst := by
  have hother : ∀ key ∈ ["-c", "-l", "--lcores"], lit key ≠ lit "--proc-type" := by decide
  refine exists_congr fun key => and_congr_right fun hkey => ?_
  rw [sentEal, List.map_append, List.mem_append]
  constructor
  · rintro (h | h)
    · exact h
    · split at h
      · exact absurd (List.mem_singleton.mp h) (hother key hkey)
      · exact absurd h List.not_mem_nil
  · exact .inl

/-- The process type is sent, unless it stands after the separator, where it is no
option of the application. -/
theorem procType_sent (htable : lit "--proc-type" ∉ appTable (launchName params))
    (hknown : ∀ o ∈ givenApp params,
      o.1 ≠ idOption (launchName params) → o.1 ∈ appTable (launchName params)) :
    lit "--proc-type" ∈ (sentEal params).map Prod.fst := by
  have hdash : startsWithDash (lit "--proc-type") = true := by decide
  have hid : lit "--proc-type" ≠ idOption (launchName params) := by
    unfold idOption
    split <;> decide
  rw [sentEal, List.map_append, List.mem_append]
  by_cases hargs : lit "--proc-type" ∉ launchArgs params
  · rw [if_pos hargs]
    exact .inr (List.mem_singleton_self _)
  · left
    have hmem := not_not.mp hargs
    rw [← List.takeWhile_append_dropWhile (p := (· ≠ lit "--")) (l := launchArgs params)] at hmem
    obtain hmem | hmem := List.mem_append.mp hmem
    · exact mem_keys_occurrences.mpr ⟨hmem, hdash⟩
    · exfalso
      have happ : lit "--proc-type" ∈ appArgs params := by
        unfold appArgs
        cases hrest : (launchArgs params).dropWhile (· ≠ lit "--") with
        | nil =>
          rw [hrest] at hmem
          exact absurd hmem List.not_mem_nil
        | cons t rest =>
          rw [hrest] at hmem
          obtain rfl | hmem := List.mem_cons.mp hmem
          · have hhead := List.head?_dropWhile_not (· ≠ lit "--") (launchArgs params)
            rw [hrest] at hhead
            have hfalse : decide (lit "--proc-type" ≠ lit "--") = false := hhead
            exact absurd hfalse (by decide)
          · exact hmem
      obtain ⟨o, ho, hkey⟩ := List.mem_map.mp (mem_keys_occurrences.mpr ⟨happ, hdash⟩)
      exact htable (hkey ▸ hknown o ho (hkey ▸ hid))

/-- What spp_primary makes of a command without NUL. -/
theorem parseCommand_commandText_iff {name id : CStr} {args : List CStr}
    (htokens : ∀ t ∈ commandTokens I params, IsToken t)
    (hzero : ∀ t ∈ commandTokens I params, ∀ c ∈ t, c ≠ 0) :
    parseCommand (cText (commandText I params)) = some (.launch name id args) ↔
      ((cText (commandText I params)).length < Primary.msgSize ∧
        (commandTokens I params).length < maxParameter ∧
        (cText (launchName params)).length < secNameSize) ∧
      cText (launchName params) = name ∧ cText (str I (strOrNone (requestedId params))) = id ∧
        ((commandWords params).1 ++ lit "--" :: (commandWords params).2).map cText = args := by
  have hcodePoint : ∀ c ∈ commandText I params, c < 0x110000 :=
    (forall_mem_commandText I (by decide)).mpr fun t ht => (htokens t ht).codePoint
  have hnul : nul ∉ cText (commandText I params) := fun hmem =>
    (forall_mem_commandText I (by decide)).mpr hzero 0
      (mem_of_mem_cText hcodePoint (by decide) hmem) rfl
  have hlaunch : cText (lit "launch") = "launch".toList := by decide
  have hsplit : strtok ' ' (cText (commandText I params)) = "launch".toList ::
      cText (str I (strOrNone (requestedId params))) :: cText (launchName params) ::
        ((commandWords params).1 ++ lit "--" :: (commandWords params).2).map cText := by
    rw [strtok_commandText I htokens, commandTokens, List.map_append, ← hlaunch]
    rfl
  have hlength : (commandTokens I params).length =
      (((commandWords params).1 ++ lit "--" :: (commandWords params).2).map cText).length + 3 := by
    simp only [commandTokens, List.length_append, List.length_cons, List.length_nil,
      List.length_map]
    omega
  rw [parseCommand_launch_iff hnul hsplit, hlength]

/-- If all expected options arrive, they are kept. -/
theorem kept_of_arrives {id : Str} {eal app : List (Str × Option Str)}
    (hparams : ∀ t ∈ params, IsToken t) (hid : requestedId params = some id)
    (hsent : sentEal params = expectedEal params)
    (hnodup : (appTable (launchName params)).Nodup)
    (htokens : ∀ t ∈ (commandWords params).1 ++ lit "--" :: (commandWords params).2, IsToken t)
    (heal : eal.Perm (expectedEal params)) (happ : app.Perm (expectedApp params (some id)))
    (hargs : ((commandWords params).1 ++ lit "--" :: (commandWords params).2).map cText =
      (words eal ++ lit "--" :: words app).map cText) :
    Kept (ealOpts.map lit) (expectedEal params) ∧
      Kept (appTable (launchName params)) (expectedApp params (requestedId params)) := by
  obtain ⟨hwellEal, hwellApp⟩ := wellFormed_expected hid
  have hexpected : ∀ t ∈ words eal ++ lit "--" :: words app, IsToken t := by
    intro t ht
    refine isToken_expected hid hparams t ?_
    have hperm := (words_perm heal).append ((words_perm happ).cons (lit "--"))
    exact hperm.mem_iff.mp ht
  -- both sides have as many options as were selected and as are expected
  have hcount := congrArg (fun tokens => tokens.countP fun t => t.head? = some '-') hargs
  simp only [countP_cText htokens, countP_cText hexpected, List.countP_append,
    List.countP_cons] at hcount
  have hcountEal : (words eal).countP startsWithDash = (expectedEal params).length := by
    rw [countP_words fun o ho => hwellEal o (heal.mem_iff.mp ho), heal.length_eq]
  have hcountApp : (words app).countP startsWithDash = (expectedApp params (some id)).length := by
    rw [countP_words fun o ho => hwellApp o (happ.mem_iff.mp ho), happ.length_eq]
  have hwords1 : (commandWords params).1 =
      words (select (ealOpts.map lit) (expectedEal params)) := by rw [commandWords, hsent]
  have hwords2 : (commandWords params).2 =
      words (select (appTable (launchName params)) (expectedApp params (some id))) := by
    rw [commandWords, select_expectedApp, hid]
  rw [hwords1, hwords2, hcountEal, hcountApp,
    countP_words fun o ho => hwellEal o (mem_select ho).2,
    countP_words fun o ho => hwellApp o (mem_select ho).2] at hcount
  have hleEal : (select (ealOpts.map lit) (expectedEal params)).length ≤ _ :=
    length_select_le nodup_ealOpts
  have hleApp : (select (appTable (launchName params)) (expectedApp params (some id))).length ≤ _ :=
    length_select_le hnodup
  rw [hid]
  exact ⟨known_once_of_length_le nodup_ealOpts (by omega),
    known_once_of_length_le hnodup (by omega)⟩

/-- A launch of which the CLI makes a request is faithful exactly if it meets the
condition. -/
theorem launchFaithful_iff {request : Body} (hparams : ∀ t ∈ params, IsToken t)
    (h : runLaunch (running.map Json.int) params = .ok request) :
    LaunchFaithful I running params request ↔ Launchable running params := by
  obtain ⟨hw, -, -⟩ := runLaunch_ok h
  have hne : ∀ t ∈ params, t ≠ [] := fun t ht => (hparams t ht).ne_nil
  have htokens := isToken_commandTokens I hw hparams
  obtain ⟨w, hw', hname⟩ := id hw
  have hspec := appTable_spec w hw'
  rw [← hname] at hspec
  obtain ⟨-, hnodup, hidTable, htypeTable⟩ := hspec
  constructor
  · rintro ⟨hunused, id, bytes, secName, secId, secArgs, eal, app, hid, hsent, hparse, heal, happ,
      hargs⟩
    obtain ⟨hcores, htype, hencodable, rfl⟩ := (launchSecProc_eq_ok_iff I h hne).mp hsent
    have hsentEal := sentEal_eq htype
    have hpermWords := (words_perm heal).append ((words_perm happ).cons (lit "--"))
    -- no token that arrives contains NUL, so none of the command does
    have hzeroWords : ∀ t ∈ words (expectedEal params) ++ lit "--" :: words (expectedApp params
        (some id)), ∀ c ∈ t, c ≠ 0 := by
      intro t ht c hc hzero
      have harg : cText t ∈ secArgs := by
        rw [hargs]
        exact List.mem_map_of_mem (hpermWords.mem_iff.mpr ht)
      exact nul_notMem_secArgs hparse _ harg (mem_cText (by omega) (hzero ▸ hc))
    have hidWord : id ∈ words (expectedApp params (some id)) :=
      mem_words.mpr ⟨_, List.mem_append_right _ (List.mem_singleton_self _), .inr rfl⟩
    have hzero : ∀ t ∈ launchWords params, ∀ c ∈ t, c ≠ 0 := by
      unfold launchWords
      rw [hid]
      simp only [List.cons_append, List.nil_append, List.forall_mem_cons]
      exact ⟨by decide, hzeroWords id (List.mem_append_right _ (List.mem_cons_of_mem _ hidWord)),
        (launchName_fits hw).1, hzeroWords⟩
    have hzeroTokens : ∀ t ∈ commandTokens I params, ∀ c ∈ t, c ≠ 0 := fun t ht =>
      hzero t (commandTokens_subset I hid hsentEal t ht)
    obtain ⟨⟨hsize, hcount, -⟩, -, -, hsecArgs⟩ :=
      (parseCommand_commandText_iff I htokens hzeroTokens).mp hparse
    rw [hargs] at hsecArgs
    have htokens2 : ∀ t ∈ (commandWords params).1 ++ lit "--" :: (commandWords params).2,
        IsToken t := fun t ht => htokens t (List.mem_append_right _ ht)
    obtain ⟨hkeptEal, hkeptApp⟩ :=
      kept_of_arrives hparams hid hsentEal hnodup htokens2 heal happ hsecArgs
    have hperm := commandTokens_perm I hid hsentEal hw hkeptEal hkeptApp
    obtain ⟨hwords1, hwords2⟩ := commandWords_ne_nil hsentEal hnodup hkeptEal hkeptApp
    have hlength := length_commandText_of_perm I hperm hwords1 hwords2
    obtain ⟨happKnown, happOnce⟩ := (kept_expectedApp_iff hidTable).mp hkeptApp
    obtain ⟨healKnown, healOnce⟩ := kept_expectedEal_iff.mp hkeptEal
    refine ⟨⟨id, hid⟩, hunused, cores_iff.mp hcores, healKnown, healOnce, happKnown, happOnce,
      fun t ht c hc => ⟨?_, hzero t ht c hc⟩, ?_, ?_⟩
    · exact (forall_mem_commandText I (by decide)).mp hencodable t (hperm.mem_iff.mpr ht) c hc
    · rw [← hperm.length_eq]
      exact hcount
    · omega
  · intro hl
    obtain ⟨id, hid⟩ := hl.id
    have htype := procType_sent htypeTable hl.appKnown
    have hsentEal := sentEal_eq htype
    have hkeptEal := kept_expectedEal_iff.mpr ⟨hl.ealKnown, hl.ealOnce⟩
    have hkeptApp : Kept _ (expectedApp params (requestedId params)) :=
      (kept_expectedApp_iff hidTable).mpr ⟨hl.appKnown, hl.appOnce⟩
    have hperm := commandTokens_perm I hid hsentEal hw hkeptEal hkeptApp
    obtain ⟨hwords1, hwords2⟩ := commandWords_ne_nil hsentEal hnodup hkeptEal hkeptApp
    have hlength := length_commandText_of_perm I hperm hwords1 hwords2
    have htext : ∀ t ∈ commandTokens I params, ∀ c ∈ t, Encodable c ∧ c ≠ 0 := fun t ht =>
      hl.text t (hperm.mem_iff.mp ht)
    have hsent := (launchSecProc_eq_ok_iff I h hne).mpr ⟨cores_iff.mpr hl.cores, htype,
      (forall_mem_commandText I (by decide)).mpr fun t ht c hc => (htext t ht c hc).1, rfl⟩
    have hsize := hl.size
    have hcount := hl.count
    rw [← hperm.length_eq] at hcount
    have hparse := (parseCommand_commandText_iff I htokens fun t ht c hc =>
      (htext t ht c hc).2).mpr ⟨⟨by omega, hcount, (launchName_fits hw).2⟩, rfl, rfl, rfl⟩
    rw [hid] at hkeptApp
    refine ⟨hl.unused, id, _, _, _, _, _, _, hid, hsent, hparse,
      select_perm nodup_ealOpts hkeptEal.1 hkeptEal.2, select_perm hnodup hkeptApp.1 hkeptApp.2, ?_⟩
    rw [commandWords, hsentEal, select_expectedApp, hid]

/-- A launch with options of both kinds. -/
def launchNfv : List Str :=
  ["nfv", "2", "-l", "1,2", "-m", "512", "--no-pci", "--", "-n", "2", "-s",
    "192.168.1.100:6666"].map lit

/-- The options of a launch arrive while another secondary is running. -/
theorem launchFaithful_launchNfv : ∃ request,
    runLaunch ([1].map Json.int) launchNfv = .ok request ∧
      LaunchFaithful .ascii [1] launchNfv request := by
  have htokens : ∀ t ∈ launchNfv, t ≠ [] ∧ 32 ∉ t ∧ ∀ c ∈ t, c < 0x110000 := by decide
  refine ⟨_, rfl, (launchFaithful_iff .ascii (fun t ht => ?_) rfl).mpr ?_⟩
  · exact ⟨(htokens t ht).1, (htokens t ht).2.1, (htokens t ht).2.2⟩
  · exact ⟨⟨lit "2", by decide⟩, by decide, ⟨"-l", by decide, by decide⟩, by decide, by decide,
      by decide, by decide, by decide, by decide, by decide⟩

/-- A launch with the ID of a running secondary is requested all the same. -/
theorem not_launchFaithful_usedId : ∃ request,
    runLaunch ([2].map Json.int) launchNfv = .ok request ∧
      ¬ LaunchFaithful .ascii [2] launchNfv request := by
  refine ⟨_, rfl, fun h => h.unused 2 (List.mem_singleton_self 2) ?_⟩
  decide

end Faithful

end Spp.Ctl
