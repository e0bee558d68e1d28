import Spp.Lib.GuardedRun
import Spp.Vf.AbilityFlush
import Spp.Vf.ClassifierMac

/-!
# The names of the classifier's hash tables

`create_mac_classification` names a table after the process and a counter of 16 bits that
all components share. A table keeps its name for as long as its component is not updated,
so that the counter may come round to the name of a table that is still alive.
-/

namespace Spp.Vf.TableNames

open CLib GuardedRun

section Source

/-- `RTE_HASH_NAMESIZE` of DPDK. -/
def rteHashNamesize : ℕ := 32

/-- `RTE_RING_NAMESIZE` of DPDK. -/
def rteRingNamesize : ℕ := 29

/-- `HASH_TABLE_NAME_BUF_SZ`. -/
def hashTableNameBufSz : ℕ :=
  (if rteHashNamesize < rteRingNamesize then rteHashNamesize else rteRingNamesize) - 3

/-- `%x` with zeros in front up to a width. -/
def hexText (width n : ℕ) : CStr := (Nat.toDigits 16 n).leftpad width '0'

/-- `hash_tab_name`. The counter is printed as an `unsigned short`. -/
def hashTabName (pid count : ℕ) : CStr :=
  "cmtab_".toList ++ (hexText 7 (pid % 2 ^ 32) ++ hexText 2 (count % 2 ^ 16))

/-- A hash table with its name and, as history, the value of the counter at its creation
without the cut to 16 bits. -/
structure HashTab (τ : Type) where
  name : CStr
  birth : ℕ
  tab : τ

variable {τ : Type}

/-- `rte_hash` on tables with names; the next table gets the given one. -/
def namedHash (hash : RteHash τ) (name : CStr) (birth : ℕ) : RteHash (HashTab τ) where
  create := ⟨name, birth, hash.create⟩
  addKeyData t key data := (hash.addKeyData t.tab key data).map fun tab => ⟨t.name, t.birth, tab⟩
  lookupData t key := hash.lookupData t.tab key
  lookup_create := hash.lookup_create
  lookup_add h key' := by
    obtain ⟨tab, htab, rfl⟩ := Option.map_eq_some_iff.mp h
    exact hash.lookup_add htab key'

/-- Where the manager is. -/
inductive Manager
  | idle
  /-- In the loop of `init_component_info`, with the transmit ports that are left. -/
  | ports (id i : ℕ) (txPorts : List PortInfo) (name : CStr)
  /-- Waiting for the worker in `spp_classifier_mac_update`. -/
  | waiting (id : ℕ)

/-- `g_hash_table_count` without the cut to 16 bits, the two areas and the indices of each
component, and the manager. -/
structure TablesSt (τ : Type) where
  gHashTableCount : ℕ := 0xff
  cmpInfos : ℕ → Fin 2 → CmpInfo (HashTab τ) := fun _ _ => {}
  index : ℕ → AreaIndex := fun _ => ⟨0, 0⟩
  manager : Manager := .idle

/-- The area of a component that the manager writes to. -/
def TablesSt.updInfo (st : TablesSt τ) (id : ℕ) : CmpInfo (HashTab τ) :=
  st.cmpInfos id (st.index id).updIndex

/-- An area of a component is replaced. -/
def TablesSt.setInfo (st : TablesSt τ) (id : ℕ) (area : Fin 2) (cmpInfo : CmpInfo (HashTab τ)) :
    TablesSt τ :=
  { st with cmpInfos :=
      Function.update st.cmpInfos id (Function.update (st.cmpInfos id) area cmpInfo) }

/-- What happens next. -/
inductive TablesAct
  /-- `spp_classifier_mac_update` is called. -/
  | update (id : ℕ) (iface : PortRef → PortInfo) (componentInfo : ComponentInfo)
  /-- The next transmit port; whether `rte_zmalloc` and `rte_hash_create` succeed on it. -/
  | txPort (zmalloc create : Bool)
  /-- The loop over the transmit ports ends, and the areas are exchanged. -/
  | publish
  /-- The worker moves its index. -/
  | pass (id : ℕ)
  /-- The wait ends, and the old area is uninitialised. -/
  | uninit
  /-- `component stop`. -/
  | stop (id : ℕ)

/-- The VLAN id of a transmit port. -/
def vidOf (txPort : PortInfo) : ℕ := (txPort.classId.vid % 2 ^ 16).toNat

/-- `init_component_info` before its loop. -/
def beginInfo (iface : PortRef → PortInfo) (componentInfo : ComponentInfo)
    (cmpInfo : CmpInfo (HashTab τ)) : CmpInfo (HashTab τ) :=
  { cmpInfo with
    classifiedDataRx :=
      match componentInfo.rxPorts with
      | [] => { ifaceType := .undef }
      | port :: _ =>
        { ifaceType := (iface port).ifaceType, ifaceNo := 0, ifaceNoGlobal := (iface port).ifaceNo
          port := ((iface port).dpdkPort % 2 ^ 16).toNat }
    nClassifiedDataTx := componentInfo.txPorts.length
    macAddrEntry := 0 }

/-- `uninit_classifier`. -/
def uninitClassifier (id : ℕ) (st : TablesSt τ) : TablesSt τ :=
  { st with
    cmpInfos := Function.update st.cmpInfos id fun _ => {}
    index := Function.update st.index id ⟨0, 0⟩ }

/-- The end of `component stop`: the component is zeroed before its type is compared. -/
def stopComponent (id : ℕ) (st : TablesSt τ) : TablesSt τ :=
  let compInfo : ComponentInfo := {}
  if compInfo.type = .classifierMac then uninitClassifier id st else st

variable (hash : RteHash τ) (pid : ℕ)

/-- The name that `create_mac_classification` passes to `rte_hash_create`, if the next step
calls it and gets that far. -/
def createdName (st : TablesSt τ) : TablesAct → Option CStr
  | .txPort zmalloc _ =>
    match st.manager with
    | .ports id _ (txPort :: _) _ =>
      match (st.updInfo id).macClassifications (vidOf txPort) with
      | some _ => none
      | none =>
        if txPort.classId.macAddr ≠ 0 ∧ zmalloc = true then
          some (hashTabName pid (st.gHashTableCount + 1))
        else none
    | _ => none
  | _ => none

/-- One step. -/
def tablesStep (act : TablesAct) (st : TablesSt τ) : Option (TablesSt τ) :=
  match act, st.manager with
  | .update id iface componentInfo, .idle =>
    some { st.setInfo id (st.index id).updIndex
        (beginInfo iface componentInfo (st.updInfo id)) with
      manager := .ports id 0 (componentInfo.txPorts.map iface) componentInfo.name }
  | .txPort zmalloc create, .ports id i (txPort :: txPorts) name =>
    let count := st.gHashTableCount +
      if (createdName pid st (.txPort zmalloc create)).isSome then 1 else 0
    let result := initTxPort (namedHash hash (hashTabName pid count) count) (zmalloc && create) i
      txPort (st.updInfo id)
    some { st.setInfo id (st.index id).updIndex result.2 with
      gHashTableCount := count
      manager := match result.1 with
        | .ok => .ports id (i + 1) txPorts name
        | .ng => .idle }
  | .publish, .ports id _ [] name =>
    some { st.setInfo id (st.index id).updIndex { st.updInfo id with name := name } with
      index := Function.update st.index id ⟨(st.index id).refIndex, (st.index id).refIndex⟩
      manager := .waiting id }
  | .pass id, _ =>
    if (st.index id).refIndex = (st.index id).updIndex then
      some { st with
        index := Function.update st.index id ⟨(st.index id).updIndex + 1, (st.index id).updIndex⟩ }
    else some st
  | .uninit, .waiting id =>
    if (st.index id).refIndex ≠ (st.index id).updIndex then
      some { st.setInfo id (st.index id).updIndex {} with manager := .idle }
    else none
  | .stop id, .idle => some (stopComponent id st)
  | _, _ => none

end Source

section Statement

variable {τ : Type} (pid : ℕ)

/-- A table that some component has. -/
def TablesSt.Alive (st : TablesSt τ) (t : HashTab τ) : Prop :=
  ∃ id area vid macCls, (st.cmpInfos id area).macClassifications vid = some macCls ∧
    macCls.classificationTab = t

/-- A name fits its buffer with its terminator, and no table that is alive has it. -/
structure TablesSt.NewName (st : TablesSt τ) (name : CStr) : Prop where
  fits : name.length + 1 ≤ hashTableNameBufSz
  distinct : ∀ t, st.Alive t → t.name ≠ name

/-- The condition on a step: if a table is created, none that is alive was created a multiple
of 65536 creations before. -/
def NotComeRound (act : TablesAct) (st : TablesSt τ) : Prop :=
  createdName pid st act ≠ none →
    ∀ t, st.Alive t → (st.gHashTableCount + 1 - t.birth) % 2 ^ 16 ≠ 0

end Statement

section Names

/-- The hexadecimal digits of a number denote it. -/
theorem digitsValue_toDigits (n : ℕ) : digitsValue 16 (Nat.toDigits 16 n) = n := by
  have hdigit : ∀ d < 16, (digitVal d.digitChar).getD 0 = d := by decide
  induction n using Nat.strong_induction_on with
  | h n ih =>
    rw [Nat.toDigits_eq_if (by decide)]
    split_ifs with hlt
    · simp [digitsValue, hdigit n hlt]
    · have hrest := ih (n / 16) (by omega)
      have hlast := hdigit (n % 16) (Nat.mod_lt n (by decide))
      unfold digitsValue at hrest ⊢
      rw [List.foldl_append, hrest, List.foldl_cons, List.foldl_nil, hlast]
      omega

/-- Zeros in front do not count. -/
theorem digitsValue_hexText (width n : ℕ) : digitsValue 16 (hexText width n) = n := by
  have hzeros : ∀ k, digitsValue 16 (List.replicate k '0') = 0 := by
    intro k
    induction k with
    | zero => rfl
    | succ k ih =>
      unfold digitsValue at ih ⊢
      rw [List.replicate_succ, List.foldl_cons]
      exact ih
  have hvalue := digitsValue_toDigits n
  have hfront := hzeros (width - (Nat.toDigits 16 n).length)
  unfold digitsValue at hvalue hfront ⊢
  rw [hexText, List.leftpad, List.foldl_append, hfront, hvalue]

/-- Two tables have the same name iff a multiple of 65536 creations lies between them. -/
theorem hashTabName_inj {pid m n : ℕ} :
    hashTabName pid m = hashTabName pid n ↔ m % 2 ^ 16 = n % 2 ^ 16 := by
  constructor
  · intro h
    have hcount := List.append_cancel_left (List.append_cancel_left h)
    have hvalue := congrArg (digitsValue 16) hcount
    rwa [digitsValue_hexText, digitsValue_hexText] at hvalue
  · intro h
    unfold hashTabName
    rw [h]

/-- The width is exceeded by no more digits than there are. -/
theorem length_hexText_le {width k n : ℕ} (hle : width ≤ k) (hk : 0 < k) (hn : n < 16 ^ k) :
    (hexText width n).length ≤ k := by
  have hdigits := (Nat.length_toDigits_le_iff (b := 16) (by decide) hk).mpr hn
  rw [hexText, List.leftpad, List.length_append, List.length_replicate]
  omega

/-- Every name fits its buffer. -/
theorem hashTabName_fits (pid count : ℕ) :
    (hashTabName pid count).length + 1 ≤ hashTableNameBufSz := by
  have hpid : (hexText 7 (pid % 2 ^ 32)).length ≤ 8 :=
    length_hexText_le (by decide) (by decide) (by omega)
  have hcount : (hexText 2 (count % 2 ^ 16)).length ≤ 4 :=
    length_hexText_le (by decide) (by decide) (by omega)
  have hprefix : "cmtab_".toList.length = 6 := by decide
  have hsize : hashTableNameBufSz = 26 := by decide
  unfold hashTabName
  rw [List.length_append, List.length_append]
  omega

end Names

section Tables

variable {τ : Type} {hash : RteHash τ} {pid : ℕ} {st st' : TablesSt τ}

/-- What is found after a classification is stored. -/
theorem macClassifications_setMac {cmpInfo : CmpInfo (HashTab τ)} {v vid : ℕ}
    {m macCls : MacClassification (HashTab τ)}
    (h : (cmpInfo.setMac v m).macClassifications vid = some macCls) :
    vid = v ∧ macCls = m ∨ cmpInfo.macClassifications vid = some macCls := by
  unfold CmpInfo.setMac at h
  dsimp only at h
  by_cases hvid : vid = v
  · rw [hvid, Function.update_self] at h
    exact .inl ⟨hvid, (Option.some.inj h).symm⟩
  · rw [Function.update_of_ne hvid] at h
    exact .inr h

/-- Two tables have the same name and birth. -/
def SameTable (m old : MacClassification (HashTab τ)) : Prop :=
  m.classificationTab.name = old.classificationTab.name ∧
    m.classificationTab.birth = old.classificationTab.birth

variable {name : CStr} {birth : ℕ} {memory : Bool} {vid v : ℕ} {cmpInfo info : CmpInfo (HashTab τ)}
  {m m₀ macCls : MacClassification (HashTab τ)}

/-- What is stored for a VLAN is its table, or a new one. -/
theorem tables_setMac (hset : (info.setMac v m).macClassifications vid = some macCls)
    (hm₀ : macClassification (namedHash hash name birth) memory cmpInfo v = some m₀)
    (hsame : SameTable m m₀) (hinfo : info.macClassifications = cmpInfo.macClassifications) :
    (∃ old, cmpInfo.macClassifications vid = some old ∧ SameTable macCls old) ∨
      (cmpInfo.macClassifications v = none ∧ memory = true ∧
        macCls.classificationTab.name = name ∧ macCls.classificationTab.birth = birth) := by
  obtain ⟨rfl, rfl⟩ | hold := macClassifications_setMac hset
  · unfold macClassification at hm₀
    split at hm₀
    · rename_i old hold
      obtain rfl := Option.some.inj hm₀
      exact .inl ⟨old, hold, hsame⟩
    · rename_i hnone
      split_ifs at hm₀ with hmemory
      obtain rfl := Option.some.inj hm₀
      exact .inr ⟨hnone, hmemory, hsame⟩
  · rw [hinfo] at hold
    exact .inl ⟨macCls, hold, rfl, rfl⟩

/-- A transmit port keeps the names and births of the tables; a new table is the only one that
the next name is given to. -/
theorem tables_initTxPort {i : ℕ} {txPort : PortInfo}
    (h : (initTxPort (namedHash hash name birth) memory i txPort cmpInfo).2.macClassifications vid =
      some macCls) :
    (∃ old, cmpInfo.macClassifications vid = some old ∧ SameTable macCls old) ∨
      (cmpInfo.macClassifications (vidOf txPort) = none ∧ txPort.classId.macAddr ≠ 0 ∧
        memory = true ∧ macCls.classificationTab.name = name ∧
        macCls.classificationTab.birth = birth) := by
  have hclassified : txPort.classId.macAddr ≠ 0 →
      (∃ old, cmpInfo.macClassifications vid = some old ∧ SameTable macCls old) ∨
        (cmpInfo.macClassifications (vidOf txPort) = none ∧ memory = true ∧
          macCls.classificationTab.name = name ∧ macCls.classificationTab.birth = birth) := by
    intro hmac
    unfold initTxPort at h
    dsimp only at h
    rw [if_neg hmac] at h
    split at h
    · exact .inl ⟨macCls, h, rfl, rfl⟩
    rename_i m₀ hm₀
    split_ifs at h with hdefault
    · exact tables_setMac h hm₀ ⟨rfl, rfl⟩ rfl
    · split at h
      · exact tables_setMac h hm₀ ⟨rfl, rfl⟩ rfl
      · rename_i tab htab
        obtain ⟨tab', -, rfl⟩ := Option.map_eq_some_iff.mp htab
        exact tables_setMac h hm₀ ⟨rfl, rfl⟩ rfl
  by_cases hmac : txPort.classId.macAddr = 0
  · unfold initTxPort at h
    dsimp only at h
    rw [if_pos hmac] at h
    exact .inl ⟨macCls, h, rfl, rfl⟩
  · exact (hclassified hmac).imp_right fun ⟨hnone, hnew⟩ => ⟨hnone, hmac, hnew⟩

end Tables

section Runs

variable {τ : Type} {hash : RteHash τ} {pid : ℕ} {st st' : TablesSt τ}

/-- The tables that are alive have the names of their births, which the counter has passed. -/
def TablesSt.Numbered (pid : ℕ) (st : TablesSt τ) : Prop :=
  0xff ≤ st.gHashTableCount ∧ ∀ t, st.Alive t →
    t.name = hashTabName pid t.birth ∧ 0xff < t.birth ∧ t.birth ≤ st.gHashTableCount

/-- An area whose tables are old ones, or of the number that the counter has reached, keeps the
numbering. -/
theorem TablesSt.Numbered.setInfo (h : st.Numbered pid) {id : ℕ} {area : Fin 2}
    {cmpInfo : CmpInfo (HashTab τ)} (hcount : st.gHashTableCount ≤ st'.gHashTableCount)
    (hinfos : st'.cmpInfos = (st.setInfo id area cmpInfo).cmpInfos)
    (htables : ∀ vid macCls, cmpInfo.macClassifications vid = some macCls →
      (∃ old, (st.cmpInfos id area).macClassifications vid = some old ∧ SameTable macCls old) ∨
        (macCls.classificationTab.name = hashTabName pid st'.gHashTableCount ∧
          macCls.classificationTab.birth = st'.gHashTableCount ∧
          st.gHashTableCount < st'.gHashTableCount)) : st'.Numbered pid := by
  refine ⟨h.1.trans hcount, ?_⟩
  have hold : ∀ old id area vid, (st.cmpInfos id area).macClassifications vid = some old →
      ∀ macCls, SameTable macCls old →
        macCls.classificationTab.name = hashTabName pid macCls.classificationTab.birth ∧
          0xff < macCls.classificationTab.birth ∧
          macCls.classificationTab.birth ≤ st'.gHashTableCount := by
    intro old id area vid hmac macCls hsame
    obtain ⟨hname, hafter, hbefore⟩ := h.2 _ ⟨id, area, vid, old, hmac, rfl⟩
    rw [hsame.1, hsame.2]
    exact ⟨hname, hafter, hbefore.trans hcount⟩
  rintro t ⟨id', area', vid, macCls, hmac, rfl⟩
  rw [hinfos] at hmac
  unfold TablesSt.setInfo at hmac
  dsimp only at hmac
  by_cases hid : id' = id
  · subst hid
    rw [Function.update_self] at hmac
    by_cases harea : area' = area
    · subst harea
      rw [Function.update_self] at hmac
      obtain ⟨old, hm, hsame⟩ | ⟨hname, hbirth, hlt⟩ := htables vid macCls hmac
      · exact hold old _ _ _ hm macCls hsame
      · rw [hname, hbirth]
        exact ⟨rfl, h.1.trans_lt hlt, le_rfl⟩
    · rw [Function.update_of_ne harea] at hmac
      exact hold macCls _ _ _ hmac macCls ⟨rfl, rfl⟩
  · rw [Function.update_of_ne hid] at hmac
    exact hold macCls _ _ _ hmac macCls ⟨rfl, rfl⟩

/-- Steps that leave the areas and the counter alone keep the numbering. -/
theorem TablesSt.Numbered.congr (h : st.Numbered pid) (hinfos : st'.cmpInfos = st.cmpInfos)
    (hcount : st'.gHashTableCount = st.gHashTableCount) : st'.Numbered pid := by
  unfold TablesSt.Numbered TablesSt.Alive at h ⊢
  rw [hinfos, hcount]
  exact h

/-- Every step keeps the numbering. -/
theorem TablesSt.Numbered.step (h : st.Numbered pid) {act : TablesAct}
    (hstep : tablesStep hash pid act st = some st') : st'.Numbered pid := by
  unfold tablesStep at hstep
  split at hstep
  -- `spp_classifier_mac_update` is called
  · obtain rfl := Option.some.inj hstep
    exact h.setInfo le_rfl rfl fun vid macCls hmac => .inl ⟨macCls, hmac, rfl, rfl⟩
  -- a transmit port
  · rename_i zmalloc create id i txPort txPorts name hmanager
    obtain rfl := Option.some.inj hstep
    refine h.setInfo (Nat.le_add_right _ _) rfl fun vid macCls hmac => ?_
    obtain hold | ⟨hnone, haddr, hmemory, hname, hbirth⟩ := tables_initTxPort hmac
    · exact .inl hold
    · have hcreated : (createdName pid st (.txPort zmalloc create)).isSome = true := by
        have hzmalloc := (Bool.and_eq_true_iff.mp hmemory).1
        simp [createdName, hmanager, hnone, haddr, hzmalloc]
      rw [hcreated, if_pos rfl] at hname hbirth
      dsimp only
      rw [hcreated, if_pos rfl]
      exact .inr ⟨hname, hbirth, Nat.lt_succ_self _⟩
  -- the end of the loop
  · obtain rfl := Option.some.inj hstep
    exact h.setInfo le_rfl rfl fun vid macCls hmac => .inl ⟨macCls, hmac, rfl, rfl⟩
  -- the worker
  · split_ifs at hstep
    all_goals
      obtain rfl := Option.some.inj hstep
      exact h.congr rfl rfl
  -- the old area is uninitialised
  · split_ifs at hstep
    obtain rfl := Option.some.inj hstep
    exact h.setInfo le_rfl rfl nofun
  -- `component stop`
  · obtain rfl := Option.some.inj hstep
    exact h
  · cases hstep

/-- The tables of a process are numbered from the start. -/
theorem numbered_initial : (({} : TablesSt τ)).Numbered pid := by
  refine ⟨le_rfl, ?_⟩
  rintro t ⟨id, area, vid, macCls, hmac, rfl⟩
  cases hmac

/-- Tables are numbered in every run. -/
theorem numbered_of_reaches {guard : TablesAct → TablesSt τ → Prop}
    (h : Reaches (tablesStep hash pid) guard {} st) : st.Numbered pid :=
  h.invariant numbered_initial fun _ _ _ hinv _ hstep => hinv.step hstep

/-- In a run that creates no table while one is alive that was created a multiple of 65536
creations before, every name that is passed to `rte_hash_create` fits its buffer and is that of
no table that is alive. -/
theorem tableNames_new (h : Reaches (tablesStep hash pid) (NotComeRound pid) {} st)
    {act : TablesAct} (hact : NotComeRound pid act st) :
    ∀ name, createdName pid st act = some name → st.NewName name := by
  intro name hname
  have hnumber : name = hashTabName pid (st.gHashTableCount + 1) := by
    unfold createdName at hname
    split at hname
    · split at hname
      · split at hname
        · cases hname
        · split_ifs at hname
          exact (Option.some.inj hname).symm
      · cases hname
    · cases hname
  subst hnumber
  refine ⟨hashTabName_fits _ _, fun t ht hsame => ?_⟩
  obtain ⟨hbirth, -, hle⟩ := (numbered_of_reaches h).2 t ht
  rw [hbirth, hashTabName_inj] at hsame
  exact hact (by rw [hname]; exact Option.some_ne_none _) t ht (by omega)

/-- The counter does not go back. -/
theorem gHashTableCount_mono {act : TablesAct} (hstep : tablesStep hash pid act st = some st') :
    st.gHashTableCount ≤ st'.gHashTableCount := by
  unfold tablesStep at hstep
  split at hstep
  · obtain rfl := Option.some.inj hstep
    exact le_rfl
  · obtain rfl := Option.some.inj hstep
    exact Nat.le_add_right _ _
  · obtain rfl := Option.some.inj hstep
    exact le_rfl
  · split_ifs at hstep
    all_goals
      obtain rfl := Option.some.inj hstep
      exact le_rfl
  · split_ifs at hstep
    obtain rfl := Option.some.inj hstep
    exact le_rfl
  · obtain rfl := Option.some.inj hstep
    exact le_rfl
  · cases hstep

/-- No table is old enough before 65536 tables were created. -/
theorem notComeRound_of_count (h : st.Numbered pid) (hcount : st.gHashTableCount ≤ 0xff + 65535)
    (act : TablesAct) : NotComeRound pid act st := by
  intro _ t ht
  obtain ⟨-, hafter, hle⟩ := h.2 t ht
  omega

/-- A run that creates fewer than 65536 tables meets the condition. -/
theorem reaches_of_count (h : Reaches (tablesStep hash pid) (fun _ _ => True) {} st)
    (hcount : st.gHashTableCount ≤ 0xff + 65535) :
    Reaches (tablesStep hash pid) (NotComeRound pid) {} st := by
  induction h with
  | refl => exact .refl
  | tail hprev hlast ih =>
    obtain ⟨act, -, hact⟩ := hlast
    have hbefore := (gHashTableCount_mono hact).trans hcount
    exact .tail (ih hbefore)
      ⟨act, notComeRound_of_count (numbered_of_reaches hprev) hbefore act, hact⟩

end Runs

section Updates

variable (pid : ℕ) {st : TablesSt (List (ℕ × ℕ))}

/-- A transmit port with an address and a VLAN. -/
def taggedPort : PortInfo :=
  { ifaceType := .phy, ifaceNo := 0, dpdkPort := 0, classId := { macAddr := 1, vid := 5 } }

/-- The call of an update of a component with one transmit port. -/
def updateCall (id : ℕ) : TablesAct := .update id (fun _ => taggedPort) { txPorts := [⟨.nic, 0⟩] }

/-- An update of a component, from its call to its end. -/
def updateRun (id : ℕ) : List TablesAct :=
  [updateCall id, .txPort true true, .publish, .pass id, .uninit]

/-- The manager is idle, the worker has taken over the last update of component 0, and the
update side has no tables. -/
structure TablesSt.Ready (st : TablesSt (List (ℕ × ℕ))) : Prop where
  idle : st.manager = .idle
  update : ∃ u, st.index 0 = ⟨u + 1, u⟩ ∧ (st.cmpInfos 0 u).macClassifications = fun _ => none

/-- An update creates one table, and leaves the other components alone. -/
theorem TablesSt.Ready.update_run (h : st.Ready) :
    ∃ st', runAll (tablesStep assocHash pid) (updateRun 0) st = some st' ∧ st'.Ready ∧
      st'.gHashTableCount = st.gHashTableCount + 1 ∧ st'.cmpInfos 1 = st.cmpInfos 1 := by
  obtain ⟨hidle, u, hindex, hnone⟩ := h
  obtain ⟨count, infos, index, manager⟩ := st
  dsimp only at hidle hindex hnone
  subst hidle
  have hne : ¬ u + 1 + 1 = u + 1 := by omega
  obtain ⟨st', hrun, hidle, hindex, hnone, hkept⟩ : ∃ st',
      runAll (tablesStep assocHash pid) (updateRun 0) ⟨count, infos, index, .idle⟩ = some st' ∧
        st'.manager = .idle ∧ st'.index 0 = ⟨u + 1 + 1, u + 1⟩ ∧
        ((st'.cmpInfos 0 (u + 1)).macClassifications = fun _ => none) ∧
        st'.gHashTableCount = count + 1 ∧ st'.cmpInfos 1 = infos 1 := by
    simp [updateRun, updateCall, runAll, tablesStep, TablesSt.setInfo, TablesSt.updInfo,
      createdName, beginInfo, hindex, hnone, initTxPort, macClassification, taggedPort, namedHash,
      assocHash, sppDefaultClassifiedDmyAddr, vidOf, hne]
  exact ⟨st', hrun, ⟨hidle, u + 1, hindex, hnone⟩, hkept⟩

/-- So do any number of updates. -/
theorem TablesSt.Ready.updates (h : st.Ready) (n : ℕ) :
    ∃ st', Reaches (tablesStep assocHash pid) (fun _ _ => True) st st' ∧ st'.Ready ∧
      st'.gHashTableCount = st.gHashTableCount + n ∧ st'.cmpInfos 1 = st.cmpInfos 1 := by
  induction n with
  | zero => exact ⟨st, .refl, h, rfl, rfl⟩
  | succ n ih =>
    obtain ⟨mid, hmid, hready, hcount, hinfos⟩ := ih
    obtain ⟨st', hrun, hready', hcount', hinfos'⟩ := hready.update_run pid
    refine ⟨st', hmid.trans (reaches_of_runAll hrun fun _ _ _ => trivial), hready', ?_, ?_⟩
    · omega
    · rw [hinfos', hinfos]

/-- Component 1 is updated, and the worker comes to component 0. -/
def oneUpdate : List TablesAct := .pass 1 :: updateRun 1 ++ [.pass 0]

/-- The first table goes to component 1. -/
theorem runAll_oneUpdate : ∃ st, runAll (tablesStep assocHash 1) oneUpdate {} = some st ∧
    st.Ready ∧ st.gHashTableCount = 0x100 ∧
      ∃ macCls, (st.cmpInfos 1 0).macClassifications 5 = some macCls ∧
        macCls.classificationTab.name = hashTabName 1 0x100 :=
  ⟨_, rfl, ⟨rfl, 0, rfl, rfl⟩, rfl, _, rfl, rfl⟩

/-- The call of an update that is going to create a table. -/
theorem TablesSt.Ready.update_call (h : st.Ready) :
    ∃ st', tablesStep assocHash pid (updateCall 0) st = some st' ∧
      createdName pid st' (.txPort true true) = some (hashTabName pid (st.gHashTableCount + 1)) ∧
      st'.gHashTableCount = st.gHashTableCount ∧ st'.cmpInfos 1 = st.cmpInfos 1 := by
  obtain ⟨hidle, u, hindex, hnone⟩ := h
  obtain ⟨count, infos, index, manager⟩ := st
  dsimp only at hidle hindex hnone
  subst hidle
  simp [updateCall, tablesStep, TablesSt.setInfo, TablesSt.updInfo, createdName, beginInfo, hindex,
    hnone, taggedPort]

/-- The next update of component 0 makes a name while the first table is alive. -/
theorem tableNames_new_second : ∃ st name,
    Reaches (tablesStep assocHash 1) (NotComeRound 1) {} st ∧
      createdName 1 st (.txPort true true) = some name ∧ (∃ t, st.Alive t) ∧ st.NewName name := by
  obtain ⟨st, hrun, hready, hcount, macCls, hmac, -⟩ := runAll_oneUpdate
  obtain ⟨st', hcall, hname, hcount', hinfos⟩ := hready.update_call 1
  have hreach : Reaches (tablesStep assocHash 1) (fun _ _ => True) {} st' :=
    .tail (reaches_of_runAll hrun fun _ _ _ => trivial) ⟨_, trivial, hcall⟩
  have hfew : st'.gHashTableCount ≤ 0xff + 65535 := by omega
  have hcond := notComeRound_of_count (numbered_of_reaches hreach) hfew (.txPort true true)
  rw [← hinfos] at hmac
  exact ⟨st', _, reaches_of_count hreach hfew, hname, ⟨_, 1, 0, 5, macCls, hmac, rfl⟩,
    tableNames_new (reaches_of_count hreach hfew) hcond _ hname⟩

/-- After 65535 updates of component 0 the name of the table of component 1 comes again. -/
theorem not_tableNames_new_comeRound : ∃ st name,
    Reaches (tablesStep assocHash 1) (fun _ _ => True) {} st ∧
      createdName 1 st (.txPort true true) = some name ∧ ∃ t, st.Alive t ∧ t.name = name := by
  obtain ⟨st, hrun, hready, hcount, macCls, hmac, hfirst⟩ := runAll_oneUpdate
  obtain ⟨mid, hmid, hready', hcount', hinfos⟩ := hready.updates 1 65535
  obtain ⟨st', hcall, hname, -, hinfos'⟩ := hready'.update_call 1
  refine ⟨st', _, .tail (.trans (reaches_of_runAll hrun fun _ _ _ => trivial) hmid)
    ⟨_, trivial, hcall⟩, hname, _, ⟨1, 0, 5, macCls, ?_, rfl⟩, ?_⟩
  · rw [hinfos', hinfos, hmac]
  · rw [hfirst, hashTabName_inj]
    omega

end Updates

end Spp.Vf.TableNames
