import Mathlib.Data.List.Nodup
import Mathlib.Data.List.Perm.Subperm
import Spp.Vf.ClassifierMac

/-!
# What the classifier's tables hold

The tables that `init_component_info` builds in an empty area name transmit
ports of the component only, and no port for two VLANs. So every frame is
classified to ports that exist, to each at most once.
-/

namespace Spp.Vf

variable {τ : Type} (hash : RteHash τ)

/-- What a classification says about ports below `n`. -/
structure TableOk (n : ℕ) (macCls : MacClassification τ) : Prop where
  active_lt : ∀ i ∈ macCls.activeClassifieds, i < n
  active_nodup : macCls.activeClassifieds.Nodup
  lookup_lt : ∀ key data, hash.lookupData macCls.classificationTab key = some data → data < n
  default_ge : -1 ≤ macCls.defaultClassified
  default_mem : 0 ≤ macCls.defaultClassified →
    macCls.defaultClassified.toNat ∈ macCls.activeClassifieds

/-- The tables of an area name ports below `n`, each for one VLAN only. -/
structure TablesOk (n : ℕ) (cmpInfo : CmpInfo τ) : Prop where
  table : ∀ vid macCls, cmpInfo.macClassifications vid = some macCls → TableOk hash n macCls
  active_ne_nil : ∀ vid macCls, cmpInfo.macClassifications vid = some macCls →
    macCls.activeClassifieds ≠ []
  disjoint : ∀ vid vid' macCls macCls', vid ≠ vid' →
    cmpInfo.macClassifications vid = some macCls →
    cmpInfo.macClassifications vid' = some macCls' →
    ∀ i ∈ macCls.activeClassifieds, i ∉ macCls'.activeClassifieds

variable {hash} {n : ℕ} {cmpInfo : CmpInfo τ} {macCls : MacClassification τ}

theorem TableOk.mono {m : ℕ} (h : TableOk hash n macCls) (hle : n ≤ m) : TableOk hash m macCls :=
  ⟨fun i hi => Nat.lt_of_lt_of_le (h.active_lt i hi) hle, h.active_nodup,
    fun key data hdata => Nat.lt_of_lt_of_le (h.lookup_lt key data hdata) hle, h.default_ge,
    h.default_mem⟩

/-- The tables are all that counts. -/
theorem TablesOk.congr (h : TablesOk hash n cmpInfo) {other : CmpInfo τ}
    (heq : other.macClassifications = cmpInfo.macClassifications) : TablesOk hash n other := by
  refine ⟨?_, ?_, ?_⟩ <;> rw [heq]
  · exact h.table
  · exact h.active_ne_nil
  · exact h.disjoint

theorem TablesOk.mono {m : ℕ} (h : TablesOk hash n cmpInfo) (hle : n ≤ m) :
    TablesOk hash m cmpInfo :=
  ⟨fun vid macCls hcls => (h.table vid macCls hcls).mono hle, h.active_ne_nil, h.disjoint⟩

/-- An area without tables. -/
theorem tablesOk_of_none (h : ∀ vid, cmpInfo.macClassifications vid = none) :
    TablesOk hash n cmpInfo := by
  refine ⟨fun vid macCls hcls => ?_, fun vid macCls hcls => ?_,
    fun vid vid' macCls macCls' hne hcls => ?_⟩
  all_goals
    rw [h vid] at hcls
    cases hcls

/-- The classification that a port is added to: the one of its VLAN, or an empty one. -/
theorem TablesOk.macClassification {memory : Bool} {vid : ℕ} (h : TablesOk hash n cmpInfo)
    (hcls : macClassification hash memory cmpInfo vid = some macCls) :
    TableOk hash n macCls ∧ ∀ vid' macCls', vid ≠ vid' →
      cmpInfo.macClassifications vid' = some macCls' →
      ∀ i ∈ macCls.activeClassifieds, i ∉ macCls'.activeClassifieds := by
  unfold Spp.Vf.macClassification at hcls
  split at hcls
  · rename_i macCls₀ hold
    obtain rfl := Option.some.inj hcls
    exact ⟨h.table vid _ hold, fun vid' macCls' hne hcls' => h.disjoint vid vid' _ _ hne hold hcls'⟩
  · split at hcls
    · obtain rfl := Option.some.inj hcls
      refine ⟨⟨nofun, List.nodup_nil, fun key data hdata => ?_, Int.le_refl _, ?_⟩, nofun⟩
      · rw [hash.lookup_create] at hdata
        cases hdata
      · exact fun hdefault => absurd hdefault (by simp)
    · cases hcls

/-- Port `n` is added to the classification of a VLAN. -/
theorem TablesOk.setMac {memory : Bool} {vid : ℕ} (h : TablesOk hash n cmpInfo)
    (macCls' : MacClassification τ)
    (hcls : Vf.macClassification hash memory cmpInfo vid = some macCls)
    (hactive : macCls'.activeClassifieds = macCls.activeClassifieds ++ [n])
    (hlookup : ∀ key data, hash.lookupData macCls'.classificationTab key = some data → data < n + 1)
    (hdefault : macCls'.defaultClassified = macCls.defaultClassified ∨
      macCls'.defaultClassified = n) :
    TablesOk hash (n + 1) (cmpInfo.setMac vid macCls') := by
  obtain ⟨hold, hdisjoint⟩ := h.macClassification hcls
  -- the port is in no table yet
  have hfresh : ∀ vid' macCls', cmpInfo.macClassifications vid' = some macCls' →
      n ∉ macCls'.activeClassifieds := fun vid' macCls' hcls' hmem =>
    Nat.lt_irrefl n ((h.table vid' macCls' hcls').active_lt n hmem)
  have hnew : ∀ vid' macCls'', vid ≠ vid' → cmpInfo.macClassifications vid' = some macCls'' →
      ∀ i ∈ macCls'.activeClassifieds, i ∉ macCls''.activeClassifieds := by
    intro vid' macCls'' hne hcls' i hi
    rw [hactive] at hi
    rcases List.mem_append.mp hi with hi | hi
    · exact hdisjoint vid' macCls'' hne hcls' i hi
    · rw [List.mem_singleton.mp hi]
      exact hfresh vid' macCls'' hcls'
  have hget : ∀ vid' macCls'', (cmpInfo.setMac vid macCls').macClassifications vid' = some macCls'' →
      (vid' = vid ∧ macCls'' = macCls') ∨
        (vid ≠ vid' ∧ cmpInfo.macClassifications vid' = some macCls'') := by
    intro vid' macCls'' hcls'
    unfold CmpInfo.setMac at hcls'
    dsimp only at hcls'
    by_cases heq : vid' = vid
    · rw [heq, Function.update_self] at hcls'
      exact .inl ⟨heq, (Option.some.inj hcls').symm⟩
    · rw [Function.update_of_ne heq] at hcls'
      exact .inr ⟨Ne.symm heq, hcls'⟩
  refine ⟨?_, ?_, ?_⟩
  · intro vid' macCls'' hcls'
    rcases hget vid' macCls'' hcls' with ⟨-, rfl⟩ | ⟨-, hcls'⟩
    · refine ⟨fun i hi => ?_, ?_, hlookup, ?_, fun hge => ?_⟩
      · rw [hactive] at hi
        rcases List.mem_append.mp hi with hi | hi
        · exact Nat.lt_succ_of_lt (hold.active_lt i hi)
        · rw [List.mem_singleton.mp hi]
          exact Nat.lt_succ_self n
      · rw [hactive]
        refine List.nodup_append.mpr ⟨hold.active_nodup, List.nodup_singleton n, ?_⟩
        intro i hi j hj heq
        rw [List.mem_singleton.mp hj] at heq
        exact Nat.lt_irrefl n (hold.active_lt n (heq ▸ hi))
      · have hge := hold.default_ge
        rcases hdefault with heq | heq <;> omega
      · rw [hactive]
        rcases hdefault with heq | heq
        · rw [heq] at hge ⊢
          exact List.mem_append_left _ (hold.default_mem hge)
        · rw [heq]
          exact List.mem_append_right _ (List.mem_singleton.mpr rfl)
    · exact (h.table vid' macCls'' hcls').mono (Nat.le_succ n)
  · intro vid' macCls'' hcls'
    rcases hget vid' macCls'' hcls' with ⟨-, rfl⟩ | ⟨-, hcls'⟩
    · rw [hactive]
      exact List.append_ne_nil_of_right_ne_nil _ (List.cons_ne_nil n [])
    · exact h.active_ne_nil vid' macCls'' hcls'
  · intro vid₁ vid₂ macCls₁ macCls₂ hne hcls₁ hcls₂ i hi hi'
    rcases hget vid₁ macCls₁ hcls₁ with ⟨rfl, rfl⟩ | ⟨hne₁, hold₁⟩
    · rcases hget vid₂ macCls₂ hcls₂ with ⟨rfl, -⟩ | ⟨hne₂, hcls₂⟩
      · exact hne rfl
      · exact hnew vid₂ macCls₂ hne₂ hcls₂ i hi hi'
    · rcases hget vid₂ macCls₂ hcls₂ with ⟨rfl, rfl⟩ | ⟨-, hcls₂⟩
      · exact hnew vid₁ macCls₁ hne₁ hold₁ i hi' hi
      · exact h.disjoint vid₁ vid₂ macCls₁ macCls₂ hne hold₁ hcls₂ i hi hi'

/-- One iteration of `init_component_info`. -/
theorem TablesOk.initTxPort (h : TablesOk hash n cmpInfo) {memory : Bool} {txPort : PortInfo}
    (hok : (initTxPort hash memory n txPort cmpInfo).1 = .ok) :
    TablesOk hash (n + 1) (initTxPort hash memory n txPort cmpInfo).2 := by
  unfold Spp.Vf.initTxPort at hok ⊢
  dsimp only at hok ⊢
  split at hok
  · rename_i hzero
    rw [if_pos hzero]
    exact (h.mono (Nat.le_succ n)).congr rfl
  · rename_i hzero
    rw [if_neg hzero]
    split at hok
    · cases hok
    · rename_i macCls hcls
      have hcls' : Vf.macClassification hash memory cmpInfo (txPort.classId.vid % 2 ^ 16).toNat =
          some macCls := hcls
      obtain ⟨hold, -⟩ := h.macClassification hcls'
      split at hok
      · rename_i hdefault
        rw [if_pos hdefault]
        refine (h.setMac { macCls with
          activeClassifieds := macCls.activeClassifieds ++ [n], defaultClassified := n } hcls' rfl
          (fun key data hdata => ?_) (.inr rfl)).congr rfl
        exact Nat.lt_succ_of_lt (hold.lookup_lt key data hdata)
      · rename_i hdefault
        rw [if_neg hdefault]
        split at hok
        · cases hok
        · rename_i tab hadd
          refine (h.setMac { macCls with
            activeClassifieds := macCls.activeClassifieds ++ [n], classificationTab := tab } hcls'
            rfl (fun key data hdata => ?_) (.inl rfl)).congr rfl
          rw [hash.lookup_add hadd] at hdata
          split at hdata
          · obtain rfl := Option.some.inj hdata
            exact Nat.lt_succ_self n
          · exact Nat.lt_succ_of_lt (hold.lookup_lt key data hdata)

/-- The loop of `init_component_info`. -/
theorem TablesOk.initTxPorts (h : TablesOk hash n cmpInfo) {memory : ℕ → Bool}
    {txPorts : List PortInfo} (hok : (initTxPorts hash memory n txPorts cmpInfo).1 = .ok) :
    TablesOk hash (n + txPorts.length) (initTxPorts hash memory n txPorts cmpInfo).2 := by
  induction txPorts generalizing n cmpInfo with
  | nil => exact h
  | cons txPort txPorts ih =>
    have hstep (hok : (Vf.initTxPort hash (memory n) n txPort cmpInfo).1 = .ok) :=
      h.initTxPort hok
    unfold Spp.Vf.initTxPorts at hok ⊢
    split at hok
    · cases hok
    · rename_i cmpInfo' hinit
      rw [hinit] at hstep
      have hrest := ih (hstep rfl) hok
      rwa [Nat.add_assoc, Nat.add_comm 1] at hrest

theorem nClassifiedDataTx_initTxPort (hash : RteHash τ) (memory : Bool) (i : ℕ) (txPort : PortInfo)
    (cmpInfo : CmpInfo τ) :
    (initTxPort hash memory i txPort cmpInfo).2.nClassifiedDataTx = cmpInfo.nClassifiedDataTx := by
  unfold initTxPort
  dsimp only
  split
  · rfl
  · split
    · rfl
    · split
      · rfl
      · split <;> rfl

theorem nClassifiedDataTx_initTxPorts (hash : RteHash τ) (memory : ℕ → Bool) (i : ℕ)
    (txPorts : List PortInfo) (cmpInfo : CmpInfo τ) :
    (initTxPorts hash memory i txPorts cmpInfo).2.nClassifiedDataTx =
      cmpInfo.nClassifiedDataTx := by
  induction txPorts generalizing i cmpInfo with
  | nil => rfl
  | cons txPort txPorts ih =>
    have hstep := nClassifiedDataTx_initTxPort hash (memory i) i txPort cmpInfo
    unfold initTxPorts
    split <;> rename_i cmpInfo' hinit <;> rw [hinit] at hstep
    · exact hstep
    · rw [ih]
      exact hstep

/-- `init_component_info` in an area without tables. -/
theorem tablesOk_initComponentInfo {memory : ℕ → Bool} {iface : PortRef → PortInfo}
    {componentInfo : ComponentInfo}
    (hclean : ∀ vid, cmpInfo.macClassifications vid = none)
    (hok : (initComponentInfo hash memory iface componentInfo cmpInfo).1 = .ok) :
    let made := (initComponentInfo hash memory iface componentInfo cmpInfo).2
    made.nClassifiedDataTx = componentInfo.txPorts.length ∧
      TablesOk hash made.nClassifiedDataTx made := by
  have hcount : (initComponentInfo hash memory iface componentInfo cmpInfo).2.nClassifiedDataTx =
      componentInfo.txPorts.length := nClassifiedDataTx_initTxPorts ..
  refine ⟨hcount, ?_⟩
  rw [hcount]
  unfold initComponentInfo at hok ⊢
  have htables := fun h => TablesOk.initTxPorts (n := 0) h hok
  rw [Nat.zero_add, List.length_map] at htables
  exact htables (tablesOk_of_none hclean)

section Fate

variable {ρ : Type}

/-- A frame is pushed to ports below `n`, to none of them twice, and each of its
references has a push or is freed. -/
structure FateOk (n : ℕ) (fate : Fate) : Prop where
  pushes_lt : ∀ i ∈ fate.pushes, i < n
  pushes_nodup : fate.pushes.Nodup
  references : 1 + fate.added = fate.pushes.length + if fate.freed then 1 else 0

theorem fateOk_push {i : ℕ} (hi : i < n) : FateOk n ⟨0, [i], false⟩ :=
  ⟨fun j hj => by rwa [List.mem_singleton.mp hj], List.nodup_singleton i, rfl⟩

theorem fateOk_free (n : ℕ) : FateOk n ⟨0, [], true⟩ := ⟨nofun, List.nodup_nil, rfl⟩

/-- The general default is a port of the untagged classification. -/
theorem TablesOk.generalDefault (h : TablesOk hash n cmpInfo) :
    -1 ≤ getGeneralDefaultClassifiedIndex cmpInfo ∧
      (0 ≤ getGeneralDefaultClassifiedIndex cmpInfo →
        (getGeneralDefaultClassifiedIndex cmpInfo).toNat < n ∧
          ∀ vid macCls, vid ≠ vlanUntaggedVid → cmpInfo.macClassifications vid = some macCls →
            (getGeneralDefaultClassifiedIndex cmpInfo).toNat ∉ macCls.activeClassifieds) := by
  unfold getGeneralDefaultClassifiedIndex
  split
  · exact ⟨Int.le_refl _, fun hge => absurd hge (by decide)⟩
  · rename_i general hgeneral
    have hok := h.table _ general hgeneral
    refine ⟨hok.default_ge, fun hge => ?_⟩
    have hmem := hok.default_mem hge
    exact ⟨hok.active_lt _ hmem, fun vid macCls hne hcls =>
      h.disjoint _ vid general macCls (Ne.symm hne) hgeneral hcls _ hmem⟩

/-- The fan-out of a multicast frame. With at most 32 ports the conversion to
`int16_t` changes nothing. -/
theorem TablesOk.handleL2multicastPacket (h : TablesOk hash n cmpInfo) (hn : n ≤ 32)
    (pkt : Frame ρ) : FateOk n (handleL2multicastPacket pkt cmpInfo) := by
  obtain ⟨hge, hgeneral⟩ := h.generalDefault
  unfold Spp.Vf.handleL2multicastPacket
  dsimp only
  cases hcls : cmpInfo.macClassifications (getVid pkt) with
  | none =>
    dsimp only
    rw [if_pos List.length_nil]
    split
    · exact fateOk_free n
    · exact fateOk_push (hgeneral (by omega)).1
  | some macCls =>
    have hok := h.table _ macCls hcls
    have hne := h.active_ne_nil _ macCls hcls
    have hlen : macCls.activeClassifieds.length ≤ n := by
      have hsub := List.subperm_of_subset hok.active_nodup fun i hi =>
        List.mem_range.mpr (hok.active_lt i hi)
      simpa using hsub.length_le
    have hpos : 0 < macCls.activeClassifieds.length := List.length_pos_of_ne_nil hne
    dsimp only
    rw [if_neg (mt List.length_eq_zero_iff.mp hne)]
    by_cases hto : 0 ≤ getGeneralDefaultClassifiedIndex cmpInfo ∧ getVid pkt ≠ vlanUntaggedVid
    · obtain ⟨hlt, hnot⟩ := hgeneral hto.1
      simp only [if_pos hto]
      refine ⟨fun i hi => ?_, ?_, ?_⟩
      · rcases List.mem_append.mp hi with hi | hi
        · exact hok.active_lt i hi
        · rwa [List.mem_singleton.mp hi]
      · refine List.nodup_append.mpr ⟨hok.active_nodup, List.nodup_singleton _, ?_⟩
        intro i hi j hj heq
        rw [List.mem_singleton.mp hj] at heq
        exact hnot _ macCls hto.2 hcls (heq ▸ hi)
      · rw [Int.bmod_eq_of_le (by omega) (by omega)]
        simp only [List.length_append, List.length_singleton, Int.natCast_add,
          Bool.false_eq_true, if_false]
        omega
    · simp only [if_neg hto, List.append_nil]
      refine ⟨hok.active_lt, hok.active_nodup, ?_⟩
      rw [Int.bmod_eq_of_le (by omega) (by omega)]
      simp only [Bool.false_eq_true, if_false]
      omega

/-- Every frame is classified to ports of the component. -/
theorem TablesOk.classifyPacket (h : TablesOk hash n cmpInfo) (hn : n ≤ 32) (pkt : Frame ρ) :
    FateOk n (classifyPacket hash pkt cmpInfo) := by
  obtain ⟨hge, hgeneral⟩ := h.generalDefault
  have hselect : -2 ≤ selectClassifiedIndex hash pkt cmpInfo ∧
      (0 ≤ selectClassifiedIndex hash pkt cmpInfo →
        (selectClassifiedIndex hash pkt cmpInfo).toNat < n) := by
    unfold selectClassifiedIndex
    dsimp only
    split
    · exact ⟨by omega, fun hpos => (hgeneral hpos).1⟩
    · rename_i macCls hcls
      have hok := h.table _ macCls hcls
      split
      · rename_i data hdata
        exact ⟨by omega, fun _ => by simpa using hok.lookup_lt _ data hdata⟩
      · split
        · exact ⟨Int.le_refl _, fun hpos => absurd hpos (by decide)⟩
        · split
          · exact ⟨by omega, fun hpos => (hgeneral hpos).1⟩
          · have hdefault := hok.default_ge
            exact ⟨by omega, fun hpos => hok.active_lt _ (hok.default_mem hpos)⟩
  unfold Spp.Vf.classifyPacket
  dsimp only
  split
  · rename_i hpos
    exact fateOk_push (hselect.2 hpos)
  · split
    · exact fateOk_free n
    · split
      · exact h.handleL2multicastPacket hn pkt
      · omega

end Fate

end Spp.Vf
