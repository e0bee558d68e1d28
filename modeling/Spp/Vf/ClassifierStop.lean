import Spp.Vf.RuntimeStep

/-!
# What a stopped classifier leaves behind

`component stop` is to initialise the management information of a classifier,
but the type it tests has been zeroed before. What is left is what the updates
of the slot have made since the process was started: nothing, if each of them
has failed before it created a table, and a used entry or tables otherwise.
-/

namespace Spp.Vf

open CLib GuardedRun

variable {τ ρ : Type} {P : SppProcess} {hash : RteHashTable τ} {rt rt' : Runtime τ ρ}

section Packets

variable {S S' : ρ → Prop} {start : ℕ → List ρ} {room : ℕ → ℕ} {tx : TxSide ρ}

/-- The packets in the buffers, and those handed over since the start, belong to a set. -/
structure TxSide.From (tx : TxSide ρ) (S : ρ → Prop) (start : ℕ → List ρ) : Prop where
  buffered : ∀ i, ∀ pkt ∈ tx.pkts i, S pkt
  handed : ∀ i, ∃ out, tx.handed i = start i ++ out ∧ ∀ pkt ∈ out, S pkt

theorem TxSide.From.transmit (h : tx.From S start) (i : ℕ) : (tx.transmit room i).From S start := by
  constructor
  · intro j pkt hpkt
    by_cases hj : j = i
    · subst hj
      simp [TxSide.transmit] at hpkt
    · exact h.buffered j pkt (by simpa [TxSide.transmit, hj] using hpkt)
  · intro j
    obtain ⟨out, hout, hS⟩ := h.handed j
    by_cases hj : j = i
    · subst hj
      refine ⟨out ++ tx.pkts j, by simp [TxSide.transmit, hout], fun pkt hpkt => ?_⟩
      rcases List.mem_append.mp hpkt with hpkt | hpkt
      · exact hS pkt hpkt
      · exact h.buffered j pkt hpkt
    · exact ⟨out, by simp [TxSide.transmit, hj, hout], hS⟩

theorem TxSide.From.transmitAll (h : tx.From S start) (n : ℕ) :
    (tx.transmitAll room n).From S start := by
  unfold TxSide.transmitAll
  induction List.range n generalizing tx with
  | nil => exact h
  | cons i is ih =>
    rw [List.foldl_cons]
    split
    · exact ih (h.transmit i)
    · exact ih h

theorem TxSide.From.push (h : tx.From S start) {pkt : ρ} (hpkt : S pkt) (i : ℕ) :
    (tx.push room pkt i).From S start := by
  have hput : ({ tx with pkts := Function.update tx.pkts i (tx.pkts i ++ [pkt]) } :
      TxSide ρ).From S start := by
    refine ⟨fun j p hp => ?_, h.handed⟩
    by_cases hj : j = i
    · subst hj
      simp only [Function.update_self, List.mem_append, List.mem_singleton] at hp
      rcases hp with hp | rfl
      · exact h.buffered j p hp
      · exact hpkt
    · exact h.buffered j p (by simpa [hj] using hp)
  unfold TxSide.push
  dsimp only
  split
  · exact hput.transmit i
  · exact hput

theorem TxSide.From.classifyFrame (h : tx.From S start) (cmpInfo : CmpInfo τ) {frame : Frame ρ}
    (hframe : S frame.mbuf) : (classifyFrame hash.toRteHash room cmpInfo tx frame).From S start := by
  unfold Vf.classifyFrame
  induction (classifyPacket hash.toRteHash frame cmpInfo).pushes generalizing tx with
  | nil => exact h
  | cons i is ih => exact ih (h.push hframe i)

/-- The same of both areas of a slot. -/
structure ManagementInfo.From (m : ManagementInfo τ ρ) (S : ρ → Prop) (start : ℕ → List ρ) :
    Prop where
  buffered : ∀ area i, ∀ pkt ∈ m.pkts area i, S pkt
  handed : ∀ i, ∃ out, m.handed i = start i ++ out ∧ ∀ pkt ∈ out, S pkt

variable {m : ManagementInfo τ ρ}

theorem ManagementInfo.From.mono (h : m.From S start) (hle : ∀ pkt, S pkt → S' pkt) :
    m.From S' start := by
  refine ⟨fun area i pkt hpkt => hle pkt (h.buffered area i pkt hpkt), fun i => ?_⟩
  obtain ⟨out, hout, hS⟩ := h.handed i
  exact ⟨out, hout, fun pkt hpkt => hle pkt (hS pkt hpkt)⟩

theorem ManagementInfo.From.txSide (h : m.From S start) (area : Fin 2) : (m.tx area).From S start :=
  ⟨h.buffered area, h.handed⟩

theorem ManagementInfo.From.setTx (h : m.From S start) {tx : TxSide ρ} (htx : tx.From S start)
    (area : Fin 2) : (m.setTx area tx).From S start := by
  refine ⟨fun a i pkt hpkt => ?_, htx.handed⟩
  by_cases ha : a = area
  · subst ha
    exact htx.buffered i pkt (by simpa [ManagementInfo.setTx] using hpkt)
  · exact h.buffered a i pkt (by simpa [ManagementInfo.setTx, ha] using hpkt)

/-- A call of the classifier adds the packets that it receives. -/
theorem ManagementInfo.From.classify (h : m.From S start) (hash : RteHashTable τ)
    (call : WorkerCall ρ) (area : Fin 2) :
    ∃ new, (m.classify hash.toRteHash call area).arrived = m.arrived ++ new ∧
      (m.classify hash.toRteHash call area).From (fun pkt => S pkt ∨ pkt ∈ new) start := by
  unfold ManagementInfo.classify
  dsimp only
  split
  · refine ⟨call.frames.map Frame.mbuf, rfl, ?_⟩
    have hmono := h.mono fun pkt hpkt => (Or.inl hpkt : S pkt ∨ pkt ∈ call.frames.map Frame.mbuf)
    have hdrain : (if call.drain = true then
        (m.tx area).transmitAll call.room (m.cmpInfos area).nClassifiedDataTx
          else m.tx area).From (fun pkt => S pkt ∨ pkt ∈ call.frames.map Frame.mbuf) start := by
      split
      · exact (hmono.txSide area).transmitAll _
      · exact hmono.txSide area
    have hfold : ∀ frames ⊆ call.frames, ∀ tx : TxSide ρ,
        tx.From (fun pkt => S pkt ∨ pkt ∈ call.frames.map Frame.mbuf) start →
        (frames.foldl (classifyFrame hash.toRteHash call.room (m.cmpInfos area)) tx).From
          (fun pkt => S pkt ∨ pkt ∈ call.frames.map Frame.mbuf) start := by
      intro frames hsub
      induction frames with
      | nil => exact fun tx htx => htx
      | cons frame frames ih =>
        obtain ⟨hframe, hsub⟩ := List.cons_subset.mp hsub
        intro tx htx
        exact ih hsub _ (htx.classifyFrame _ (.inr (List.mem_map_of_mem hframe)))
    obtain ⟨hbuffered, hhanded⟩ := hmono.setTx (hfold _ (List.Subset.refl _) _ hdrain) area
    exact ⟨hbuffered, hhanded⟩
  · exact ⟨[], by simp, h.mono fun pkt => .inl⟩

/-- What was handed over after a moment was received after it, and so was what
is buffered. -/
def ManagementInfo.Since (m m₀ : ManagementInfo τ ρ) : Prop :=
  ∃ new, m.arrived = m₀.arrived ++ new ∧ m.From (fun pkt => pkt ∈ new) m₀.handed

variable {m₀ m' : ManagementInfo τ ρ}

/-- Buffers may be emptied. -/
theorem ManagementInfo.Since.congr (h : m.Since m₀) (harrived : m'.arrived = m.arrived)
    (hhanded : m'.handed = m.handed) (hpkts : ∀ area i, m'.pkts area i ⊆ m.pkts area i) :
    m'.Since m₀ := by
  obtain ⟨new, hnew, hfrom⟩ := h
  refine ⟨new, harrived.trans hnew, fun area i pkt hpkt => ?_, ?_⟩
  · exact hfrom.buffered area i pkt (hpkts area i hpkt)
  · rw [hhanded]
    exact hfrom.handed

theorem ManagementInfo.Since.classify (h : m.Since m₀) (hash : RteHashTable τ)
    (call : WorkerCall ρ) (area : Fin 2) :
    (m.classify hash.toRteHash call area).Since m₀ := by
  obtain ⟨new, hnew, hfrom⟩ := h
  obtain ⟨more, hmore, hall⟩ := hfrom.classify hash call area
  refine ⟨new ++ more, by rw [hmore, hnew, List.append_assoc], hall.mono fun pkt => ?_⟩
  exact List.mem_append.mpr

theorem ManagementInfo.Since.transmitAll (h : m.Since m₀) (room : ℕ → ℕ) (area : Fin 2) (n : ℕ) :
    (m.setTx area ((m.tx area).transmitAll room n)).Since m₀ := by
  obtain ⟨new, hnew, hfrom⟩ := h
  exact ⟨new, hnew, hfrom.setTx ((hfrom.txSide area).transmitAll n) area⟩

end Packets

section Tables

variable {hash : RteHash τ} {memory : ℕ → Bool} {cmpInfo : CmpInfo τ} {vid : ℕ}

/-- An iteration of `init_component_info` removes no table. -/
theorem initTxPort_keeps_table (h : cmpInfo.macClassifications vid ≠ none) (hash : RteHash τ)
    (allocated : Bool) (txPort : PortInfo) (i : ℕ) :
    (initTxPort hash allocated i txPort cmpInfo).2.macClassifications vid ≠ none := by
  have hset : ∀ (other : CmpInfo τ) (v : ℕ) (macCls : MacClassification τ),
      other.macClassifications = cmpInfo.macClassifications →
        (other.setMac v macCls).macClassifications vid ≠ none := by
    intro other v macCls hother
    by_cases hv : vid = v
    · simp [CmpInfo.setMac, hv]
    · simpa [CmpInfo.setMac, hv, hother] using h
  unfold initTxPort
  dsimp only
  split
  · exact h
  · split
    · exact h
    · split
      · exact hset _ _ _ rfl
      · split <;> exact hset _ _ _ rfl

/-- The loop of `init_component_info` removes no table. -/
theorem initTxPorts_keeps_table {txPorts : List PortInfo}
    (h : cmpInfo.macClassifications vid ≠ none) (i : ℕ) :
    (initTxPorts hash memory i txPorts cmpInfo).2.macClassifications vid ≠ none := by
  induction txPorts generalizing i cmpInfo with
  | nil => exact h
  | cons txPort txPorts ih =>
    have hstep := initTxPort_keeps_table h hash (memory i) txPort i
    unfold initTxPorts
    split
    · rename_i cmpInfo' hinit
      rwa [hinit] at hstep
    · rename_i cmpInfo' hinit
      rw [hinit] at hstep
      exact ih hstep (i + 1)

/-- An iteration that gets a table has made one when it returns. -/
theorem initTxPort_makes_table {txPort : PortInfo} (haddr : txPort.classId.macAddr ≠ 0)
    (hash : RteHash τ) (cmpInfo : CmpInfo τ) (i : ℕ) :
    ∃ vid, (initTxPort hash true i txPort cmpInfo).2.macClassifications vid ≠ none := by
  refine ⟨(txPort.classId.vid % 2 ^ 16).toNat, ?_⟩
  unfold initTxPort
  dsimp only
  rw [if_neg haddr]
  split
  · rename_i hnone
    unfold macClassification at hnone
    split at hnone <;> simp at hnone
  · split
    · simp [CmpInfo.setMac]
    · split <;> simp [CmpInfo.setMac]

/-- The loop fails before any table is made, and the area has none then. -/
theorem initTxPorts_of_fails {txPorts : List PortInfo} {i : ℕ}
    (h : failsAtFirstTable memory i txPorts = true)
    (hnone : ∀ vid, cmpInfo.macClassifications vid = none) :
    (initTxPorts hash memory i txPorts cmpInfo).1 = .ng ∧
      (∀ vid, (initTxPorts hash memory i txPorts cmpInfo).2.macClassifications vid = none) ∧
      (initTxPorts hash memory i txPorts cmpInfo).2.macAddrEntry = cmpInfo.macAddrEntry := by
  induction txPorts generalizing i cmpInfo with
  | nil => cases h
  | cons txPort txPorts ih =>
    unfold failsAtFirstTable at h
    unfold initTxPorts initTxPort
    dsimp only
    by_cases haddr : txPort.classId.macAddr = 0
    · rw [if_pos haddr] at h ⊢
      exact ih h hnone
    · rw [if_neg haddr] at h ⊢
      have hmemory : memory i = false := by simpa using h
      have hcls : ∀ data v, macClassification hash (memory i)
          { cmpInfo with classifiedDataTx := data } v = none := by
        intro data v
        simp [macClassification, hnone v, hmemory]
      rw [hcls]
      exact ⟨rfl, hnone, rfl⟩

/-- A loop that fails later leaves a table. -/
theorem initTxPorts_of_not_fails {txPorts : List PortInfo} {i : ℕ}
    (h : failsAtFirstTable memory i txPorts = false)
    (hng : (initTxPorts hash memory i txPorts cmpInfo).1 = .ng) :
    ∃ vid, (initTxPorts hash memory i txPorts cmpInfo).2.macClassifications vid ≠ none := by
  induction txPorts generalizing i cmpInfo with
  | nil => cases hng
  | cons txPort txPorts ih =>
    unfold failsAtFirstTable at h
    unfold initTxPorts at hng ⊢
    by_cases haddr : txPort.classId.macAddr = 0
    · rw [if_pos haddr] at h
      unfold initTxPort at hng ⊢
      dsimp only at hng ⊢
      rw [if_pos haddr] at hng ⊢
      exact ih h hng
    · rw [if_neg haddr] at h
      have hmemory : memory i = true := by simpa using h
      obtain ⟨vid, hvid⟩ := initTxPort_makes_table haddr hash cmpInfo i
      rw [hmemory] at hng ⊢
      split
      · rename_i cmpInfo' hinit
        rw [hinit] at hvid
        exact ⟨vid, hvid⟩
      · rename_i cmpInfo' hinit
        rw [hinit] at hvid
        exact ⟨vid, initTxPorts_keeps_table hvid (i + 1)⟩

end Tables

section History

variable {m : ManagementInfo τ ρ}

/-- Nothing has been made for a slot, and nothing was received for it. -/
structure ManagementInfo.Fresh (m : ManagementInfo τ ρ) : Prop where
  unused : m.isUsed = false
  noTables : ∀ area vid, (m.cmpInfos area).macClassifications vid = none
  noEntry : ∀ area, (m.cmpInfos area).macAddrEntry = 0
  noPackets : ∀ area i, m.pkts area i = []
  noArrival : m.arrived = []

/-- From empty buffers nothing is transmitted. -/
theorem TxSide.transmitAll_of_empty {tx : TxSide ρ} (h : ∀ i, tx.pkts i = []) (room : ℕ → ℕ)
    (n : ℕ) : tx.transmitAll room n = tx := by
  unfold TxSide.transmitAll
  induction List.range n with
  | nil => rfl
  | cons i is ih =>
    rw [List.foldl_cons, if_neg (by simp [h i])]
    exact ih

/-- Storing the transmit side that was read changes nothing. -/
theorem setTx_tx (m : ManagementInfo τ ρ) (area : Fin 2) : m.setTx area (m.tx area) = m := by
  simp [ManagementInfo.setTx, ManagementInfo.tx]

/-- A call of a classifier without tables does nothing. -/
theorem ManagementInfo.Fresh.classify (h : m.Fresh) (hash : RteHash τ) (call : WorkerCall ρ)
    (area : Fin 2) : m.classify hash call area = m := by
  unfold ManagementInfo.classify
  simp [h.noEntry area]

variable (P) in
/-- The area of a classifier has been built, and the slot is not yet marked as used. -/
def Runtime.Publishing (rt : Runtime τ ρ) (id : ℕ) : Prop :=
  updateTarget P.M rt.flush.s id = .classifier id ∧
    ((∃ rest, rt.flush.manager = .publish id rest) ∨
      ∃ ref rest, rt.flush.manager = .store id ref rest)

variable (P) in
/-- What the updates of a slot have left: nothing before the first table is
created, and an entry or tables from then on. -/
structure SlotHistory (rt : Runtime τ ρ) (id : ℕ) : Prop where
  fresh : rt.built id = false → (rt.mngInfos id).Fresh
  left : rt.built id = true →
    (rt.mngInfos id).isUsed = true ∨
      (∃ area vid, ((rt.mngInfos id).cmpInfos area).macClassifications vid ≠ none) ∨
        rt.Publishing P id
  publishing : rt.Publishing P id → rt.built id = true
  waiting : ∀ rest, rt.flush.manager = .wait id rest →
    updateTarget P.M rt.flush.s id = .classifier id → (rt.mngInfos id).isUsed = true
  idle : rt.pc ≠ .component → rt.flush.manager = .idle

variable {id : ℕ}

/-- A worker changes no area and no mark, and nothing at all in a fresh slot. -/
theorem SlotHistory.of_worker (h : SlotHistory P rt id) (hs : rt'.flush.s.component =
    rt.flush.s.component) (hmanager : rt'.flush.manager = rt.flush.manager) (hpc : rt'.pc = rt.pc)
    (hbuilt : rt'.built = rt.built) (hused : (rt'.mngInfos id).isUsed = (rt.mngInfos id).isUsed)
    (hcmp : (rt'.mngInfos id).cmpInfos = (rt.mngInfos id).cmpInfos)
    (hfresh : (rt.mngInfos id).Fresh → rt'.mngInfos id = rt.mngInfos id) :
    SlotHistory P rt' id := by
  have htarget : updateTarget P.M rt'.flush.s id = updateTarget P.M rt.flush.s id :=
    updateTarget_congr (by rw [hs])
  have hpublishing : rt'.Publishing P id ↔ rt.Publishing P id := by
    unfold Runtime.Publishing
    rw [htarget, hmanager]
  constructor
  · intro hb
    rw [hbuilt] at hb
    rw [hfresh (h.fresh hb)]
    exact h.fresh hb
  · rw [hbuilt, hused, hcmp, hpublishing]
    exact h.left
  · rw [hbuilt, hpublishing]
    exact h.publishing
  · rw [hmanager, htarget, hused]
    exact h.waiting
  · rw [hpc, hmanager]
    exact h.idle

/-- A step that leaves the slot alone keeps its history, unless the slot was
about to be marked or is waited for then. -/
theorem SlotHistory.of_kept (h : SlotHistory P rt id) (hm : rt'.mngInfos id = rt.mngInfos id)
    (hbuilt : rt'.built id = rt.built id) (hnot : ¬ rt.Publishing P id)
    (hnot' : ¬ rt'.Publishing P id) (hwait : ∀ rest, rt'.flush.manager = .wait id rest →
      updateTarget P.M rt'.flush.s id ≠ .classifier id)
    (hidle : rt'.pc ≠ .component → rt'.flush.manager = .idle) : SlotHistory P rt' id := by
  refine ⟨?_, ?_, fun hpub => absurd hpub hnot', fun rest hrest ht => absurd ht (hwait rest hrest),
    hidle⟩
  · rw [hbuilt, hm]
    exact h.fresh
  · rw [hbuilt, hm]
    intro hb
    rcases h.left hb with hused | htable | hpub
    · exact .inl hused
    · exact .inr (.inl htable)
    · exact absurd hpub hnot

section Build

variable {hash : RteHash τ} {memory : ℕ → Bool}

/-- The tables of an area after a build. -/
theorem buildClassifier_area (hash : RteHash τ) (memory : ℕ → Bool) (rt : Runtime τ ρ) (id : ℕ)
    (area : Fin 2) :
    let upd := (rt.flush.index (.classifier id)).updIndex
    let cmpInfo := ((rt.buildClassifier hash memory id).mngInfos id).cmpInfos area
    (area = upd ∧
        cmpInfo.macClassifications = (rt.initArea hash memory id).2.macClassifications ∧
        cmpInfo.macAddrEntry = (rt.initArea hash memory id).2.macAddrEntry) ∨
      area ≠ upd ∧ cmpInfo = (rt.mngInfos id).cmpInfos area := by
  intro upd cmpInfo
  by_cases harea : area = upd
  · left
    refine ⟨harea, ?_⟩
    simp only [cmpInfo, harea, upd, Runtime.buildClassifier, Runtime.setMngInfo,
      Function.update_self]
    split <;> exact ⟨rfl, rfl⟩
  · right
    refine ⟨harea, ?_⟩
    simp only [cmpInfo, Runtime.buildClassifier, Runtime.setMngInfo, Function.update_self]
    exact Function.update_of_ne harea _ _

/-- A build that fails before its first table leaves a fresh slot fresh. -/
theorem ManagementInfo.Fresh.build (h : (rt.mngInfos id).Fresh)
    (hfails : failsAtFirstTable memory 0
      ((rt.flush.s.component id).txPorts.map rt.flush.s.iface) = true) :
    (rt.initArea hash memory id).1 = .ng ∧
      ((rt.buildClassifier hash memory id).mngInfos id).Fresh := by
  obtain ⟨hng, htables, hentry⟩ : (rt.initArea hash memory id).1 = .ng ∧
      (∀ vid, (rt.initArea hash memory id).2.macClassifications vid = none) ∧
      (rt.initArea hash memory id).2.macAddrEntry = 0 :=
    initTxPorts_of_fails hfails fun vid => h.noTables _ vid
  refine ⟨hng, ?_, fun area vid => ?_, fun area => ?_, fun area i => ?_, ?_⟩
  · simpa [Runtime.buildClassifier, Runtime.setMngInfo] using h.unused
  · rcases buildClassifier_area hash memory rt id area with
      ⟨-, hmac, -⟩ | ⟨-, hsame⟩
    · rw [hmac, htables]
    · rw [hsame, h.noTables]
  · rcases buildClassifier_area hash memory rt id area with
      ⟨-, -, hadd⟩ | ⟨-, hsame⟩
    · rw [hadd, hentry]
    · rw [hsame, h.noEntry]
  · simp only [Runtime.buildClassifier, Runtime.setMngInfo, Function.update_self]
    by_cases harea : area = (rt.flush.index (.classifier id)).updIndex
    · rw [harea, Function.update_self, h.noPackets]
      exact ite_self []
    · rw [Function.update_of_ne harea, h.noPackets]
  · simpa [Runtime.buildClassifier, Runtime.setMngInfo] using h.noArrival

/-- What a build leaves is accounted for: the mark, a table, or its success. -/
theorem SlotHistory.build (h : SlotHistory P rt id) (hnot : ¬ rt.Publishing P id) (hash : RteHash τ)
    (memory : ℕ → Bool) :
    let rt' := rt.buildClassifier hash memory id
    (rt'.built id = false → (rt.initArea hash memory id).1 = .ng ∧ (rt'.mngInfos id).Fresh) ∧
      (rt'.built id = true → (rt'.mngInfos id).isUsed = true ∨
        (∃ area vid, ((rt'.mngInfos id).cmpInfos area).macClassifications vid ≠ none) ∨
          (rt.initArea hash memory id).1 = .ok) := by
  intro rt'
  have hbuilt : rt'.built id = (rt.built id || !failsAtFirstTable memory 0
      ((rt.flush.s.component id).txPorts.map rt.flush.s.iface)) := by
    simp [rt', Runtime.buildClassifier]
  have hused : (rt'.mngInfos id).isUsed = (rt.mngInfos id).isUsed := by
    simp [rt', Runtime.buildClassifier, Runtime.setMngInfo]
  have hmade : (∃ vid, (rt.initArea hash memory id).2.macClassifications vid ≠ none) →
      ∃ area vid, ((rt'.mngInfos id).cmpInfos area).macClassifications vid ≠ none := by
    rintro ⟨vid, hvid⟩
    refine ⟨(rt.flush.index (.classifier id)).updIndex, vid, ?_⟩
    rcases buildClassifier_area hash memory rt id
      (rt.flush.index (.classifier id)).updIndex with ⟨-, hmac, -⟩ | ⟨hne, -⟩
    · rwa [hmac]
    · exact absurd rfl hne
  constructor
  · intro hb
    rw [hbuilt, Bool.or_eq_false_iff, Bool.not_eq_false'] at hb
    exact (h.fresh hb.1).build hb.2
  · intro hb
    rw [hused]
    cases hold : rt.built id with
    | true =>
      rcases h.left hold with hmark | ⟨area, vid, hvid⟩ | hpub
      · exact .inl hmark
      · refine .inr (.inl ?_)
        rcases buildClassifier_area hash memory rt id area with
          ⟨rfl, -, -⟩ | ⟨-, hsame⟩
        · refine hmade ⟨vid, ?_⟩
          unfold Runtime.initArea initComponentInfo
          apply initTxPorts_keeps_table
          exact hvid
        · exact ⟨area, vid, by rwa [hsame]⟩
      · exact absurd hpub hnot
    | false =>
      rw [hbuilt, hold, Bool.false_or, Bool.not_eq_true'] at hb
      cases hret : (rt.initArea hash memory id).1 with
      | ok => exact .inr (.inr rfl)
      | ng => exact .inr (.inl (hmade (initTxPorts_of_not_fails hb hret)))

end Build

section Step

/-- Before the first request no slot has a history. -/
theorem slotHistory_initial (numNic mainLcore id : ℕ) :
    SlotHistory P (Runtime.initial P numNic mainLcore : Runtime τ ρ) id := by
  refine ⟨fun _ => ⟨rfl, fun _ _ => rfl, fun _ => rfl, fun _ _ => rfl, rfl⟩, nofun, ?_, nofun,
    fun _ => rfl⟩
  rintro ⟨-, ⟨rest, hrest⟩ | ⟨ref, rest, hrest⟩⟩ <;> cases hrest

/-- Outside of `flush_component` no slot is being published. -/
theorem not_publishing_of_idle (h : rt.flush.manager = .idle) : ¬ rt.Publishing P id := by
  rintro ⟨-, ⟨rest, hrest⟩ | ⟨ref, rest, hrest⟩⟩
  · rw [h] at hrest
    cases hrest
  · rw [h] at hrest
    cases hrest

/-- A step of `flush_component`. -/
theorem SlotHistory.componentStep (h : SlotHistory P rt id) (hpc : rt.pc = .component)
    {memory : ℕ → Bool} (hstep : ComponentStep P hash.toRteHash memory rt rt') :
    SlotHistory P rt' id := by
  have hbuilding : ∀ {i rest}, rt.flush.manager = .setting i [] rest → ¬ rt.Publishing P id := by
    intro i rest hm
    simp [Runtime.Publishing, hm]
  cases hstep with
  | finish hm =>
    exact h.of_kept rfl rfl (by simp [Runtime.Publishing, hm]) (not_publishing_of_idle rfl)
      (by rintro rest ⟨⟩) fun _ => rfl
  | next hm | set hm | updated hm =>
    exact h.of_kept rfl rfl (by simp [Runtime.Publishing, hm]) (by simp [Runtime.Publishing])
      (by rintro rest ⟨⟩) fun hne => absurd hpc hne
  | failPath hm =>
    exact h.of_kept rfl rfl (hbuilding hm) (not_publishing_of_idle rfl) (by rintro rest ⟨⟩)
      fun _ => rfl
  | spin => exact h
  | @buildPath i rest path hm htarget hmade =>
    refine h.of_kept rfl rfl (hbuilding hm) ?_ (by rintro rest ⟨⟩) fun hne => absurd hpc hne
    rintro ⟨ht, ⟨rest', hrest⟩ | ⟨ref, rest', hrest⟩⟩
    · cases hrest
      have htarget' : updateTarget P.M rt.flush.s id = .classifier id := ht
      rw [htarget] at htarget'
      cases htarget'
    · cases hrest
  | @buildClassifier i rest hm htarget hmade =>
    by_cases hi : id = i
    · subst hi
      obtain ⟨hfresh, hleft⟩ := h.build (hbuilding hm) hash.toRteHash memory
      have hpub : Runtime.Publishing P
          { rt.buildClassifier hash.toRteHash memory id with flush.manager := .publish id rest } id :=
        ⟨htarget, .inl ⟨rest, rfl⟩⟩
      refine ⟨fun hb => ?_, fun _ => .inr (.inr hpub), fun _ => ?_, by rintro rest ⟨⟩,
        fun hne => absurd hpc hne⟩
      · rw [(hfresh hb).1] at hmade
        cases hmade
      · by_contra hb
        rw [(hfresh (by simpa using hb)).1] at hmade
        cases hmade
    · refine h.of_kept (Function.update_of_ne hi _ _) (Function.update_of_ne hi _ _) (hbuilding hm)
        ?_ (by rintro rest ⟨⟩) fun hne => absurd hpc hne
      rintro ⟨-, ⟨rest', hrest⟩ | ⟨ref, rest', hrest⟩⟩
      · cases hrest
        exact hi rfl
      · cases hrest
  | @failClassifier i rest hm htarget hmade =>
    by_cases hi : id = i
    · subst hi
      obtain ⟨hfresh, hleft⟩ := h.build (hbuilding hm) hash.toRteHash memory
      refine ⟨fun hb => (hfresh hb).2, fun hb => ?_, fun hpub => ?_, by rintro rest ⟨⟩,
        fun _ => rfl⟩
      · rcases hleft hb with hused | htable | hok
        · exact .inl hused
        · exact .inr (.inl htable)
        · rw [hmade] at hok
          cases hok
      · exact absurd hpub (not_publishing_of_idle rfl)
    · exact h.of_kept (Function.update_of_ne hi _ _) (Function.update_of_ne hi _ _) (hbuilding hm)
        (not_publishing_of_idle rfl) (by rintro rest ⟨⟩) fun _ => rfl
  | @publish i rest hm =>
    have hiff : Runtime.Publishing P { rt with
        flush.manager := .store i (rt.flush.index (updateTarget P.M rt.flush.s i)).refIndex rest }
        id ↔ rt.Publishing P id := by
      simp [Runtime.Publishing, hm]
    refine ⟨h.fresh, ?_, fun hpub => h.publishing (hiff.mp hpub), by rintro rest ⟨⟩,
      fun hne => absurd hpc hne⟩
    rw [hiff]
    exact h.left
  | @storeClassifier i ref rest hm htarget =>
    by_cases hi : id = i
    · subst hi
      have hbuilt : rt.built id = true := h.publishing ⟨htarget, .inr ⟨ref, rest, hm⟩⟩
      refine ⟨fun hb => ?_, fun _ => .inl ?_, fun _ => hbuilt, fun _ _ _ => ?_,
        fun hne => absurd hpc hne⟩
      · rw [show rt.built id = false from hb] at hbuilt
        cases hbuilt
      · simp [Runtime.setMngInfo]
      · simp [Runtime.setMngInfo]
    · refine h.of_kept (Function.update_of_ne hi _ _) rfl ?_ ?_ ?_ fun hne => absurd hpc hne
      · simp [Runtime.Publishing, hm, Ne.symm hi]
      · simp [Runtime.Publishing]
      · intro rest' hrest
        cases hrest
        exact absurd rfl hi
  | @storePath i ref rest hm htarget =>
    have hother : updateTarget P.M rt.flush.s id = .classifier id → i ≠ id := by
      rintro ht rfl
      rw [htarget] at ht
      cases ht
    refine h.of_kept rfl rfl ?_ ?_ ?_ fun hne => absurd hpc hne
    · rintro ⟨ht, ⟨rest', hrest⟩ | ⟨ref', rest', hrest⟩⟩
      · rw [hm] at hrest
        cases hrest
      · rw [hm] at hrest
        cases hrest
        exact hother ht rfl
    · simp [Runtime.Publishing]
    · rintro rest' hrest ht
      cases hrest
      exact hother ht rfl
  | @uninit i rest hm htarget hindex =>
    by_cases hi : id = i
    · subst hi
      have hused : (rt.mngInfos id).isUsed = true := h.waiting rest hm htarget
      have hused' : ∀ m : ManagementInfo τ ρ, m.isUsed = (rt.mngInfos id).isUsed →
          (Function.update rt.mngInfos id m id).isUsed = true := by
        intro m hm
        rw [Function.update_self, hm, hused]
      refine ⟨fun hb => ?_, fun _ => .inl (hused' _ rfl), ?_, by rintro rest ⟨⟩,
        fun hne => absurd hpc hne⟩
      · have hunused := (h.fresh hb).unused
        rw [hused] at hunused
        cases hunused
      · simp [Runtime.Publishing]
    · exact h.of_kept (Function.update_of_ne hi _ _) rfl (by simp [Runtime.Publishing, hm])
        (by simp [Runtime.Publishing]) (by rintro rest ⟨⟩) fun hne => absurd hpc hne
  | taken hm =>
    exact h.of_kept rfl rfl (by simp [Runtime.Publishing, hm]) (by simp [Runtime.Publishing])
      (by rintro rest ⟨⟩) fun hne => absurd hpc hne

/-- A call of a classifier. -/
theorem SlotHistory.classifierRun (h : SlotHistory P rt id) (hash : RteHash τ)
    (call : WorkerCall ρ) (i : ℕ) : SlotHistory P (rt.sppClassifierMacDo hash call i) id := by
  have hkept : ∀ (m : ManagementInfo τ ρ) (flush : FlushWorld),
      flush.s = rt.flush.s → flush.manager = rt.flush.manager →
      m.isUsed = (rt.mngInfos i).isUsed → m.cmpInfos = (rt.mngInfos i).cmpInfos →
      ((rt.mngInfos i).Fresh → m = rt.mngInfos i) →
      SlotHistory P { rt.setMngInfo i m with flush := flush } id := by
    intro m flush hs hmanager hused hcmp hfresh
    by_cases hi : id = i
    · subst hi
      refine h.of_worker (congrArg _ hs) hmanager rfl rfl ?_ ?_ ?_
      · simpa [Runtime.setMngInfo] using hused
      · simpa [Runtime.setMngInfo] using hcmp
      · simpa [Runtime.setMngInfo] using hfresh
    · have hm : (rt.setMngInfo i m).mngInfos id = rt.mngInfos id := Function.update_of_ne hi _ _
      exact h.of_worker (congrArg _ hs) hmanager rfl rfl (congrArg _ hm) (congrArg _ hm)
        fun _ => hm
  have hclassify : ∀ (m : ManagementInfo τ ρ) (area : Fin 2),
      (m.classify hash call area).isUsed = m.isUsed ∧
        (m.classify hash call area).cmpInfos = m.cmpInfos := by
    intro m area
    unfold ManagementInfo.classify
    dsimp only
    split <;> exact ⟨rfl, rfl⟩
  rcases sppClassifierMacDo_cases rt hash call i rfl with
    ⟨-, hrun⟩ | ⟨-, hrun⟩
  · rw [hrun]
    obtain ⟨hused, hcmp⟩ := hclassify (rt.mngInfos i) (rt.flush.index (.classifier i)).refIndex
    exact hkept _ rt.flush rfl rfl hused hcmp fun hf => hf.classify hash call _
  · rw [hrun]
    obtain ⟨hused, hcmp⟩ := hclassify ((rt.mngInfos i).setTx
      (rt.flush.index (.classifier i)).refIndex
      (((rt.mngInfos i).tx (rt.flush.index (.classifier i)).refIndex).transmitAll call.room
        ((rt.mngInfos i).cmpInfos
          (rt.flush.index (.classifier i)).refIndex).nClassifiedDataTx))
      ((rt.flush.index (.classifier i)).updIndex + 1)
    refine hkept _ _ rfl rfl hused hcmp fun hf => ?_
    rw [TxSide.transmitAll_of_empty (hf.noPackets _), setTx_tx]
    exact hf.classify hash call _

/-- Every step of the process. -/
theorem SlotHistory.step (h : SlotHistory P rt id) {e : RuntimeEvent ρ}
    (hstep : runtimeStep P hash e rt = some rt') : SlotHistory P rt' id := by
  have hidle : ∀ {t : Runtime τ ρ}, rt.pc ≠ .component → t.mngInfos = rt.mngInfos →
      t.built = rt.built → t.flush.manager = rt.flush.manager → SlotHistory P t id := by
    intro t hpc hm hbuilt hmanager
    have hnone := h.idle hpc
    refine h.of_kept (congrFun hm id) (congrFun hbuilt id) (not_publishing_of_idle hnone)
      (not_publishing_of_idle (hmanager.trans hnone)) ?_ fun _ => hmanager.trans hnone
    intro rest hrest
    rw [hmanager, hnone] at hrest
    cases hrest
  cases e with
  | request r =>
    obtain ⟨ret, hpc, ⟨ret', replies, rfl⟩ | ⟨command, s, -, -, rfl⟩⟩ := processRequest_step hstep
    · exact hidle (by simp [hpc]) rfl rfl rfl
    · exact hidle (by simp [hpc]) rfl rfl rfl
  | manager memory =>
    cases managerStep_cases hstep with
    | failPort hpc | publishCores hpc => exact hidle (by simp [hpc]) rfl rfl rfl
    | copyBack hpc =>
      have hnone := h.idle (by simp [hpc])
      exact h.of_kept rfl rfl (not_publishing_of_idle hnone) (by simp [Runtime.Publishing]) nofun
        (fun hne => absurd rfl hne)
    | spin => exact h
    | component hpc hcomponent => exact h.componentStep hpc hcomponent
  | takeCore l =>
    obtain ⟨-, rfl⟩ := takeCore_cases hstep
    exact h.of_worker rfl rfl rfl rfl rfl rfl fun _ => rfl
  | run l cnt call =>
    obtain ⟨i, -, -, ⟨-, rfl⟩ | ⟨-, rfl⟩⟩ := runComponent_cases hstep
    · exact h.classifierRun hash.toRteHash call i
    · unfold Runtime.changeForwardIndex
      dsimp only
      split
      · exact h.of_worker rfl rfl rfl rfl rfl rfl fun _ => rfl
      · exact h

/-- Every slot in every reachable state. -/
theorem slotHistory_of_reaches {numNic mainLcore : ℕ}
    (h : Reaches (runtimeStep P hash) (fun _ _ => True) (Runtime.initial P numNic mainLcore) rt)
    (id : ℕ) : SlotHistory P rt id := by
  induction h with
  | refl => exact slotHistory_initial numNic mainLcore id
  | tail _ hlast ih =>
    obtain ⟨e, -, hstep⟩ := hlast
    exact ih.step hstep

end Step

end History

section Stop

variable {id : ℕ} {m₀ : ManagementInfo τ ρ}

/-- A step of the manager hands nothing over. -/
theorem since_componentStep (h : (rt.mngInfos id).Since m₀) {memory : ℕ → Bool}
    (hstep : ComponentStep P hash.toRteHash memory rt rt') : (rt'.mngInfos id).Since m₀ := by
  have hbuild : ∀ i, ((rt.buildClassifier hash.toRteHash memory i).mngInfos id).Since m₀ := by
    intro i
    by_cases hi : id = i
    · subst hi
      refine h.congr ?_ ?_ fun area j => ?_
      · simp [Runtime.buildClassifier, Runtime.setMngInfo]
      · simp [Runtime.buildClassifier, Runtime.setMngInfo]
      · simp only [Runtime.buildClassifier, Runtime.setMngInfo, Function.update_self]
        by_cases harea : area = (rt.flush.index (.classifier id)).updIndex
        · subst harea
          rw [Function.update_self]
          split
          · exact List.nil_subset _
          · exact List.Subset.refl _
        · rw [Function.update_of_ne harea]
          exact List.Subset.refl _
    · simpa [Runtime.buildClassifier, Runtime.setMngInfo, hi] using h
  cases hstep with
  | finish | next | set | buildPath | failPath | publish | storePath | spin | taken | updated =>
    exact h
  | buildClassifier | failClassifier => exact hbuild _
  | @storeClassifier i =>
    by_cases hi : id = i
    · subst hi
      simp only [Runtime.setMngInfo, Function.update_self]
      exact h.congr rfl rfl fun area j => List.Subset.refl _
    · simpa [Runtime.setMngInfo, hi] using h
  | @uninit i =>
    by_cases hi : id = i
    · subst hi
      simp only [Runtime.setMngInfo, Function.update_self]
      refine h.congr rfl rfl fun area j => ?_
      by_cases harea : area = (rt.flush.index (.classifier id)).updIndex
      · rw [harea]
        simp
      · simp [harea]
    · simpa [Runtime.setMngInfo, hi] using h

/-- Whatever a step hands over for a slot was received since. -/
theorem since_step (h : (rt.mngInfos id).Since m₀) {e : RuntimeEvent ρ}
    (hstep : runtimeStep P hash e rt = some rt') : (rt'.mngInfos id).Since m₀ := by
  cases e with
  | request r =>
    obtain ⟨ret, -, ⟨ret', replies, rfl⟩ | ⟨command, s, -, -, rfl⟩⟩ := processRequest_step hstep
    · exact h
    · exact h
  | manager memory =>
    cases managerStep_cases hstep with
    | failPort | publishCores | copyBack | spin => exact h
    | component _ hcomponent => exact since_componentStep h hcomponent
  | takeCore l =>
    obtain ⟨-, rfl⟩ := takeCore_cases hstep
    exact h
  | run l cnt call =>
    obtain ⟨i, -, -, ⟨-, rfl⟩ | ⟨-, rfl⟩⟩ := runComponent_cases hstep
    · rcases sppClassifierMacDo_cases rt hash.toRteHash call i rfl with
        ⟨-, hrun⟩ | ⟨-, hrun⟩
      · rw [hrun]
        by_cases hi : id = i
        · subst hi
          simpa [Runtime.setMngInfo] using h.classify hash call _
        · simpa [Runtime.setMngInfo, hi] using h
      · rw [hrun]
        by_cases hi : id = i
        · subst hi
          simpa [Runtime.setMngInfo] using
            (h.transmitAll call.room _ _).classify hash call _
        · simpa [Runtime.setMngInfo, hi] using h
    · unfold Runtime.changeForwardIndex
      dsimp only
      split <;> exact h

/-- The management entry of a slot is unused, without tables and packets, and
each packet that was received for it was transmitted or freed. -/
structure ManagementInfo.Clean (m : ManagementInfo τ ρ) : Prop where
  unused : m.isUsed = false
  noTables : ∀ area vid, (m.cmpInfos area).macClassifications vid = none
  noPackets : ∀ area i, m.pkts area i = []
  released : ∀ pkt ∈ m.arrived, pkt ∈ m.freed ∨ ∃ i, pkt ∈ m.handed i

variable (P hash) in
/-- Nothing is left behind in a slot: its entry is clean, and whatever is
transmitted for the slot later on was received later on. -/
def LeavesNothing (id : ℕ) (rt : Runtime τ ρ) : Prop :=
  (rt.mngInfos id).Clean ∧
    ∀ rt', Reaches (runtimeStep P hash) (fun _ _ => True) rt rt' →
      ∃ new, (rt'.mngInfos id).arrived = (rt.mngInfos id).arrived ++ new ∧
        ∀ i, ∃ out, (rt'.mngInfos id).handed i = (rt.mngInfos id).handed i ++ out ∧
          ∀ pkt ∈ out, pkt ∈ new

variable (P) in
/-- The request stops the classifier in a slot. -/
def StopsClassifier (r : Request) (id : ℕ) (rt : Runtime τ ρ) : Prop :=
  ∃ c, sppCommandDecodeRequest P.L P.M rt.flush.s r.text = .ok (.component c) ∧
    c.action = .stop ∧ sppGetComponentId P.L rt.flush.s c.name = some id ∧
    (rt.flush.s.component id).type = .classifierMac

/-- A fresh slot leaves nothing. -/
theorem ManagementInfo.Fresh.leavesNothing (h : (rt.mngInfos id).Fresh) :
    LeavesNothing P hash id rt := by
  refine ⟨⟨h.unused, h.noTables, h.noPackets, by simp [h.noArrival]⟩, fun rt' hreach => ?_⟩
  have hstart : (rt.mngInfos id).Since (rt.mngInfos id) := by
    refine ⟨[], (List.append_nil _).symm, fun area i pkt hpkt => ?_, fun i => ⟨[], ?_⟩⟩
    · rw [h.noPackets] at hpkt
      cases hpkt
    · simp
  obtain ⟨new, hnew, hfrom⟩ : (rt'.mngInfos id).Since (rt.mngInfos id) := by
    induction hreach with
    | refl => exact hstart
    | tail _ hlast ih =>
      obtain ⟨e, -, hstep⟩ := hlast
      exact since_step ih hstep
  exact ⟨new, hnew, hfrom.handed⟩

/-- No area is built in a slot that is not used by a classifier. -/
theorem built_of_inner (hunuse : (rt.flush.s.component id).type = .unuse) {e : RuntimeEvent ρ}
    (hinner : e.Inner) (h : runtimeStep P hash e rt = some rt') : rt'.built id = rt.built id := by
  have hpath : ∀ i, updateTarget P.M rt.flush.s i = .classifier i → id ≠ i := by
    rintro i ht rfl
    rcases updateTarget_cases P.M rt.flush.s id with ⟨-, -, htype⟩ | ⟨hpath, -⟩
    · rw [hunuse] at htype
      cases htype
    · rw [hpath] at ht
      cases ht
  cases e with
  | request r => exact absurd rfl (hinner r)
  | manager memory =>
    cases managerStep_cases h with
    | failPort | publishCores | copyBack | spin => rfl
    | component hpc hstep =>
      cases hstep with
      | buildClassifier hm ht | failClassifier hm ht => exact Function.update_of_ne (hpath _ ht) _ _
      | finish | next | set | buildPath | failPath | publish | storeClassifier | storePath | spin
        | uninit | taken | updated => rfl
  | takeCore l =>
    obtain ⟨-, rfl⟩ := takeCore_cases h
    rfl
  | run l cnt call =>
    obtain ⟨i, -, -, ⟨-, rfl⟩ | ⟨-, rfl⟩⟩ := runComponent_cases h
    · rcases sppClassifierMacDo_cases rt hash.toRteHash call i rfl with
        ⟨-, hrun⟩ | ⟨-, hrun⟩ <;> rw [hrun] <;> rfl
    · unfold Runtime.changeForwardIndex
      dsimp only
      split <;> rfl

/-- The request empties the slot and begins its flush. -/
theorem StopsClassifier.processRequest {r : Request} (h : StopsClassifier P r id rt)
    (hstart : rt.processRequest P hash r = some rt') :
    (rt'.flush.s.component id).type = .unuse ∧ rt'.built id = rt.built id := by
  obtain ⟨c, hdecode, haction, hid, -⟩ := h
  have hupdate : updateCommand P.L rt.flush.s (.component c) =
      some (.ok (sppUpdateComponentStop P.L rt.flush.s c.name)) := by
    simp [updateCommand, sppUpdateComponent, haction]
  unfold Runtime.processRequest at hstart
  split at hstart
  · simp only [hdecode, hupdate] at hstart
    cases hstart
    refine ⟨?_, rfl⟩
    simp only [sppUpdateComponentStop, hid]
    split <;> simp
  · cases hstart

/-- A classifier that is stopped leaves nothing behind iff no update of its slot
has ever got past the creation of its first table. -/
theorem leavesNothing_iff {numNic mainLcore : ℕ} {r : Request}
    (hreach : Reaches (runtimeStep P hash) (fun _ _ => True)
      (Runtime.initial P numNic mainLcore) rt)
    (hstop : StopsClassifier P r id rt) (hexec : Executes P hash r rt rt') :
    LeavesNothing P hash id rt' ↔ rt.built id = false := by
  obtain ⟨rt₁, hstart, hinner, ret, hret⟩ := hexec
  obtain ⟨hunuse₁, hbuilt₁⟩ := hstop.processRequest hstart
  have hhistory₁ : SlotHistory P rt₁ id :=
    (slotHistory_of_reaches hreach id).step (e := .request r) hstart
  obtain ⟨-, hbuilt, hhistory⟩ : (rt'.flush.s.component id).type = .unuse ∧
      rt'.built id = rt.built id ∧ SlotHistory P rt' id := by
    clear hret
    induction hinner with
    | refl => exact ⟨hunuse₁, hbuilt₁, hhistory₁⟩
    | tail _ hlast ih =>
      obtain ⟨e, he, hstep⟩ := hlast
      obtain ⟨hunuse, hbuilt, hhistory⟩ := ih
      refine ⟨?_, (built_of_inner hunuse he hstep).trans hbuilt, hhistory.step hstep⟩
      rw [component_of_inner he hstep]
      exact hunuse
  constructor
  · intro hleaves
    by_contra hb
    have hidle : rt'.flush.manager = .idle := hhistory.idle (by simp [hret])
    rcases hhistory.left (by simpa [hbuilt] using hb) with hused | ⟨area, vid, htable⟩ | hpub
    · rw [hleaves.1.unused] at hused
      cases hused
    · exact htable (hleaves.1.noTables area vid)
    · exact not_publishing_of_idle hidle hpub
  · intro hb
    exact (hhistory.fresh (hbuilt.trans hb)).leavesNothing

end Stop

section Examples

/-- A request whose interfaces cannot be created. -/
def requestWithoutDevices (text : String) : RuntimeEvent ℕ :=
  .request { text := text.toList, dev := ⟨fun _ => -1, fun _ => -1, fun _ => .ok⟩ }

/-- A classifier is started behind a forwarder with an interface that cannot be
created, so that its flush fails before the classifier is updated. -/
def startWithoutUpdate : List (RuntimeEvent ℕ) :=
  flushEvents "component start f1 1 forward" 0 0 ++
    [requestWithoutDevices "port add vhost:0 rx f1", managerEvent,
      requestWithoutDevices "component start c1 1 classifier_mac", managerEvent]

/-- The request that stops the classifier `c1`. -/
def stopRequest : Request := .ofString "component stop c1"

/-- The command that is decoded from it. -/
def stopCommand : CommandComponent := { action := .stop, name := "c1".toList }

/-- A run from the arrival of a request to an idle manager executes the request. -/
theorem executes_of_runAll {r : Request} {events : List (RuntimeEvent ρ)} {ret : Ret}
    (h : runAll (runtimeStep P hash) (.request r :: events) rt = some rt')
    (hinner : ∀ e ∈ events, e.Inner) (hpc : rt'.pc = .idle ret) : Executes P hash r rt rt' := by
  obtain ⟨rt₁, hstart, hrest⟩ := Option.bind_eq_some_iff.mp h
  exact ⟨rt₁, hstart, reaches_of_runAll hrest fun e he _ => hinner e he, ret, hpc⟩

/-- The classifier that was never updated leaves nothing behind. -/
theorem leavesNothing_startWithoutUpdate :
    ∃ rt rt', runAll (runtimeStep oneSlave assocHashTable) startWithoutUpdate bootRuntime = some rt ∧
      StopsClassifier oneSlave stopRequest 1 rt ∧
      Executes oneSlave assocHashTable stopRequest rt rt' ∧ rt'.pc = .idle .ok ∧
        LeavesNothing oneSlave assocHashTable 1 rt' := by
  obtain ⟨rt, hrt, ⟨hdecode, hid, htype, hbuilt⟩, hrun⟩ :
      ∃ rt, runAll (runtimeStep oneSlave assocHashTable) startWithoutUpdate bootRuntime = some rt ∧
        (sppCommandDecodeRequest oneSlave.L oneSlave.M rt.flush.s stopRequest.text =
            .ok (.component stopCommand) ∧
          sppGetComponentId oneSlave.L rt.flush.s stopCommand.name = some 1 ∧
          (rt.flush.s.component 1).type = .classifierMac ∧ rt.built 1 = false) ∧
        (runAll (runtimeStep oneSlave assocHashTable) (flushEvents "component stop c1" 0 1) rt).any
          (fun t => t.pc = .idle .ok) = true :=
    exists_of_runAll (by decide +kernel)
  obtain ⟨rt', hend, hpc⟩ := (Option.any_eq_true ..).mp hrun
  have hreach : Reaches (runtimeStep oneSlave assocHashTable) (fun _ _ => True) bootRuntime rt :=
    reaches_of_runAll hrt fun _ _ _ => trivial
  have hstop : StopsClassifier oneSlave stopRequest 1 rt := ⟨stopCommand, hdecode, rfl, hid, htype⟩
  have hexec : Executes oneSlave assocHashTable stopRequest rt rt' :=
    executes_of_runAll hend (by simp [managerEvent, runEvent, RuntimeEvent.Inner])
      (of_decide_eq_true hpc)
  exact ⟨rt, rt', hrt, hstop, hexec, of_decide_eq_true hpc,
    (leavesNothing_iff hreach hstop hexec).mpr hbuilt⟩

/-- What follows the request when a component of lcore 1 is stopped. -/
def stopEvents : List (RuntimeEvent ℕ) := [managerEvent, .takeCore 1, managerEvent, managerEvent]

/-- A classifier that was started and is then stopped is still marked as used. -/
theorem not_leavesNothing_stopped :
    ∃ rt rt', Reaches (runtimeStep oneSlave assocHashTable) (fun _ _ => True) bootRuntime rt ∧
      StopsClassifier oneSlave stopRequest 0 rt ∧
      Executes oneSlave assocHashTable stopRequest rt rt' ∧ rt'.pc = .idle .ok ∧
        (rt'.mngInfos 0).isUsed = true ∧ ¬ LeavesNothing oneSlave assocHashTable 0 rt' := by
  obtain ⟨rt, hrt, ⟨hdecode, hid, htype⟩, hrun⟩ :
      ∃ rt, runAll (runtimeStep oneSlave assocHashTable)
          (flushEvents "component start c1 1 classifier_mac" 0 0) bootRuntime = some rt ∧
        (sppCommandDecodeRequest oneSlave.L oneSlave.M rt.flush.s stopRequest.text =
            .ok (.component stopCommand) ∧
          sppGetComponentId oneSlave.L rt.flush.s stopCommand.name = some 0 ∧
          (rt.flush.s.component 0).type = .classifierMac) ∧
        (runAll (runtimeStep oneSlave assocHashTable) (.request stopRequest :: stopEvents) rt).any
          (fun t => t.pc = .idle .ok ∧ (t.mngInfos 0).isUsed = true) = true :=
    exists_of_runAll (by decide +kernel)
  obtain ⟨rt', hend, hlast⟩ := (Option.any_eq_true ..).mp hrun
  obtain ⟨hpc, hused⟩ := of_decide_eq_true hlast
  have hexec : Executes oneSlave assocHashTable stopRequest rt rt' :=
    executes_of_runAll hend (by simp [stopEvents, managerEvent, RuntimeEvent.Inner]) hpc
  refine ⟨rt, rt', reaches_of_runAll hrt fun _ _ _ => trivial, ⟨stopCommand, hdecode, rfl, hid, htype⟩,
    hexec, hpc, hused, fun hleaves => ?_⟩
  rw [hleaves.1.unused] at hused
  cases hused

end Examples

end Spp.Vf
