import Spp.Lib.Handoff
import Spp.Vf.ClassifierMac

/-!
# The update of a classifier

`spp_classifier_mac_update` hands its area over like a forwarder does, but both
indices start at zero, and the area that was taken back is uninitialised. The
update is kept if the worker has moved its index before the manager reads it,
and if no failed update has left tables in the area.
-/

namespace Spp.Vf

open CLib GuardedRun Handoff

variable {τ : Type} {hash : RteHash τ}

/-- After the wait the tables of the area that was taken back are freed, and the
area is zeroed. -/
def classifierProtocol (τ : Type) : Protocol (CmpInfo τ) :=
  { after := [fun _ dst => { dst with macClassifications := fun _ => none }, fun _ _ => {}]
    cached := false }

/-- A call of `spp_classifier_mac_update` with the update area `old`. It returns
`SPP_RET_OK` iff the area can be initialised, and hands it over then. -/
def classifierCall (hash : RteHash τ) (memory : ℕ → Bool) (iface : PortRef → PortInfo)
    (componentInfo : ComponentInfo) (old : CmpInfo τ) : Call (CmpInfo τ) :=
  let init := fun cmpInfo => (initComponentInfo hash memory iface componentInfo cmpInfo).2
  match (initComponentInfo hash memory iface componentInfo old).1 with
  | .ok => ⟨[init, fun cmpInfo => { cmpInfo with name := componentInfo.name }], true⟩
  | .ng => ⟨[init], false⟩

/-- What the call is to build: the tables of the component, from an empty area. -/
def builtCmpInfo (hash : RteHash τ) (memory : ℕ → Bool) (iface : PortRef → PortInfo)
    (componentInfo : ComponentInfo) : CmpInfo τ :=
  { (initComponentInfo hash memory iface componentInfo {}).2 with name := componentInfo.name }

section Built

/-- Two areas with the same receive port, transmit ports below `n` and tables. -/
structure SameTables (n : ℕ) (a b : CmpInfo τ) : Prop where
  macAddrEntry : a.macAddrEntry = b.macAddrEntry
  macClassifications : a.macClassifications = b.macClassifications
  nClassifiedDataTx : a.nClassifiedDataTx = b.nClassifiedDataTx
  classifiedDataRx : a.classifiedDataRx = b.classifiedDataRx
  classifiedDataTx : ∀ i < n, a.classifiedDataTx i = b.classifiedDataTx i

variable {a b : CmpInfo τ} {n : ℕ}

theorem SameTables.setMac (h : SameTables n a b) (vid : ℕ) (macCls : MacClassification τ) :
    SameTables n (a.setMac vid macCls) (b.setMac vid macCls) :=
  ⟨h.macAddrEntry, by simp [CmpInfo.setMac, h.macClassifications], h.nClassifiedDataTx,
    h.classifiedDataRx, h.classifiedDataTx⟩

/-- Storing a transmit port makes one more port the same. -/
theorem SameTables.setTx (h : SameTables n a b) (data : ClassifiedData) :
    SameTables (n + 1)
      { a with classifiedDataTx := Function.update a.classifiedDataTx n data }
      { b with classifiedDataTx := Function.update b.classifiedDataTx n data } := by
  refine ⟨h.macAddrEntry, h.macClassifications, h.nClassifiedDataTx, h.classifiedDataRx,
    fun i hi => ?_⟩
  by_cases heq : i = n
  · subst heq
    simp
  · simpa [heq] using h.classifiedDataTx i (by omega)

theorem SameTables.setEntry (h : SameTables n a b) (entry : ℕ) :
    SameTables n { a with macAddrEntry := entry } { b with macAddrEntry := entry } :=
  ⟨rfl, h.macClassifications, h.nClassifiedDataTx, h.classifiedDataRx, h.classifiedDataTx⟩

/-- Areas that agree are treated alike by one iteration. -/
theorem SameTables.initTxPort (hash : RteHash τ) (h : SameTables n a b) (memory : Bool)
    (txPort : PortInfo) :
    (initTxPort hash memory n txPort a).1 = (initTxPort hash memory n txPort b).1 ∧
      SameTables (n + 1) (initTxPort hash memory n txPort a).2
        (initTxPort hash memory n txPort b).2 := by
  have htx := h.setTx
    { ifaceType := txPort.ifaceType, ifaceNo := n, ifaceNoGlobal := txPort.ifaceNo
      port := (txPort.dpdkPort % 2 ^ 16).toNat }
  unfold Spp.Vf.initTxPort macClassification
  dsimp only
  rw [h.macClassifications] at htx ⊢
  split
  · exact ⟨rfl, htx⟩
  · split
    · exact ⟨rfl, htx⟩
    · split
      · exact ⟨rfl, (htx.setEntry 1).setMac _ _⟩
      · split
        · exact ⟨rfl, (htx.setEntry 1).setMac _ _⟩
        · exact ⟨rfl, (htx.setEntry 1).setMac _ _⟩

/-- Areas that agree are treated alike by the loop. -/
theorem SameTables.initTxPorts (hash : RteHash τ) (h : SameTables n a b) (memory : ℕ → Bool)
    (txPorts : List PortInfo)
    (hok : (initTxPorts hash memory n txPorts a).1 = .ok) :
    SameTables (n + txPorts.length) (initTxPorts hash memory n txPorts a).2
      (initTxPorts hash memory n txPorts b).2 := by
  induction txPorts generalizing n a b with
  | nil => exact h
  | cons txPort txPorts ih =>
    obtain ⟨hret, hsame⟩ := h.initTxPort hash (memory n) txPort
    unfold Spp.Vf.initTxPorts at hok ⊢
    cases ha : Spp.Vf.initTxPort hash (memory n) n txPort a with
    | mk reta cmpa =>
      cases hb : Spp.Vf.initTxPort hash (memory n) n txPort b with
      | mk retb cmpb =>
        rw [ha, hb] at hret hsame
        dsimp only at hret hsame
        subst hret
        rw [ha] at hok
        cases reta with
        | ng => cases hok
        | ok =>
          have hrest := ih hsame hok
          rwa [Nat.add_assoc, Nat.add_comm 1] at hrest

/-- A call that begins without tables in its area builds what it is to build. -/
theorem runStores_classifierCall {memory : ℕ → Bool} {iface : PortRef → PortInfo}
    {componentInfo : ComponentInfo} {old : CmpInfo τ}
    (hok : (classifierCall hash memory iface componentInfo old).publishes = true)
    (hclean : ∀ vid, old.macClassifications vid = none) :
    let made := runStores (classifierCall hash memory iface componentInfo old).stores old
    made.name = componentInfo.name ∧
      SameTables componentInfo.txPorts.length made
        (builtCmpInfo hash memory iface componentInfo) := by
  unfold classifierCall at hok ⊢
  dsimp only at hok ⊢
  split at hok
  · rename_i hret
    have hsame := SameTables.initTxPorts hash (n := 0)
      (a := { old with
        classifiedDataRx := _, nClassifiedDataTx := componentInfo.txPorts.length
        macAddrEntry := 0 })
      (b := { ({} : CmpInfo τ) with
        classifiedDataRx := _, nClassifiedDataTx := componentInfo.txPorts.length
        macAddrEntry := 0 })
      ⟨rfl, funext hclean, rfl, rfl, fun i hi => absurd hi (Nat.not_lt_zero i)⟩
      memory (componentInfo.txPorts.map iface) hret
    rw [Nat.zero_add, List.length_map] at hsame
    exact ⟨rfl, hsame.macAddrEntry, hsame.macClassifications, hsame.nClassifiedDataTx,
      hsame.classifiedDataRx, hsame.classifiedDataTx⟩
  · cases hok

end Built

section Run

/-- The manager makes calls of `spp_classifier_mac_update` only. -/
def ClassifierRun (hash : RteHash τ) (i : Act (CmpInfo τ)) (st : St (CmpInfo τ)) : Prop :=
  ∀ c, i = .call c → ∃ memory iface componentInfo,
    c = classifierCall hash memory iface componentInfo (st.area st.upd)

/-- The update area holds no tables, as after `uninit_component_info`. -/
def CleanUpdate (st : St (CmpInfo τ)) : Prop :=
  ∀ vid, (st.area st.upd).macClassifications vid = none

/-- The condition on a step: a call that is to succeed begins without tables in
the update area, and a hand-over begins with the indices apart. -/
def UpdateInOrder (i : Act (CmpInfo τ)) (st : St (CmpInfo τ)) : Prop :=
  PublishApart i st ∧ ∀ c, i = .call c → c.publishes = true → CleanUpdate st

/-- A call has been kept: its tables are on the reference side of `st`, and
until the next hand-over the worker uses that side, not the one that was
uninitialised. -/
structure UpdateKeptBy (hash : RteHash τ) (memory : ℕ → Bool) (iface : PortRef → PortInfo)
    (componentInfo : ComponentInfo) (st : St (CmpInfo τ)) : Prop where
  name : (st.area st.ref).name = componentInfo.name
  tables : SameTables componentInfo.txPorts.length (st.area st.ref)
    (builtCmpInfo hash memory iface componentInfo)
  used : ∀ st', Reaches (step (classifierProtocol τ))
      (fun i u => NoPublish i u ∧ ClassifierRun hash i u ∧ UpdateInOrder i u) st st' →
    st'.worker = .reading → st'.pointer = st.ref ∧ st'.pointer ≠ st.upd ∧
      st'.area st'.pointer = st.area st.ref

/-- In every run whose steps meet the condition, each call that returns
`SPP_RET_OK` has been kept. -/
theorem updateKeptBy_of_reaches {st₀ st₁ st₂ : St (CmpInfo τ)} {memory : ℕ → Bool}
    {iface : PortRef → PortInfo} {componentInfo : ComponentInfo}
    (h₀ : Reaches (step (classifierProtocol τ))
      (fun i u => ClassifierRun hash i u ∧ UpdateInOrder i u) (St.initial 0 0 fun _ => {}) st₀)
    (hclean : CleanUpdate st₀)
    (hok : (classifierCall hash memory iface componentInfo (st₀.area st₀.upd)).publishes = true)
    (hcall : step (classifierProtocol τ)
      (.call (classifierCall hash memory iface componentInfo (st₀.area st₀.upd))) st₀ = some st₁)
    (hrun : Reaches (step (classifierProtocol τ)) (fun i u => NoCall i u ∧ UpdateInOrder i u) st₁ st₂)
    (hidle : st₂.manager = .idle) : UpdateKeptBy hash memory iface componentInfo st₂ := by
  have hinv : Handoff.Inv (classifierProtocol τ) st₀ :=
    inv_of_reaches (fun _ _ hguard => hguard.2.1) h₀
  obtain ⟨hne, harea, hreads⟩ := reads_last_call hinv hok hcall
    (Relation.ReflTransGen.mono
      (fun _ _ ⟨i, ⟨hnocall, hap, _⟩, hs⟩ => ⟨i, ⟨hnocall, hap⟩, hs⟩) _ _ hrun) hidle
  obtain ⟨hname, htables⟩ := runStores_classifierCall hok hclean
  refine ⟨by rw [harea]; exact hname, by rw [harea]; exact htables, fun st' hlater hr => ?_⟩
  obtain ⟨hpointer, hcontent⟩ := hreads st' (Relation.ReflTransGen.mono
    (fun _ _ ⟨i, ⟨hnopub, _, hap, _⟩, hs⟩ => ⟨i, ⟨hnopub, hap⟩, hs⟩) _ _ hlater) hr
  exact ⟨hpointer, hpointer ▸ hne, hcontent.trans harea.symm⟩

end Run

section Runs

/-- A classifier with one receive port and one transmit port. -/
def oneTx : ComponentInfo :=
  { name := "cls".toList, type := .classifierMac, rxPorts := [⟨.nic, 0⟩], txPorts := [⟨.nic, 1⟩] }

/-- Physical ports that all classify one MAC address. -/
def classifiedPorts (port : PortRef) : PortInfo :=
  { ifaceType := .phy, ifaceNo := port.no, dpdkPort := port.no
    classId := { macAddr := 2, vid := ethVlanIdMax } }

/-- A call for that classifier on an empty area. -/
def oneTxCall : Call (CmpInfo (List (ℕ × ℕ))) :=
  classifierCall assocHash (fun _ => true) classifiedPorts oneTx {}

/-- The manager hands over, the worker takes the area, the manager cleans up. -/
def handOver {α : Type} : List (Act α) :=
  List.replicate 5 .manager ++ List.replicate 4 .worker ++ List.replicate 7 .manager

/-- The manager is between two calls. -/
def isIdle {α : Type} (st : St α) : Bool :=
  match st.manager with
  | .idle => true
  | _ => false

/-- A test for steps that begin no call and meet the condition. -/
def inOrderTest {α : Type} (i : Act α) (st : St α) : Bool :=
  match i, st.manager with
  | .call _, _ => false
  | .manager, .storing _ [] true => st.ref ≠ st.upd
  | _, _ => true

/-- Steps that pass the test begin no call and meet the condition. -/
theorem updateInOrder_of_test {i : Act (CmpInfo τ)} {st : St (CmpInfo τ)}
    (h : inOrderTest i st = true) : NoCall i st ∧ UpdateInOrder i st := by
  cases i with
  | call c => cases h
  | manager =>
    refine ⟨nofun, ?_, nofun⟩
    unfold PublishApart
    split
    · rename_i hm
      simpa [inOrderTest, hm] using h
    · trivial
  | worker => exact ⟨nofun, trivial, nofun⟩
  | endPass => exact ⟨nofun, trivial, nofun⟩

theorem manager_eq_of_isIdle {α : Type} {st : St α} (h : isIdle st = true) :
    st.manager = .idle := by
  cases hm : st.manager <;> simp [isIdle, hm] at h
  rfl

/-- The worker has made a pass, and the manager has not called yet. -/
def afterPass : St (CmpInfo (List (ℕ × ℕ))) :=
  { St.initial 0 0 (fun _ => {}) with ref := 1, pointer := 1 }

/-- The worker makes a pass before the manager calls, and the call is kept. -/
theorem updateKeptBy_after_pass :
    ∃ st₂ : St (CmpInfo (List (ℕ × ℕ))), (st₂.area st₂.ref).nClassifiedDataTx = 1 ∧
      UpdateKeptBy assocHash (fun _ => true) classifiedPorts oneTx st₂ := by
  have hpass : runAll (step (classifierProtocol _)) (List.replicate 5 .worker ++ [.endPass])
      (St.initial 0 0 fun _ => {}) = some afterPass := rfl
  have hcall : (runAll (tested (step (classifierProtocol _)) inOrderTest) handOver
      { afterPass with manager := .opening oneTxCall }).any
        fun st₂ => isIdle st₂ ∧ (st₂.area st₂.ref).nClassifiedDataTx = 1 := by
    decide +kernel
  obtain ⟨st₂, hrun, hst₂⟩ := (Option.any_eq_true ..).mp hcall
  obtain ⟨hidle, hcount⟩ := of_decide_eq_true hst₂
  refine ⟨st₂, hcount, updateKeptBy_of_reaches (reaches_of_runAll hpass ?_) (fun _ => rfl) ?_ rfl
    (reaches_of_runAll_tested hrun fun _ _ _ => updateInOrder_of_test) (manager_eq_of_isIdle hidle)⟩
  · intro i hi st
    rcases List.mem_append.mp hi with hi | hi
    · rw [List.eq_of_mem_replicate hi]
      exact ⟨nofun, trivial, nofun⟩
    · rw [List.mem_singleton.mp hi]
      exact ⟨nofun, trivial, nofun⟩
  · decide +kernel

/-- The manager reads the reference index before the worker has ever moved it:
the call returns `SPP_RET_OK`, but its tables are the ones that are freed, and
the worker is left with an empty area. -/
theorem not_updateKeptBy_before_pass :
    oneTxCall.publishes = true ∧
      ∃ st₂, Reaches (step (classifierProtocol _)) NoCall
        { St.initial 0 0 (fun _ => {}) with manager := .opening oneTxCall } st₂ ∧
        st₂.manager = .idle ∧
        ¬UpdateKeptBy assocHash (fun _ => true) classifiedPorts oneTx st₂ := by
  have hcall : (runAll (step (classifierProtocol _)) handOver
      { St.initial 0 0 (fun _ => {}) with manager := .opening oneTxCall }).any
        fun st₂ => isIdle st₂ ∧ (st₂.area st₂.ref).nClassifiedDataTx = 0 := by
    decide +kernel
  obtain ⟨st₂, hrun, hst₂⟩ := (Option.any_eq_true ..).mp hcall
  obtain ⟨hidle, hcount⟩ := of_decide_eq_true hst₂
  refine ⟨by decide +kernel, st₂, reaches_of_runAll hrun ?_, manager_eq_of_isIdle hidle, ?_⟩
  · intro i hi st c hc
    subst hc
    simp [handOver] at hi
  · intro hkept
    have hbuilt : (builtCmpInfo assocHash (fun _ => true) classifiedPorts oneTx).nClassifiedDataTx
        = 1 := by decide +kernel
    have htables := hkept.tables.nClassifiedDataTx
    omega

end Runs

end Spp.Vf
