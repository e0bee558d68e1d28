import Spp.Lib.GuardedRun
import Spp.Vf.ClassifierTables
import Spp.Vf.TxBurst

/-!
# The packets of a classifier

`spp_classifier_mac_do` pushes the frames of a burst into a buffer for each
transmit port, and transmits a buffer when it is full, when it is drained and
when the area it belongs to is swapped out. Here the worker is taken frame by
frame and push by push, and the manager may reconfigure the classifier between
any two of these steps.
-/

namespace Spp.Vf

open GuardedRun

/-- `MAX_PKT_BURST`. -/
def maxPktBurst : ℕ := 32

section Buffers

variable {ρ : Type}

/-- The transmit side of the area that the worker uses: the buffers of its
ports. The other fields are history: the number of bursts, the packets that
were handed to `spp_eth_tx_burst` for each index, and those of them that were
accepted or freed. -/
structure TxSide (ρ : Type) where
  pkts : ℕ → List ρ
  calls : ℕ
  handed : ℕ → List ρ
  released : ℕ → List ρ

variable (room : ℕ → ℕ)

/-- `transmit_packet` on the buffer of an index. No ability of a transmit port
fails, and at the `k`-th burst the device has room for `room k` packets. -/
def TxSide.transmit (i : ℕ) (tx : TxSide ρ) : TxSide ρ :=
  let out := transmitPacket (rteEthTxBurst (room tx.calls)) (tx.pkts i)
  { pkts := Function.update tx.pkts i []
    calls := tx.calls + 1
    handed := Function.update tx.handed i (tx.handed i ++ tx.pkts i)
    released := Function.update tx.released i (tx.released i ++ (out.accepted ++ out.freed)) }

/-- `transmit_all_packet`, and the loop that drains in `spp_classifier_mac_do`. -/
def TxSide.transmitAll (n : ℕ) (tx : TxSide ρ) : TxSide ρ :=
  (List.range n).foldl
    (fun tx i => if (tx.pkts i).length ≠ 0 then tx.transmit room i else tx) tx

/-- `push_packet` to the buffer of an index. -/
def TxSide.push (pkt : ρ) (i : ℕ) (tx : TxSide ρ) : TxSide ρ :=
  let tx := { tx with pkts := Function.update tx.pkts i (tx.pkts i ++ [pkt]) }
  if (tx.pkts i).length = maxPktBurst then tx.transmit room i else tx

/-- What was handed over for an index, followed by what is in its buffer. -/
def TxSide.total (tx : TxSide ρ) (i : ℕ) : List ρ := tx.handed i ++ tx.pkts i

/-- Every packet that was handed over has been accepted or freed, in order. -/
def TxSide.Released (tx : TxSide ρ) : Prop := ∀ i, tx.released i = tx.handed i

variable {room} {tx : TxSide ρ}

theorem TxSide.total_transmit (i j : ℕ) : (tx.transmit room i).total j = tx.total j := by
  unfold total transmit
  by_cases hij : j = i
  · subst hij
    simp
  · simp [hij]

theorem TxSide.Released.transmit (h : tx.Released) (i : ℕ) : (tx.transmit room i).Released := by
  intro j
  unfold TxSide.transmit transmitPacket rteEthTxBurst
  by_cases hij : j = i
  · subst hij
    simp only [Function.update_self, List.nil_append, take_append_drop_min, h j]
  · simp only [Function.update_of_ne hij]
    exact h j

/-- Transmitting all buffers empties those below `n` and hands their packets over. -/
theorem TxSide.transmitAll_spec (n : ℕ) (h : tx.Released) :
    (∀ i, (tx.transmitAll room n).pkts i = if i < n then [] else tx.pkts i) ∧
      (∀ i, (tx.transmitAll room n).total i = tx.total i) ∧ (tx.transmitAll room n).Released := by
  induction n with
  | zero => exact ⟨fun i => (if_neg (Nat.not_lt_zero i)).symm, fun i => rfl, h⟩
  | succ n ih =>
    obtain ⟨hpkts, htotal, hreleased⟩ := ih
    have hlast : tx.transmitAll room (n + 1) =
        if ((tx.transmitAll room n).pkts n).length ≠ 0 then (tx.transmitAll room n).transmit room n
        else tx.transmitAll room n := by
      unfold transmitAll
      rw [List.range_succ, List.foldl_append]
      rfl
    rw [hlast]
    split
    · refine ⟨fun i => ?_, fun i => (total_transmit n i).trans (htotal i), hreleased.transmit n⟩
      simp only [transmit]
      by_cases hi : i = n
      · subst hi
        simp
      · have hlt : i < n + 1 ↔ i < n := by omega
        simp [hi, hpkts i, hlt]
    · rename_i hempty
      refine ⟨fun i => ?_, htotal, hreleased⟩
      by_cases hi : i = n
      · subst hi
        rw [if_pos (Nat.lt_succ_self i)]
        exact List.length_eq_zero_iff.mp (not_not.mp hempty)
      · have hlt : i < n + 1 ↔ i < n := by omega
        simp only [hpkts i, hlt]

/-- A push adds a packet behind the others of its index, and leaves no buffer full. -/
theorem TxSide.push_spec (pkt : ρ) (i : ℕ) (h : tx.Released)
    (hbelow : ∀ j, (tx.pkts j).length < maxPktBurst) :
    (∀ j, (tx.push room pkt i).total j = tx.total j ++ if j = i then [pkt] else []) ∧
      (∀ j, ((tx.push room pkt i).pkts j).length < maxPktBurst) ∧
      (∀ j, j ≠ i → (tx.push room pkt i).pkts j = tx.pkts j) ∧ (tx.push room pkt i).Released := by
  have hput : ∀ j, ({ tx with pkts := Function.update tx.pkts i (tx.pkts i ++ [pkt]) } :
      TxSide ρ).total j = tx.total j ++ if j = i then [pkt] else [] := by
    intro j
    unfold total
    by_cases hj : j = i
    · subst hj
      simp
    · simp [hj]
  unfold push
  dsimp only
  split
  · have hreleased : ({ tx with pkts := Function.update tx.pkts i (tx.pkts i ++ [pkt]) } :
        TxSide ρ).Released := h
    refine ⟨fun j => (total_transmit i j).trans (hput j), fun j => ?_, fun j hj => ?_,
      hreleased.transmit i⟩
    · simp only [transmit]
      by_cases hj : j = i
      · subst hj
        simp [maxPktBurst]
      · simpa [hj] using hbelow j
    · simp [transmit, hj]
  · rename_i hnot
    refine ⟨hput, fun j => ?_, fun j hj => by simp [hj], h⟩
    by_cases hj : j = i
    · subst hj
      have hj := hbelow j
      simp only [Function.update_self, List.length_append, List.length_singleton] at hnot ⊢
      omega
    · simpa [hj] using hbelow j

end Buffers

section Step

variable {τ ρ : Type} (hash : RteHash τ) (room : ℕ → ℕ)

/-- `struct management_info` with the buffers of its two areas, whether the
manager waits in `spp_classifier_mac_update`, the frames of the burst that are
not classified yet, and the pushes of the frame that is being classified. The
other fields are history: see `TxSide`, the frames that were classified with the
area in use, and the packets that `classify_packet` has freed. -/
structure ClassifierSt (τ ρ : Type) where
  ref : Fin 2
  upd : Fin 2
  cmpInfos : Fin 2 → CmpInfo τ
  pkts : Fin 2 → ℕ → List ρ
  waiting : Bool
  frames : List (Frame ρ)
  pushes : List (ρ × ℕ)
  calls : ℕ
  handed : ℕ → List ρ
  released : ℕ → List ρ
  arrived : List (Frame ρ × CmpInfo τ)
  dropped : List ρ

/-- The state that `spp_classifier_mac_init` leaves. -/
def ClassifierSt.initial : ClassifierSt τ ρ :=
  { ref := 0, upd := 0, cmpInfos := fun _ => {}, pkts := fun _ _ => [], waiting := false
    frames := [], pushes := [], calls := 0, handed := fun _ => [], released := fun _ => []
    arrived := [], dropped := [] }

/-- The area the worker uses. -/
def ClassifierSt.used (st : ClassifierSt τ ρ) : CmpInfo τ := st.cmpInfos st.ref

/-- The transmit side of that area. -/
def ClassifierSt.tx (st : ClassifierSt τ ρ) : TxSide ρ :=
  ⟨st.pkts st.ref, st.calls, st.handed, st.released⟩

/-- The transmit side of that area is replaced. -/
def ClassifierSt.setTx (st : ClassifierSt τ ρ) (tx : TxSide ρ) : ClassifierSt τ ρ :=
  { st with
    pkts := Function.update st.pkts st.ref tx.pkts
    calls := tx.calls
    handed := tx.handed
    released := tx.released }

/-- `change_classifier_index`. -/
def changeClassifierIndex (st : ClassifierSt τ ρ) : ClassifierSt τ ρ :=
  if st.ref = st.upd then
    { st.setTx (st.tx.transmitAll room st.used.nClassifiedDataTx) with ref := st.upd + 1 }
  else st

/-- `spp_classifier_mac_do` up to the loop of `classify_packet`. `drain` says
whether the interval for draining is over, `frames` is what is received. -/
def sppClassifierMacDo (drain : Bool) (frames : List (Frame ρ)) (st : ClassifierSt τ ρ) :
    ClassifierSt τ ρ :=
  let st := changeClassifierIndex room st
  if ¬(st.used.classifiedDataRx.ifaceType ≠ .undef ∧ 1 ≤ st.used.nClassifiedDataTx ∧
      st.used.macAddrEntry = 1) then st
  else
    let st :=
      if drain then st.setTx (st.tx.transmitAll room st.used.nClassifiedDataTx) else st
    if st.used.classifiedDataRx.ifaceType = .undef then st
    else { st with frames := frames }

/-- The worker takes the next frame of its burst. -/
def classifyNext (frame : Frame ρ) (frames : List (Frame ρ)) (st : ClassifierSt τ ρ) :
    ClassifierSt τ ρ :=
  let fate := classifyPacket hash frame st.used
  { st with
    frames := frames
    pushes := fate.pushes.map fun i => (frame.mbuf, i)
    arrived := st.arrived ++ [(frame, st.used)]
    dropped := st.dropped ++ if fate.freed then [frame.mbuf] else [] }

/-- `spp_classifier_mac_update` from its begin to its wait, if it does not fail.
The array `tx_ports` has `RTE_MAX_ETHPORTS` entries. -/
def sppClassifierMacUpdate (memory : ℕ → Bool) (iface : PortRef → PortInfo)
    (componentInfo : ComponentInfo) (st : ClassifierSt τ ρ) : Option (ClassifierSt τ ρ) :=
  if Limits.default.maxEthports < componentInfo.txPorts.length then none
  else
    match initComponentInfo hash memory iface componentInfo (st.cmpInfos st.upd) with
    | (.ng, _) => none
    | (.ok, cmpInfo) =>
      some { st with
        cmpInfos := Function.update st.cmpInfos st.upd { cmpInfo with name := componentInfo.name }
        pkts := Function.update st.pkts st.upd fun i =>
          if i < componentInfo.txPorts.length then [] else st.pkts st.upd i
        upd := st.ref
        waiting := true }

/-- What happens next. -/
inductive ClassifierAct (ρ : Type)
  /-- The manager updates the component, up to the wait. -/
  | update (memory : ℕ → Bool) (iface : PortRef → PortInfo) (componentInfo : ComponentInfo)
  /-- The wait is over, and the old area is uninitialised. -/
  | uninit
  /-- The worker begins a pass. -/
  | pass (drain : Bool) (frames : List (Frame ρ))
  /-- The worker makes its next push, or takes its next frame. -/
  | work

/-- One step. -/
def classifierStep : ClassifierAct ρ → ClassifierSt τ ρ → Option (ClassifierSt τ ρ)
  | .update memory iface componentInfo, st =>
    if st.waiting then none else sppClassifierMacUpdate hash memory iface componentInfo st
  | .uninit, st =>
    if st.waiting ∧ st.ref ≠ st.upd then
      some { st with
        cmpInfos := Function.update st.cmpInfos st.upd {}
        pkts := Function.update st.pkts st.upd fun _ => []
        waiting := false }
    else none
  | .pass drain frames, st =>
    match st.pushes, st.frames with
    | [], [] => some (sppClassifierMacDo room drain frames st)
    | _, _ => none
  | .work, st =>
    match st.pushes, st.frames with
    | (pkt, i) :: pushes, _ => some { st.setTx (st.tx.push room pkt i) with pushes := pushes }
    | [], frame :: frames => some (classifyNext hash frame frames st)
    | [], [] => none

end Step

section History

variable {τ ρ : Type} (hash : RteHash τ)

/-- The frames that were classified to a transmit port, in the order of arrival. -/
def framesFor (i : ℕ) (arrived : List (Frame ρ × CmpInfo τ)) : List ρ :=
  arrived.filterMap fun fc =>
    if i ∈ (classifyPacket hash fc.1 fc.2).pushes then some fc.1.mbuf else none

/-- The frames that were classified to no port. -/
def framesFreed (arrived : List (Frame ρ × CmpInfo τ)) : List ρ :=
  arrived.filterMap fun fc =>
    if (classifyPacket hash fc.1 fc.2).freed then some fc.1.mbuf else none

/-- The pushes to one port among those that are left for a frame. -/
def pushesTo (i : ℕ) (pushes : List (ρ × ℕ)) : List ρ :=
  pushes.filterMap fun p => if p.2 = i then some p.1 else none

/-- A frame has one push to each of its ports. -/
theorem pushesTo_map (pkt : ρ) (i : ℕ) {ports : List ℕ} (h : ports.Nodup) :
    pushesTo i (ports.map fun j => (pkt, j)) = if i ∈ ports then [pkt] else [] := by
  induction ports with
  | nil => rfl
  | cons j ports ih =>
    obtain ⟨hnot, hnodup⟩ := List.nodup_cons.mp h
    have hrest := ih hnodup
    unfold pushesTo at hrest ⊢
    rw [List.map_cons, List.filterMap_cons]
    by_cases hj : j = i
    · subst hj
      rw [if_neg hnot] at hrest
      simp [hrest]
    · have hi : i ≠ j := Ne.symm hj
      simp [hj, hi, hrest]

theorem pushesTo_cons (pkt : ρ) (i j : ℕ) (pushes : List (ρ × ℕ)) :
    pushesTo j ((pkt, i) :: pushes) = (if j = i then [pkt] else []) ++ pushesTo j pushes := by
  unfold pushesTo
  rw [List.filterMap_cons]
  by_cases hj : j = i
  · subst hj
    simp
  · have hi : i ≠ j := Ne.symm hj
    simp [hj, hi]

end History

section Invariant

variable {τ ρ : Type} {hash : RteHash τ} {room : ℕ → ℕ} {st st' : ClassifierSt τ ρ}

/-- What holds in every reachable state. -/
structure ClassifierInv (hash : RteHash τ) (st : ClassifierSt τ ρ) : Prop where
  tables : ∀ a, (st.cmpInfos a).nClassifiedDataTx ≤ 32 ∧
    TablesOk hash (st.cmpInfos a).nClassifiedDataTx (st.cmpInfos a)
  /-- The update area has no tables before a call. -/
  clean : st.waiting = false → ∀ vid, (st.cmpInfos st.upd).macClassifications vid = none
  /-- The area the worker does not use has no packets. -/
  other : ∀ i, st.pkts (st.ref + 1) i = []
  /-- With equal indices before a call, the worker has not made a pass yet. -/
  first : st.ref = st.upd → st.waiting = false →
    (∀ i, st.pkts st.ref i = []) ∧ st.frames = [] ∧ st.pushes = []
  below : ∀ i, (st.pkts st.ref i).length < maxPktBurst
  beyond : ∀ i, st.used.nClassifiedDataTx ≤ i → st.pkts st.ref i = []
  targets : ∀ p ∈ st.pushes, p.2 < st.used.nClassifiedDataTx
  order : ∀ i, st.tx.total i ++ pushesTo i st.pushes = framesFor hash i st.arrived
  released : st.tx.Released
  dropped : st.dropped = framesFreed hash st.arrived
  fates : ∀ fc ∈ st.arrived, FateOk fc.2.nClassifiedDataTx (classifyPacket hash fc.1 fc.2)

theorem classifierInv_initial : ClassifierInv hash (ClassifierSt.initial : ClassifierSt τ ρ) :=
  { tables := fun _ => ⟨Nat.zero_le _, tablesOk_of_none fun _ => rfl⟩
    clean := fun _ _ => rfl
    other := fun _ => rfl
    first := fun _ _ => ⟨fun _ => rfl, rfl, rfl⟩
    below := fun _ => Nat.succ_pos 31
    beyond := fun _ _ => rfl
    targets := nofun
    order := fun _ => rfl
    released := fun _ => rfl
    dropped := rfl
    fates := nofun }

/-- The transmit side of the area in use changes, and with it the pushes that
are left. -/
theorem ClassifierInv.setTx (h : ClassifierInv hash st) {tx : TxSide ρ} {pushes : List (ρ × ℕ)}
    (hfirst : st.ref = st.upd → st.waiting = false → (∀ i, tx.pkts i = []) ∧ pushes = [])
    (hbelow : ∀ i, (tx.pkts i).length < maxPktBurst)
    (hbeyond : ∀ i, st.used.nClassifiedDataTx ≤ i → tx.pkts i = [])
    (htargets : ∀ p ∈ pushes, p.2 < st.used.nClassifiedDataTx)
    (htotal : ∀ i, tx.total i ++ pushesTo i pushes = st.tx.total i ++ pushesTo i st.pushes)
    (hreleased : tx.Released) :
    ClassifierInv hash { st.setTx tx with pushes := pushes } := by
  have hpkts : Function.update st.pkts st.ref tx.pkts st.ref = tx.pkts :=
    Function.update_self ..
  have htx : ({ st.setTx tx with pushes := pushes } : ClassifierSt τ ρ).tx = tx := by
    unfold ClassifierSt.tx ClassifierSt.setTx
    dsimp only
    rw [hpkts]
  refine ⟨h.tables, h.clean, fun i => ?_, fun heq hwait => ?_, ?_, ?_, htargets, fun i => ?_, ?_,
    h.dropped, h.fates⟩
  · have hne : st.ref + 1 ≠ st.ref := by omega
    simp only [ClassifierSt.setTx, Function.update_of_ne hne]
    exact h.other i
  · obtain ⟨hempty, hnone⟩ := hfirst heq hwait
    refine ⟨fun i => ?_, (h.first heq hwait).2.1, hnone⟩
    simp only [ClassifierSt.setTx, hpkts]
    exact hempty i
  · simp only [ClassifierSt.setTx, hpkts]
    exact hbelow
  · simp only [ClassifierSt.setTx, hpkts]
    exact hbeyond
  · rw [htx]
    exact (htotal i).trans (h.order i)
  · rw [htx]
    exact hreleased

/-- All buffers of the area in use are transmitted. -/
theorem ClassifierInv.transmitAll (h : ClassifierInv hash st) :
    ClassifierInv hash (st.setTx (st.tx.transmitAll room st.used.nClassifiedDataTx)) ∧
      ∀ i, (st.tx.transmitAll room st.used.nClassifiedDataTx).pkts i = [] := by
  obtain ⟨hpkts, htotal, hreleased⟩ :=
    @TxSide.transmitAll_spec _ room _ st.used.nClassifiedDataTx h.released
  have hempty : ∀ i, (st.tx.transmitAll room st.used.nClassifiedDataTx).pkts i = [] := by
    intro i
    rw [hpkts i]
    split
    · rfl
    · rename_i hge
      exact h.beyond i (by omega)
  refine ⟨h.setTx (fun heq hwait => ⟨hempty, (h.first heq hwait).2.2⟩) (fun i => ?_)
    (fun i _ => hempty i) h.targets (fun i => by rw [htotal i]) hreleased, hempty⟩
  rw [hempty i]
  exact Nat.succ_pos 31

/-- An area whose buffers are empty is swapped out by a worker without pushes. -/
theorem ClassifierInv.swap (h : ClassifierInv hash st) (heq : st.ref = st.upd)
    (hempty : ∀ i, st.pkts st.ref i = []) (hpushes : st.pushes = []) :
    ClassifierInv hash { st with ref := st.upd + 1 } := by
  have hother : ∀ i, st.pkts (st.upd + 1) i = [] := fun i => heq ▸ h.other i
  have hne : st.upd + 1 ≠ st.upd := by omega
  refine ⟨h.tables, h.clean, fun i => ?_, fun hsame => absurd hsame hne, fun i => ?_,
    fun i _ => hother i, ?_, fun i => ?_, h.released, h.dropped, h.fates⟩
  · have hback : st.upd + 1 + 1 = st.ref := by omega
    simp only [hback]
    exact hempty i
  · simp [hother i, maxPktBurst]
  · simp [hpushes]
  · have horder := h.order i
    simp only [ClassifierSt.tx, TxSide.total, hempty i] at horder
    simpa only [ClassifierSt.tx, TxSide.total, hother i] using horder

/-- A worker between two passes takes the other area. -/
theorem ClassifierInv.changeClassifierIndex (h : ClassifierInv hash st) (hpushes : st.pushes = []) :
    ClassifierInv hash (changeClassifierIndex room st) ∧
      (changeClassifierIndex room st).pushes = [] ∧
      (changeClassifierIndex room st).ref ≠ (changeClassifierIndex room st).upd := by
  unfold Vf.changeClassifierIndex
  split
  · rename_i heq
    obtain ⟨h', hempty⟩ := @ClassifierInv.transmitAll _ _ _ room _ h
    refine ⟨h'.swap heq (fun i => ?_) hpushes, hpushes, ?_⟩
    · simp only [ClassifierSt.setTx, Function.update_self]
      exact hempty i
    · have hne : st.upd + 1 ≠ st.upd := by omega
      exact hne
  · rename_i hne
    exact ⟨h, hpushes, hne⟩

/-- A burst is received. -/
theorem ClassifierInv.receive (h : ClassifierInv hash st) (hne : st.ref ≠ st.upd)
    (frames : List (Frame ρ)) :
    ClassifierInv hash (if st.used.classifiedDataRx.ifaceType = .undef then st
      else { st with frames := frames }) := by
  split
  · exact h
  · exact { h with first := fun heq => absurd heq hne }

/-- The beginning of a pass. -/
theorem ClassifierInv.sppClassifierMacDo (h : ClassifierInv hash st) (drain : Bool)
    (frames : List (Frame ρ)) (hpushes : st.pushes = []) :
    ClassifierInv hash (sppClassifierMacDo room drain frames st) := by
  obtain ⟨hchange, -, hne⟩ := @ClassifierInv.changeClassifierIndex _ _ _ room _ h hpushes
  unfold Vf.sppClassifierMacDo
  dsimp only
  split
  · exact hchange
  · cases drain with
    | true => exact hchange.transmitAll.1.receive hne frames
    | false => exact hchange.receive hne frames

/-- The next frame is classified. -/
theorem ClassifierInv.classifyNext (h : ClassifierInv hash st) {frame : Frame ρ}
    {frames : List (Frame ρ)} (hpushes : st.pushes = []) (hframes : st.frames = frame :: frames) :
    ClassifierInv hash (classifyNext hash frame frames st) := by
  have hfate : FateOk st.used.nClassifiedDataTx (classifyPacket hash frame st.used) :=
    (h.tables st.ref).2.classifyPacket (h.tables st.ref).1 frame
  refine ⟨h.tables, h.clean, h.other, fun heq hwait => ?_, h.below, h.beyond, fun p hp => ?_,
    fun i => ?_, h.released, ?_, fun fc hfc => ?_⟩
  · have hnone := (h.first heq hwait).2.1
    rw [hframes] at hnone
    cases hnone
  · obtain ⟨i, hi, rfl⟩ := List.mem_map.mp hp
    exact hfate.pushes_lt i hi
  · have horder := h.order i
    rw [hpushes] at horder
    unfold framesFor at horder ⊢
    unfold Vf.classifyNext
    dsimp only
    rw [pushesTo_map _ i hfate.pushes_nodup, List.filterMap_append, ← horder]
    have htotal : st.tx.total i ++ pushesTo i [] = st.tx.total i := List.append_nil _
    rw [htotal]
    refine congrArg (st.tx.total i ++ ·) ?_
    by_cases hi : i ∈ (classifyPacket hash frame st.used).pushes
    · simp [hi]
    · simp [hi]
  · unfold framesFreed Vf.classifyNext
    rw [List.filterMap_append, h.dropped]
    refine congrArg (framesFreed hash st.arrived ++ ·) ?_
    cases hfreed : (classifyPacket hash frame st.used).freed <;> simp [hfreed]
  · rcases List.mem_append.mp hfc with hfc | hfc
    · exact h.fates fc hfc
    · rw [List.mem_singleton.mp hfc]
      exact hfate

/-- The next push is made. -/
theorem ClassifierInv.push (h : ClassifierInv hash st) {pkt : ρ} {i : ℕ} {pushes : List (ρ × ℕ)}
    (hpushes : st.pushes = (pkt, i) :: pushes) :
    ClassifierInv hash { st.setTx (st.tx.push room pkt i) with pushes := pushes } := by
  obtain ⟨htotal, hbelow, hothers, hreleased⟩ :=
    @TxSide.push_spec _ room _ pkt i h.released h.below
  have hlt : i < st.used.nClassifiedDataTx :=
    h.targets (pkt, i) (by rw [hpushes]; exact List.mem_cons_self)
  refine h.setTx (fun heq hwait => ?_) hbelow (fun j hj => ?_) (fun p hp => ?_) (fun j => ?_)
    hreleased
  · have hnone := (h.first heq hwait).2.2
    rw [hpushes] at hnone
    cases hnone
  · rw [hothers j (by omega)]
    exact h.beyond j hj
  · exact h.targets p (by rw [hpushes]; exact List.mem_cons_of_mem _ hp)
  · rw [htotal j, hpushes, pushesTo_cons, List.append_assoc]

/-- The update area is built anew and handed over. -/
theorem ClassifierInv.update (h : ClassifierInv hash st) {cmpInfo : CmpInfo τ}
    {pkts : ℕ → List ρ} (hwait : st.waiting = false) (hle : cmpInfo.nClassifiedDataTx ≤ 32)
    (htables : TablesOk hash cmpInfo.nClassifiedDataTx cmpInfo)
    (hpkts : ∀ i, pkts i = [] ∨ pkts i = st.pkts st.upd i) :
    ClassifierInv hash { st with
      cmpInfos := Function.update st.cmpInfos st.upd cmpInfo
      pkts := Function.update st.pkts st.upd pkts
      upd := st.ref
      waiting := true } := by
  have hall : ∀ a, (Function.update st.cmpInfos st.upd cmpInfo a).nClassifiedDataTx ≤ 32 ∧
      TablesOk hash (Function.update st.cmpInfos st.upd cmpInfo a).nClassifiedDataTx
        (Function.update st.cmpInfos st.upd cmpInfo a) := by
    intro a
    by_cases ha : a = st.upd
    · subst ha
      rw [Function.update_self]
      exact ⟨hle, htables⟩
    · rw [Function.update_of_ne ha]
      exact h.tables a
  by_cases heq : st.ref = st.upd
  · -- the worker has not made a pass, and every buffer is empty
    obtain ⟨hempty, hframes, hpushes⟩ := h.first heq hwait
    have hnone : ∀ i, pkts i = [] := fun i => (hpkts i).elim id fun hi => by rw [hi, ← heq, hempty i]
    have hsame : Function.update st.pkts st.upd pkts st.ref = pkts := by
      rw [heq, Function.update_self]
    refine ⟨hall, nofun, fun i => ?_, nofun, fun i => ?_, fun i _ => ?_, ?_, fun i => ?_, h.released,
      h.dropped, h.fates⟩
    · have hne : st.ref + 1 ≠ st.upd := by omega
      simp only [Function.update_of_ne hne]
      exact h.other i
    · simp only [hsame, hnone i]
      exact Nat.succ_pos 31
    · simp only [hsame, hnone i]
    · simp [hpushes]
    · have horder := h.order i
      simp only [ClassifierSt.tx, TxSide.total, hempty i] at horder
      simpa only [ClassifierSt.tx, TxSide.total, hsame, hnone i] using horder
  · have hother : st.ref + 1 = st.upd := by omega
    have hused : Function.update st.cmpInfos st.upd cmpInfo st.ref = st.cmpInfos st.ref :=
      Function.update_of_ne heq ..
    have hsame : Function.update st.pkts st.upd pkts st.ref = st.pkts st.ref :=
      Function.update_of_ne heq ..
    refine ⟨hall, nofun, fun i => ?_, nofun, fun i => ?_, fun i hi => ?_, fun p hp => ?_,
      fun i => ?_, h.released, h.dropped, h.fates⟩
    · simp only [hother, Function.update_self]
      exact (hpkts i).elim id fun hi => by rw [hi, ← hother, h.other i]
    · simpa only [hsame] using h.below i
    · simp only [ClassifierSt.used, hused] at hi
      simpa only [hsame] using h.beyond i hi
    · simpa only [ClassifierSt.used, hused] using h.targets p hp
    · simpa only [ClassifierSt.tx, TxSide.total, hsame] using h.order i

/-- A call of `spp_classifier_mac_update`. -/
theorem ClassifierInv.sppClassifierMacUpdate (h : ClassifierInv hash st) {memory : ℕ → Bool}
    {iface : PortRef → PortInfo} {componentInfo : ComponentInfo} (hwait : st.waiting = false)
    (hstep : sppClassifierMacUpdate hash memory iface componentInfo st = some st') :
    ClassifierInv hash st' := by
  unfold Vf.sppClassifierMacUpdate at hstep
  split at hstep
  · cases hstep
  · rename_i hports
    split at hstep
    · cases hstep
    · rename_i cmpInfo hinit
      obtain rfl := Option.some.inj hstep
      obtain ⟨hcount, htables⟩ := tablesOk_initComponentInfo (h.clean hwait)
        (show (initComponentInfo hash memory iface componentInfo (st.cmpInfos st.upd)).1 = .ok by
          rw [hinit])
      rw [hinit] at hcount htables
      dsimp only at hcount htables
      refine h.update hwait ?_ (htables.congr rfl) fun i => ?_
      · have hle : componentInfo.txPorts.length ≤ 32 := Nat.le_of_not_lt hports
        dsimp only
        omega
      · split
        · exact .inl rfl
        · exact .inr rfl

/-- The area that was taken back is uninitialised. -/
theorem ClassifierInv.uninit (h : ClassifierInv hash st) (hne : st.ref ≠ st.upd) :
    ClassifierInv hash { st with
      cmpInfos := Function.update st.cmpInfos st.upd {}
      pkts := Function.update st.pkts st.upd fun _ => []
      waiting := false } := by
  have hother : st.ref + 1 = st.upd := by omega
  have hused : Function.update st.cmpInfos st.upd {} st.ref = st.cmpInfos st.ref :=
    Function.update_of_ne hne ..
  have hsame : Function.update st.pkts st.upd (fun _ => []) st.ref = st.pkts st.ref :=
    Function.update_of_ne hne ..
  refine ⟨fun a => ?_, fun _ vid => ?_, fun i => ?_, fun heq => absurd heq hne, fun i => ?_,
    fun i hi => ?_, fun p hp => ?_, fun i => ?_, h.released, h.dropped, h.fates⟩
  · dsimp only
    by_cases ha : a = st.upd
    · subst ha
      rw [Function.update_self]
      exact ⟨Nat.zero_le _, tablesOk_of_none fun _ => rfl⟩
    · rw [Function.update_of_ne ha]
      exact h.tables a
  · simp only [Function.update_self]
  · simp only [hother, Function.update_self]
  · simpa only [hsame] using h.below i
  · simp only [ClassifierSt.used, hused] at hi
    simpa only [hsame] using h.beyond i hi
  · simpa only [ClassifierSt.used, hused] using h.targets p hp
  · simpa only [ClassifierSt.tx, TxSide.total, hsame] using h.order i

/-- Every step keeps the invariant. -/
theorem ClassifierInv.step (h : ClassifierInv hash st) (i : ClassifierAct ρ)
    (hs : classifierStep hash room i st = some st') : ClassifierInv hash st' := by
  cases i with
  | update memory iface componentInfo =>
    unfold classifierStep at hs
    dsimp only at hs
    split at hs
    · cases hs
    · rename_i hwait
      exact h.sppClassifierMacUpdate (by simpa using hwait) hs
  | uninit =>
    unfold classifierStep at hs
    dsimp only at hs
    split at hs
    · rename_i hready
      obtain rfl := Option.some.inj hs
      exact h.uninit hready.2
    · cases hs
  | pass drain frames =>
    unfold classifierStep at hs
    dsimp only at hs
    split at hs
    · rename_i hpushes hframes
      obtain rfl := Option.some.inj hs
      exact h.sppClassifierMacDo drain frames hpushes
    · cases hs
  | work =>
    unfold classifierStep at hs
    dsimp only at hs
    split at hs
    · rename_i hpushes
      obtain rfl := Option.some.inj hs
      exact h.push hpushes
    · rename_i hpushes hframes
      obtain rfl := Option.some.inj hs
      exact h.classifyNext hpushes hframes
    · cases hs

/-- No packet is lost, duplicated or reordered. -/
structure Orderly (hash : RteHash τ) (st : ClassifierSt τ ρ) : Prop where
  /-- What was handed over for a port, then its buffer, then the pushes to it
  that are left for the frame at hand: these are the frames classified to it. -/
  order : ∀ i, st.handed i ++ st.pkts st.ref i ++ pushesTo i st.pushes =
    framesFor hash i st.arrived
  below : ∀ a i, (st.pkts a i).length < maxPktBurst
  /-- The buffers of the area that is swapped out are empty. -/
  swapped : ∀ i, st.pkts (st.ref + 1) i = []
  /-- Every reference to a frame has a push, or it is freed. -/
  references : ∀ fc ∈ st.arrived,
    1 + (classifyPacket hash fc.1 fc.2).added = (classifyPacket hash fc.1 fc.2).pushes.length +
      if (classifyPacket hash fc.1 fc.2).freed then 1 else 0
  /-- Every reference that was handed over has been accepted or freed. -/
  released : ∀ i, st.released i = st.handed i
  dropped : st.dropped = framesFreed hash st.arrived

theorem ClassifierInv.orderly (h : ClassifierInv hash st) : Orderly hash st := by
  refine ⟨h.order, fun a i => ?_, h.other, fun fc hfc => (h.fates fc hfc).references, h.released,
    h.dropped⟩
  by_cases ha : a = st.ref
  · subst ha
    exact h.below i
  · have hother : a = st.ref + 1 := by omega
    rw [hother, h.other i]
    exact Nat.succ_pos 31

end Invariant

section Examples

/-- A classifier with one receive port and two transmit ports. -/
def twoTx : ComponentInfo :=
  { name := "cls".toList, type := .classifierMac, rxPorts := [⟨.nic, 0⟩]
    txPorts := [⟨.nic, 1⟩, ⟨.nic, 2⟩] }

/-- Physical ports, each with a MAC address of its own. -/
def macPort (port : PortRef) : PortInfo :=
  { ifaceType := .phy, ifaceNo := port.no, dpdkPort := port.no
    classId := { macAddr := 2 * port.no, vid := ethVlanIdMax } }

/-- A frame to the multicast address 01:00:00:00:00:00, and one to port 2. -/
def twoFrames : List (Frame ℕ) :=
  [⟨0, 1, 0x0800, 0⟩, ⟨1, 4, 0x0800, 0⟩]

/-- The classifier is configured, receives the two frames and classifies them. -/
def twoFramesRun : List (ClassifierAct ℕ) :=
  [.pass false [], .update (fun _ => true) macPort twoTx, .pass false [], .uninit,
    .pass true twoFrames] ++ List.replicate 5 .work

end Examples

end Spp.Vf
