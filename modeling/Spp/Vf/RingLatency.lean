import Mathlib.Data.List.Nodup
import Spp.Lib.Double
import Spp.Lib.GuardedRun
import Spp.Lib.TokenList
import Spp.Vf.Types

/-!
# The latency statistics of rings

`spp_eth_tx_burst` stamps packets with the time as the sampling interval runs over, and
`spp_eth_rx_burst` counts the latency of the stamped ones. Both go through as many packets as
were asked for instead of those that there are, and a stamp is never cleared.
-/

namespace Spp.Vf.RingLatency

open CLib GuardedRun

section Source

/-- `SPP_RINGLATENCYSTATS_STATS_SLOT_COUNT`. -/
def statsSlotCount : ℕ := 101

/-- What the statistics are set up with: `g_samp_intvl`, `g_stats_count` and `cycles_per_ns()`,
which is positive for a timer of at least 1 GHz. -/
structure StatsConfig where
  sampIntvl : UInt64
  statsCount : ℕ
  cyclesPerNs : UInt64
  cyclesPerNs_pos : 0 < cyclesPerNs

/-- `struct ring_latency_stats_info`. -/
structure RingLatencyStatsInfo where
  timerTsc : UInt64
  prevTsc : UInt64
  slot : ℕ → ℕ

variable (cfg : StatsConfig)

/-- The part of the loop of `spp_ringlatencystats_add_time_stamp` that keeps the time: whether
the sampling interval is over, and the timers after it. -/
def RingLatencyStatsInfo.tick (info : RingLatencyStatsInfo) (now : UInt64) :
    Bool × RingLatencyStatsInfo :=
  let timerTsc := info.timerTsc + (now - info.prevTsc)
  if cfg.sampIntvl ≤ timerTsc then (true, { info with timerTsc := 0, prevTsc := now })
  else (false, { info with timerTsc := timerTsc, prevTsc := now })

variable {ρ : Type} [DecidableEq ρ]

/-- `spp_ringlatencystats_add_time_stamp`, on an array of packets with the times that
`rte_rdtsc` returns at each of them. `none` is a packet that has been freed, which must not be
written to. -/
def addTimeStamp : List (Option ρ × UInt64) → RingLatencyStatsInfo → (ρ → UInt64) →
    Except Stop (RingLatencyStatsInfo × (ρ → UInt64))
  | [], info, timestamp => .ok (info, timestamp)
  | (pkt, now) :: pkts, info, timestamp =>
    let next := info.tick cfg now
    if next.1 then
      match pkt with
      | none => .error (.undef)
      | some pkt => addTimeStamp pkts next.2 (Function.update timestamp pkt now)
    else addTimeStamp pkts next.2 timestamp

/-- The latency of a packet in nanoseconds. The division is one of integers. -/
def latencyOf (now timestamp : UInt64) : UInt64 := (now - timestamp) / cfg.cyclesPerNs

/-- The slot that is incremented for a packet. The latency goes through `double` to `int64_t`;
a `double` from `2 ^ 64` on does not fit `uint64_t`, and a negative index is not in the array. -/
def slotIndex (now timestamp : UInt64) : Except Stop ℕ :=
  let floor := toDouble (latencyOf cfg now timestamp).toNat
  let latency := toInt64 floor
  if 2 ^ 64 ≤ floor then .error (.undef)
  else if latency < statsSlotCount - 1 then
    if latency < 0 then .error (.undef) else .ok latency.toNat
  else .ok (statsSlotCount - 1)

/-- `spp_ringlatencystats_calculate_latency`, on an array of packets. `none` is an entry that
the burst has not filled, which points to no packet of it. -/
def calculateLatency (now : UInt64) (timestamp : ρ → UInt64) :
    List (Option ρ) → RingLatencyStatsInfo → Except Stop RingLatencyStatsInfo
  | [], info => .ok info
  | none :: _, _ => .error (.undef)
  | some pkt :: pkts, info =>
    if timestamp pkt = 0 then calculateLatency now timestamp pkts info
    else do
      let i ← slotIndex cfg now (timestamp pkt)
      calculateLatency now timestamp pkts
        { info with slot := Function.update info.slot i (info.slot i + 1) }

/-- The statistics, `timestamp` of the packets, and the rings. In a ring stands beside a packet
whether it was stamped when it was transmitted into it, which the code does not know. -/
structure RingState (ρ : Type) where
  info : ℕ → RingLatencyStatsInfo
  timestamp : ρ → UInt64
  queue : ℕ → List (ρ × Bool)

/-- What happens to rings: a burst is transmitted, of which `nbTx` packets have survived the
abilities and the ring has room for `room`; a burst of up to `nbPkts` packets is received; or
other code writes to time stamps. -/
inductive BurstCall (ρ : Type)
  | txBurst (ring : ℕ) (txPkts : List (ρ × UInt64)) (nbTx room : ℕ)
  | rxBurst (ring nbPkts : ℕ) (now : UInt64)
  | other (timestamp : ρ → UInt64)

/-- Which packets of a burst find the sampling interval over. -/
def stampFlags : List UInt64 → RingLatencyStatsInfo → List Bool
  | [], _ => []
  | now :: times, info => (info.tick cfg now).1 :: stampFlags times (info.tick cfg now).2

/-- `spp_eth_tx_burst` on a ring, after the abilities. Those packets that have not survived
them have been freed. -/
def sppEthTxBurst (ring : ℕ) (txPkts : List (ρ × UInt64)) (nbTx room : ℕ) (s : RingState ρ) :
    Except Stop (RingState ρ) :=
  if nbTx = 0 then .ok s
  else if cfg.statsCount ≤ ring then .error (.undef)
  else do
    let entries := (txPkts.take nbTx).map (fun e => (some e.1, e.2)) ++
      (txPkts.drop nbTx).map (fun e => (none, e.2))
    let (info, timestamp) ← addTimeStamp cfg entries (s.info ring) s.timestamp
    let flags := stampFlags cfg (txPkts.map Prod.snd) (s.info ring)
    return {
      info := Function.update s.info ring info
      timestamp := timestamp
      queue := Function.update s.queue ring
        (s.queue ring ++ (((txPkts.take nbTx).map Prod.fst).zip flags).take room) }

/-- `spp_eth_rx_burst` on a ring, before the abilities. -/
def sppEthRxBurst (ring nbPkts : ℕ) (now : UInt64) (s : RingState ρ) :
    Except Stop (RingState ρ) :=
  let rxPkts := (s.queue ring).take nbPkts
  if rxPkts.length = 0 then .ok s
  else if cfg.statsCount ≤ ring then .error (.undef)
  else do
    let entries := rxPkts.map (fun e => some e.1) ++
      List.replicate (nbPkts - rxPkts.length) none
    let info ← calculateLatency cfg now s.timestamp entries (s.info ring)
    return { s with
      info := Function.update s.info ring info
      queue := Function.update s.queue ring ((s.queue ring).drop nbPkts) }

/-- One call. -/
def burst (call : BurstCall ρ) (s : RingState ρ) : Except Stop (RingState ρ) :=
  match call with
  | .txBurst ring txPkts nbTx room => sppEthTxBurst cfg ring txPkts nbTx room s
  | .rxBurst ring nbPkts now => sppEthRxBurst cfg ring nbPkts now s
  | .other timestamp => .ok { s with timestamp := timestamp }

end Source

section Statement

variable {ρ : Type} [DecidableEq ρ] (cfg : StatsConfig)

/-- The packets in the rings. -/
def RingState.InRing (s : RingState ρ) (pkt : ρ) : Prop := ∃ r, ∃ e ∈ s.queue r, e.1 = pkt

/-- The caller of a transmission owns its packets, and other code does not touch the packets in
the rings. -/
def BurstCall.Owned (call : BurstCall ρ) (s : RingState ρ) : Prop :=
  match call with
  | .txBurst _ txPkts nbTx _ =>
    nbTx ≤ txPkts.length ∧ (txPkts.map Prod.fst).Nodup ∧ ∀ e ∈ txPkts, ¬ s.InRing e.1
  | .rxBurst _ _ _ => True
  | .other timestamp => ∀ pkt, s.InRing pkt → timestamp pkt = s.timestamp pkt

/-- A call that goes well: the statistics of the ring exist; no packet that an ability has
dropped finds the sampling interval over, a packet that goes into the ring is stamped with a
time other than zero, and one that is not stamped carries no stamp from before; as many packets
are received as were asked for, and the latencies of the stamped ones fit `int64_t` as numbers
of 53 bits. -/
def BurstCall.Meets (call : BurstCall ρ) (s : RingState ρ) : Prop :=
  match call with
  | .txBurst ring txPkts nbTx room =>
    nbTx ≠ 0 → ring < cfg.statsCount ∧
      (∀ flag ∈ (stampFlags cfg (txPkts.map Prod.snd) (s.info ring)).drop nbTx, flag = false) ∧
      ∀ e ∈ ((txPkts.take nbTx).zip (stampFlags cfg (txPkts.map Prod.snd) (s.info ring))).take room,
        if e.2 then e.1.2 ≠ 0 else s.timestamp e.1.1 = 0
  | .rxBurst ring nbPkts now =>
    (s.queue ring).take nbPkts ≠ [] → ring < cfg.statsCount ∧
      nbPkts ≤ (s.queue ring).length ∧
      ∀ e ∈ (s.queue ring).take nbPkts, s.timestamp e.1 ≠ 0 →
        (latencyOf cfg now (s.timestamp e.1)).toNat < 2 ^ 63 - 512
  | .other _ => True

/-- The slot of a latency. -/
def slotOf (now timestamp : UInt64) : ℕ :=
  min (latencyOf cfg now timestamp).toNat (statsSlotCount - 1)

/-- What a call adds to the slots of a ring: one to the slot of each packet that is received
from it and was stamped when it was transmitted into it. -/
def BurstCall.added (call : BurstCall ρ) (s : RingState ρ) (r k : ℕ) : ℕ :=
  match call with
  | .rxBurst ring nbPkts now =>
    if r = ring then
      ((((s.queue ring).take nbPkts).filter fun e => e.2).map
        fun e => slotOf cfg now (s.timestamp e.1)).count k
    else 0
  | .txBurst _ _ _ _ | .other _ => 0

/-- A call only accesses packets that it owns and statistics that exist, and adds one for each
stamped packet that it receives. -/
def BurstCall.CountsOnce (call : BurstCall ρ) (s : RingState ρ) : Prop :=
  ∃ t, burst cfg call s = .ok t ∧
    ∀ r k, (t.info r).slot k = (s.info r).slot k + call.added cfg s r k

/-- Empty rings. -/
def RingState.start (info : ℕ → RingLatencyStatsInfo) (timestamp : ρ → UInt64) : RingState ρ :=
  ⟨info, timestamp, fun _ => []⟩

/-- A call as a step of a run, which ends where the behaviour is undefined. -/
def burstStep (call : BurstCall ρ) (s : RingState ρ) : Option (RingState ρ) :=
  (burst cfg call s).toOption

end Statement

section Transmit

variable {ρ : Type} [DecidableEq ρ] {cfg : StatsConfig} {info : RingLatencyStatsInfo}
  {timestamp : ρ → UInt64}

/-- Keeping the time does not touch the slots. -/
@[simp] theorem tick_slot (now : UInt64) : (info.tick cfg now).2.slot = info.slot := by
  unfold RingLatencyStatsInfo.tick
  dsimp only
  split <;> rfl

/-- Packets that have been freed are not written to if none of them finds the interval over. -/
theorem addTimeStamp_dropped (dropped : List (ρ × UInt64))
    (h : ∀ flag ∈ stampFlags cfg (dropped.map Prod.snd) info, flag = false) :
    ∃ info', addTimeStamp cfg (dropped.map fun e => (none, e.2)) info timestamp =
      .ok (info', timestamp) ∧ info'.slot = info.slot := by
  induction dropped generalizing info with
  | nil => exact ⟨info, rfl, rfl⟩
  | cons e dropped ih =>
    obtain ⟨hhead, htail⟩ := List.forall_mem_cons.mp h
    obtain ⟨info', hadd, hslot⟩ := ih htail
    refine ⟨info', ?_, hslot.trans (tick_slot e.2)⟩
    rw [List.map_cons, addTimeStamp, if_neg (by simp [hhead])]
    exact hadd

/-- The packets that are left over are stamped as the flags say, and no other packet is. -/
theorem addTimeStamp_spec (left dropped : List (ρ × UInt64)) (hnodup : (left.map Prod.fst).Nodup)
    (h : ∀ flag ∈ (stampFlags cfg ((left ++ dropped).map Prod.snd) info).drop left.length,
      flag = false) :
    ∃ info' timestamp', addTimeStamp cfg (left.map (fun e => (some e.1, e.2)) ++
        dropped.map fun e => (none, e.2)) info timestamp = .ok (info', timestamp') ∧
      info'.slot = info.slot ∧ (∀ pkt ∉ left.map Prod.fst, timestamp' pkt = timestamp pkt) ∧
      ∀ e ∈ left.zip (stampFlags cfg ((left ++ dropped).map Prod.snd) info),
        timestamp' e.1.1 = if e.2 then e.1.2 else timestamp e.1.1 := by
  induction left generalizing info timestamp with
  | nil =>
    obtain ⟨info', hadd, hslot⟩ := addTimeStamp_dropped dropped h
    exact ⟨info', timestamp, hadd, hslot, fun _ _ => rfl, by simp⟩
  | cons e left ih =>
    obtain ⟨pkt, now⟩ := e
    obtain ⟨hnotin, hnodup'⟩ := List.nodup_cons.mp hnodup
    -- the time stamps after the first packet
    obtain ⟨next, hnext⟩ : ∃ next : ρ → UInt64, next =
        if (info.tick cfg now).1 then Function.update timestamp pkt now else timestamp := ⟨_, rfl⟩
    have hself : next pkt = if (info.tick cfg now).1 then now else timestamp pkt := by
      rw [hnext]
      split <;> simp
    have hother : ∀ q ≠ pkt, next q = timestamp q := by
      intro q hq
      rw [hnext]
      split <;> simp [hq]
    obtain ⟨info', timestamp', hadd, hslot, hframe, hflags⟩ := @ih (info.tick cfg now).2 next
      hnodup' h
    refine ⟨info', timestamp', ?_, hslot.trans (tick_slot now), ?_, ?_⟩
    · rw [List.map_cons, List.cons_append, addTimeStamp]
      by_cases hstamp : (info.tick cfg now).1 = true
      · rw [if_pos hstamp]
        rwa [hnext, if_pos hstamp] at hadd
      · rw [if_neg hstamp]
        rwa [hnext, if_neg hstamp] at hadd
    · intro q hq
      obtain ⟨hne, hq⟩ := not_or.mp (fun h => hq (List.mem_cons.mpr h))
      exact (hframe q hq).trans (hother q hne)
    · intro e he
      rcases List.mem_cons.mp he with rfl | he
      · exact (hframe pkt hnotin).trans hself
      · have hne : e.1.1 ≠ pkt := fun heq =>
          hnotin (List.mem_map.mpr ⟨e.1, (List.of_mem_zip he).1, heq⟩)
        rw [hflags e he, hother _ hne]

end Transmit

section Receive

variable {ρ : Type} {cfg : StatsConfig} {timestamp : ρ → UInt64} {now : UInt64}

/-- The slot of a latency that stays below `2 ^ 63` as a `double`. -/
theorem slotIndex_eq {stamp : UInt64} (h : (latencyOf cfg now stamp).toNat < 2 ^ 63 - 512) :
    slotIndex cfg now stamp = .ok (slotOf cfg now stamp) := by
  unfold slotIndex slotOf statsSlotCount
  generalize (latencyOf cfg now stamp).toNat = n at h ⊢
  dsimp only
  by_cases hexact : n < 2 ^ 53
  · have hdouble : toDouble n = n := if_pos hexact
    have hint : toInt64 n = n := if_pos (by omega)
    rw [hdouble, hint, if_neg (by omega)]
    by_cases hsmall : n < 100
    · rw [if_pos (by omega), if_neg (by omega), Int.toNat_natCast, Nat.min_eq_left (by omega)]
    · rw [if_neg (by omega), Nat.min_eq_right (by omega)]
  · have hle := @le_toDouble n (by omega) (by omega)
    have hlt := @toDouble_lt n (by omega) h
    have hint : toInt64 (toDouble n) = toDouble n := if_pos hlt
    rw [hint, if_neg (by omega), if_neg (by omega), Nat.min_eq_right (by omega)]

/-- Each stamped packet adds one to its slot. -/
theorem calculateLatency_spec (pkts : List ρ) {info : RingLatencyStatsInfo}
    (h : ∀ pkt ∈ pkts, timestamp pkt ≠ 0 →
      (latencyOf cfg now (timestamp pkt)).toNat < 2 ^ 63 - 512) :
    ∃ info', calculateLatency cfg now timestamp (pkts.map some) info = .ok info' ∧
      ∀ k, info'.slot k = info.slot k + ((pkts.filter fun pkt => timestamp pkt ≠ 0).map
        fun pkt => slotOf cfg now (timestamp pkt)).count k := by
  induction pkts generalizing info with
  | nil => exact ⟨info, rfl, fun k => rfl⟩
  | cons pkt pkts ih =>
    obtain ⟨hhead, htail⟩ := List.forall_mem_cons.mp h
    by_cases hstamp : timestamp pkt = 0
    · obtain ⟨info', hcalc, hslot⟩ := @ih info htail
      refine ⟨info', ?_, fun k => ?_⟩
      · rw [List.map_cons, calculateLatency, if_pos hstamp]
        exact hcalc
      · rw [hslot k, List.filter_cons_of_neg (by simp [hstamp])]
    · obtain ⟨i, hi⟩ : ∃ i, i = slotOf cfg now (timestamp pkt) := ⟨_, rfl⟩
      obtain ⟨info', hcalc, hslot⟩ :=
        @ih { info with slot := Function.update info.slot i (info.slot i + 1) } htail
      refine ⟨info', ?_, fun k => ?_⟩
      · rw [List.map_cons, calculateLatency, if_neg hstamp]
        exact bind_eq_ok.mpr ⟨i, hi ▸ slotIndex_eq (hhead hstamp), hcalc⟩
      · rw [hslot k, List.filter_cons_of_pos (by simp [hstamp]), List.map_cons, ← hi,
          List.count_cons]
        by_cases hk : k = i
        · subst hk
          simp only [Function.update_self, beq_self_eq_true, if_true]
          omega
        · have hne : ¬ (i == k) = true := by simpa using fun heq => hk heq.symm
          simp only [Function.update_of_ne hk, if_neg hne, Nat.add_zero]

end Receive

section Runs

variable {ρ : Type} [DecidableEq ρ] {cfg : StatsConfig} {s : RingState ρ}

/-- The packets in the rings carry a stamp if they were stamped when they were transmitted, and
no other stamp. -/
def RingState.Stamped (s : RingState ρ) : Prop :=
  ∀ r, ∀ e ∈ s.queue r, e.2 = true ↔ s.timestamp e.1 ≠ 0

/-- What one call does that goes well. -/
def BurstCall.GoesWell (cfg : StatsConfig) (call : BurstCall ρ) (s : RingState ρ) : Prop :=
  ∃ t, burst cfg call s = .ok t ∧
    (∀ r k, (t.info r).slot k = (s.info r).slot k + call.added cfg s r k) ∧ t.Stamped

/-- A burst is transmitted. -/
theorem goesWell_txBurst {ring nbTx room : ℕ} {txPkts : List (ρ × UInt64)} (hs : s.Stamped)
    (howned : (BurstCall.txBurst ring txPkts nbTx room).Owned s)
    (hmeets : (BurstCall.txBurst ring txPkts nbTx room).Meets cfg s) :
    (BurstCall.txBurst ring txPkts nbTx room).GoesWell cfg s := by
  obtain ⟨hle, hnodup, hout⟩ := howned
  unfold BurstCall.GoesWell burst sppEthTxBurst
  dsimp only
  by_cases hzero : nbTx = 0
  · exact ⟨s, if_pos hzero, fun r k => rfl, hs⟩
  · obtain ⟨hring, hdropped, hstamps⟩ := hmeets hzero
    have hlength : (txPkts.take nbTx).length = nbTx := List.length_take_of_le hle
    have hleft : ((txPkts.take nbTx).map Prod.fst).Nodup :=
      hnodup.sublist ((List.take_sublist nbTx txPkts).map Prod.fst)
    obtain ⟨info', timestamp', hadd, hslot, hframe, hflags⟩ :=
      @addTimeStamp_spec ρ _ cfg (s.info ring) s.timestamp (txPkts.take nbTx) (txPkts.drop nbTx)
        hleft (by rwa [List.take_append_drop, hlength])
    rw [List.take_append_drop] at hflags
    have hkept : ∀ r, ∀ e ∈ s.queue r, timestamp' e.1 = s.timestamp e.1 := by
      intro r e he
      refine hframe e.1 fun hmem => ?_
      obtain ⟨q, hq, heq⟩ := List.mem_map.mp hmem
      exact hout q (List.mem_of_mem_take hq) ⟨r, e, he, heq.symm⟩
    rw [if_neg hzero, if_neg (by omega)]
    refine ⟨_, bind_eq_ok.mpr ⟨(info', timestamp'), hadd, rfl⟩, fun r k => ?_, fun r e he => ?_⟩
    · show (Function.update s.info ring info' r).slot k = (s.info r).slot k + 0
      by_cases hr : r = ring
      · rw [hr, Function.update_self, hslot, Nat.add_zero]
      · rw [Function.update_of_ne hr, Nat.add_zero]
    · show e.2 = true ↔ timestamp' e.1 ≠ 0
      by_cases hr : r = ring
      · subst hr
        dsimp only at he
        rw [Function.update_self, List.mem_append] at he
        rcases he with he | he
        · rw [hkept r e he]
          exact hs r e he
        · -- a packet of the burst
          rw [List.zip_map_left, ← List.map_take] at he
          obtain ⟨⟨⟨pkt, now⟩, flag⟩, hmem, rfl⟩ := List.mem_map.mp he
          have hstamp := hstamps _ hmem
          have hafter := hflags _ (List.mem_of_mem_take hmem)
          dsimp only [Prod.map] at hstamp hafter ⊢
          rw [hafter]
          cases flag with
          | true => exact iff_of_true rfl hstamp
          | false => exact iff_of_false Bool.false_ne_true (not_not.mpr hstamp)
      · dsimp only at he
        rw [Function.update_of_ne hr] at he
        rw [hkept r e he]
        exact hs r e he

/-- A burst is received. -/
theorem goesWell_rxBurst {ring nbPkts : ℕ} {now : UInt64} (hs : s.Stamped)
    (hmeets : (BurstCall.rxBurst ring nbPkts now).Meets cfg s) :
    (BurstCall.rxBurst ring nbPkts now).GoesWell cfg s := by
  unfold BurstCall.GoesWell burst sppEthRxBurst
  dsimp only
  by_cases hempty : (s.queue ring).take nbPkts = []
  · refine ⟨s, if_pos (by rw [hempty, List.length_nil]), fun r k => ?_, hs⟩
    simp only [BurstCall.added, hempty, List.filter_nil, List.map_nil, List.count_nil, ite_self,
      Nat.add_zero]
  · obtain ⟨hring, hfull, hlatency⟩ := hmeets hempty
    have hlength : ((s.queue ring).take nbPkts).length = nbPkts := List.length_take_of_le hfull
    have hentries : (((s.queue ring).take nbPkts).map fun e => some e.1) ++
        List.replicate (nbPkts - ((s.queue ring).take nbPkts).length) none =
          (((s.queue ring).take nbPkts).map Prod.fst).map some := by
      rw [hlength, Nat.sub_self, List.replicate_zero, List.append_nil, List.map_map]
      rfl
    obtain ⟨info', hcalc, hslot⟩ := @calculateLatency_spec ρ cfg s.timestamp now
      (((s.queue ring).take nbPkts).map Prod.fst) (s.info ring) (by
        intro pkt hpkt
        obtain ⟨e, he, rfl⟩ := List.mem_map.mp hpkt
        exact hlatency e he)
    -- the packets that carry a stamp are those that were stamped for this ring
    have hstamped : (((s.queue ring).take nbPkts).map Prod.fst).filter
        (fun pkt => s.timestamp pkt ≠ 0) =
          (((s.queue ring).take nbPkts).filter fun e => e.2).map Prod.fst := by
      rw [List.filter_map]
      refine congrArg (List.map Prod.fst) (List.filter_congr fun e he => ?_)
      have hiff := hs ring e (List.mem_of_mem_take he)
      rw [Bool.eq_iff_iff, hiff]
      exact decide_eq_true_iff
    rw [if_neg (fun h => hempty (List.length_eq_zero_iff.mp h)), if_neg (by omega), hentries]
    refine ⟨_, bind_eq_ok.mpr ⟨info', hcalc, rfl⟩, fun r k => ?_, fun r e he => ?_⟩
    · show (Function.update s.info ring info' r).slot k = _
      by_cases hr : r = ring
      · rw [hr, Function.update_self, hslot k, hstamped, List.map_map, BurstCall.added, if_pos rfl]
        rfl
      · rw [Function.update_of_ne hr, BurstCall.added, if_neg hr, Nat.add_zero]
    · refine hs r e ?_
      dsimp only at he
      by_cases hr : r = ring
      · subst hr
        rw [Function.update_self] at he
        exact List.mem_of_mem_drop he
      · rwa [Function.update_of_ne hr] at he

/-- A call that meets the conditions goes well. -/
theorem goesWell_of_meets (call : BurstCall ρ) (hs : s.Stamped) (howned : call.Owned s)
    (hmeets : call.Meets cfg s) : call.GoesWell cfg s := by
  cases call with
  | txBurst ring txPkts nbTx room => exact goesWell_txBurst hs howned hmeets
  | rxBurst ring nbPkts now => exact goesWell_rxBurst hs hmeets
  | other timestamp =>
    refine ⟨_, rfl, fun r k => rfl, fun r e he => ?_⟩
    have hsame : timestamp e.1 = s.timestamp e.1 := howned e.1 ⟨r, e, he, rfl⟩
    show e.2 = true ↔ timestamp e.1 ≠ 0
    rw [hsame]
    exact hs r e he

/-- In every run whose calls all meet the conditions, packets in the rings carry the stamps of
their transmissions. -/
theorem stamped_of_reaches {info : ℕ → RingLatencyStatsInfo} {timestamp : ρ → UInt64}
    (hrun : Reaches (burstStep cfg) (fun call s => call.Owned s ∧ call.Meets cfg s)
      (.start info timestamp) s) : s.Stamped := by
  refine hrun.invariant (fun r e he => absurd he List.not_mem_nil)
    fun call u v hu hguard hstep => ?_
  obtain ⟨t, hburst, -, ht⟩ := goesWell_of_meets call hu hguard.1 hguard.2
  rw [burstStep, hburst] at hstep
  exact Option.some.inj hstep ▸ ht

/-- In every run whose calls all meet the conditions, each call only accesses packets that it
owns and statistics that exist, and each received packet that was stamped on its transmission
into the ring adds one to one slot, and no other packet adds anything. -/
theorem countsOnce_of_reaches {info : ℕ → RingLatencyStatsInfo} {timestamp : ρ → UInt64}
    (hrun : Reaches (burstStep cfg) (fun call s => call.Owned s ∧ call.Meets cfg s)
      (.start info timestamp) s) (call : BurstCall ρ) (howned : call.Owned s)
    (hmeets : call.Meets cfg s) : call.CountsOnce cfg s := by
  obtain ⟨t, hburst, hslots, -⟩ := goesWell_of_meets call (stamped_of_reaches hrun) howned hmeets
  exact ⟨t, hburst, hslots⟩

/-- Statistics of one ring, for a clock of 2 GHz and a sampling interval of 10 ticks. -/
def oneRing : StatsConfig := ⟨10, 1, 2, by decide⟩

/-- The statistics and the rings before the first burst. -/
def fresh : RingState ℕ := .start (fun _ => ⟨0, 0, fun _ => 0⟩) fun _ => 0

/-- A packet goes into the ring at time 20, and carries that stamp. -/
def transmitOne : BurstCall ℕ := .txBurst 0 [(7, 20)] 1 1

/-- The ring after it. -/
def oneInRing : RingState ℕ where
  info := Function.update fresh.info 0 (fresh.info 0 |>.tick oneRing 20).2
  timestamp := Function.update fresh.timestamp 7 20
  queue := Function.update fresh.queue 0 [(7, true)]

/-- The packet goes into an empty ring. -/
theorem reaches_oneInRing : Reaches (burstStep oneRing)
    (fun call s => call.Owned s ∧ call.Meets oneRing s) fresh oneInRing := by
  refine .single ⟨transmitOne, ⟨⟨by decide, by decide, ?_⟩, fun _ => ?_⟩, rfl⟩
  · rintro e - ⟨r, e', he', -⟩
    exact absurd he' List.not_mem_nil
  · exact ⟨by decide, by decide, by decide⟩

/-- The packet is received alone, as one was asked for, and counts 50 nanoseconds. -/
theorem countsOnce_oneInRing : (BurstCall.rxBurst 0 1 120).CountsOnce oneRing oneInRing :=
  countsOnce_of_reaches reaches_oneInRing _ trivial
    fun _ => ⟨by decide, by decide, by decide⟩

/-- If 32 packets are asked for, then the entry behind the packet is taken for another one. -/
theorem not_countsOnce_partialBurst :
    Reaches (burstStep oneRing) (fun call s => call.Owned s) fresh oneInRing ∧
      (BurstCall.rxBurst 0 32 120).Owned oneInRing ∧
      ¬ (BurstCall.rxBurst 0 32 120).CountsOnce oneRing oneInRing := by
  refine ⟨?_, trivial, ?_⟩
  · refine Relation.ReflTransGen.mono (fun u v h => ?_) _ _ reaches_oneInRing
    obtain ⟨call, hguard, hstep⟩ := h
    exact ⟨call, hguard.1, hstep⟩
  · rintro ⟨t, hburst, -⟩
    have hstop : (burst oneRing (.rxBurst 0 32 120) oneInRing).toOption = none := rfl
    rw [hburst] at hstop
    cases hstop

end Runs

end Spp.Vf.RingLatency
