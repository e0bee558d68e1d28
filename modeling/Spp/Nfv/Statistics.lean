import Spp.Nfv.Forward

/-!
# The statistics that spp_primary reports

`forward` of spp_nfv counts packets through the pointer that `main` or `do_add`
has put in `port_map`. spp_primary reads the same memory, by list position for
physical ports and by index for rings. The packets of each resource are counted
beside the memory, and each counter turns out to hold those of all resources
that share it.
-/

namespace Spp.Nfv

open CLib GuardedRun
open Spp.Vf (PortType)

/-- `struct stats`. -/
structure Stats where
  rx : ℕ := 0
  rxDrop : ℕ := 0
  tx : ℕ := 0
  txDrop : ℕ := 0
  deriving DecidableEq, Repr

/-- What has become of the packets of a port: received from it, sent to it,
dropped towards it. -/
@[ext]
structure Packets where
  received : ℕ
  sent : ℕ
  dropped : ℕ
  deriving DecidableEq, Repr

/-- No packets. -/
def Packets.none : Packets := ⟨0, 0, 0⟩

/-- The packets of two ports taken together. -/
instance : Add Packets :=
  ⟨fun p q => ⟨p.received + q.received, p.sent + q.sent, p.dropped + q.dropped⟩⟩

@[simp] theorem Packets.received_add (p q : Packets) :
    (p + q).received = p.received + q.received := rfl

@[simp] theorem Packets.sent_add (p q : Packets) : (p + q).sent = p.sent + q.sent := rfl

@[simp] theorem Packets.dropped_add (p q : Packets) :
    (p + q).dropped = p.dropped + q.dropped := rfl

/-- The three counters of `struct stats` that the statistics are about. -/
def Stats.packets (s : Stats) : Packets := ⟨s.rx, s.tx, s.txDrop⟩

/-! ## The passes of `forward` -/

/-- The tables, the memory behind the statistics pointers, and the packets of
each resource since the statistics were last cleared. -/
structure Counting where
  tables : State
  counters : StatsPtr → Stats
  packets : PortType × ℤ → Packets

/-- The resource that a port is known by. -/
def State.resource (s : State) (k : ℕ) : PortType × ℤ := ((s.portMap k).portType, (s.portMap k).id)

/-- Packets of port `k` are counted, by `f` in the memory behind its pointer. -/
def Counting.count (c : Counting) (k : ℕ) (f : Stats → Stats) (packets : Packets) : Counting :=
  { c with
    counters := Function.update c.counters (c.tables.portMap k).stats
      (f (c.counters (c.tables.portMap k).stats))
    packets := Function.update c.packets (c.tables.resource k)
      (c.packets (c.tables.resource k) + packets) }

/-- One round of the loop of `forward`, in which the receive call returns `nbRx`
packets and the send call takes `nbTx`. -/
def forwardEntry (c : Counting) (i nbRx nbTx : ℕ) : Counting :=
  if (c.tables.portsFwdArray i).inPortId = portReset then c
  else if (c.tables.portsFwdArray i).outPortId = portReset then c
  else if nbRx = 0 then c
  else
    let outPort := (c.tables.portsFwdArray i).outPortId
    let received := c.count i (fun s => { s with rx := s.rx + nbRx }) ⟨nbRx, 0, 0⟩
    let sent := received.count outPort (fun s => { s with tx := s.tx + nbTx }) ⟨0, nbTx, 0⟩
    if nbTx < nbRx then
      sent.count outPort (fun s => { s with txDrop := s.txDrop + (nbRx - nbTx) })
        ⟨0, 0, nbRx - nbTx⟩
    else sent

/-- One pass of `forward`; `bursts i` is what the two burst functions return for entry `i`. -/
def forward (b : Build) (bursts : ℕ → ℕ × ℕ) (c : Counting) : Counting :=
  (List.range b.maxEthports).foldl (fun c i => forwardEntry c i (bursts i).1 (bursts i).2) c

/-- `clear_stats` of spp_primary. The default statistics are outside its memory. -/
def clearStats (c : Counting) : Counting :=
  { c with
    counters := fun p =>
      match p with
      | .portStats _ | .clientStats _ => {}
      | .null | .defaultStats _ => c.counters p
    packets := fun _ => .none }

/-- What happens to spp_nfv and the statistics: a command, a pass, a clear. -/
inductive Op
  | command (i : Input)
  | pass (bursts : ℕ → ℕ × ℕ)
  | clear

/-- One step. -/
def countingStep (b : Build) : Op → Counting → Option Counting
  | .command i, c => (step b i c.tables).map fun s => { c with tables := s }
  | .pass bursts, c => some (forward b bursts c)
  | .clear, c => some (clearStats c)

/-- The start: the primary has cleared the statistics and no packet has moved. -/
def Counting.start {b : Build} (phys : PhysicalPorts b) : Counting :=
  ⟨started phys, fun _ => {}, fun _ => .none⟩

/-- Commands meet the condition of the tables, and ports are added under an id
that `client_stats` has. -/
def Op.Meets (b : Build) (c : Counting) : Op → Prop
  | .command i => i.Allowed b c.tables ∧ i.meets b c.tables = true ∧
      ∀ type id, requested i.command = some (type, id) → 0 ≤ id ∧ id < maxClient
  | _ => True

/-! ## The reply of spp_primary -/

/-- `PRI_BUF_SIZE_PHY`. -/
def priBufSizePhy : ℕ := 512

/-- `PRI_BUF_SIZE_RING`. -/
def priBufSizeRing : ℕ := 2048 - 128 - 512

/-- A physical port in the reply. -/
structure PhyStat where
  id : ℕ
  rx : ℕ
  tx : ℕ
  txDrop : ℕ
  deriving DecidableEq, Repr

/-- A ring in the reply. -/
structure RingStat where
  id : ℕ
  rx : ℕ
  rxDrop : ℕ
  tx : ℕ
  txDrop : ℕ
  deriving DecidableEq, Repr

/-- `%lu` and `%u` of a number that fits. -/
def formatNat (n : ℕ) : CStr := Nat.toDigits 10 n

/-- The text of a physical port, with its MAC address. -/
def PhyStat.text (eth : ℕ → CStr) (p : PhyStat) : CStr :=
  "\x7b\"id\": ".toList ++ formatNat p.id ++ ", \"eth\": \"".toList ++ eth p.id ++
    "\", \"rx\": ".toList ++ formatNat p.rx ++ ", \"tx\": ".toList ++ formatNat p.tx ++
    ", \"tx_drop\": ".toList ++ formatNat p.txDrop ++ ['\x7d']

/-- The text of a ring. -/
def RingStat.text (r : RingStat) : CStr :=
  "\x7b\"id\": ".toList ++ formatNat r.id ++ ", \"rx\": ".toList ++ formatNat r.rx ++
    ", \"rx_drop\": ".toList ++ formatNat r.rxDrop ++ ", \"tx\": ".toList ++ formatNat r.tx ++
    ", \"tx_drop\": ".toList ++ formatNat r.txDrop ++ ['\x7d']

/-- The loop that fills a buffer of `size` bytes with texts and commas: it stops
at the first text that does not fit and takes the last comma back. The result is
the buffer and the number of texts in it. The comma itself is not tested. -/
def fillBuffer (size : ℕ) : CStr → List CStr → Except Fault (CStr × ℕ)
  | buf, [] => .ok (buf, 0)
  | buf, text :: texts =>
    if size - 1 < buf.length + text.length then .ok (buf.dropLast, 0)
    else
      match texts with
      | [] => .ok (buf ++ text, 1)
      | _ :: _ =>
        if size ≤ (buf ++ text ++ [',']).length then .error .outOfBounds
        else (fillBuffer size (buf ++ text ++ [',']) texts).map fun r => (r.1, r.2 + 1)

/-- What `get_status_json` reads: `ports->id`, of length `ports->num_ports`, the
number of rings, the printable MAC addresses and the text of the lcores. -/
structure PrimaryInfo where
  ids : List ℕ
  numRings : ℕ
  eth : ℕ → CStr
  lcores : CStr

/-- The reply: the ports and rings in it, and its text. -/
structure StatusReply where
  phyPorts : List PhyStat
  ringPorts : List RingStat
  text : CStr

/-- Physical port number `i` of the list, as the loop reads it. -/
def phyStat (counters : StatsPtr → Stats) (i id : ℕ) : PhyStat :=
  ⟨id, (counters (.portStats i)).rx, (counters (.portStats i)).tx,
    (counters (.clientStats i)).txDrop⟩

/-- Ring `i`, as the loop reads it. -/
def ringStat (counters : StatsPtr → Stats) (i : ℕ) : RingStat :=
  ⟨i, (counters (.clientStats i)).rx, (counters (.clientStats i)).rxDrop,
    (counters (.clientStats i)).tx, (counters (.clientStats i)).txDrop⟩

/-- `get_status_json`. The reply goes to a buffer of `MSG_SIZE` bytes. -/
def getStatusJson (info : PrimaryInfo) (counters : StatsPtr → Stats) :
    Except Fault StatusReply := do
  let phys := info.ids.mapIdx (phyStat counters)
  let rings := (List.range info.numRings).map (ringStat counters)
  let (phyPorts, numPhys) ← fillBuffer priBufSizePhy [] (phys.map (PhyStat.text info.eth))
  let (ringPorts, numRings) ← fillBuffer priBufSizeRing [] (rings.map RingStat.text)
  let text := '\x7b' :: info.lcores ++ ", \"phy_ports\": [".toList ++ phyPorts ++
    "], \"ring_ports\": [".toList ++ ringPorts ++ "]".toList ++ ['\x7d']
  if 2048 ≤ text.length then
    .error .outOfBounds
  else
    return ⟨phys.take numPhys, rings.take numRings, text⟩

/-! ## Counters and packets -/

section Counters

variable {b : Build} {c : Counting}

/-- The packets of the four resources that share `client_stats[n]`. -/
def clientPackets (packets : PortType × ℤ → Packets) (n : ℤ) : Packets :=
  packets (.ring, n) + packets (.vhost, n) + packets (.pcap, n) + packets (.nullpmd, n)

/-- Each counter holds the packets of the resources it is the statistics of. -/
structure Counting.Counted (c : Counting) : Prop where
  phy : ∀ i : ℕ, (c.counters (.portStats i)).packets = c.packets (.phy, i)
  client : ∀ n : ℤ, (c.counters (.clientStats n)).packets = clientPackets c.packets n

/-- The pointer of port `k` is to the statistics of its resource. -/
def State.PointerOk (s : State) (k : ℕ) : Prop :=
  (s.portMap k).stats = statsOf (s.resource k) ∧ (s.portMap k).portType ≠ .undef ∧
    ((s.portMap k).portType = .phy → (s.portMap k).id = k)

/-- Packets added to a resource other than a physical port. -/
theorem clientPackets_update {packets : PortType × ℤ → Packets} {type : PortType} {id : ℤ}
    (htype : type ≠ .phy ∧ type ≠ .undef) (p : Packets) (n : ℤ) :
    clientPackets (Function.update packets (type, id) (packets (type, id) + p)) n =
      if n = id then clientPackets packets n + p else clientPackets packets n := by
  by_cases hn : n = id
  · subst hn
    rw [if_pos rfl]
    cases type with
    | phy => exact absurd rfl htype.1
    | undef => exact absurd rfl htype.2
    | ring | vhost | pcap | nullpmd =>
      simp only [clientPackets, Function.update_apply, Prod.mk.injEq, reduceCtorEq, false_and,
        if_true, if_false]
      ext <;> simp <;> omega
  · simp [clientPackets, hn]

/-- Counting packets of a port keeps counters and packets together. -/
theorem Counting.Counted.count {k : ℕ} {f : Stats → Stats} {p : Packets} (h : c.Counted)
    (hk : c.tables.PointerOk k) (hf : ∀ s, (f s).packets = s.packets + p) :
    (c.count k f p).Counted := by
  obtain ⟨hstats, hundef, hphy⟩ := hk
  unfold State.resource at hstats
  unfold Counting.count State.resource
  generalize (c.tables.portMap k).portType = type at hstats hundef hphy ⊢
  generalize hid : (c.tables.portMap k).id = id at hstats hphy ⊢
  by_cases ht : type = .phy
  · subst ht
    have hk' := hphy rfl
    subst hk'
    have hptr : (c.tables.portMap k).stats = .portStats k := by rw [hstats]; simp [statsOf]
    rw [hptr]
    constructor
    · intro i
      by_cases hi : i = k
      · subst hi
        simp only [Function.update_self]
        rw [hf, h.phy]
      · have hne : (StatsPtr.portStats i) ≠ .portStats k := by simpa using hi
        have hne' : ((PortType.phy, (i : ℤ)) : PortType × ℤ) ≠ (.phy, (k : ℤ)) := by simpa using hi
        simp only [Function.update_of_ne hne, Function.update_of_ne hne']
        exact h.phy i
    · intro n
      simpa [clientPackets, Function.update_apply] using h.client n
  · rw [statsOf_eq ht] at hstats
    rw [hstats]
    constructor
    · intro i
      simpa [Function.update_apply, ht, Ne.symm ht] using h.phy i
    · intro n
      dsimp only
      rw [clientPackets_update ⟨ht, hundef⟩]
      by_cases hn : n = id
      · subst hn
        rw [if_pos rfl, Function.update_self, hf, h.client]
      · have hne : StatsPtr.clientStats n ≠ .clientStats id := by simpa using hn
        rw [if_neg hn, Function.update_of_ne hne]
        exact h.client n

/-- A pass does not touch the tables. -/
theorem forwardEntry_tables (i nbRx nbTx : ℕ) :
    (forwardEntry c i nbRx nbTx).tables = c.tables := by
  unfold forwardEntry
  repeat' split
  all_goals rfl

/-- One round of the loop keeps counters and packets together. -/
theorem Counting.Counted.forwardEntry {i : ℕ} (nbRx nbTx : ℕ) (h : c.Counted)
    (hports : c.tables.Active b i → c.tables.PointerOk i ∧
      c.tables.PointerOk (c.tables.portsFwdArray i).outPortId) (hi : i < b.maxEthports) :
    (forwardEntry c i nbRx nbTx).Counted := by
  unfold Nfv.forwardEntry
  split
  · exact h
  · rename_i hin
    split
    · exact h
    · rename_i hout
      split
      · exact h
      · obtain ⟨hpi, hpo⟩ := hports ⟨hi, hin, hout⟩
        have hrx := h.count (f := fun s => { s with rx := s.rx + nbRx }) (p := ⟨nbRx, 0, 0⟩) hpi
          fun s => rfl
        have htx := hrx.count (f := fun s => { s with tx := s.tx + nbTx }) (p := ⟨0, nbTx, 0⟩) hpo
          fun s => rfl
        dsimp only
        split
        · exact htx.count hpo fun s => rfl
        · exact htx

/-- A pass keeps counters and packets together, and leaves the tables alone. -/
theorem Counting.Counted.forward (bursts : ℕ → ℕ × ℕ) (h : c.Counted)
    (hports : ∀ i, c.tables.Active b i → c.tables.PointerOk i ∧
      c.tables.PointerOk (c.tables.portsFwdArray i).outPortId) :
    (Nfv.forward b bursts c).Counted ∧ (Nfv.forward b bursts c).tables = c.tables := by
  unfold Nfv.forward
  have hall : ∀ i ∈ List.range b.maxEthports, i < b.maxEthports := fun i => List.mem_range.mp
  generalize List.range b.maxEthports = l at hall
  induction l generalizing c with
  | nil => exact ⟨h, rfl⟩
  | cons i l ih =>
    have hentry := h.forwardEntry (bursts i).1 (bursts i).2 (hports i)
      (hall i List.mem_cons_self)
    have htables := forwardEntry_tables (c := c) i (bursts i).1 (bursts i).2
    have hrest := ih hentry (by rwa [htables]) fun j hj => hall j (List.mem_cons_of_mem i hj)
    rw [htables] at hrest
    exact hrest

/-- Clearing the statistics forgets the packets with them. -/
theorem Counting.Counted.clearStats : (Nfv.clearStats c).Counted :=
  ⟨fun _ => rfl, fun _ => rfl⟩

end Counters

/-! ## Every run -/

section Runs

variable {b : Build}

/-- The pointer of every added port is to the statistics of its resource. -/
def StatsInv (b : Build) (s : State) : Prop :=
  ∀ k < b.maxEthports, s.Added k → (s.portMap k).stats = statsOf (s.resource k)

/-- The pointers left by `main`. -/
theorem statsInv_started (phys : PhysicalPorts b) : StatsInv b (started phys) := by
  intro k hk hadded
  unfold State.resource
  rw [(started_eq phys k hk).2, if_pos ((started_added phys hk).mp hadded)]
  simp [statsOf]

/-- A command that meets its condition keeps the pointers right. -/
theorem StatsInv.step {s t : State} {i : Input} (hs : StatsInv b s) (hmeets : i.meets b s = true)
    (hallowed : i.Allowed b s) (hd : DeviceInv b s) (h : Nfv.step b i s = some t) :
    StatsInv b t := by
  have hkeep : ∀ u : State, u.portMap = s.portMap → StatsInv b u := by
    intro u hu k hk hadded
    unfold State.Added at hadded
    unfold State.resource
    rw [hu] at hadded ⊢
    exact hs k hk hadded
  unfold Nfv.step parseCommand at h
  cases hcmd : commandOf i.command with
  | error _ =>
    simp only [hcmd, bind, Except.bind] at h
    cases h
  | ok command =>
    simp only [hcmd, bind, Except.bind] at h
    simp only [Input.meets, hcmd] at hmeets
    cases command with
    | other | stop | forward =>
      cases h
      exact hkeep _ rfl
    | reset =>
      cases h
      rw [forwardArrayReset_state]
      exact hkeep _ rfl
    | patch src dst =>
      cases hp : patchPorts b s src dst with
      | error _ =>
        simp only [runCommand, hp] at h
        cases h
      | ok stores =>
        simp only [runCommand, hp] at h
        cases h
        rcases patchPorts_cases hp with rfl | ⟨p, q, -, -, rfl⟩
        · exact hs
        · rw [addPatch_state]
          exact hkeep _ rfl
    | add resUid =>
      cases ha : doAdd i.pmd resUid with
      | error _ =>
        simp only [runCommand, ha] at h
        cases h
      | ok stores =>
        simp only [runCommand, ha] at h
        cases h
        rcases doAdd_cases ha hmeets with rfl | ⟨uid, type, k, hparse, hvalid, htype, hk, rfl⟩
        · exact hs
        · have hreq : requested i.command = some (type, uid.portId) := by
            simp [requested, hcmd, hparse, hvalid, htype]
          obtain ⟨-, -, hmap, -, -, -⟩ := pmd_stores hk (hallowed _ _ hreq) hd
          rw [applyAll_append, registerPort_state]
          intro j hj hadded
          unfold State.Added at hadded
          unfold State.resource State.registered at *
          dsimp only at hadded ⊢
          by_cases hjk : j = k
          · subst hjk
            rw [Function.update_self]
            exact (statsOf_eq (resourceType_known htype).2).symm
          · rw [Function.update_of_ne hjk, hmap] at hadded ⊢
            exact hs j hj hadded
    | del resUid =>
      cases hdel : doDel b { s with cmd := .stop } i.detached resUid with
      | error _ =>
        simp only [runCommand, hdel, bind, Except.bind] at h
        cases h
      | ok stores =>
        simp only [runCommand, hdel, bind, Except.bind, pure, Except.pure] at h
        cases h
        rcases doDel_cases hdel hmeets with rfl | ⟨type, k, rest, -, hrem, rfl⟩
        · exact hkeep _ rfl
        · obtain ⟨-, hstate⟩ := removePort_state hrem
          obtain ⟨-, hmap⟩ := releaseDevice_tables (s := { s with cmd := .stop }) type k i.detached
          rw [applyAll_cons, applyAll_append]
          change StatsInv b (applyAll (applyAll { s with cmd := .stop }
            (releaseDevice type k i.detached)) rest)
          rw [hstate]
          intro j hj hadded
          have hjk : j ≠ k := by
            rintro rfl
            simp [State.removed, State.Added] at hadded
          unfold State.Added at hadded
          unfold State.resource
          simp only [State.removed, Function.update_of_ne hjk, hmap] at hadded ⊢
          exact hs j hj hadded

/-- The invariant of the counting. -/
structure Counting.Inv (b : Build) (c : Counting) : Prop where
  table : TableInv b c.tables
  device : DeviceInv b c.tables
  stats : StatsInv b c.tables
  counted : c.Counted

/-- Both ends of a patch have the right pointers. -/
theorem Counting.Inv.pointers {c : Counting} (h : c.Inv b) {i : ℕ} (hi : c.tables.Active b i) :
    c.tables.PointerOk i ∧ c.tables.PointerOk (c.tables.portsFwdArray i).outPortId := by
  have hptr : ∀ k < b.maxEthports, c.tables.Added k → c.tables.PointerOk k :=
    fun k hk hadded => ⟨h.stats k hk hadded, hadded.2, h.device.phy k hk hadded⟩
  obtain ⟨⟨haj, -⟩, hlt, hat, -⟩ := h.table.patched i hi.1 hi.2.2
  exact ⟨hptr i hi.1 haj, hptr _ hlt hat⟩

/-- A step keeps the invariant. -/
theorem Counting.Inv.step {c d : Counting} {op : Op} (h : c.Inv b) (hmeets : op.Meets b c)
    (hstep : countingStep b op c = some d) : d.Inv b := by
  cases op with
  | command i =>
    obtain ⟨hallowed, hm, -⟩ := hmeets
    obtain ⟨t, ht, rfl⟩ := Option.map_eq_some_iff.mp hstep
    have hsettles := settles_input h.table h.device hallowed
    have hstats := h.stats.step hm hallowed h.device ht
    unfold Nfv.step at ht
    cases hp : parseCommand b c.tables i.pmd i.detached i.command with
    | error _ =>
      rw [hp] at ht
      cases ht
    | ok stores =>
      rw [hp] at ht hsettles
      cases ht
      exact ⟨hsettles.2.mpr hm, hsettles.1, hstats, h.counted.phy, h.counted.client⟩
  | pass bursts =>
    cases hstep
    obtain ⟨hcounted, htables⟩ := h.counted.forward bursts fun i hi => h.pointers hi
    constructor
    · rw [htables]
      exact h.table
    · rw [htables]
      exact h.device
    · rw [htables]
      exact h.stats
    · exact hcounted
  | clear =>
    cases hstep
    exact ⟨h.table, h.device, h.stats, .clearStats⟩

/-- The counters of every run hold the packets of the resources they are the
statistics of. -/
theorem counted_of_run {phys : PhysicalPorts b} {c : Counting}
    (h : Reaches (countingStep b) (fun op c => op.Meets b c) (.start phys) c) : c.Counted := by
  have hstart : (Counting.start phys).Inv b :=
    ⟨tableInv_started phys, deviceInv_started phys, statsInv_started phys,
      ⟨fun _ => rfl, fun _ => rfl⟩⟩
  have hinv : c.Inv b := by
    apply Reaches.invariant h hstart
    intro op u v hu hmeets hstep
    exact hu.step hmeets hstep
  exact hinv.counted

/-! ## The reply -/

/-- The ports and rings of a reply are those that were read, up to where the
buffers end. -/
theorem getStatusJson_shown {info : PrimaryInfo} {counters : StatsPtr → Stats} {r : StatusReply}
    (h : getStatusJson info counters = .ok r) :
    ∃ m n, r.phyPorts = (info.ids.mapIdx (phyStat counters)).take m ∧
      r.ringPorts = ((List.range info.numRings).map (ringStat counters)).take n := by
  unfold getStatusJson at h
  simp only [bind, Except.bind, pure, Except.pure] at h
  split at h
  · cases h
  · rename_i v _
    split at h
    · cases h
    · rename_i w _
      split at h
      · cases h
      · cases h
        exact ⟨v.2, w.2, rfl, rfl⟩

/-- Each physical port and each ring of the reply is reported with its own
packets. -/
def StatusReply.Correct (r : StatusReply) (packets : PortType × ℤ → Packets) : Prop :=
  (∀ p ∈ r.phyPorts, (⟨p.rx, p.tx, p.txDrop⟩ : Packets) = packets (.phy, p.id)) ∧
    ∀ q ∈ r.ringPorts, (⟨q.rx, q.tx, q.txDrop⟩ : Packets) = packets (.ring, q.id)

/-- The traffic for which the counters read by the primary are those of the port.
For a physical port in place `i` of the list, port `i` has received and sent as
many packets as the port listed there, and as many were dropped towards the
resources that share `client_stats[i]` as towards that port. For ring `n`, no
packet has been moved from or to the other resources of that id. -/
def StatusReply.Undisturbed (r : StatusReply) (ids : List ℕ)
    (packets : PortType × ℤ → Packets) : Prop :=
  (∀ i id, i < r.phyPorts.length → ids[i]? = some id →
      (packets (.phy, (i : ℤ))).received = (packets (.phy, (id : ℤ))).received ∧
      (packets (.phy, (i : ℤ))).sent = (packets (.phy, (id : ℤ))).sent ∧
      (clientPackets packets i).dropped = (packets (.phy, (id : ℤ))).dropped) ∧
    ∀ n : ℕ, n < r.ringPorts.length →
      packets (.vhost, n) + packets (.pcap, n) + packets (.nullpmd, n) = .none

/-- The packets that share a counter with a ring. -/
theorem clientPackets_eq_ring (packets : PortType × ℤ → Packets) (n : ℤ) :
    clientPackets packets n = packets (.ring, n) ↔
      packets (.vhost, n) + packets (.pcap, n) + packets (.nullpmd, n) = .none := by
  simp only [clientPackets, Packets.none, Packets.ext_iff, Packets.received_add,
    Packets.sent_add, Packets.dropped_add]
  omega

instance (r : StatusReply) (packets : PortType × ℤ → Packets) : Decidable (r.Correct packets) :=
  inferInstanceAs (Decidable (_ ∧ _))

/-- A test for `Op.Meets`. -/
def Op.meets (b : Build) (op : Op) (c : Counting) : Bool :=
  match op with
  | .command i => i.allowed b c.tables && i.meets b c.tables &&
      (requested i.command).all fun r => decide (0 ≤ r.2 ∧ r.2 < maxClient)
  | _ => true

/-- The test is sound. -/
theorem Op.meets_sound {op : Op} {c : Counting} (h : op.meets b c = true) : op.Meets b c := by
  cases op with
  | command i =>
    simp only [Op.meets, Bool.and_eq_true] at h
    refine ⟨Input.allowed_sound h.1.1, h.1.2, ?_⟩
    intro type id hreq
    have hrange := h.2
    simpa [hreq] using hrange
  | pass bursts => trivial
  | clear => trivial

/-- A primary with the two physical ports and one ring. -/
def twoPhysInfo : PrimaryInfo :=
  ⟨[0, 1], 1, fun _ => "56:48:4f:53:54:00".toList, "\"lcores\":[0]".toList⟩

/-- The reply of the primary, if it is defined, passes a test. -/
def replies (info : PrimaryInfo) (test : StatusReply → Counting → Bool) (c : Counting) : Prop :=
  (getStatusJson info c.counters).toOption.any (fun r => test r c) = true

instance (info : PrimaryInfo) (test : StatusReply → Counting → Bool) :
    DecidablePred (replies info test) :=
  fun _ => inferInstanceAs (Decidable (_ = true))

/-- Packets go from physical port 0 to ring 0, before and after a clear. -/
def ringOps : List Op :=
  [.command (attach "add ring:0" 2), .command (line "patch phy:0 ring:0"), .pass fun _ => (3, 3),
    .clear, .pass fun _ => (7, 7)]

/-- Of five packets from physical port 0, two are dropped towards physical port 1. -/
def dropOps : List Op := [.command (line "patch phy:0 phy:1"), .pass fun _ => (5, 3)]

end Runs

end Spp.Nfv
