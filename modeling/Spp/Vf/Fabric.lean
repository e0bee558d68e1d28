import Spp.Lib.FifoNet
import Spp.Lib.GuardedRun
import Spp.Lib.Parties
import Spp.Vf.ClassifierRun
import Spp.Vf.TxBurst

/-!
# The fabric of forwarders and mergers

The workers run `spp_forward` for their components, and ring ports hand the
packets of one component to the next. Here the passes of all workers mix step by
step: a pass receives a burst from one port, transmits it to another, and frees
what the device has not accepted. Paths may change from one pass to the next.
The result is that nothing is lost or doubled in between, and that packets
which go through the same chain of ports do not overtake each other.
-/

namespace Spp.Vf

open GuardedRun FifoNet Parties

/-- Where a worker is in `spp_forward`: the entry of its path, its variable `nb_tx`, the
burst it has received, and the rest of it that the receive port has freed. -/
inductive PassPc (ρ : Type)
  | idle
  | receive (path : DataPath) (cnt nbTx : ℕ)
  | transmit (path : DataPath) (cnt nbTx : ℕ) (bufs rest : List ρ)
  | discard (path : DataPath) (cnt nbTx : ℕ) (bufs rest : List ρ)

/-- What a worker holds, and of which port. -/
def PassPc.hand {ρ : Type} : PassPc ρ → ℤ × List ρ
  | .idle => (0, [])
  | .receive path cnt _ => ((path.ports cnt).rx.dpdkPort, [])
  | .transmit path cnt _ bufs rest => ((path.ports cnt).rx.dpdkPort, bufs ++ rest)
  | .discard path cnt nbTx bufs rest => ((path.ports cnt).rx.dpdkPort, bufs.drop nbTx ++ rest)

/-- The packets in memory, the workers, and what waits at the receive side of each port.
The other fields are history: what has come to a port, what became of it, in that order,
with the port it was transmitted to or `none` if it was freed, and what the device of a
port has accepted, with the port it was received from. -/
structure Fabric (κ ρ : Type) where
  mem : ρ → Mbuf
  worker : κ → PassPc ρ
  queue : ℤ → List ρ
  entered : ℤ → List ρ
  left : ℤ → List (ρ × Option ℤ)
  given : ℤ → List (ℤ × ρ)

/-- What happens next: packets come to a port from outside, a worker begins a pass, or it
makes a step, with the number of packets that the device has or takes and the abilities of
the port at that time. -/
inductive FabricEvent (κ ρ : Type)
  | arrive (port : ℤ) (pkts : List ρ) (mem : ρ → Mbuf)
  | begin (lcoreId : κ) (path : DataPath)
  | step (lcoreId : κ) (n : ℕ) (info : List PortAbility)

namespace Fabric

variable {κ ρ : Type} [DecidableEq κ] [DecidableEq ρ]

/-- No packets and no passes. -/
def start (mem : ρ → Mbuf) : Fabric κ ρ :=
  { mem := mem, worker := fun _ => .idle, queue := fun _ => [], entered := fun _ => []
    left := fun _ => [], given := fun _ => [] }

/-- Packets come to the receive side of a port. -/
def enter (port : ℤ) (pkts : List ρ) (s : Fabric κ ρ) : Fabric κ ρ :=
  { s with
    queue := Function.update s.queue port (s.queue port ++ pkts)
    entered := Function.update s.entered port (s.entered port ++ pkts) }

/-- What has become of packets of a port. -/
def leave (port : ℤ) (pkts : List ρ) (dest : Option ℤ) (s : Fabric κ ρ) : Fabric κ ρ :=
  { s with left := Function.update s.left port (s.left port ++ pkts.map (·, dest)) }

/-- A worker goes on. -/
def setWorker (l : κ) (pc : PassPc ρ) (s : Fabric κ ρ) : Fabric κ ρ :=
  { s with worker := Function.update s.worker l pc }

/-- The device of a port accepts packets. A ring hands them to its own receive side. -/
def accept (ring : ℤ → Bool) (source port : ℤ) (pkts : List ρ) (s : Fabric κ ρ) : Fabric κ ρ :=
  let s' := { s.leave source pkts (some port) with
    given := Function.update s.given port (s.given port ++ pkts.map (source, ·)) }
  if ring port then s'.enter port pkts else s'

variable (crc : List UInt8 → ℕ) (ring : ℤ → Bool)

/-- `spp_eth_rx_burst` in `spp_forward`, whose device has `n` packets ready, at most. -/
def receiveStep (l : κ) (n : ℕ) (info : List PortAbility) (path : DataPath) (cnt nbTx : ℕ) (s : Fabric κ ρ) :
    Fabric κ ρ :=
  if cnt < path.numRx then
    let port := (path.ports cnt).rx.dpdkPort
    let pkts := (s.queue port).take (min n maxPktBurst)
    let each := portAbilityEachOperation crc info pkts s.mem
    let s' := { s with mem := each.2.2, queue := Function.update s.queue port ((s.queue port).drop pkts.length) }
    if pkts.take each.1 = [] then
      -- `nb_rx` is 0, and the next entry follows.
      (s'.leave port pkts none).setWorker l (.receive path (cnt + 1) nbTx)
    else s'.setWorker l (.transmit path cnt nbTx (pkts.take each.1) each.2.1)
  else s.setWorker l .idle

/-- `spp_eth_tx_burst` in `spp_forward`, whose device has room for `room` packets. -/
def transmitStep (l : κ) (room : ℕ) (info : List PortAbility) (path : DataPath) (cnt nbTx : ℕ)
    (bufs rest : List ρ) (s : Fabric κ ρ) : Fabric κ ρ :=
  let tx := (path.ports cnt).tx.dpdkPort
  if 0 ≤ tx then
    let out := sppEthTxBurst crc info room bufs s.mem
    (accept ring (path.ports cnt).rx.dpdkPort tx out.1.accepted { s with mem := out.2 }).setWorker l
      (.discard path cnt out.1.nTx bufs rest)
  else s.setWorker l (.discard path cnt nbTx bufs rest)

/-- The loop of `spp_forward` that frees what is behind `nb_tx`. -/
def discardStep (l : κ) (path : DataPath) (cnt nbTx : ℕ) (bufs rest : List ρ) (s : Fabric κ ρ) : Fabric κ ρ :=
  (s.leave (path.ports cnt).rx.dpdkPort (bufs.drop nbTx ++ rest) none).setWorker l
    (.receive path (cnt + 1) nbTx)

/-- One step of the fabric. -/
def step : FabricEvent κ ρ → Fabric κ ρ → Option (Fabric κ ρ)
  | .arrive port pkts mem, s =>
    some (enter port pkts { s with mem := fun pkt => if pkt ∈ pkts then mem pkt else s.mem pkt })
  | .begin l path, s =>
    match s.worker l with
    | .idle => some (if path.runnable then s.setWorker l (.receive path 0 0) else s)
    | _ => none
  | .step l n info, s =>
    match s.worker l with
    | .idle => none
    | .receive path cnt nbTx => some (s.receiveStep crc l n info path cnt nbTx)
    | .transmit path cnt nbTx bufs rest =>
      some (s.transmitStep crc ring l n info path cnt nbTx bufs rest)
    | .discard path cnt nbTx bufs rest => some (s.discardStep l path cnt nbTx bufs rest)

/-- The fabric as a network of queues, whose carriers are the workers. -/
def net (s : Fabric κ ρ) : Net ℤ ρ κ :=
  { queue := s.queue, hand := fun l => (s.worker l).hand, entered := s.entered, left := s.left
    given := s.given }

/-- A pass is along a path that `spp_forward_update` has built, no two workers hold packets
of one port at a time, and no ability of a transmit port fails. -/
def Orderly (e : FabricEvent κ ρ) (s : Fabric κ ρ) : Prop :=
  match e with
  | .arrive .. => True
  | .begin _ path => ∃ iface component, sppForwardUpdate iface component = some path
  | .step l _ info =>
    match s.worker l with
    | .receive path cnt _ => cnt < path.numRx → s.net.Untouched (path.ports cnt).rx.dpdkPort
    | .transmit path cnt _ bufs _ => 0 ≤ (path.ports cnt).tx.dpdkPort →
        (applyAbilities crc info bufs s.mem).isSome
    | _ => True

section Refinement

variable {crc ring} {s t : Fabric κ ρ}

/-- The entries of a path share their transmit port, and where it has no device, nothing
has been transmitted. -/
structure Sends (path : DataPath) (nbTx : ℕ) : Prop where
  same : ∀ cnt < path.numRx, ∀ cnt' < path.numRx, (path.ports cnt).tx = (path.ports cnt').tx
  none : ∀ cnt < path.numRx, (path.ports cnt).tx.dpdkPort < 0 → nbTx = 0

/-- What holds of a worker in its pass. -/
def Fine : PassPc ρ → Prop
  | .idle => True
  | .receive path _ nbTx => Sends path nbTx
  | .transmit path cnt nbTx _ _ | .discard path cnt nbTx _ _ => cnt < path.numRx ∧ Sends path nbTx

omit [DecidableEq ρ] in
/-- A worker that goes on has another hand. -/
theorem net_setWorker (s : Fabric κ ρ) (l : κ) (pc : PassPc ρ) :
    (s.setWorker l pc).net = { s.net with hand := Function.update s.net.hand l pc.hand } := by
  simp only [net, setWorker, Net.mk.injEq, true_and, and_true]
  funext l'
  by_cases heq : l' = l
  · subst heq
    simp
  · simp [Function.update_of_ne heq]

omit [DecidableEq ρ] in
/-- A worker without packets turns to another port. -/
theorem net_turn (s : Fabric κ ρ) (l : κ) {pc : PassPc ρ} {port : ℤ} (hpc : pc.hand = (port, [])) :
    (s.setWorker l pc).net = s.net.turn l port := by
  rw [net_setWorker, hpc]
  rfl

/-- What the abilities of a port leave of a burst, and what they free, is the burst. -/
theorem portAbilityEachOperation_split (crc : List UInt8 → ℕ) (info : List PortAbility)
    (pkts : List ρ) (mem : ρ → Mbuf) :
    pkts.take (portAbilityEachOperation crc info pkts mem).1 ++
      (portAbilityEachOperation crc info pkts mem).2.1 = pkts := by
  have hspec := @portAbilityEachOperation_spec _ _ crc info pkts mem
  split at hspec
  · rw [hspec, List.append_nil, List.take_length]
  · rw [hspec.2, List.take_append_drop]

/-- The reception of a burst takes it from its port, and drops it if nothing is left of it. -/
theorem receiveStep_net {l : κ} {n cnt nbTx : ℕ} {info : List PortAbility} {path : DataPath}
    (hpc : s.worker l = .receive path cnt nbTx)
    (hsole : cnt < path.numRx → s.net.Untouched (path.ports cnt).rx.dpdkPort) :
    Relation.ReflTransGen (Step ring) s.net (s.receiveStep crc l n info path cnt nbTx).net := by
  have hempty : (s.net.hand l).2 = [] := by simp [net, hpc, PassPc.hand]
  unfold receiveStep
  split
  · rename_i hcnt
    dsimp only
    have hsplit := portAbilityEachOperation_split crc info
      ((s.queue (path.ports cnt).rx.dpdkPort).take (min n maxPktBurst)) s.mem
    have htake : FifoNet.Step ring s.net
        (s.net.take l (path.ports cnt).rx.dpdkPort (min n maxPktBurst)) := .take l _ _ hempty (hsole hcnt)
    generalize hport : (path.ports cnt).rx.dpdkPort = port at *
    generalize hk : min n maxPktBurst = k at *
    have hdrop : (s.queue port).drop ((s.queue port).take k).length = (s.queue port).drop k := by
      rw [List.length_take]
      rcases Nat.le_total k (s.queue port).length with hle | hle
      · rw [Nat.min_eq_left hle]
      · rw [Nat.min_eq_right hle, List.drop_length, List.drop_eq_nil_of_le hle]
    rw [hdrop]
    have hhand : (s.net.take l port k).hand l = (port, (s.queue port).take k) := Function.update_self ..
    split
    · rename_i hnone
      have hturned : FifoNet.Step ring ((s.net.take l port k).drop l)
          (((s.net.take l port k).drop l).turn l (path.ports (cnt + 1)).rx.dpdkPort) :=
        .turn l _ (by simp [Net.drop_eq])
      refine ((Relation.ReflTransGen.single htake).tail (.drop l)).tail ?_
      convert hturned using 1
      rw [net_setWorker]
      simp [Net.turn, Net.drop_eq, leave, PassPc.hand, net, Net.take]
    · refine .single ?_
      convert htake using 1
      rw [net_setWorker]
      simp [Net.take, net, PassPc.hand, hsplit, hport]
  · refine .single ?_
    rw [net_turn s l (show PassPc.hand .idle = (0, []) from rfl)]
    exact .turn l 0 hempty

omit [DecidableEq κ] [DecidableEq ρ] in
/-- A device that accepts packets leaves the workers alone. -/
theorem accept_worker (source port : ℤ) (pkts : List ρ) (s : Fabric κ ρ) :
    (accept ring source port pkts s).worker = s.worker := by
  unfold accept
  dsimp only
  split <;> rfl

/-- The transmission of a burst gives its first packets to the port. -/
theorem transmitStep_net {l : κ} (room : ℕ) {cnt nbTx : ℕ} {info : List PortAbility}
    {path : DataPath} {bufs rest : List ρ} (hpc : s.worker l = .transmit path cnt nbTx bufs rest)
    (hfine : Fine (s.worker l))
    (hability : 0 ≤ (path.ports cnt).tx.dpdkPort → (applyAbilities crc info bufs s.mem).isSome) :
    Relation.ReflTransGen (Step ring) s.net
        (s.transmitStep crc ring l room info path cnt nbTx bufs rest).net ∧
      ∃ nbTx', (s.transmitStep crc ring l room info path cnt nbTx bufs rest).worker =
        Function.update s.worker l (.discard path cnt nbTx' bufs rest) ∧ Sends path nbTx' := by
  rw [hpc] at hfine
  obtain ⟨hcnt, hsends⟩ := hfine
  have hhand : s.net.hand l = ((path.ports cnt).rx.dpdkPort, bufs ++ rest) := by
    simp [net, hpc, PassPc.hand]
  unfold transmitStep
  dsimp only
  split
  · rename_i htx
    obtain ⟨mem', hmem⟩ := Option.isSome_iff_exists.mp (hability htx)
    rw [sppEthTxBurst_of_succeed room hmem]
    refine ⟨.single ?_, min room bufs.length, ?_, hsends.same, fun cnt' hcnt' hneg => ?_⟩
    · have hgive : FifoNet.Step ring s.net (s.net.give ring l (path.ports cnt).tx.dpdkPort
          (min room bufs.length)) := .give l _ _
      convert hgive using 1
      have hle := Nat.min_le_right room bufs.length
      have htake : (bufs ++ rest).take (min room bufs.length) = bufs.take room := by
        rw [List.take_append_of_le_length hle, ← List.take_take, List.take_length]
      have hdrop : (bufs ++ rest).drop (min room bufs.length) =
          bufs.drop (min room bufs.length) ++ rest := List.drop_append_of_le_length hle
      rw [net_setWorker]
      unfold accept Net.give
      rw [hhand, htake]
      dsimp only [rteEthTxBurst]
      split
      · simp [Net.settle, Net.note, Net.enter, enter, leave, net, PassPc.hand, hpc, htake, hdrop,
          -List.map_take]
      · simp [Net.settle, Net.note, leave, net, PassPc.hand, hpc, htake, hdrop, -List.map_take]
    · simp only [setWorker, accept_worker, rteEthTxBurst]
    · rw [hsends.same cnt' hcnt' cnt hcnt] at hneg
      omega
  · rename_i htx
    have hzero := hsends.none cnt hcnt (by omega)
    refine ⟨?_, nbTx, rfl, hsends⟩
    rw [net_setWorker]
    have hsame : PassPc.hand (.discard path cnt nbTx bufs rest) = s.net.hand l := by
      rw [hhand, hzero]
      rfl
    rw [hsame, Function.update_eq_self]

omit [DecidableEq ρ] in
/-- The end of an iteration drops what is left of the burst. -/
theorem discardStep_net {l : κ} {cnt nbTx : ℕ} {path : DataPath} {bufs rest : List ρ}
    (hpc : s.worker l = .discard path cnt nbTx bufs rest) :
    Relation.ReflTransGen (Step ring) s.net (s.discardStep l path cnt nbTx bufs rest).net := by
  have hhand : s.net.hand l = ((path.ports cnt).rx.dpdkPort, bufs.drop nbTx ++ rest) := by
    simp [net, hpc, PassPc.hand]
  have hturned : FifoNet.Step ring (s.net.drop l)
      ((s.net.drop l).turn l (path.ports (cnt + 1)).rx.dpdkPort) :=
    .turn l _ (by simp [Net.drop_eq])
  refine (Relation.ReflTransGen.single (.drop l)).tail ?_
  convert hturned using 1
  unfold discardStep
  rw [net_setWorker, Net.drop_eq, hhand]
  simp [Net.turn, leave, PassPc.hand, net]

/-- A path that `spp_forward_update` has built and that is run sends to one port. -/
theorem sends_of_sppForwardUpdate {iface : PortRef → PortInfo} {component : ComponentInfo}
    {path : DataPath} (h : sppForwardUpdate iface component = some path)
    (hrun : path.runnable = true) : Sends path 0 where
  same cnt hcnt cnt' hcnt' := by
    rw [tx_of_sppForwardUpdate h hrun hcnt, tx_of_sppForwardUpdate h hrun hcnt']
  none _ _ _ := rfl

/-- A step of the fabric is a run of the network, and leaves the workers fine. -/
theorem net_step {e : FabricEvent κ ρ} (hs : ∀ l, Fine (s.worker l)) (he : Orderly crc e s)
    (h : step crc ring e s = some t) :
    Relation.ReflTransGen (Step ring) s.net t.net ∧ ∀ l, Fine (t.worker l) := by
  cases e with
  | arrive port pkts mem =>
    cases h
    exact ⟨.single (.enter port pkts), hs⟩
  | begin l path =>
    obtain ⟨iface, component, hpath⟩ := he
    simp only [step] at h
    split at h
    · rename_i hidle
      cases h
      split
      · rename_i hrun
        refine ⟨.single ?_, forall_update hs (sends_of_sppForwardUpdate hpath hrun)⟩
        rw [net_turn s l rfl]
        exact .turn l _ (by simp [net, hidle, PassPc.hand])
      · exact ⟨.refl, hs⟩
    · cases h
  | step l n info =>
    have hfine := hs l
    simp only [step] at h
    split at h <;> rename_i hpc <;> simp only [Orderly, hpc] at he <;> cases h
    · refine ⟨receiveStep_net hpc he, ?_⟩
      rw [hpc] at hfine
      unfold receiveStep
      split
      · rename_i hcnt
        dsimp only
        split
        · exact forall_update hs hfine
        · exact forall_update hs ⟨hcnt, hfine⟩
      · exact forall_update hs trivial
    · obtain ⟨hnet, nbTx', hworker, hsends⟩ := transmitStep_net n hpc hfine he
      refine ⟨hnet, ?_⟩
      rw [hpc] at hfine
      rw [hworker]
      exact forall_update hs ⟨hfine.1, hsends⟩
    · refine ⟨discardStep_net hpc, ?_⟩
      rw [hpc] at hfine
      exact forall_update hs hfine.2

end Refinement

section Order

variable {crc ring} {s : Fabric κ ρ}

/-- The fabric is a network of queues in every state of a run. -/
theorem net_of_reaches {mem : ρ → Mbuf}
    (h : Reaches (step crc ring) (Orderly crc) (start mem : Fabric κ ρ) s) :
    Relation.ReflTransGen (Step ring) (start mem : Fabric κ ρ).net s.net ∧ ∀ l, Fine (s.worker l) := by
  induction h with
  | refl => exact ⟨.refl, fun _ => trivial⟩
  | tail _ hstep ih =>
    obtain ⟨e, hguard, he⟩ := hstep
    obtain ⟨hnet, hfine⟩ := net_step ih.2 hguard he
    exact ⟨ih.1.trans hnet, hfine⟩

end Order

section Chain

/-- A forwarder from one physical port to the next. -/
def chainForward (rx : ℕ) : ComponentInfo :=
  { name := ['f'], type := .forward, rxPorts := [⟨.nic, rx⟩], txPorts := [⟨.nic, rx + 1⟩] }

/-- Its path. -/
def chainPath (rx : ℕ) : DataPath := (sppForwardUpdate physicalPort (chainForward rx)).getD {}

/-- The port between two of them is a ring. -/
def chainRing (port : ℤ) : Bool := port = 1

/-- Of two packets one goes from port 0 to the ring and on to port 2, while the worker of
the first forwarder has yet to free the other one. -/
def chainEvents : List (FabricEvent (Fin 2) ℕ) :=
  [.arrive 0 [7, 8] fun _ => frameWith 128, .begin 0 (chainPath 0), .begin 1 (chainPath 1), .step 0 2 [],
    .step 0 1 [], .step 1 2 [], .step 1 1 [], .step 0 0 [], .step 1 0 []]

/-- No worker holds packets of the port of a reception. -/
def chainTest (e : FabricEvent (Fin 2) ℕ) (s : Fabric (Fin 2) ℕ) : Bool :=
  match e with
  | .step l _ _ =>
    match s.worker l with
    | .receive path cnt _ => ∀ w, (s.net.hand w).1 = (path.ports cnt).rx.dpdkPort → (s.net.hand w).2 = []
    | _ => true
  | _ => true

/-- The steps of the chain are in order. -/
theorem orderly_of_chainTest (e : FabricEvent (Fin 2) ℕ) (he : e ∈ chainEvents) (s : Fabric (Fin 2) ℕ)
    (htest : chainTest e s = true) : Orderly (fun _ => 0) e s := by
  have hpath : ∀ rx, ∃ iface component, sppForwardUpdate iface component = some (chainPath rx) :=
    fun rx => ⟨physicalPort, chainForward rx, by simp [sppForwardUpdate, chainPath, chainForward]⟩
  have hstep : ∀ l n, e = .step l n [] → Orderly (fun _ => 0) e s := by
    rintro l n rfl
    cases hpc : s.worker l with
    | idle => simp [Orderly, hpc]
    | receive path cnt nbTx =>
      simp only [chainTest, hpc, decide_eq_true_eq] at htest
      simp only [Orderly, hpc]
      exact fun _ => htest
    | transmit path cnt nbTx bufs rest =>
      simp only [Orderly, hpc]
      exact fun _ => rfl
    | discard path cnt nbTx bufs rest => simp [Orderly, hpc]
  simp only [chainEvents, List.mem_cons, List.not_mem_nil, or_false] at he
  rcases he with rfl | rfl | rfl | he
  · trivial
  · exact hpath 0
  · exact hpath 1
  · rcases he with he | he | he | he | he | he <;> exact hstep _ _ he

end Chain

end Fabric

end Spp.Vf
