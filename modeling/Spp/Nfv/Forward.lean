import Spp.Nfv.ForwardTable

/-!
# Forwarding while the tables are edited

The worker of `nfv_loop` reads the tables without a lock while the command
thread stores to them. A system takes three kinds of steps: a command is read
and its stores become pending, the next pending store is made, and the worker
goes on by one load or call. What the worker may still use of an entry is made
precise, and a store that leaves that alone keeps every call in order.
-/

namespace Spp.Nfv

open CLib GuardedRun
open Spp.Vf (PortType)

/-- `MAX_PKT_BURST`. -/
def maxPktBurst : ℕ := 32

/-- Where the worker is in `nfv_loop` and `forward`. `i` is the index of the
loop, `out` the local `out_port`, `f` a function pointer just loaded, `n` and `m`
the numbers `nb_rx` and `nb_tx`. -/
inductive Worker
  /-- Before the test of `cmd` against `STOP`. -/
  | poll
  /-- Before the test of `cmd` against `FORWARD`. -/
  | pollForward
  /-- At the head of the loop and its test of `in_port_id`. -/
  | testIn (i : ℕ)
  /-- Before the test of `out_port_id`. -/
  | testOut (i : ℕ)
  /-- Before `out_port_id` is read again. -/
  | loadOut (i : ℕ)
  | loadRx (i out : ℕ)
  | callRx (i out : ℕ) (f : Bool)
  | countRx (i out n : ℕ)
  | loadTx (i out n : ℕ)
  | callTx (i out n : ℕ) (f : Bool)
  | countTx (i out n m : ℕ)
  | countDrop (i out n m : ℕ)
  deriving DecidableEq, Repr

section Steps

variable (b : Build)

/-- One load or call of the worker. `n` is the number a burst function returns. -/
def workerStep (s : State) (n : ℕ) : Worker → Option Worker
  | .poll => some (if s.cmd = .stop then .poll else .pollForward)
  | .pollForward => some (if s.cmd = .forward then .testIn 0 else .poll)
  | .testIn i =>
    if i < b.maxEthports then
      some (if (s.portsFwdArray i).inPortId = portReset then .testIn (i + 1) else .testOut i)
    else some .poll
  | .testOut i =>
    some (if (s.portsFwdArray i).outPortId = portReset then .testIn (i + 1) else .loadOut i)
  | .loadOut i => some (.loadRx i (s.portsFwdArray i).outPortId)
  | .loadRx i out => some (.callRx i out (s.portsFwdArray i).rxFunc)
  | .callRx i out _ =>
    if n ≤ maxPktBurst then some (if n = 0 then .testIn (i + 1) else .countRx i out n) else none
  | .countRx i out nbRx => some (.loadTx i out nbRx)
  | .loadTx i out nbRx => some (.callTx i out nbRx (s.portsFwdArray out).txFunc)
  | .callTx i out nbRx _ => if n ≤ nbRx then some (.countTx i out nbRx n) else none
  | .countTx i out nbRx nbTx =>
    some (if nbTx < nbRx then .countDrop i out nbRx nbTx else .testIn (i + 1))
  | .countDrop i _ _ _ => some (.testIn (i + 1))

/-- The tables, the stores the command thread has still to make, and the worker. -/
structure System where
  tables : State
  pending : List Store
  worker : Worker

/-- The steps of the two threads. -/
inductive Event
  /-- The command thread reads a command. -/
  | command (i : Input)
  /-- The command thread makes its next store. -/
  | store
  /-- The worker makes its next load or call. -/
  | worker (n : ℕ)
  deriving Repr

/-- One step of either thread. A command is read once the last one is done. -/
def sysStep : Event → System → Option System
  | .command i, sys =>
    match sys.pending with
    | [] => (parseCommand b sys.tables i.pmd i.detached i.command).toOption.map fun stores =>
        { sys with pending := stores }
    | _ :: _ => none
  | .store, sys =>
    match sys.pending with
    | [] => none
    | c :: cs => some { sys with tables := c.apply sys.tables, pending := cs }
  | .worker n, sys => (workerStep b sys.tables n sys.worker).map fun w => { sys with worker := w }

/-- The system when `main` starts to take commands. -/
def System.start {b : Build} (phys : PhysicalPorts b) : System := ⟨started phys, [], .poll⟩

/-! ## What is to hold -/

/-- The statistics of a resource. -/
def statsOf : PortType × ℤ → StatsPtr
  | (.phy, i) => .portStats i.toNat
  | (_, i) => .clientStats i

/-- The pointer is to a counter of `struct port_info`. -/
def StatsPtr.Valid : StatsPtr → Prop
  | .portStats i => i < b.maxEthports
  | .clientStats i => 0 ≤ i ∧ i < maxClient
  | _ => False

/-- The statistics pointer of port `k` is to the statistics of the resource that
its device was made for. -/
def State.StatsOk (s : State) (k : ℕ) : Prop :=
  ∃ d, s.ethDevices k = some d ∧ (s.portMap k).stats = statsOf d.resource ∧
    (statsOf d.resource).Valid b

/-- Port `k` is a port id of the tables whose device is attached and has not been
stopped or closed. -/
def State.DevOk (s : State) (k : ℕ) : Prop :=
  k < b.maxEthports ∧ ∃ d, s.ethDevices k = some d ∧ d.running = true

/-- If the next step of the worker is a call, its pointer is set and its device
can be used; if it counts packets, it counts them for the right port. -/
def System.Safe (sys : System) : Prop :=
  match sys.worker with
  | .callRx i _ f => f = true ∧ sys.tables.DevOk b i
  | .callTx _ out _ f => f = true ∧ sys.tables.DevOk b out
  | .countRx i _ _ => sys.tables.StatsOk b i
  | .countTx _ out _ _ => sys.tables.StatsOk b out
  | .countDrop _ out _ _ => sys.tables.StatsOk b out
  | _ => True

/-! ## What the worker may still use -/

/-- The test of entry `j` is still ahead of the worker, in this pass or, while
forwarding is on, in a later one. -/
def System.Ahead (sys : System) (j : ℕ) : Prop :=
  sys.tables.cmd = .forward ∨
    match sys.worker with
    | .poll | .pollForward => False
    | .testIn i => i ≤ j
    | .testOut i | .loadOut i | .loadRx i _ | .callRx i _ _ | .countRx i _ _ | .loadTx i _ _
    | .callTx i _ _ _ | .countTx i _ _ _ | .countDrop i _ _ _ => i < j

/-- Entry `j` is patched, as the two tests of the worker see it. -/
def State.Active (s : State) (j : ℕ) : Prop :=
  j < b.maxEthports ∧ (s.portsFwdArray j).inPortId ≠ portReset ∧
    (s.portsFwdArray j).outPortId ≠ portReset

/-- The worker may still read the target of entry `j`. -/
def System.MayRead (sys : System) (j : ℕ) : Prop :=
  sys.Ahead j ∨ sys.worker = .testOut j ∨ sys.worker = .loadOut j

/-- The worker may still call on or count for port `k`. -/
def System.InUse (sys : System) (k : ℕ) : Prop :=
  (∃ j, sys.Ahead j ∧ sys.tables.Active b j ∧
    (k = j ∨ k = (sys.tables.portsFwdArray j).outPortId)) ∨
  match sys.worker with
  | .testOut i => (sys.tables.portsFwdArray i).outPortId ≠ portReset ∧
      (k = i ∨ k = (sys.tables.portsFwdArray i).outPortId)
  | .loadOut i => k = i ∨ k = (sys.tables.portsFwdArray i).outPortId
  | .loadRx i out | .callRx i out _ | .countRx i out _ => k = i ∨ k = out
  | .loadTx _ out _ | .callTx _ out _ _ | .countTx _ out _ _ | .countDrop _ out _ _ => k = out
  | _ => False

/-- The stores that are safe beside the worker: a target is set only once its
`tx_func` is, unless the worker will not read the entry; a target is reset only
while the worker is not between its two reads of it; a device is taken away and
the statistics of a port are given up only when the worker will not use them. -/
def System.StoreMeets (sys : System) : Store → Prop
  | .outPortId i v =>
    if v = portReset then sys.worker ≠ .loadOut i
    else sys.MayRead i → (sys.tables.portsFwdArray v).txFunc = true
  | .devStop k | .devClose k | .devDetach k => ¬ sys.InUse b k
  | .mapStats k (.defaultStats _) => ¬ sys.InUse b k
  | _ => True

/-- A port is added under an id that `client_stats` has, and a ring that is found
is the ring asked for and runs again. -/
def Pmd.Fits (s : State) (type : PortType) (id : ℤ) : Pmd → Prop
  | .failed => True
  | .attached _ => 0 ≤ id ∧ id < maxClient
  | .found k started => (0 ≤ id ∧ id < maxClient) ∧
      ∃ d, s.ethDevices k = some d ∧ d.resource = (type, id) ∧ (started = true ∨ d.running = true)

/-- The condition on a step. -/
def Event.Meets (sys : System) : Event → Prop
  | .command i => i.meets b sys.tables = true ∧
      ∀ type id, requested i.command = some (type, id) → i.pmd.Fits sys.tables type id
  | .store => ∀ c ∈ sys.pending.head?, sys.StoreMeets b c
  | .worker _ => True

/-- The DPDK calls of a command did what DPDK guarantees. -/
def Event.Allowed (sys : System) : Event → Prop
  | .command i => i.Allowed b sys.tables
  | _ => True

/-! ## The invariant -/

/-- Port `k` can be called on and counted for. -/
def State.PortOk (s : State) (k : ℕ) : Prop := s.DevOk b k ∧ s.StatsOk b k

/-- Packets can be moved from port `i` to port `o`. -/
structure State.EntryOk (s : State) (i o : ℕ) : Prop where
  inOk : s.PortOk b i
  rx : (s.portsFwdArray i).rxFunc = true
  outOk : s.PortOk b o
  tx : (s.portsFwdArray o).txFunc = true

/-- What the worker has read so far is in order. -/
def System.Current (sys : System) : Prop :=
  match sys.worker with
  | .testOut i => (sys.tables.portsFwdArray i).outPortId ≠ portReset →
      sys.tables.EntryOk b i (sys.tables.portsFwdArray i).outPortId
  | .loadOut i => sys.tables.EntryOk b i (sys.tables.portsFwdArray i).outPortId
  | .loadRx i out | .countRx i out _ => sys.tables.EntryOk b i out
  | .callRx i out f => f = true ∧ sys.tables.EntryOk b i out
  | .loadTx _ out _ | .countTx _ out _ _ | .countDrop _ out _ _ =>
    sys.tables.PortOk b out ∧ (sys.tables.portsFwdArray out).txFunc = true
  | .callTx _ out _ f => f = true ∧
      sys.tables.PortOk b out ∧ (sys.tables.portsFwdArray out).txFunc = true
  | _ => True

/-- Whatever the worker has read or may still read is in order. -/
structure System.WorkerOk (sys : System) : Prop where
  ahead : ∀ j, sys.Ahead j → sys.tables.Active b j →
    sys.tables.EntryOk b j (sys.tables.portsFwdArray j).outPortId
  current : sys.Current b

/-- What a store needs of the tables alone: an unused entry that is patched is
not put in use, a target is a port that can be called on, the statistics of a
port are set to its own, a new device gets a free port id, and forwarding is
switched on only when every patch is in order. -/
def State.StoreOk (s : State) : Store → Prop
  | .inPortId i v => v = portReset ∨ (s.portsFwdArray i).inPortId ≠ portReset ∨
      (s.portsFwdArray i).outPortId = portReset
  | .outPortId i v => v = portReset ∨
      s.PortOk b i ∧ (s.portsFwdArray i).rxFunc = true ∧ s.PortOk b v
  | .mapStats k p => (∃ j, p = .defaultStats j) ∨
      ∃ d, s.ethDevices k = some d ∧ p = statsOf d.resource ∧ p.Valid b
  | .devAttach k _ => s.ethDevices k = none
  | .cmd c => c ≠ .stop → ∀ j, s.Active b j → s.EntryOk b j (s.portsFwdArray j).outPortId
  | _ => True

/-- Each store of a list has what it needs when it is made. -/
def StoresOk : State → List Store → Prop
  | _, [] => True
  | s, c :: cs => s.StoreOk b c ∧ StoresOk (c.apply s) cs

/-- The tables between commands: consistent, linked to the devices, and every
added port can be used. -/
structure Settled (s : State) : Prop where
  table : TableInv b s
  device : DeviceInv b s
  served : ∀ k < b.maxEthports, s.Added k → s.PortOk b k

/-- The invariant of the system: the stores still to be made are in order and
lead to settled tables, and so is what the worker uses. -/
structure System.Inv (sys : System) : Prop where
  stores : StoresOk b sys.tables sys.pending
  settles : Settled b (applyAll sys.tables sys.pending)
  worker : sys.WorkerOk b

end Steps

/-! ## Stores beside the worker -/

section Stores

variable {b : Build} {sys : System} {s : State}

/-- The invariant gives what is to hold. -/
theorem System.WorkerOk.safe (h : sys.WorkerOk b) : sys.Safe b := by
  have hcur := h.current
  unfold System.Current at hcur
  unfold System.Safe
  split <;> rename_i hw <;> simp only [hw] at hcur
  · exact ⟨hcur.1, hcur.2.inOk.1⟩
  · exact ⟨hcur.1, hcur.2.1.1⟩
  · exact hcur.inOk.2
  · exact hcur.1.2
  · exact hcur.1.2
  · trivial

/-- A store leaves the worker in order if it keeps the ports in use and the
function pointers, and an entry that the worker may read either stays as it is
or is in order afterwards. -/
theorem System.WorkerOk.store {t : State} {cs : List Store} (h : sys.WorkerOk b)
    (hport : ∀ k, sys.InUse b k → sys.tables.PortOk b k → t.PortOk b k)
    (hrx : ∀ k, (sys.tables.portsFwdArray k).rxFunc = true → (t.portsFwdArray k).rxFunc = true)
    (htx : ∀ k, (sys.tables.portsFwdArray k).txFunc = true → (t.portsFwdArray k).txFunc = true)
    (hahead : ∀ j, ({ sys with tables := t, pending := cs } : System).Ahead j → t.Active b j →
      sys.Ahead j ∧ sys.tables.Active b j ∧
          (t.portsFwdArray j).outPortId = (sys.tables.portsFwdArray j).outPortId ∨
        t.EntryOk b j (t.portsFwdArray j).outPortId)
    (htest : ∀ i, sys.worker = .testOut i → (t.portsFwdArray i).outPortId ≠ portReset →
      (t.portsFwdArray i).outPortId = (sys.tables.portsFwdArray i).outPortId ∨
        t.EntryOk b i (t.portsFwdArray i).outPortId)
    (hload : ∀ i, sys.worker = .loadOut i →
      (t.portsFwdArray i).outPortId = (sys.tables.portsFwdArray i).outPortId ∨
        t.EntryOk b i (t.portsFwdArray i).outPortId) :
    ({ sys with tables := t, pending := cs } : System).WorkerOk b := by
  have hentry : ∀ i o, sys.tables.EntryOk b i o → sys.InUse b i → sys.InUse b o →
      t.EntryOk b i o := by
    intro i o he hi ho
    exact ⟨hport i hi he.inOk, hrx i he.rx, hport o ho he.outOk, htx o he.tx⟩
  constructor
  · intro j hj hactive
    rcases hahead j hj hactive with ⟨hj', hactive', hout⟩ | he
    · dsimp only
      rw [hout]
      exact hentry _ _ (h.ahead j hj' hactive') (.inl ⟨j, hj', hactive', .inl rfl⟩)
        (.inl ⟨j, hj', hactive', .inr rfl⟩)
    · exact he
  · have hcur := h.current
    unfold System.Current at hcur ⊢
    unfold System.InUse at hentry hport
    cases hw : sys.worker with
    | poll => trivial
    | pollForward => trivial
    | testIn i => trivial
    | testOut i =>
      simp only [hw] at hcur hentry ⊢
      intro hreset
      rcases htest i hw hreset with hout | he
      · rw [hout] at hreset ⊢
        exact hentry _ _ (hcur hreset) (.inr ⟨hreset, .inl rfl⟩) (.inr ⟨hreset, .inr rfl⟩)
      · exact he
    | loadOut i =>
      simp only [hw] at hcur hentry ⊢
      rcases hload i hw with hout | he
      · rw [hout]
        exact hentry _ _ hcur (.inr (.inl rfl)) (.inr (.inr rfl))
      · exact he
    | loadRx i out =>
      simp only [hw] at hcur hentry ⊢
      exact hentry _ _ hcur (.inr (.inl rfl)) (.inr (.inr rfl))
    | callRx i out f =>
      simp only [hw] at hcur hentry ⊢
      exact ⟨hcur.1, hentry _ _ hcur.2 (.inr (.inl rfl)) (.inr (.inr rfl))⟩
    | countRx i out n =>
      simp only [hw] at hcur hentry ⊢
      exact hentry _ _ hcur (.inr (.inl rfl)) (.inr (.inr rfl))
    | loadTx i out n =>
      simp only [hw] at hcur hport ⊢
      exact ⟨hport _ (.inr rfl) hcur.1, htx _ hcur.2⟩
    | callTx i out n f =>
      simp only [hw] at hcur hport ⊢
      exact ⟨hcur.1, hport _ (.inr rfl) hcur.2.1, htx _ hcur.2.2⟩
    | countTx i out n m =>
      simp only [hw] at hcur hport ⊢
      exact ⟨hport _ (.inr rfl) hcur.1, htx _ hcur.2⟩
    | countDrop i out n m =>
      simp only [hw] at hcur hport ⊢
      exact ⟨hport _ (.inr rfl) hcur.1, htx _ hcur.2⟩

/-- A store that leaves `ports_fwd_array` and `cmd` alone need only keep the
ports in use. -/
theorem System.WorkerOk.storeElsewhere {t : State} {cs : List Store} (h : sys.WorkerOk b)
    (hports : t.portsFwdArray = sys.tables.portsFwdArray) (hcmd : t.cmd = sys.tables.cmd)
    (hport : ∀ k, sys.InUse b k → sys.tables.PortOk b k → t.PortOk b k) :
    ({ sys with tables := t, pending := cs } : System).WorkerOk b := by
  apply h.store hport
  · rw [hports]
    exact fun _ => id
  · rw [hports]
    exact fun _ => id
  · intro j hj hactive
    left
    unfold System.Ahead at hj ⊢
    unfold State.Active at hactive ⊢
    rw [hports] at hactive ⊢
    rw [← hcmd]
    exact ⟨hj, hactive, rfl⟩
  · intro i _ _
    rw [hports]
    exact .inl rfl
  · intro i _
    rw [hports]
    exact .inl rfl

/-- A store to `ports_fwd_array` that sets a function pointer. -/
theorem System.WorkerOk.storePointer {i : ℕ} {f : Port → Port} {cs : List Store}
    (h : sys.WorkerOk b) (hin : ∀ p, (f p).inPortId = p.inPortId)
    (hout : ∀ p, (f p).outPortId = p.outPortId)
    (hrx : ∀ p, p.rxFunc = true → (f p).rxFunc = true)
    (htx : ∀ p, p.txFunc = true → (f p).txFunc = true) :
    ({ sys with tables := sys.tables.setPort i f, pending := cs } : System).WorkerOk b := by
  have hport : ∀ j, (sys.tables.setPort i f).portsFwdArray j = sys.tables.portsFwdArray j ∨
      (sys.tables.setPort i f).portsFwdArray j = f (sys.tables.portsFwdArray j) := by
    intro j
    by_cases hj : j = i
    · right
      subst hj
      simp [State.setPort]
    · left
      simp [State.setPort, hj]
  have htarget : ∀ j, ((sys.tables.setPort i f).portsFwdArray j).outPortId =
      (sys.tables.portsFwdArray j).outPortId := by
    intro j
    rcases hport j with heq | heq <;> simp [heq, hout]
  apply h.store
  · exact fun _ _ hk => hk
  · intro k hk
    rcases hport k with heq | heq <;> rw [heq]
    · exact hk
    · exact hrx _ hk
  · intro k hk
    rcases hport k with heq | heq <;> rw [heq]
    · exact hk
    · exact htx _ hk
  · intro j hj hactive
    left
    refine ⟨hj, ⟨hactive.1, ?_, ?_⟩, htarget j⟩
    · have hin' := hactive.2.1
      rcases hport j with heq | heq <;> rw [heq] at hin'
      · exact hin'
      · rwa [hin] at hin'
    · rw [← htarget j]
      exact hactive.2.2
  · exact fun j _ _ => .inl (htarget j)
  · exact fun j _ => .inl (htarget j)

/-- A store to `in_port_id` does not put a patched entry in use. -/
theorem System.WorkerOk.storeIn {i v : ℕ} {cs : List Store} (h : sys.WorkerOk b)
    (hok : sys.tables.StoreOk b (.inPortId i v)) :
    ({ sys with tables := (Store.inPortId i v).apply sys.tables, pending := cs } :
      System).WorkerOk b := by
  have htarget : ∀ j, (((Store.inPortId i v).apply sys.tables).portsFwdArray j).outPortId =
      (sys.tables.portsFwdArray j).outPortId := by
    intro j
    by_cases hj : j = i
    · subst hj
      simp [Store.apply, State.setPort]
    · simp [Store.apply, State.setPort, hj]
  apply h.store
  · exact fun _ _ hk => hk
  · intro k hk
    by_cases hki : k = i
    · subst hki
      simpa [Store.apply, State.setPort] using hk
    · simpa [Store.apply, State.setPort, hki] using hk
  · intro k hk
    by_cases hki : k = i
    · subst hki
      simpa [Store.apply, State.setPort] using hk
    · simpa [Store.apply, State.setPort, hki] using hk
  · rintro j hj ⟨hlt, hin, hout⟩
    left
    rw [htarget] at hout
    refine ⟨hj, ⟨hlt, ?_, hout⟩, htarget j⟩
    by_cases hji : j = i
    · subst hji
      rcases hok with hv | hused | hreset
      · exact absurd (by simp [Store.apply, State.setPort, hv]) hin
      · exact hused
      · exact absurd hreset hout
    · simpa [Store.apply, State.setPort, hji] using hin
  · exact fun j _ _ => .inl (htarget j)
  · exact fun j _ => .inl (htarget j)

/-- A store to `out_port_id`, made where it is safe. -/
theorem System.WorkerOk.storeOut {i v : ℕ} {cs : List Store} (h : sys.WorkerOk b)
    (hok : sys.tables.StoreOk b (.outPortId i v)) (hmeets : sys.StoreMeets b (.outPortId i v)) :
    ({ sys with tables := (Store.outPortId i v).apply sys.tables, pending := cs } :
      System).WorkerOk b := by
  set t := (Store.outPortId i v).apply sys.tables with ht
  have hself : (t.portsFwdArray i).outPortId = v := by simp [ht, Store.apply, State.setPort]
  have hother : ∀ j, j ≠ i → t.portsFwdArray j = sys.tables.portsFwdArray j := by
    intro j hj
    simp [ht, Store.apply, State.setPort, hj]
  have hkeep : ∀ j, (t.portsFwdArray j).inPortId = (sys.tables.portsFwdArray j).inPortId ∧
      (t.portsFwdArray j).rxFunc = (sys.tables.portsFwdArray j).rxFunc ∧
      (t.portsFwdArray j).txFunc = (sys.tables.portsFwdArray j).txFunc := by
    intro j
    by_cases hj : j = i
    · subst hj
      simp [ht, Store.apply, State.setPort]
    · rw [hother j hj]
      exact ⟨rfl, rfl, rfl⟩
  -- a new target is in order if the worker may read it
  have hnew : sys.MayRead i → v ≠ portReset → t.EntryOk b i (t.portsFwdArray i).outPortId := by
    intro hread hv
    rw [hself]
    simp only [System.StoreMeets, if_neg hv] at hmeets
    rcases hok with hreset | ⟨hin, hrx, hout⟩
    · exact absurd hreset hv
    · exact ⟨hin, (hkeep i).2.1.trans hrx, hout, (hkeep v).2.2.trans (hmeets hread)⟩
  apply h.store
  · exact fun _ _ hk => hk
  · intro k hk
    rw [(hkeep k).2.1]
    exact hk
  · intro k hk
    rw [(hkeep k).2.2]
    exact hk
  · rintro j hj ⟨hlt, hin, hout⟩
    by_cases hji : j = i
    · right
      subst hji
      exact hnew (.inl hj) (by rwa [hself] at hout)
    · left
      rw [hother j hji] at hin hout ⊢
      exact ⟨hj, ⟨hlt, hin, hout⟩, rfl⟩
  · intro j hw hout
    by_cases hji : j = i
    · right
      subst hji
      exact hnew (.inr (.inl hw)) (by rwa [hself] at hout)
    · left
      rw [hother j hji]
  · intro j hw
    by_cases hji : j = i
    · right
      subst hji
      apply hnew (.inr (.inr hw))
      intro hv
      simp only [System.StoreMeets, if_pos hv] at hmeets
      exact hmeets hw
    · left
      rw [hother j hji]

/-- A change of one device that is not in use, or keeps it running. -/
theorem System.WorkerOk.storeDev {k : ℕ} {d : Option EthDev} {cs : List Store} (h : sys.WorkerOk b)
    (hdev : ¬ sys.InUse b k ∨ sys.tables.ethDevices k = none ∨
      d = (sys.tables.ethDevices k).map fun e => { e with running := true }) :
    ({ sys with tables := sys.tables.setDev k d, pending := cs } : System).WorkerOk b := by
  apply h.storeElsewhere
  · rfl
  · rfl
  rintro j hj ⟨⟨hlt, e, he, hrun⟩, f, hf, hstats, hvalid⟩
  obtain rfl : e = f := Option.some.inj (he.symm.trans hf)
  by_cases hjk : j = k
  · subst hjk
    rcases hdev with hunused | hnone | rfl
    · exact absurd hj hunused
    · rw [hnone] at he
      cases he
    · have hnew : (sys.tables.setDev j ((sys.tables.ethDevices j).map fun e =>
          { e with running := true })).ethDevices j = some { e with running := true } := by
        simp [State.setDev, he]
      exact ⟨⟨hlt, _, hnew, rfl⟩, _, hnew, hstats, hvalid⟩
  · have hsame : (sys.tables.setDev k d).ethDevices j = sys.tables.ethDevices j := by
      simp [State.setDev, hjk]
    exact ⟨⟨hlt, e, hsame.trans he, hrun⟩, e, hsame.trans he, hstats, hvalid⟩

/-- Any store that has what it needs and is safe beside the worker. -/
theorem System.WorkerOk.apply {c : Store} {cs : List Store} (h : sys.WorkerOk b)
    (hok : sys.tables.StoreOk b c) (hmeets : sys.StoreMeets b c) :
    ({ sys with tables := c.apply sys.tables, pending := cs } : System).WorkerOk b := by
  cases c with
  | inPortId i v => exact h.storeIn hok
  | outPortId i v => exact h.storeOut hok hmeets
  | rxFunc i =>
    exact h.storePointer (f := fun p => { p with rxFunc := true }) (fun _ => rfl)
      (fun _ => rfl) (fun _ _ => rfl) (fun _ => id)
  | txFunc i =>
    exact h.storePointer (f := fun p => { p with txFunc := true }) (fun _ => rfl)
      (fun _ => rfl) (fun _ => id) (fun _ _ => rfl)
  | mapId k v =>
    apply h.storeElsewhere
    · rfl
    · rfl
    rintro j - ⟨hdev, d, hd, hstats, hvalid⟩
    refine ⟨hdev, d, hd, ?_, hvalid⟩
    rw [← hstats]
    by_cases hjk : j = k
    · subst hjk
      simp [Store.apply, State.setMap]
    · simp [Store.apply, State.setMap, hjk]
  | mapPortType k t =>
    apply h.storeElsewhere
    · rfl
    · rfl
    rintro j - ⟨hdev, d, hd, hstats, hvalid⟩
    refine ⟨hdev, d, hd, ?_, hvalid⟩
    rw [← hstats]
    by_cases hjk : j = k
    · subst hjk
      simp [Store.apply, State.setMap]
    · simp [Store.apply, State.setMap, hjk]
  | mapStats k p =>
    apply h.storeElsewhere
    · rfl
    · rfl
    rintro j hj ⟨hdev, d, hd, hstats, hvalid⟩
    refine ⟨hdev, d, hd, ?_, hvalid⟩
    by_cases hjk : j = k
    · subst hjk
      rcases hok with ⟨i, rfl⟩ | ⟨e, he, rfl, -⟩
      · exact absurd hj hmeets
      · obtain rfl : d = e := Option.some.inj (hd.symm.trans he)
        simp [Store.apply, State.setMap]
    · rw [← hstats]
      simp [Store.apply, State.setMap, hjk]
  | devAttach k d => exact h.storeDev (.inr (.inl hok))
  | devStart k => exact h.storeDev (.inr (.inr rfl))
  | devStop k => exact h.storeDev (.inl hmeets)
  | devClose k => exact h.storeDev (.inl hmeets)
  | devDetach k => exact h.storeDev (.inl hmeets)
  | cmd c =>
    apply h.store
    · exact fun _ _ hk => hk
    · exact fun _ => id
    · exact fun _ => id
    · intro j hj hactive
      cases c with
      | stop =>
        left
        refine ⟨?_, hactive, rfl⟩
        rcases hj with hj | hj
        · cases hj
        · exact .inr hj
      | start =>
        have he := hok (by decide) j hactive
        exact .inr ⟨he.inOk, he.rx, he.outOk, he.tx⟩
      | forward =>
        have he := hok (by decide) j hactive
        exact .inr ⟨he.inOk, he.rx, he.outOk, he.tx⟩
    · exact fun _ _ _ => .inl rfl
    · exact fun _ _ => .inl rfl

/-- A load or call of the worker leaves what it may use in order. -/
theorem System.WorkerOk.step {n : ℕ} {w : Worker} (h : sys.WorkerOk b)
    (hstep : workerStep b sys.tables n sys.worker = some w) :
    ({ sys with worker := w } : System).WorkerOk b := by
  have hcur := h.current
  have hahead := h.ahead
  unfold System.Current at hcur
  unfold System.Ahead at hahead
  unfold workerStep at hstep
  -- the next entry of the loop, once this one is done with
  have hnext : ∀ i, (∀ j, (sys.tables.cmd = .forward ∨ i < j) → sys.tables.Active b j →
      sys.tables.EntryOk b j (sys.tables.portsFwdArray j).outPortId) →
      ({ sys with worker := .testIn (i + 1) } : System).WorkerOk b :=
    fun i hi => ⟨fun j hj => hi j (hj.imp_right Nat.lt_of_succ_le), trivial⟩
  cases hw : sys.worker with
  | poll =>
    simp only [hw] at hstep hahead
    cases hstep
    constructor
    · intro j hj
      apply hahead j
      split at hj <;> exact hj
    · split <;> trivial
  | pollForward =>
    simp only [hw] at hstep hahead
    cases hstep
    split
    · rename_i hcmd
      exact ⟨fun j _ => hahead j (.inl hcmd), trivial⟩
    · exact ⟨hahead, trivial⟩
  | testIn i =>
    simp only [hw] at hstep hahead
    split at hstep
    · rename_i hlt
      cases hstep
      split
      · exact hnext i fun j hj => hahead j (hj.imp_right Nat.le_of_lt)
      · rename_i hin
        constructor
        · exact fun j hj => hahead j (hj.imp_right Nat.le_of_lt)
        · exact fun hout => hahead i (.inr (Nat.le_refl i)) ⟨hlt, hin, hout⟩
    · cases hstep
      exact ⟨fun j hj => hahead j (hj.imp_right False.elim), trivial⟩
  | testOut i =>
    simp only [hw] at hstep hahead hcur
    cases hstep
    split
    · exact hnext i hahead
    · rename_i hout
      exact ⟨hahead, hcur hout⟩
  | loadOut i =>
    simp only [hw] at hstep hahead hcur
    cases hstep
    exact ⟨hahead, hcur⟩
  | loadRx i out =>
    simp only [hw] at hstep hahead hcur
    cases hstep
    exact ⟨hahead, hcur.rx, hcur⟩
  | callRx i out f =>
    simp only [hw] at hstep hahead hcur
    split at hstep
    · cases hstep
      split
      · exact hnext i hahead
      · exact ⟨hahead, hcur.2⟩
    · cases hstep
  | countRx i out nbRx =>
    simp only [hw] at hstep hahead hcur
    cases hstep
    exact ⟨hahead, hcur.outOk, hcur.tx⟩
  | loadTx i out nbRx =>
    simp only [hw] at hstep hahead hcur
    cases hstep
    exact ⟨hahead, hcur.2, hcur⟩
  | callTx i out nbRx f =>
    simp only [hw] at hstep hahead hcur
    split at hstep
    · cases hstep
      exact ⟨hahead, hcur.2⟩
    · cases hstep
  | countTx i out nbRx nbTx =>
    simp only [hw] at hstep hahead hcur
    cases hstep
    split
    · exact ⟨hahead, hcur⟩
    · exact hnext i hahead
  | countDrop i out nbRx nbTx =>
    simp only [hw] at hstep hahead hcur
    cases hstep
    exact hnext i hahead

end Stores

/-! ## The stores of a command -/

section Commands

variable {b : Build} {s : State}

/-- Stores after stores. -/
theorem storesOk_append {cs ds : List Store} (hc : StoresOk b s cs)
    (hd : StoresOk b (applyAll s cs) ds) : StoresOk b s (cs ++ ds) := by
  induction cs generalizing s with
  | nil => exact hd
  | cons c cs ih => exact ⟨hc.1, ih hc.2 hd⟩

/-- Resets of targets need nothing. -/
theorem storesOk_resetAll (l : List ℕ) :
    StoresOk b s (l.map fun i => .outPortId i portReset) := by
  induction l generalizing s with
  | nil => trivial
  | cons i l ih => exact ⟨.inl rfl, ih⟩

/-- The stores of `add`: none, or a device and its entry in the tables. -/
theorem doAdd_cases {pmd : Pmd} {resUid : CStr} {stores : List Store}
    (h : doAdd pmd resUid = .ok stores) (hmeets : addMeets pmd resUid = true) :
    stores = [] ∨ ∃ uid type k, parseResourceUid resUid = .ok (some uid) ∧ uid.valid = true ∧
      resourceType uid.portType = some type ∧ pmd.portId = some k ∧
      stores = pmd.stores type uid.portId ++ registerPort k uid.portId type := by
  cases hparse : parseResourceUid resUid with
  | error _ =>
    simp only [doAdd, hparse, bind, Except.bind] at h
    cases h
  | ok r =>
    cases r with
    | none =>
      simp only [doAdd, hparse, bind, Except.bind] at h
      cases h
      exact .inl rfl
    | some uid =>
      cases hvalid : uid.valid with
      | false =>
        simp only [doAdd, hparse, bind, Except.bind, hvalid] at h
        cases h
        exact .inl rfl
      | true =>
        cases htype : resourceType uid.portType with
        | none =>
          simp [addMeets, hparse, hvalid, htype] at hmeets
        | some type =>
          cases hk : pmd.portId with
          | none =>
            simp only [doAdd, hparse, bind, Except.bind, hvalid, htype, hk] at h
            cases h
            exact .inl rfl
          | some k =>
            simp only [doAdd, hparse, bind, Except.bind, hvalid, htype, hk] at h
            cases h
            exact .inr ⟨uid, type, k, rfl, hvalid, htype, rfl, rfl⟩

/-- The stores of `del`: none, or the device, the entry and the patch to it, and
what `port_map` knows of it. -/
theorem doDel_cases {detached : Bool} {resUid : CStr} {stores : List Store}
    (h : doDel b s detached resUid = .ok stores) (hmeets : delMeets b s resUid = true) :
    stores = [] ∨ ∃ type k rest, k < b.maxEthports ∧
      removePort b (applyAll s (releaseDevice type k detached)) k = .ok rest ∧
      stores = releaseDevice type k detached ++ rest := by
  cases hparse : parseResourceUid resUid with
  | error _ =>
    simp only [doDel, hparse, bind, Except.bind] at h
    cases h
  | ok r =>
    cases r with
    | none =>
      simp only [doDel, hparse, bind, Except.bind] at h
      cases h
      exact .inl rfl
    | some uid =>
      cases hvalid : uid.valid with
      | false =>
        simp only [doDel, hparse, bind, Except.bind, hvalid] at h
        cases h
        exact .inl rfl
      | true =>
        cases htype : resourceType uid.portType with
        | none =>
          simp [delMeets, hparse, hvalid, htype] at hmeets
        | some type =>
          by_cases hk : findPortId b s uid.portId type = portReset
          · simp only [doDel, hparse, bind, Except.bind, hvalid, htype, hk] at h
            cases h
            exact .inl rfl
          · simp only [doDel, hparse, bind, Except.bind, hvalid, htype, hk] at h
            generalize findPortId b s uid.portId type = k at h
            cases hrem : removePort b (applyAll s (releaseDevice type k detached)) k with
            | error _ =>
              rw [hrem] at h
              cases h
            | ok rest =>
              rw [hrem] at h
              cases h
              exact .inr ⟨type, k, rest, (removePort_state hrem).1, hrem, rfl⟩

/-- The stores of `patch`: none, or those of `add_patch` on two valid ports. -/
theorem patchPorts_cases {src dst : CStr} {stores : List Store}
    (h : patchPorts b s src dst = .ok stores) :
    stores = [] ∨ ∃ i o, s.ValidPort b i ∧ s.ValidPort b o ∧
      stores = [.inPortId i i, .rxFunc i, .txFunc i, .outPortId i o,
        .inPortId o o, .rxFunc o, .txFunc o] := by
  cases hsrc : patchArgument src with
  | error _ =>
    simp only [patchPorts, hsrc, bind, Except.bind] at h
    cases h
  | ok inUid =>
    cases hdst : patchArgument dst with
    | error _ =>
      simp only [patchPorts, hsrc, hdst, bind, Except.bind] at h
      cases h
    | ok outUid =>
      have hin := findPortId_spec b s inUid.portId (getPortType inUid.portType)
      have hout := findPortId_spec b s outUid.portId (getPortType outUid.portType)
      simp only [patchPorts, hsrc, hdst, bind, Except.bind, pure, Except.pure] at h
      generalize findPortId b s inUid.portId (getPortType inUid.portType) = i at hin h
      generalize findPortId b s outUid.portId (getPortType outUid.portType) = o at hout h
      rw [addPatch_eq (hin.imp_right And.left) (hout.imp_right And.left)] at h
      split at h
      · cases h
      · by_cases hvalid : s.ValidPort b i ∧ s.ValidPort b o
        · rw [if_pos hvalid] at h
          cases h
          exact .inr ⟨i, o, hvalid.1, hvalid.2, rfl⟩
        · rw [if_neg hvalid] at h
          cases h
          exact .inl rfl

/-- The statistics of a resource other than a physical port. -/
theorem statsOf_eq {type : PortType} {id : ℤ} (h : type ≠ .phy) :
    statsOf (type, id) = .clientStats id := by
  cases type <;> first | rfl | exact absurd rfl h

/-- An entry that is patched is in use. -/
theorem TableInv.unused {k : ℕ} (hs : TableInv b s) (hk : k < b.maxEthports) :
    (s.portsFwdArray k).inPortId ≠ portReset ∨ (s.portsFwdArray k).outPortId = portReset := by
  by_cases hout : (s.portsFwdArray k).outPortId = portReset
  · exact .inr hout
  · exact .inl ((hs.inUse k hk).mpr (hs.patched k hk hout).1.1)

/-- The device of an added port, once it is attached or found. -/
theorem pmd_device {type : PortType} {id : ℤ} {pmd : Pmd} {k : ℕ} (hk : pmd.portId = some k)
    (hallowed : pmd.Allowed b s type id) (hfits : pmd.Fits s type id) :
    StoresOk b s (pmd.stores type id) ∧ (0 ≤ id ∧ id < maxClient) ∧
      (∃ d, (applyAll s (pmd.stores type id)).ethDevices k = some d ∧ d.resource = (type, id) ∧
        d.running = true) ∧
      ∀ j, j ≠ k → (applyAll s (pmd.stores type id)).ethDevices j = s.ethDevices j := by
  cases pmd with
  | failed => cases hk
  | attached k' =>
    cases hk
    refine ⟨⟨hallowed.2.1, trivial⟩, hfits, ⟨⟨deviceName type id, (type, id), true⟩, ?_, rfl, rfl⟩,
      ?_⟩
    · simp [Pmd.stores, Store.apply, State.setDev]
    · intro j hj
      simp [Pmd.stores, Store.apply, State.setDev, hj]
  | found k' started =>
    cases hk
    obtain ⟨hid, d, hd, hres, hrun⟩ := hfits
    cases started with
    | false => exact ⟨trivial, hid, ⟨d, hd, hres, hrun.resolve_left (by decide)⟩, fun _ _ => rfl⟩
    | true =>
      refine ⟨⟨trivial, trivial⟩, hid, ⟨{ d with running := true }, ?_, hres, rfl⟩, ?_⟩
      · simp [Pmd.stores, Store.apply, State.setDev, hd]
      · intro j hj
        simp [Pmd.stores, Store.apply, State.setDev, hj]

/-- An added port can be used. -/
theorem settled_add {pmd : Pmd} {type : PortType} {id : ℤ} {k : ℕ} (hs : Settled b s)
    (htype : type ≠ .phy) (hk : pmd.portId = some k) (hallowed : pmd.Allowed b s type id)
    (hfits : pmd.Fits s type id) :
    StoresOk b s (pmd.stores type id ++ registerPort k id type) ∧
      ∀ j < b.maxEthports,
        (applyAll s (pmd.stores type id ++ registerPort k id type)).Added j →
          (applyAll s (pmd.stores type id ++ registerPort k id type)).PortOk b j := by
  obtain ⟨hlt, hports, hmap, -, -, -⟩ := pmd_stores hk hallowed hs.device
  obtain ⟨hstores, hid, ⟨d, hd, hres, hrun⟩, hother⟩ := pmd_device hk hallowed hfits
  have hstats : statsOf d.resource = .clientStats id := by rw [hres, statsOf_eq htype]
  have hvalid : (statsOf d.resource).Valid b := by
    rw [hstats]
    exact hid
  constructor
  · apply storesOk_append hstores
    refine ⟨trivial, trivial, .inr ⟨d, hd, hstats.symm, hstats ▸ hvalid⟩, ?_, trivial⟩
    right
    have hunused := hs.table.unused hlt
    rw [← hports] at hunused
    exact hunused
  · intro j hj hadded
    rw [applyAll_append, registerPort_state] at hadded ⊢
    by_cases hjk : j = k
    · subst hjk
      refine ⟨⟨hj, d, hd, hrun⟩, d, hd, ?_, hvalid⟩
      rw [hstats]
      simp [State.registered]
    · have hmapj : ((applyAll s (pmd.stores type id)).registered k id type).portMap j =
          s.portMap j := by simp [State.registered, hjk, hmap]
      have hdevj : ((applyAll s (pmd.stores type id)).registered k id type).ethDevices j =
          s.ethDevices j := hother j hjk
      unfold State.Added at hadded
      rw [hmapj] at hadded
      obtain ⟨⟨-, e, he, hrun'⟩, f, hf, hstats', hvalid'⟩ := hs.served j hj hadded
      exact ⟨⟨hj, e, hdevj.trans he, hrun'⟩, f, hdevj.trans hf, by rw [hmapj, hstats'], hvalid'⟩

/-- The stores of `do_del` to the tables need nothing. -/
theorem storesOk_removePort {k : ℕ} {rest : List Store} (h : removePort b s k = .ok rest) :
    StoresOk b s rest := by
  unfold removePort at h
  split at h
  · cases h
    rw [forwardArrayRemove_eq]
    apply storesOk_append
    · apply storesOk_append
      · exact ⟨.inl rfl, .inl rfl, trivial⟩
      · cases (sources b s k).head? with
        | none => trivial
        | some i => exact ⟨.inl rfl, trivial⟩
    · exact ⟨trivial, trivial, .inl ⟨k, rfl⟩, trivial⟩
  · cases h

/-- The calls of `do_del` into DPDK touch one device. -/
theorem releaseDevice_other (type : PortType) (k : ℕ) (detached : Bool) {j : ℕ} (hj : j ≠ k) :
    (applyAll s (releaseDevice type k detached)).ethDevices j = s.ethDevices j := by
  unfold releaseDevice
  cases type <;> cases detached <;> simp [Store.apply, State.setDev, hj]

/-- The other ports can be used after a port has been deleted. -/
theorem settled_del {type : PortType} {k : ℕ} {detached : Bool} {rest : List Store}
    (hs : Settled b s)
    (hrem : removePort b (applyAll s (releaseDevice type k detached)) k = .ok rest) :
    StoresOk b s (releaseDevice type k detached ++ rest) ∧
      ∀ j < b.maxEthports, (applyAll s (releaseDevice type k detached ++ rest)).Added j →
        (applyAll s (releaseDevice type k detached ++ rest)).PortOk b j := by
  obtain ⟨-, hstate⟩ := removePort_state hrem
  obtain ⟨-, hmap⟩ := releaseDevice_tables (s := s) type k detached
  constructor
  · apply storesOk_append _ (storesOk_removePort hrem)
    unfold releaseDevice
    cases type <;> cases detached <;> simp [StoresOk, State.StoreOk]
  · intro j hj hadded
    rw [applyAll_append, hstate] at hadded ⊢
    have hjk : j ≠ k := by
      rintro rfl
      simp [State.removed, State.Added] at hadded
    have hmapj : ((applyAll s (releaseDevice type k detached)).removed b k).portMap j =
        s.portMap j := by simp [State.removed, hjk, hmap]
    have hdevj : ((applyAll s (releaseDevice type k detached)).removed b k).ethDevices j =
        s.ethDevices j := releaseDevice_other type k detached hjk
    unfold State.Added at hadded
    rw [hmapj] at hadded
    obtain ⟨⟨-, e, he, hrun⟩, f, hf, hstats, hvalid⟩ := hs.served j hj hadded
    exact ⟨⟨hj, e, hdevj.trans he, hrun⟩, f, hdevj.trans hf, by rw [hmapj, hstats], hvalid⟩

/-- A patch between two added ports has what its stores need. -/
theorem storesOk_patch {i o : ℕ} (hs : Settled b s) (hi : s.ValidPort b i) (ho : s.ValidPort b o) :
    StoresOk b s [.inPortId i i, .rxFunc i, .txFunc i, .outPortId i o,
      .inPortId o o, .rxFunc o, .txFunc o] := by
  have hai := hi.added hs.table hs.device
  have hao := ho.added hs.table hs.device
  have hin := (hs.table.inUse o ho.1).mpr hao
  refine ⟨.inr (.inl ((hs.table.inUse i hi.1).mpr hai)), trivial, trivial,
    .inr ⟨hs.served i hi.1 hai, ?_, hs.served o ho.1 hao⟩, .inr (.inl ?_), trivial, trivial, trivial⟩
  · simp [Store.apply, State.setPort]
  · have hlt := b.lt_reset
    by_cases hoi : o = i
    · subst hoi
      have hne : o ≠ portReset := by
        have := ho.1
        omega
      simpa [Store.apply, State.setPort] using hne
    · simpa [Store.apply, State.setPort, hoi] using hin

/-- A command that meets its condition has stores that have what they need, and
leads from settled tables to settled tables. -/
theorem settled_command {i : Input} {stores : List Store} (hs : Settled b s)
    (hallowed : i.Allowed b s) (hmeets : i.meets b s = true)
    (hfits : ∀ type id, requested i.command = some (type, id) → i.pmd.Fits s type id)
    (h : parseCommand b s i.pmd i.detached i.command = .ok stores) :
    StoresOk b s stores ∧ Settled b (applyAll s stores) := by
  have hsettles := settles_input hs.table hs.device hallowed
  rw [h] at hsettles
  suffices hgoal : StoresOk b s stores ∧ ∀ j < b.maxEthports, (applyAll s stores).Added j →
      (applyAll s stores).PortOk b j from
    ⟨hgoal.1, hsettles.2.mpr hmeets, hsettles.1, hgoal.2⟩
  cases hcmd : commandOf i.command with
  | error _ =>
    simp only [parseCommand, hcmd, bind, Except.bind] at h
    cases h
  | ok command =>
    simp only [parseCommand, hcmd, bind, Except.bind] at h
    simp only [Input.meets, hcmd] at hmeets
    cases command with
    | other =>
      cases h
      exact ⟨trivial, hs.served⟩
    | stop =>
      cases h
      exact ⟨⟨fun hne => absurd rfl hne, trivial⟩, hs.served⟩
    | forward =>
      cases h
      refine ⟨⟨fun _ j hj => ?_, trivial⟩, hs.served⟩
      obtain ⟨⟨haj, hcj⟩, hlt, hat, hct⟩ := hs.table.patched j hj.1 hj.2.2
      exact ⟨hs.served j hj.1 haj, hcj.1, hs.served _ hlt hat, hct.2⟩
    | add resUid =>
      rcases doAdd_cases h hmeets with rfl | ⟨uid, type, k, hparse, hvalid, htype, hk, rfl⟩
      · exact ⟨trivial, hs.served⟩
      · have hreq : requested i.command = some (type, uid.portId) := by
          simp [requested, hcmd, hparse, hvalid, htype]
        exact settled_add hs (resourceType_known htype).2 hk (hallowed _ _ hreq) (hfits _ _ hreq)
    | reset =>
      cases h
      constructor
      · exact storesOk_resetAll _
      · rw [forwardArrayReset_state]
        exact hs.served
    | patch src dst =>
      rcases patchPorts_cases h with rfl | ⟨p, q, hp, hq, rfl⟩
      · exact ⟨trivial, hs.served⟩
      · constructor
        · exact storesOk_patch hs hp hq
        · rw [addPatch_state]
          exact hs.served
    | del resUid =>
      cases hdel : doDel b { s with cmd := .stop } i.detached resUid with
      | error _ =>
        simp only [runCommand, hdel, bind, Except.bind] at h
        cases h
      | ok rest =>
        simp only [runCommand, hdel, bind, Except.bind, pure, Except.pure] at h
        cases h
        have hs' : Settled b { s with cmd := .stop } :=
          ⟨hs.table.congr rfl rfl, hs.device.congr rfl rfl rfl, hs.served⟩
        have hgoal : StoresOk b { s with cmd := .stop } rest ∧
            ∀ j < b.maxEthports, (applyAll { s with cmd := .stop } rest).Added j →
              (applyAll { s with cmd := .stop } rest).PortOk b j := by
          rcases doDel_cases hdel hmeets with rfl | ⟨type, k, rest', -, hrem, rfl⟩
          · exact ⟨trivial, hs'.served⟩
          · exact settled_del hs' hrem
        exact ⟨⟨fun hne => absurd rfl hne, hgoal.1⟩, hgoal.2⟩

end Commands

/-! ## Every run -/

section Runs

variable {b : Build}

/-- Each port that `main` has added can be used. -/
theorem settled_started (phys : PhysicalPorts b) : Settled b (started phys) := by
  refine ⟨tableInv_started phys, deviceInv_started phys, ?_⟩
  intro k hk hadded
  have hmem := (started_added phys hk).mp hadded
  have hmap := (started_eq phys k hk).2
  rw [if_pos hmem] at hmap
  obtain ⟨name, hname⟩ := Option.isSome_iff_exists.mp (List.mem_filter.mp hmem).2
  have hdev : (started phys).ethDevices k = some ⟨name, (.phy, k), true⟩ := by
    unfold started mainStores
    rw [applyAll_append, applyAll_append, forwardArrayInit_state, portMapInit_state,
      registerPhy_state]
    simp [zeroed, physicalDevices, hname]
  have hstats : statsOf (.phy, (k : ℤ)) = .portStats k := by simp [statsOf]
  refine ⟨⟨hk, _, hdev, rfl⟩, _, hdev, ?_, ?_⟩
  · rw [hmap, hstats]
  · rw [hstats]
    exact hk

/-- The invariant holds at the start. -/
theorem inv_start (phys : PhysicalPorts b) : (System.start phys).Inv b := by
  have hs := settled_started phys
  refine ⟨trivial, hs, ?_, trivial⟩
  intro j _ hj
  obtain ⟨⟨haj, hcj⟩, hlt, hat, hct⟩ := hs.table.patched j hj.1 hj.2.2
  exact ⟨hs.served j hj.1 haj, hcj.1, hs.served _ hlt hat, hct.2⟩

/-- A step that meets its condition keeps the invariant. -/
theorem System.Inv.step {sys t : System} {e : Event} (h : sys.Inv b) (hallowed : e.Allowed b sys)
    (hmeets : e.Meets b sys) (hstep : sysStep b e sys = some t) : t.Inv b := by
  cases e with
  | command i =>
    cases hp : sys.pending with
    | cons c cs =>
      simp only [sysStep, hp] at hstep
      cases hstep
    | nil =>
      simp only [sysStep, hp] at hstep
      cases hstores : parseCommand b sys.tables i.pmd i.detached i.command with
      | error _ =>
        rw [hstores] at hstep
        cases hstep
      | ok stores =>
        rw [hstores] at hstep
        cases hstep
        have hs : Settled b sys.tables := by
          have hs := h.settles
          rwa [hp] at hs
        obtain ⟨hok, hs'⟩ := settled_command hs hallowed hmeets.1 hmeets.2 hstores
        exact ⟨hok, hs', h.worker.ahead, h.worker.current⟩
  | store =>
    cases hp : sys.pending with
    | nil =>
      simp only [sysStep, hp] at hstep
      cases hstep
    | cons c cs =>
      simp only [sysStep, hp] at hstep
      cases hstep
      have hstores := h.stores
      have hsettles := h.settles
      rw [hp] at hstores hsettles
      have hmeets' : sys.StoreMeets b c := hmeets c (by simp [hp])
      exact ⟨hstores.2, hsettles, h.worker.apply hstores.1 hmeets'⟩
  | worker n =>
    simp only [sysStep, Option.map_eq_some_iff] at hstep
    obtain ⟨w, hw, rfl⟩ := hstep
    exact ⟨h.stores, h.settles, h.worker.step hw⟩

/-- In every interleaving of the stores of the command thread with the loads and
calls of the worker, each step of which meets its condition, every call the
worker makes is through a pointer that is set, on a device that is attached and
running, and what it counts goes to the statistics of that port. -/
theorem forward_safe {phys : PhysicalPorts b} {sys : System}
    (h : Reaches (sysStep b) (fun e s => e.Allowed b s ∧ e.Meets b s) (.start phys) sys) :
    sys.Safe b := by
  have hinv : sys.Inv b := by
    apply Reaches.invariant h (inv_start phys)
    intro e u v hu hguard hstep
    exact hu.step hguard.1 hguard.2 hstep
  exact hinv.worker.safe

/-- Any store is safe while forwarding is off and the worker is between passes. -/
theorem storeMeets_of_idle {sys : System} (hw : sys.worker = .poll)
    (hcmd : sys.tables.cmd ≠ .forward) (c : Store) : sys.StoreMeets b c := by
  have hahead : ∀ j, ¬ sys.Ahead j := by
    intro j hj
    unfold System.Ahead at hj
    rw [hw] at hj
    exact hj.elim hcmd id
  have huse : ∀ k, ¬ sys.InUse b k := by
    rintro k (⟨j, hj, -⟩ | hk)
    · exact hahead j hj
    · rw [hw] at hk
      exact hk
  cases c with
  | outPortId i v =>
    simp only [System.StoreMeets]
    split
    · rw [hw]
      intro heq
      cases heq
    · rintro (hj | hj | hj)
      · exact absurd hj (hahead i)
      · rw [hw] at hj
        cases hj
      · rw [hw] at hj
        cases hj
  | devStop k => exact huse k
  | devClose k => exact huse k
  | devDetach k => exact huse k
  | mapStats k p =>
    cases p with
    | defaultStats i => exact huse k
    | _ => trivial
  | _ => trivial

/-- A test for steps that edit the tables while the worker is idle and add ports
on new devices only. -/
def Event.idleEdit (b : Build) (e : Event) (sys : System) : Bool :=
  match e with
  | .command i => i.allowed b sys.tables && i.meets b sys.tables &&
      (requested i.command).all fun r =>
        decide (0 ≤ r.2 ∧ r.2 < maxClient) && i.pmd.portId.all fun k => i.pmd = .attached k
  | .store => sys.worker = .poll && sys.tables.cmd ≠ .forward
  | .worker _ => true

/-- Such steps meet their condition. -/
theorem Event.meets_of_idleEdit {e : Event} {sys : System} (h : e.idleEdit b sys = true) :
    e.Allowed b sys ∧ e.Meets b sys := by
  cases e with
  | command i =>
    simp only [Event.idleEdit, Bool.and_eq_true] at h
    refine ⟨Input.allowed_sound h.1.1, h.1.2, ?_⟩
    intro type id hreq
    have hfits := h.2
    simp only [hreq, Option.all_some, Bool.and_eq_true, decide_eq_true_eq] at hfits
    cases hp : i.pmd with
    | failed => trivial
    | attached k => exact hfits.1
    | found k started => simp [hp, Pmd.portId] at hfits
  | store =>
    simp only [Event.idleEdit, Bool.and_eq_true, decide_eq_true_eq] at h
    exact ⟨trivial, fun c _ => storeMeets_of_idle h.1 h.2 c⟩
  | worker n => exact ⟨trivial, trivial⟩

/-- The events of a command and its `n` stores. -/
def commandRun (i : Input) (n : ℕ) : List Event := .command i :: List.replicate n .store

/-- Physical port 0 is patched to a new ring before forwarding is switched on. -/
def ringEvents : List Event :=
  commandRun (attach "add ring:0" 2) 5 ++ commandRun (line "patch phy:0 ring:0") 7 ++
    commandRun (line "forward") 1 ++ [0, 0, 0, 0, 0, 0, 2, 0, 0].map .worker

/-- In `ringEvents` two packets are received and about to be sent to the ring. -/
theorem forward_safe_phy_to_ring :
    ∃ sys, runAll (tested (sysStep .default) (Event.idleEdit .default)) ringEvents
        (.start twoPhys) = some sys ∧ sys.worker = .callTx 0 2 2 true ∧ sys.Safe .default := by
  have hrun : ∃ sys, runAll (tested (sysStep .default) (Event.idleEdit .default)) ringEvents
      (.start twoPhys) = some sys ∧ sys.worker = .callTx 0 2 2 true :=
    exists_of_runAll (by decide +kernel)
  obtain ⟨sys, hsys, hw⟩ := hrun
  refine ⟨sys, hsys, hw, forward_safe (reaches_of_runAll_tested hsys ?_)⟩
  exact fun e _ s htest => Event.meets_of_idleEdit htest

/-- While forwarding is on, two physical ports are patched for the first time; the
worker goes on after four of the seven stores. -/
def patchEvents : List Event :=
  commandRun (line "forward") 1 ++ [.worker 0, .worker 0] ++
    commandRun (line "patch phy:0 phy:1") 4 ++ [0, 0, 0, 0, 1, 0, 0].map .worker

/-- In `patchEvents` the worker receives a packet and calls a null pointer: the
target is stored before its `tx_func`. -/
theorem patch_calls_null_tx_func :
    ∃ sys, runAll (sysStep .default) patchEvents (.start twoPhys) = some sys ∧
      ¬ sys.Safe .default := by
  have hrun : ∃ sys, runAll (sysStep .default) patchEvents (.start twoPhys) = some sys ∧
      sys.worker = .callTx 0 1 1 false := exists_of_runAll (by decide +kernel)
  obtain ⟨sys, hsys, hw⟩ := hrun
  refine ⟨sys, hsys, ?_⟩
  unfold System.Safe
  rw [hw]
  exact fun h => Bool.false_ne_true h.1

end Runs

end Spp.Nfv
