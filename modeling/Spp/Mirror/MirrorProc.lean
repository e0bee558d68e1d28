import Mathlib.Data.List.TakeWhile
import Spp.Vf.TxBurst

/-!
# Who frees what a mirror leaves of a burst

`mirror_proc` sends a copy of every packet to its second port and the packet
itself to its first. The number of packets that each port accepts decides where
the loops that free the rest begin.
-/

namespace Spp.Mirror

open Vf

/-- The build of `spp_mirror`: with or without `SPP_MIRROR_SHALLOWCOPY`. -/
inductive CopyMode
  | deep
  | shallow
  deriving DecidableEq

/-- An entry of the array `copybufs`: what the stack held, or NULL, or a copy
with its segments. -/
inductive CopyBuf
  | unassigned
  | null
  | copy (segs : List ℕ)
  deriving DecidableEq

/-- The segments of an entry. -/
def CopyBuf.segs : CopyBuf → List ℕ
  | .copy segs => segs
  | _ => []

/-- The entry is a copy. -/
def CopyBuf.IsCopy : CopyBuf → Prop
  | .copy _ => True
  | _ => False

/-- `g_mirror_pool`: the number of allocations that were tried, the segments
that were allocated, and those that were freed while a copy was made. A segment
is named by the number of its allocation. -/
structure Pool where
  next : ℕ := 0
  allocated : List ℕ := []
  freed : List ℕ := []

variable {ρ : Type} (alloc : ℕ → Bool)

/-- `rte_pktmbuf_alloc`, where `alloc` says which allocations succeed. -/
def rtePktmbufAlloc (pool : Pool) : Option ℕ × Pool :=
  if alloc pool.next then
    (some pool.next,
      { pool with next := pool.next + 1, allocated := pool.allocated ++ [pool.next] })
  else (none, { pool with next := pool.next + 1 })

/-- The deep copy of the segments that are left, behind the ones in `mirrorMbuf`. -/
def deepCopy : ℕ → List ℕ → Pool → CopyBuf × Pool
  | 0, mirrorMbuf, pool => (.copy mirrorMbuf, pool)
  | n + 1, mirrorMbuf, pool =>
    match rtePktmbufAlloc alloc pool with
    | (none, pool) => (.null, { pool with freed := pool.freed ++ mirrorMbuf })
    | (some copyMbuf, pool) => deepCopy n (mirrorMbuf ++ [copyMbuf]) pool

/-- `rte_pktmbuf_clone` of DPDK on a packet of `n` segments: it allocates one
segment for each and returns NULL, without keeping any, if one cannot be had. -/
def rtePktmbufClone (n : ℕ) (pool : Pool) : CopyBuf × Pool :=
  let segs := (List.range' pool.next n).takeWhile alloc
  if segs.length = n then
    (.copy segs, { pool with next := pool.next + n, allocated := pool.allocated ++ segs })
  else
    (.null,
      { next := pool.next + segs.length + 1
        allocated := pool.allocated ++ segs
        freed := pool.freed ++ segs })

/-- The copy of a packet of `n` segments. -/
def copyPacket (mode : CopyMode) (n : ℕ) (pool : Pool) : CopyBuf × Pool :=
  match mode with
  | .deep => deepCopy alloc n [] pool
  | .shallow => rtePktmbufClone alloc n pool

/-- The loop of `mirror_proc` over the packets, with the entries it assigns. -/
def copyPackets (mode : CopyMode) (nbSegs : ρ → ℕ) : List ρ → Pool → List CopyBuf × Pool
  | [], pool => ([], pool)
  | pkt :: pkts, pool =>
    let made := copyPacket alloc mode (nbSegs pkt) pool
    let rest := copyPackets mode nbSegs pkts made.2
    (made.1 :: rest.1, rest.2)

/-- What a pass has done: the packets it has received, which of them were
accepted and freed, the entries of `copybufs` that were given to a function,
which of them were accepted and freed, and the pool. -/
structure MirrorPass (ρ : Type) where
  received : List ρ := []
  accepted : List ρ := []
  freed : List ρ := []
  copyUsed : List CopyBuf := []
  copyAccepted : List CopyBuf := []
  copyFreed : List CopyBuf := []
  pool : Pool := {}

/-- `spp_eth_tx_burst` to a transmit port whose abilities do not fail, if the port
has a device. -/
def txTo {β : Type} (tx : PortInfo) (room : ℕ) (pkts : List β) : TxOutcome β :=
  if 0 ≤ tx.dpdkPort then rteEthTxBurst room pkts else ⟨0, [], []⟩

/-- `mirror_proc` on a burst. The devices of the two transmit ports have room
for `room₁` packets and `room₂` copies, and no ability of these ports fails. -/
def mirrorProc (mode : CopyMode) (nbSegs : ρ → ℕ) (path : DataPath) (bufs : List ρ)
    (room₁ room₂ : ℕ) : MirrorPass ρ :=
  if ¬(path.numTx = 2 ∧ path.numRx = 1) then {}
  else if bufs = [] then {}
  else
    let nbRx := bufs.length
    let mirrored := 0 ≤ (path.ports 1).tx.dpdkPort
    let copies :=
      if mirrored then copyPackets alloc mode nbSegs bufs {}
      else (List.replicate nbRx .unassigned, {})
    let out₂ := txTo (path.ports 1).tx room₂ copies.1
    let out₁ := txTo (path.ports 0).tx room₁ bufs
    let nbTx := if out₁.nTx < out₂.nTx then out₂.nTx else out₁.nTx
    { received := bufs
      accepted := out₁.accepted
      freed := bufs.drop nbTx
      copyUsed := (if mirrored then copies.1 else []) ++ copies.1.drop out₂.nTx
      copyAccepted := out₂.accepted
      copyFreed := copies.1.drop out₂.nTx
      pool := copies.2 }

/-- Every packet and every segment of a copy is released once, and only copies
are given to a function. -/
structure MirrorPass.Released (pass : MirrorPass ρ) : Prop where
  originals : ReleasedOnce pass.received pass.accepted pass.freed
  copies : ReleasedOnce pass.pool.allocated (pass.copyAccepted.flatMap CopyBuf.segs)
    (pass.copyFreed.flatMap CopyBuf.segs ++ pass.pool.freed)
  used : ∀ buf ∈ pass.copyUsed, buf.IsCopy

/-- The number of packets that a transmit port takes of a burst. -/
def taken (tx : PortInfo) (room n : ℕ) : ℕ := if 0 ≤ tx.dpdkPort then min room n else 0

/-- The condition on a burst: the second port has a device, every allocation for
a copy succeeds, and the second port takes no more than the first. -/
structure CopiesFit (nbSegs : ρ → ℕ) (path : DataPath) (bufs : List ρ) (room₁ room₂ : ℕ) :
    Prop where
  device : 0 ≤ (path.ports 1).tx.dpdkPort
  alloc : ∀ k < (bufs.map nbSegs).sum, alloc k = true
  taken : taken (path.ports 1).tx room₂ bufs.length ≤ taken (path.ports 0).tx room₁ bufs.length

section Copy

variable {alloc} {pool pool₁ pool₂ : Pool} {segs₁ segs₂ : List ℕ}

/-- The segments that were allocated from one pool to the next are the given
ones and those that were freed. -/
def Accounted (pool pool' : Pool) (segs : List ℕ) : Prop :=
  ∃ new, pool'.allocated = pool.allocated ++ new ∧ (segs ++ pool'.freed).Perm (pool.freed ++ new)

open scoped List in
theorem Accounted.trans (h₁ : Accounted pool pool₁ segs₁) (h₂ : Accounted pool₁ pool₂ segs₂) :
    Accounted pool pool₂ (segs₁ ++ segs₂) := by
  obtain ⟨new₁, halloc₁, hperm₁⟩ := h₁
  obtain ⟨new₂, halloc₂, hperm₂⟩ := h₂
  refine ⟨new₁ ++ new₂, by rw [halloc₂, halloc₁, List.append_assoc], ?_⟩
  calc (segs₁ ++ segs₂ ++ pool₂.freed)
    _ = segs₁ ++ (segs₂ ++ pool₂.freed) := List.append_assoc ..
    _ ~ segs₁ ++ (pool₁.freed ++ new₂) := hperm₂.append_left segs₁
    _ = segs₁ ++ pool₁.freed ++ new₂ := (List.append_assoc ..).symm
    _ ~ pool.freed ++ new₁ ++ new₂ := hperm₁.append_right new₂
    _ = pool.freed ++ (new₁ ++ new₂) := List.append_assoc ..

/-- What making a copy of a packet of `n` segments does to the pool. -/
structure Copied (alloc : ℕ → Bool) (n : ℕ) (pool : Pool) (made : CopyBuf × Pool) : Prop where
  accounted : Accounted pool made.2 made.1.segs
  isCopy : made.1.IsCopy ↔ ∀ k < n, alloc (pool.next + k) = true
  next : made.1.IsCopy → made.2.next = pool.next + n

/-- The loop of a deep copy, behind the segments in `mirrorMbuf`. -/
theorem deepCopy_spec (n : ℕ) (mirrorMbuf : List ℕ) (pool : Pool) :
    (∃ new, (deepCopy alloc n mirrorMbuf pool).2.allocated = pool.allocated ++ new ∧
        ((deepCopy alloc n mirrorMbuf pool).1.segs ++
          (deepCopy alloc n mirrorMbuf pool).2.freed).Perm (pool.freed ++ (mirrorMbuf ++ new))) ∧
      ((deepCopy alloc n mirrorMbuf pool).1.IsCopy ↔ ∀ k < n, alloc (pool.next + k) = true) ∧
      ((deepCopy alloc n mirrorMbuf pool).1.IsCopy →
        (deepCopy alloc n mirrorMbuf pool).2.next = pool.next + n) := by
  induction n generalizing mirrorMbuf pool with
  | zero =>
    refine ⟨⟨[], (List.append_nil _).symm, ?_⟩, ?_, fun _ => rfl⟩
    · rw [List.append_nil]
      exact List.perm_append_comm
    · exact iff_of_true trivial fun k hk => absurd hk (Nat.not_lt_zero k)
  | succ n ih =>
    unfold deepCopy rtePktmbufAlloc
    by_cases halloc : alloc pool.next = true
    · rw [if_pos halloc]
      obtain ⟨⟨new, hnew, hperm⟩, hiff, hnext⟩ := ih (mirrorMbuf ++ [pool.next])
        { pool with next := pool.next + 1, allocated := pool.allocated ++ [pool.next] }
      refine ⟨⟨pool.next :: new, ?_, ?_⟩, hiff.trans ⟨fun hall k hk => ?_, fun hall k hk => ?_⟩,
        fun hcopy => ?_⟩
      · rw [hnew]
        simp
      · simpa using hperm
      · cases k with
        | zero => exact halloc
        | succ k =>
          have hk' := hall k (by omega)
          rwa [Nat.add_assoc, Nat.add_comm 1] at hk'
      · have hk' := hall (k + 1) (by omega)
        rwa [Nat.add_comm k, ← Nat.add_assoc] at hk'
      · rw [hnext hcopy]
        dsimp only
        omega
    · rw [if_neg halloc]
      refine ⟨⟨[], (List.append_nil _).symm, ?_⟩, ?_, fun hcopy => hcopy.elim⟩
      · simp [CopyBuf.segs]
      · exact iff_of_false id fun hall => halloc (hall 0 (Nat.succ_pos n))

theorem rtePktmbufClone_spec (n : ℕ) (pool : Pool) :
    Copied alloc n pool (rtePktmbufClone alloc n pool) := by
  have hall : ((List.range' pool.next n).takeWhile alloc).length = n ↔
      ∀ k < n, alloc (pool.next + k) = true := by
    have hself : ((List.range' pool.next n).takeWhile alloc).length = n ↔
        (List.range' pool.next n).takeWhile alloc = List.range' pool.next n := by
      constructor
      · intro hlen
        exact (List.takeWhile_prefix alloc).eq_of_length (by rw [hlen, List.length_range'])
      · intro heq
        rw [heq, List.length_range']
    rw [hself, List.takeWhile_eq_self_iff]
    constructor
    · intro hmem k hk
      exact hmem _ (List.mem_range'_1.mpr (by omega))
    · intro hk seg hseg
      obtain ⟨hle, hlt⟩ := List.mem_range'_1.mp hseg
      have hseg' := hk (seg - pool.next) (by omega)
      rwa [Nat.add_sub_cancel' hle] at hseg'
  unfold rtePktmbufClone
  dsimp only
  split
  · rename_i hlen
    exact ⟨⟨_, rfl, List.perm_append_comm⟩, iff_of_true trivial (hall.mp hlen), fun _ => rfl⟩
  · rename_i hlen
    exact ⟨⟨_, rfl, .refl _⟩, iff_of_false id (mt hall.mpr hlen), fun hcopy => hcopy.elim⟩

/-- A copy is made, whole, iff all its allocations succeed. -/
theorem copyPacket_spec (mode : CopyMode) (n : ℕ) (pool : Pool) :
    Copied alloc n pool (copyPacket alloc mode n pool) := by
  cases mode with
  | deep =>
    obtain ⟨haccounted, hiff, hnext⟩ := @deepCopy_spec alloc n [] pool
    exact ⟨haccounted, hiff, hnext⟩
  | shallow => exact rtePktmbufClone_spec n pool

/-- The copies of a burst are all made iff all allocations for it succeed. -/
theorem copyPackets_spec (mode : CopyMode) (nbSegs : ρ → ℕ) (pkts : List ρ) (pool : Pool) :
    (copyPackets alloc mode nbSegs pkts pool).1.length = pkts.length ∧
      Accounted pool (copyPackets alloc mode nbSegs pkts pool).2
        ((copyPackets alloc mode nbSegs pkts pool).1.flatMap CopyBuf.segs) ∧
      ((∀ buf ∈ (copyPackets alloc mode nbSegs pkts pool).1, buf.IsCopy) ↔
        ∀ k < (pkts.map nbSegs).sum, alloc (pool.next + k) = true) := by
  induction pkts generalizing pool with
  | nil => exact ⟨rfl, ⟨[], (List.append_nil _).symm, by simp [copyPackets]⟩, by simp [copyPackets]⟩
  | cons pkt pkts ih =>
    obtain ⟨haccounted, hcopy, hnext⟩ := @copyPacket_spec alloc mode (nbSegs pkt) pool
    obtain ⟨hlen, hrest, hcopies⟩ := ih (copyPacket alloc mode (nbSegs pkt) pool).2
    unfold copyPackets
    simp only [List.length_cons, List.flatMap_cons, List.mem_cons, forall_eq_or_imp, List.map_cons,
      List.sum_cons]
    refine ⟨by rw [hlen], haccounted.trans hrest, ?_⟩
    constructor
    · intro ⟨hmade, hall⟩ k hk
      rcases Nat.lt_or_ge k (nbSegs pkt) with hlt | hge
      · exact hcopy.mp hmade k hlt
      · have hk' := hcopies.mp hall (k - nbSegs pkt) (by omega)
        rwa [hnext hmade, Nat.add_assoc, Nat.add_sub_cancel' hge] at hk'
    · intro hall
      have hmade := hcopy.mpr fun k hk => hall k (by omega)
      refine ⟨hmade, hcopies.mpr fun k hk => ?_⟩
      rw [hnext hmade, Nat.add_assoc]
      exact hall _ (by omega)

end Copy

section Pass

theorem taken_le (tx : PortInfo) (room n : ℕ) : taken tx room n ≤ n := by
  unfold taken
  split
  · exact Nat.min_le_right ..
  · exact Nat.zero_le n

/-- A port takes the first packets of a burst and tells how many. -/
theorem txTo_spec {β : Type} (tx : PortInfo) (room : ℕ) (pkts : List β) :
    (txTo tx room pkts).nTx = taken tx room pkts.length ∧
      (txTo tx room pkts).accepted = pkts.take (taken tx room pkts.length) := by
  unfold txTo taken rteEthTxBurst
  split
  · exact ⟨rfl, (List.take_eq_take_min ..)⟩
  · exact ⟨rfl, rfl⟩

/-- The loop that frees packets of which `taken₁` are accepted begins where it
should iff the second port has taken no more than the first. -/
theorem originals_iff {bufs : List ρ} {taken₁ taken₂ : ℕ} (h₂ : taken₂ ≤ bufs.length) :
    ReleasedOnce bufs (bufs.take taken₁)
      (bufs.drop (if taken₁ < taken₂ then taken₂ else taken₁)) ↔ taken₂ ≤ taken₁ := by
  unfold ReleasedOnce
  constructor
  · intro hperm
    have hlen := hperm.length_eq
    simp only [List.length_append, List.length_take, List.length_drop] at hlen
    split at hlen <;> omega
  · intro hle
    rw [if_neg (by omega), List.take_append_drop]

/-- The copies of a burst and the segments that were freed while they were made
are released once. -/
theorem copies_released {bufs : List CopyBuf} {pool : Pool} (n : ℕ)
    (h : Accounted {} pool (bufs.flatMap CopyBuf.segs)) :
    ReleasedOnce pool.allocated ((bufs.take n).flatMap CopyBuf.segs)
      ((bufs.drop n).flatMap CopyBuf.segs ++ pool.freed) := by
  obtain ⟨new, halloc, hperm⟩ := h
  unfold ReleasedOnce
  rw [← List.append_assoc, ← List.flatMap_append, List.take_append_drop, halloc]
  exact hperm

/-- `mirror_proc` releases every packet and every segment of a copy once, and
gives only copies to a function, iff it receives nothing or its copies fit. -/
theorem mirrorProc_released_iff (mode : CopyMode) (nbSegs : ρ → ℕ) (path : DataPath)
    (bufs : List ρ) (room₁ room₂ : ℕ) :
    (mirrorProc alloc mode nbSegs path bufs room₁ room₂).Released ↔
      (path.numTx = 2 ∧ path.numRx = 1 → bufs ≠ [] →
        CopiesFit alloc nbSegs path bufs room₁ room₂) := by
  have hempty : ({} : MirrorPass ρ).Released := ⟨.refl _, .refl _, nofun⟩
  unfold mirrorProc
  split
  · rename_i hpath
    exact iff_of_true hempty fun h => absurd h hpath
  · rename_i hpath
    split
    · rename_i hnil
      exact iff_of_true hempty fun _ h => absurd hnil h
    · rename_i hbufs
      refine Iff.trans ?_ ⟨fun hfit _ _ => hfit, fun h => h (not_not.mp hpath) hbufs⟩
      obtain ⟨hn₁, hacc₁⟩ := txTo_spec (path.ports 0).tx room₁ bufs
      dsimp only
      rw [hn₁, hacc₁]
      by_cases hdevice : 0 ≤ (path.ports 1).tx.dpdkPort
      · obtain ⟨hlen, haccounted, hcopies⟩ :=
          @copyPackets_spec _ alloc mode nbSegs bufs {}
        simp only [if_pos hdevice]
        obtain ⟨hn₂, hacc₂⟩ := txTo_spec (path.ports 1).tx room₂
          (copyPackets alloc mode nbSegs bufs {}).1
        rw [hn₂, hacc₂, hlen]
        constructor
        · intro hreleased
          refine ⟨hdevice, fun k hk => ?_, (originals_iff (taken_le ..)).mp hreleased.originals⟩
          have hall := hcopies.mp fun buf hbuf =>
            hreleased.used buf (List.mem_append_left _ hbuf)
          simpa using hall k hk
        · intro hfit
          have hall := hcopies.mpr fun k hk => by simpa using hfit.alloc k hk
          refine ⟨(originals_iff (taken_le ..)).mpr hfit.taken, copies_released _ haccounted,
            fun buf hbuf => ?_⟩
          rcases List.mem_append.mp hbuf with hbuf | hbuf
          · exact hall buf hbuf
          · exact hall buf (List.mem_of_mem_drop hbuf)
      · -- the entries that are freed were never assigned
        refine iff_of_false (fun hreleased => ?_) fun hfit => hdevice hfit.device
        refine hreleased.used .unassigned ?_
        obtain ⟨hn₂, -⟩ := txTo_spec (path.ports 1).tx room₂
          (List.replicate bufs.length CopyBuf.unassigned)
        simp only [if_neg hdevice, hn₂, taken, List.drop_zero, List.nil_append]
        exact List.mem_replicate.mpr ⟨mt List.length_eq_zero_iff.mp hbufs, rfl⟩

end Pass

section Examples

/-- A mirror from one physical port to two others. -/
def oneMirror : ComponentInfo :=
  { name := "m1".toList, type := .mirror, rxPorts := [⟨.nic, 0⟩], txPorts := [⟨.nic, 1⟩, ⟨.nic, 2⟩] }

/-- If the second port accepts both copies and the first only one packet, the
other packet is neither accepted nor freed. -/
theorem not_released_second_more :
    ∃ path, sppMirrorUpdate physicalPort oneMirror = some path ∧
      let pass := mirrorProc (fun _ => true) .deep (fun _ => 1) path [0, 1] 1 2
      pass.accepted = [0] ∧ pass.freed = [] ∧ ¬pass.Released := by
  refine ⟨_, rfl, rfl, rfl, fun hreleased => ?_⟩
  have hlen := hreleased.originals.length_eq
  exact absurd hlen (by decide +kernel)

end Examples

end Spp.Mirror
