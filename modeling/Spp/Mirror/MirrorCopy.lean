import Mathlib.Data.List.Forall2
import Spp.Mirror.MbufMemory
import Spp.Mirror.MirrorProc

/-!
# What a mirror copies

`mirror_proc` on packets in memory: the loop that copies the segments of a
packet, or `rte_pktmbuf_clone` in their place, and the two ports that operate on
the copies and on the packets themselves. Each port sends what its own operation
makes of the frame that was received.
-/

namespace Spp.Mirror.Frames

open Vf Vlan

section Copy

/-- The segments that `nb_segs`, a `uint16_t`, can count. -/
def maxSegs : ℕ := 2 ^ 16

/-- `IND_ATTACHED_MBUF` of DPDK. -/
def indAttachedMbuf : ℕ := 2 ^ 62

/-- `rte_pktmbuf_alloc` from the pool of the mirror, where `alloc` says which
allocations succeed. -/
def rtePktmbufAlloc (alloc : ℕ → Bool) (m : Memory) : Option ℕ × Memory :=
  if alloc m.fresh then
    (some m.fresh, { m with
      mbuf := Function.update m.mbuf m.fresh { bufAddr := m.fresh }
      fresh := m.fresh + 1 })
  else (none, { m with fresh := m.fresh + 1 })

/-- What one segment gets of another: the fields and the data in a deep copy, the
fields and the buffer in `rte_pktmbuf_attach` of a shallow one. -/
def copySegment (mode : CopyMode) (m : Memory) (copyMbuf orgMbuf : ℕ) : Except Stop Memory :=
  let copy := m.mbuf copyMbuf
  let org := m.mbuf orgMbuf
  match mode with
  | .deep =>
    let copied :=
      { copy with
        dataOff := org.dataOff, dataLen := org.dataLen, port := org.port
        vlanTci := org.vlanTci, txOffload := org.txOffload, hash := org.hash
        next := none, pktLen := org.pktLen, nbSegs := org.nbSegs
        olFlags := org.olFlags, packetType := org.packetType }
    if org.dataOff + org.dataLen ≤ rteMbufDefaultBufSize then
      .ok { m with
        mbuf := Function.update m.mbuf copyMbuf copied
        buf := Function.update m.buf copy.bufAddr fun k =>
          if org.dataOff ≤ k ∧ k < org.dataOff + org.dataLen then m.buf org.bufAddr k
          else m.buf copy.bufAddr k }
    else .error (.undef)
  | .shallow =>
    .ok { m with
      mbuf := Function.update m.mbuf copyMbuf
        { org with
          next := none, pktLen := org.dataLen, nbSegs := 1
          olFlags := org.olFlags ||| indAttachedMbuf } }

/-- The copies that are linked so far: the first, the last, and their number. -/
structure CopyChain where
  head : ℕ
  last : ℕ
  count : ℕ

/-- The chain with one more copy. -/
def CopyChain.extend (copyMbuf : ℕ) : Option CopyChain → CopyChain
  | none => ⟨copyMbuf, copyMbuf, 1⟩
  | some chain => ⟨chain.head, copyMbuf, chain.count + 1⟩

/-- The store through `mirror_mbufs`, which points to the variable `mirror_mbuf`
at first and then to the field `next` of the last copy. -/
def linkCopy (copyMbuf : ℕ) (m : Memory) : Option CopyChain → Memory
  | none => m
  | some chain =>
    { m with
      mbuf := Function.update m.mbuf chain.last
        { m.mbuf chain.last with next := some copyMbuf } }

/-- The loop over the segments of a packet. It gives up the copies if there is
no mbuf for the next one. -/
def copyLoop (mode : CopyMode) (alloc : ℕ → Bool) :
    ℕ → ℕ → Option CopyChain → Memory → Except Stop (Option CopyChain × Memory)
  | 0, _, _, _ => .error (.undef)
  | fuel + 1, orgMbuf, chain, m =>
    match rtePktmbufAlloc alloc m with
    | (none, m) => .ok (none, m)
    | (some copyMbuf, m) =>
      match copySegment mode m copyMbuf orgMbuf with
      | .error e => .error e
      | .ok m =>
        let m := linkCopy copyMbuf m chain
        match (m.mbuf orgMbuf).next with
        | none => .ok (some (.extend copyMbuf chain), m)
        | some orgMbuf => copyLoop mode alloc fuel orgMbuf (some (.extend copyMbuf chain)) m

/-- The copy of a packet, or NULL. `rte_pktmbuf_clone` sets the lengths of the
packet at its end. -/
def copyPacket (mode : CopyMode) (alloc : ℕ → Bool) (orgMbuf : ℕ) (m : Memory) :
    Except Stop (Option ℕ × Memory) :=
  match copyLoop mode alloc maxSegs orgMbuf none m with
  | .error e => .error e
  | .ok (none, m) => .ok (none, m)
  | .ok (some chain, m') =>
    match mode with
    | .deep => .ok (some chain.head, m')
    | .shallow =>
      .ok (some chain.head, { m' with
        mbuf := Function.update m'.mbuf chain.head
          { m'.mbuf chain.head with pktLen := (m.mbuf orgMbuf).pktLen, nbSegs := chain.count } })

/-- The loop over the packets of a burst. -/
def copyPackets (mode : CopyMode) (alloc : ℕ → Bool) :
    List ℕ → Memory → Except Stop (List (Option ℕ) × Memory)
  | [], m => .ok ([], m)
  | pkt :: pkts, m =>
    match copyPacket mode alloc pkt m with
    | .error e => .error e
    | .ok (copy, m) =>
      match copyPackets mode alloc pkts m with
      | .error e => .error e
      | .ok (copies, m) => .ok (copy :: copies, m)

end Copy

section Proc

variable (crc : List UInt8 → ℕ)

/-- What a pass leaves: the copies and the memory when they are made, the copies
and the packets that the devices have accepted, and the memory when either port
has operated on its burst. -/
structure MirrorRun where
  copies : List ℕ
  copied : Memory
  sentCopies : List ℕ
  operated : Memory
  sent : List ℕ
  mem : Memory

/-- `spp_eth_tx_burst` to a port, if it has a device. -/
def txTo (tx : PortInfo) (ability : Option PortAbility) (room : ℕ) (pkts : List ℕ) (m : Memory) :
    Except Stop (List ℕ × Memory) :=
  if 0 ≤ tx.dpdkPort then ethTxBurst crc ability room pkts m else .ok ([], m)

/-- `mirror_proc` on a burst, up to the loops that free what is left of it. The
transmit ports have the abilities `ability₁` and `ability₂`, and their devices
room for `room₁` packets and `room₂` copies. NULL for a copy is dereferenced. -/
def mirrorProc (mode : CopyMode) (alloc : ℕ → Bool) (path : DataPath)
    (ability₁ ability₂ : Option PortAbility) (room₁ room₂ : ℕ) (bufs : List ℕ) (m : Memory) :
    Except Stop MirrorRun :=
  if ¬(path.numTx = 2 ∧ path.numRx = 1) then .ok ⟨[], m, [], m, [], m⟩
  else
    match if 0 ≤ (path.ports 1).tx.dpdkPort then copyPackets mode alloc bufs m else .ok ([], m) with
    | .error e => .error e
    | .ok (copybufs, copied) =>
      match copybufs.mapM id with
      | none => .error (.undef)
      | some copies =>
        match txTo crc (path.ports 1).tx ability₂ room₂ copies copied with
        | .error e => .error e
        | .ok (sentCopies, operated) =>
          match txTo crc (path.ports 0).tx ability₁ room₁ bufs operated with
          | .error e => .error e
          | .ok (sent, mem) => .ok ⟨copies, copied, sentCopies, operated, sent, mem⟩

end Proc

section Loop

variable {mode : CopyMode} {alloc : ℕ → Bool} {m m' m'' : Memory} {orgMbuf copyMbuf : ℕ}

/-- A segment is a copy of another: the same place and the same data, and in a
deep copy a buffer of its own and the other fields. -/
structure SegCopy (mode : CopyMode) (m m' : Memory) (orgMbuf copyMbuf : ℕ) : Prop where
  dataOff : (m'.mbuf copyMbuf).dataOff = (m.mbuf orgMbuf).dataOff
  dataLen : (m'.mbuf copyMbuf).dataLen = (m.mbuf orgMbuf).dataLen
  data : ∀ k, (m.mbuf orgMbuf).dataOff ≤ k →
    k < (m.mbuf orgMbuf).dataOff + (m.mbuf orgMbuf).dataLen →
      m'.buf (m'.mbuf copyMbuf).bufAddr k = m.buf (m.mbuf orgMbuf).bufAddr k
  addr_lt : (m'.mbuf copyMbuf).bufAddr < m'.fresh
  deep : mode = .deep → m'.mbuf copyMbuf =
    { m.mbuf orgMbuf with bufAddr := copyMbuf, next := (m'.mbuf copyMbuf).next }

/-- A segment can be copied: it is none of the pool, and its data is in its buffer. -/
structure Copyable (m : Memory) (r : ℕ) : Prop where
  lt : r < m.fresh
  addr_lt : (m.mbuf r).bufAddr < m.fresh
  inBuffer : (m.mbuf r).dataOff + (m.mbuf r).dataLen ≤ rteMbufDefaultBufSize

/-- A copy stays one when it is linked and other copies are made. -/
theorem SegCopy.later (h : SegCopy mode m m' orgMbuf copyMbuf) (next : Option ℕ)
    (hmbuf : m''.mbuf copyMbuf = { m'.mbuf copyMbuf with next := next })
    (hbuf : ∀ b < m'.fresh, m''.buf b = m'.buf b) (hfresh : m'.fresh ≤ m''.fresh) :
    SegCopy mode m m'' orgMbuf copyMbuf := by
  refine ⟨by rw [hmbuf]; exact h.dataOff, by rw [hmbuf]; exact h.dataLen, fun k hlo hhi => ?_,
    by rw [hmbuf]; exact Nat.lt_of_lt_of_le h.addr_lt hfresh, fun hmode => ?_⟩
  · have haddr : (m''.mbuf copyMbuf).bufAddr = (m'.mbuf copyMbuf).bufAddr := by rw [hmbuf]
    rw [haddr, hbuf _ h.addr_lt]
    exact h.data k hlo hhi
  · rw [hmbuf, h.deep hmode]

/-- What a shallow copy of a segment is made of. -/
theorem SegCopy.shallow (h : SegCopy .shallow m m' orgMbuf copyMbuf)
    (hfields : (m''.mbuf copyMbuf).bufAddr = (m'.mbuf copyMbuf).bufAddr ∧
      (m''.mbuf copyMbuf).dataOff = (m'.mbuf copyMbuf).dataOff ∧
      (m''.mbuf copyMbuf).dataLen = (m'.mbuf copyMbuf).dataLen)
    (hbuf : m''.buf = m'.buf) (hfresh : m''.fresh = m'.fresh) :
    SegCopy .shallow m m'' orgMbuf copyMbuf := by
  obtain ⟨haddr, hoff, hlen⟩ := hfields
  refine ⟨hoff.trans h.dataOff, hlen.trans h.dataLen, fun k hlo hhi => ?_, ?_,
    fun hmode => (by cases hmode)⟩
  · rw [haddr, hbuf]
    exact h.data k hlo hhi
  · rw [haddr, hfresh]
    exact h.addr_lt

/-- A copy of a segment that is the same in another memory. -/
theorem SegCopy.earlier (h : SegCopy mode m' m'' orgMbuf copyMbuf)
    (hmbuf : m'.mbuf orgMbuf = m.mbuf orgMbuf)
    (hbuf : m'.buf (m.mbuf orgMbuf).bufAddr = m.buf (m.mbuf orgMbuf).bufAddr) :
    SegCopy mode m m'' orgMbuf copyMbuf := by
  obtain ⟨hoff, hlen, hdata, haddr, hdeep⟩ := h
  rw [hmbuf] at hoff hlen hdata hdeep
  rw [hbuf] at hdata
  exact ⟨hoff, hlen, hdata, haddr, hdeep⟩

/-- The copy of a segment in a new mbuf leaves everything else. -/
theorem copySegment_spec (h : Copyable m orgMbuf) (mode : CopyMode) : ∃ m₁,
    copySegment mode { m with
      mbuf := Function.update m.mbuf m.fresh { bufAddr := m.fresh }, fresh := m.fresh + 1 }
      m.fresh orgMbuf = .ok m₁ ∧
    m₁.fresh = m.fresh + 1 ∧ SegCopy mode m m₁ orgMbuf m.fresh ∧
    (m₁.mbuf m.fresh).next = none ∧ (∀ r < m.fresh, m₁.mbuf r = m.mbuf r) ∧
    ∀ b < m.fresh, m₁.buf b = m.buf b := by
  obtain ⟨hlt, haddr, hfits⟩ := h
  have hne : orgMbuf ≠ m.fresh := Nat.ne_of_lt hlt
  cases mode with
  | deep =>
    refine ⟨_, by
      simp only [copySegment, Function.update_of_ne hne, Function.update_self]
      exact if_pos hfits, rfl, ?_, ?_, fun r hr => ?_, fun b hb => ?_⟩
    · refine ⟨?_, ?_, fun k hlo hhi => ?_, ?_, fun _ => ?_⟩
      · simp only [Function.update_self]
      · simp only [Function.update_self]
      · simp only [Function.update_self, if_pos (And.intro hlo hhi)]
      · simp only [Function.update_self]
        exact Nat.lt_succ_self _
      · simp only [Function.update_self]
    · simp only [Function.update_self]
    · simp only [Function.update_of_ne (Nat.ne_of_lt hr)]
    · simp only [Function.update_of_ne (Nat.ne_of_lt hb)]
  | shallow =>
    refine ⟨_, rfl, rfl, ?_, ?_, fun r hr => ?_, fun b hb => rfl⟩
    · refine ⟨?_, ?_, fun k hlo hhi => ?_, ?_, fun hmode => (by cases hmode)⟩
      · simp only [Function.update_self, Function.update_of_ne hne]
      · simp only [Function.update_self, Function.update_of_ne hne]
      · simp only [Function.update_self, Function.update_of_ne hne]
      · simp only [Function.update_self, Function.update_of_ne hne]
        exact Nat.lt_succ_of_lt haddr
    · simp only [Function.update_self]
    · simp only [Function.update_of_ne (Nat.ne_of_lt hr)]

/-- What linking a copy does to the mbufs. -/
theorem linkCopy_spec (copyMbuf : ℕ) (m : Memory) (chain : Option CopyChain) :
    (linkCopy copyMbuf m chain).fresh = m.fresh ∧ (linkCopy copyMbuf m chain).buf = m.buf ∧
      ∀ r, (linkCopy copyMbuf m chain).mbuf r =
        if chain.map CopyChain.last = some r then { m.mbuf r with next := some copyMbuf }
        else m.mbuf r := by
  cases chain with
  | none => exact ⟨rfl, rfl, fun r => rfl⟩
  | some chain =>
    refine ⟨rfl, rfl, fun r => ?_⟩
    simp only [linkCopy, Option.map_some, Option.some.injEq]
    by_cases hr : chain.last = r
    · subst hr
      rw [Function.update_self, if_pos rfl]
    · rw [Function.update_of_ne (Ne.symm hr), if_neg hr]

/-- One pass of the loop: the copy of a segment, linked to the last one before it. -/
theorem copyLoop_step (mode : CopyMode) (halloc : ∀ r, alloc r = true)
    {chain : Option CopyChain} (h : Copyable m orgMbuf)
    (hlast : ∀ c ∈ chain.map CopyChain.last, c < m.fresh ∧ c ≠ orgMbuf) : ∃ m₁,
    ((m.mbuf orgMbuf).next = none → ∀ fuel, copyLoop mode alloc (fuel + 1) orgMbuf chain m =
      .ok (some (.extend m.fresh chain), m₁)) ∧
    (∀ r, (m.mbuf orgMbuf).next = some r → ∀ fuel,
      copyLoop mode alloc (fuel + 1) orgMbuf chain m =
        copyLoop mode alloc fuel r (some (.extend m.fresh chain)) m₁) ∧
    m₁.fresh = m.fresh + 1 ∧ SegCopy mode m m₁ orgMbuf m.fresh ∧
    (m₁.mbuf m.fresh).next = none ∧
    (∀ r < m.fresh, m₁.mbuf r =
      if chain.map CopyChain.last = some r then { m.mbuf r with next := some m.fresh }
      else m.mbuf r) ∧
    ∀ b < m.fresh, m₁.buf b = m.buf b := by
  obtain ⟨m₁, hcopy, hfresh, hseg, hnext, hmbuf, hbuf⟩ := copySegment_spec h mode
  obtain ⟨hfresh₂, hbuf₂, hmbuf₂⟩ := linkCopy_spec m.fresh m₁ chain
  have hnew : (linkCopy m.fresh m₁ chain).mbuf m.fresh = m₁.mbuf m.fresh := by
    rw [hmbuf₂, if_neg fun heq => ?_]
    have hlt := (hlast m.fresh heq).1
    omega
  have hne : chain.map CopyChain.last ≠ some orgMbuf := fun heq => (hlast orgMbuf heq).2 rfl
  have horg : (linkCopy m.fresh m₁ chain).mbuf orgMbuf = m.mbuf orgMbuf := by
    rw [hmbuf₂, if_neg hne, hmbuf orgMbuf h.lt]
  refine ⟨linkCopy m.fresh m₁ chain, fun hend fuel => ?_, fun r hr fuel => ?_,
    hfresh₂.trans hfresh, ?_, by rw [hnew, hnext], fun r hr => ?_, fun b hb => ?_⟩
  · simp only [copyLoop, rtePktmbufAlloc, halloc, if_true, hcopy, horg, hend]
  · simp only [copyLoop, rtePktmbufAlloc, halloc, if_true, hcopy, horg, hr]
  · refine hseg.later (m₁.mbuf m.fresh).next hnew (fun b _ => ?_) hfresh₂.ge
    rw [hbuf₂]
  · rw [hmbuf₂, hmbuf r hr]
  · rw [hbuf₂, hbuf b hb]

/-- The loop copies the segments into as many new mbufs, one after the other, and
links the first of them to the last copy that it finds. -/
theorem copyLoop_spec (mode : CopyMode) (halloc : ∀ r, alloc r = true) (chain : Option CopyChain)
    {fuel : ℕ} {rest : List ℕ} (hchain : m.Chain (orgMbuf :: rest)) (hfuel : rest.length < fuel)
    (hsegs : ∀ r ∈ orgMbuf :: rest, Copyable m r)
    (hlast : ∀ c ∈ chain.map CopyChain.last, c < m.fresh ∧ c ∉ orgMbuf :: rest) : ∃ m',
    copyLoop mode alloc fuel orgMbuf chain m =
      .ok (some ⟨(chain.map CopyChain.head).getD m.fresh, m.fresh + rest.length,
        (chain.map CopyChain.count).getD 0 + rest.length + 1⟩, m') ∧
    m'.fresh = m.fresh + rest.length + 1 ∧
    m'.Chain (List.range' m.fresh (rest.length + 1)) ∧
    List.Forall₂ (SegCopy mode m m') (orgMbuf :: rest) (List.range' m.fresh (rest.length + 1)) ∧
    (∀ r < m.fresh, m'.mbuf r =
      if chain.map CopyChain.last = some r then { m.mbuf r with next := some m.fresh }
      else m.mbuf r) ∧
    ∀ b < m.fresh, m'.buf b = m.buf b := by
  induction rest generalizing orgMbuf fuel chain m with
  | nil =>
    obtain ⟨fuel, rfl⟩ : ∃ n, fuel = n + 1 := ⟨fuel - 1, by omega⟩
    obtain ⟨m₁, hend, -, hfresh, hseg, hnext, hmbuf, hbuf⟩ :=
      copyLoop_step mode halloc (hsegs orgMbuf List.mem_cons_self) fun c hc =>
        ⟨(hlast c hc).1, fun heq => (hlast c hc).2 (heq ▸ List.mem_cons_self)⟩
    refine ⟨m₁, ?_, hfresh, hnext, .cons hseg .nil, hmbuf, hbuf⟩
    rw [hend hchain fuel]
    cases chain <;> rfl
  | cons r' rest ih =>
    obtain ⟨fuel, rfl⟩ : ∃ n, fuel = n + 1 := ⟨fuel - 1, by omega⟩
    obtain ⟨hlink, hchain⟩ := hchain
    obtain ⟨m₁, -, hgo, hfresh, hseg, hnext, hmbuf, hbuf⟩ :=
      copyLoop_step mode halloc (hsegs orgMbuf List.mem_cons_self) fun c hc =>
        ⟨(hlast c hc).1, fun heq => (hlast c hc).2 (heq ▸ List.mem_cons_self)⟩
    have hsame : ∀ r ∈ r' :: rest, m₁.mbuf r = m.mbuf r ∧
        m₁.buf (m.mbuf r).bufAddr = m.buf (m.mbuf r).bufAddr := by
      intro r hr
      have hcopyable := hsegs r (List.mem_cons_of_mem orgMbuf hr)
      refine ⟨?_, hbuf _ hcopyable.addr_lt⟩
      rw [hmbuf r hcopyable.lt, if_neg fun heq => ?_]
      exact (hlast r heq).2 (List.mem_cons_of_mem orgMbuf hr)
    have hsegs₁ : ∀ r ∈ r' :: rest, Copyable m₁ r := by
      intro r hr
      obtain ⟨hlt, haddr, hfits⟩ := hsegs r (List.mem_cons_of_mem orgMbuf hr)
      rw [← (hsame r hr).1] at haddr hfits
      exact ⟨by omega, by omega, hfits⟩
    have hlast' : (some (CopyChain.extend m.fresh chain)).map CopyChain.last = some m.fresh := by
      cases chain <;> rfl
    have hlast₁ : ∀ c ∈ (some (CopyChain.extend m.fresh chain)).map CopyChain.last,
        c < m₁.fresh ∧ c ∉ r' :: rest := by
      intro c hc
      obtain rfl : m.fresh = c := Option.some.inj (hlast'.symm.trans hc)
      refine ⟨by omega, fun hmem => ?_⟩
      have hlt := (hsegs m.fresh (List.mem_cons_of_mem orgMbuf hmem)).lt
      omega
    obtain ⟨m', hrun, hfresh', hchain', hcopies, hmbuf', hbuf'⟩ :=
      ih (some (.extend m.fresh chain)) (hchain.congr fun r hr => by rw [(hsame r hr).1])
        (Nat.lt_of_succ_lt_succ hfuel) hsegs₁ hlast₁
    have hcount : (chain.map CopyChain.count).getD 0 + (r' :: rest).length + 1 =
        (CopyChain.extend m.fresh chain).count + rest.length + 1 := by
      cases chain <;> simp only [CopyChain.extend, Option.map_none, Option.map_some,
        Option.getD_none, Option.getD_some, List.length_cons] <;> omega
    have hhead : (chain.map CopyChain.head).getD m.fresh =
        (CopyChain.extend m.fresh chain).head := by
      cases chain <;> rfl
    rw [hlast'] at hmbuf'
    have hnew : m'.mbuf m.fresh = { m₁.mbuf m.fresh with next := some m₁.fresh } := by
      rw [hmbuf' m.fresh (by omega), if_pos rfl]
    have hold : ∀ r < m.fresh, m'.mbuf r = m₁.mbuf r := by
      intro r hr
      have hne : some m.fresh ≠ some r := fun heq => by
        have := Option.some.inj heq
        omega
      rw [hmbuf' r (by omega), if_neg hne]
    have hrange : List.range' m.fresh ((r' :: rest).length + 1) =
        m.fresh :: List.range' m₁.fresh (rest.length + 1) := by
      rw [hfresh]
      rfl
    refine ⟨m', ?_, ?_, ?_, ?_, fun r hr => ?_, fun b hb => ?_⟩
    · have hend : m.fresh + (r' :: rest).length = m₁.fresh + rest.length := by
        rw [hfresh, List.length_cons]
        omega
      rw [hgo r' hlink fuel, hrun, hcount, hhead, hend]
      rfl
    · rw [hfresh', hfresh, List.length_cons]
      omega
    · rw [hrange]
      refine ⟨?_, hchain'⟩
      rw [hnew]
    · rw [hrange]
      refine .cons (hseg.later _ hnew (fun b hb => hbuf' b hb) (by omega)) ?_
      rw [List.forall₂_iff_zip] at hcopies ⊢
      refine ⟨hcopies.1, fun {r c} hmem => ?_⟩
      obtain ⟨hmbuf₁, hbuf₁⟩ := hsame r (List.of_mem_zip hmem).1
      exact (hcopies.2 hmem).earlier hmbuf₁ hbuf₁
    · rw [hold r hr, hmbuf r hr]
    · rw [hbuf' b (by omega), hbuf b hb]

end Loop

section Packets

variable {mode : CopyMode} {alloc : ℕ → Bool} {m m' m'' : Memory} {f c : Segments}

/-- A packet as it is received: its segments are linked, their number is in its
first mbuf, and each can be copied. The header of the frame is in the first one. -/
structure Received (m : Memory) (f : Segments) : Prop where
  chain : m.Chain f.all
  bounded : f.all.length < maxSegs
  counted : (m.mbuf f.1).nbSegs = f.all.length
  copyable : ∀ r ∈ f.all, Copyable m r
  header : (m.view f.1).IsFrame

/-- A packet is a copy of another: its segments are copies, linked in the same
order, and the lengths of the packet are the same. -/
structure PacketCopy (mode : CopyMode) (m m' : Memory) (f c : Segments) : Prop where
  chain : m'.Chain c.all
  segs : List.Forall₂ (SegCopy mode m m') f.all c.all
  pktLen : (m'.mbuf c.1).pktLen = (m.mbuf f.1).pktLen
  nbSegs : (m'.mbuf c.1).nbSegs = (m.mbuf f.1).nbSegs

/-- A packet that is received stays so when new mbufs are filled. -/
theorem Received.later (h : Received m f) (hmbuf : ∀ r < m.fresh, m'.mbuf r = m.mbuf r)
    (hbuf : ∀ b < m.fresh, m'.buf b = m.buf b) (hfresh : m.fresh ≤ m'.fresh) :
    Received m' f := by
  have hsame : ∀ r ∈ f.all, m'.mbuf r = m.mbuf r := fun r hr => hmbuf r (h.copyable r hr).lt
  have hhead := hsame f.1 List.mem_cons_self
  refine ⟨h.chain.congr fun r hr => by rw [hsame r hr], h.bounded, by rw [hhead, h.counted],
    fun r hr => ?_, ?_⟩
  · obtain ⟨hlt, haddr, hfits⟩ := h.copyable r hr
    rw [← hsame r hr] at haddr hfits
    exact ⟨by omega, by omega, hfits⟩
  · have hview := Memory.view_congr hhead (hbuf _ (h.copyable f.1 List.mem_cons_self).addr_lt)
    rw [hview]
    exact h.header

/-- A copy stays one when other copies are made. -/
theorem PacketCopy.later (h : PacketCopy mode m m' f c) (hlt : ∀ r ∈ c.all, r < m'.fresh)
    (hmbuf : ∀ r < m'.fresh, m''.mbuf r = m'.mbuf r)
    (hbuf : ∀ b < m'.fresh, m''.buf b = m'.buf b) (hfresh : m'.fresh ≤ m''.fresh) :
    PacketCopy mode m m'' f c := by
  have hsame : ∀ r ∈ c.all, m''.mbuf r = m'.mbuf r := fun r hr => hmbuf r (hlt r hr)
  have hhead := hsame c.1 List.mem_cons_self
  refine ⟨h.chain.congr fun r hr => by rw [hsame r hr], ?_, by rw [hhead, h.pktLen],
    by rw [hhead, h.nbSegs]⟩
  have hsegs := h.segs
  rw [List.forall₂_iff_zip] at hsegs ⊢
  refine ⟨hsegs.1, fun {r q} hmem => ?_⟩
  exact (hsegs.2 hmem).later _ (hsame q (List.of_mem_zip hmem).2) hbuf hfresh

/-- A copy of a packet that is the same in another memory. -/
theorem PacketCopy.earlier (h : PacketCopy mode m' m'' f c)
    (hmbuf : ∀ r ∈ f.all, m'.mbuf r = m.mbuf r)
    (hbuf : ∀ r ∈ f.all, m'.buf (m.mbuf r).bufAddr = m.buf (m.mbuf r).bufAddr) :
    PacketCopy mode m m'' f c := by
  have hhead := hmbuf f.1 List.mem_cons_self
  refine ⟨h.chain, ?_, by rw [h.pktLen, hhead], by rw [h.nbSegs, hhead]⟩
  have hsegs := h.segs
  rw [List.forall₂_iff_zip] at hsegs ⊢
  refine ⟨hsegs.1, fun {r q} hmem => ?_⟩
  obtain ⟨hr, -⟩ := List.of_mem_zip hmem
  exact (hsegs.2 hmem).earlier (hmbuf r hr) (hbuf r hr)

/-- The copy of one packet. -/
theorem copyPacket_spec (halloc : ∀ r, alloc r = true) (h : Received m f) :
    ∃ m', copyPacket mode alloc f.1 m = .ok (some m.fresh, m') ∧
      m'.fresh = m.fresh + f.all.length ∧
      PacketCopy mode m m' f (m.fresh, List.range' (m.fresh + 1) f.2.length) ∧
      (∀ r < m.fresh, m'.mbuf r = m.mbuf r) ∧ ∀ b < m.fresh, m'.buf b = m.buf b := by
  obtain ⟨hchain, hbounded, hcounted, hcopyable, -⟩ := h
  obtain ⟨m₁, hloop, hfresh, hchain₁, hsegs, hmbuf, hbuf⟩ :=
    copyLoop_spec mode halloc none hchain (Nat.lt_of_succ_lt hbounded) hcopyable
      fun c hc => (by cases hc)
  have hmbuf : ∀ r < m.fresh, m₁.mbuf r = m.mbuf r := hmbuf
  cases mode with
  | deep =>
    cases hsegs with
    | cons hhead hrest =>
      have hdeep := hhead.deep rfl
      refine ⟨m₁, ?_, hfresh, ⟨hchain₁, .cons hhead hrest, ?_, ?_⟩, hmbuf, hbuf⟩
      · unfold copyPacket
        rw [hloop]
        rfl
      · rw [hdeep]
      · rw [hdeep]
  | shallow =>
    obtain ⟨m₂, hm₂⟩ : ∃ m₂ : Memory, m₂ = { m₁ with
        mbuf := Function.update m₁.mbuf m.fresh
          { m₁.mbuf m.fresh with pktLen := (m.mbuf f.1).pktLen, nbSegs := f.all.length } } :=
      ⟨_, rfl⟩
    have hhead : m₂.mbuf m.fresh =
        { m₁.mbuf m.fresh with pktLen := (m.mbuf f.1).pktLen, nbSegs := f.all.length } := by
      rw [hm₂]
      exact Function.update_self ..
    have hother : ∀ r ≠ m.fresh, m₂.mbuf r = m₁.mbuf r := by
      intro r hr
      rw [hm₂]
      exact Function.update_of_ne hr ..
    have hfields : ∀ r, (m₂.mbuf r).next = (m₁.mbuf r).next ∧
        (m₂.mbuf r).bufAddr = (m₁.mbuf r).bufAddr ∧
        (m₂.mbuf r).dataOff = (m₁.mbuf r).dataOff ∧ (m₂.mbuf r).dataLen = (m₁.mbuf r).dataLen := by
      intro r
      by_cases hr : r = m.fresh
      · rw [hr, hhead]
        exact ⟨rfl, rfl, rfl, rfl⟩
      · rw [hother r hr]
        exact ⟨rfl, rfl, rfl, rfl⟩
    have hbufs : m₂.buf = m₁.buf := by rw [hm₂]
    have hfresh₂ : m₂.fresh = m₁.fresh := by rw [hm₂]
    refine ⟨m₂, ?_, hfresh₂.trans hfresh, ⟨hchain₁.congr fun r _ => (hfields r).1, ?_, ?_, ?_⟩,
      fun r hr => ?_, fun b hb => ?_⟩
    · unfold copyPacket
      rw [hloop, hm₂]
      simp only [Option.map_none, Option.getD_none, Segments.all, List.length_cons, Nat.zero_add]
    · rw [List.forall₂_iff_zip] at hsegs ⊢
      refine ⟨hsegs.1, fun {r q} hmem => ?_⟩
      exact (hsegs.2 hmem).shallow (hfields q).2 hbufs hfresh₂
    · rw [hhead]
    · rw [hhead, hcounted]
    · rw [hother r (Nat.ne_of_lt hr), hmbuf r hr]
    · rw [hbufs, hbuf b hb]

/-- The copies of a burst are all in new mbufs, and the packets stay as they are. -/
theorem copyPackets_spec (mode : CopyMode) (halloc : ∀ r, alloc r = true) {frames : List Segments}
    (h : ∀ f ∈ frames, Received m f) : ∃ (copies : List Segments) (m' : Memory),
    copyPackets mode alloc (frames.map Prod.fst) m = .ok (copies.map fun c => some c.1, m') ∧
    m.fresh ≤ m'.fresh ∧
    copies.flatMap Segments.all = List.range' m.fresh (m'.fresh - m.fresh) ∧
    List.Forall₂ (PacketCopy mode m m') frames copies ∧
    (∀ r < m.fresh, m'.mbuf r = m.mbuf r) ∧ ∀ b < m.fresh, m'.buf b = m.buf b := by
  induction frames generalizing m with
  | nil =>
    refine ⟨[], m, rfl, Nat.le_refl _, ?_, .nil, fun _ _ => rfl, fun _ _ => rfl⟩
    rw [Nat.sub_self]
    rfl
  | cons f frames ih =>
    have hfirst := h f List.mem_cons_self
    obtain ⟨m₁, hrun₁, hfresh₁, hcopy, hmbuf₁, hbuf₁⟩ := copyPacket_spec halloc hfirst
    have hle : m.fresh ≤ m₁.fresh := by omega
    obtain ⟨copies, m', hrun, hfresh, hnew, hcopies, hmbuf, hbuf⟩ :=
      ih fun g hg => (h g (List.mem_cons_of_mem f hg)).later hmbuf₁ hbuf₁ hle
    have hall : Segments.all (m.fresh, List.range' (m.fresh + 1) f.2.length) =
        List.range' m.fresh f.all.length := rfl
    have hlt : ∀ r ∈ Segments.all (m.fresh, List.range' (m.fresh + 1) f.2.length),
        r < m₁.fresh := by
      intro r hr
      rw [hall, List.mem_range'_1] at hr
      omega
    refine ⟨(m.fresh, List.range' (m.fresh + 1) f.2.length) :: copies, m', ?_,
      hle.trans hfresh, ?_, .cons (hcopy.later hlt hmbuf hbuf hfresh) ?_, fun r hr => ?_,
      fun b hb => ?_⟩
    · simp only [List.map_cons, copyPackets, hrun₁, hrun]
    · have hsum : m'.fresh - m.fresh = f.all.length + (m'.fresh - m₁.fresh) := by omega
      rw [List.flatMap_cons, hall, hnew, hsum, hfresh₁, List.range'_append_1]
    · rw [List.forall₂_iff_zip] at hcopies ⊢
      refine ⟨hcopies.1, fun {g c} hmem => ?_⟩
      have hg := h g (List.mem_cons_of_mem f (List.of_mem_zip hmem).1)
      exact (hcopies.2 hmem).earlier (fun r hr => hmbuf₁ r (hg.copyable r hr).lt)
        fun r hr => hbuf₁ _ (hg.copyable r hr).addr_lt
    · rw [hmbuf r (by omega), hmbuf₁ r hr]
    · rw [hbuf b (by omega), hbuf₁ b hb]

end Packets

end Spp.Mirror.Frames
