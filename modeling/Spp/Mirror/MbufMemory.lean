import Mathlib.Data.List.TakeWhile
import Spp.Vf.Multicast

/-!
# Packets as chains of segments in memory

A packet is the address of its first mbuf; every mbuf refers to a buffer and to
the mbuf of the next segment. Two mbufs may refer to one buffer. A port performs
its VLAN operation in place, on the first segment, and stores a checksum behind
the data of that segment.
-/

namespace Spp.Mirror

open Vf Vlan

section Memory

/-- `RTE_MBUF_DEFAULT_BUF_SIZE` of DPDK, which is also what the pool of
spp_primary leaves of `MBUF_SIZE` for a buffer. -/
def rteMbufDefaultBufSize : ℕ := 2176

/-- `RTE_PKTMBUF_HEADROOM` of DPDK. -/
def rtePktmbufHeadroom : ℕ := 128

/-- The fields of `struct rte_mbuf` that a copy takes over or sets; the ones
that `rte_pktmbuf_alloc` resets by default. -/
structure RteMbuf where
  bufAddr : ℕ
  dataOff : ℕ := rtePktmbufHeadroom
  dataLen : ℕ := 0
  pktLen : ℕ := 0
  nbSegs : ℕ := 1
  next : Option ℕ := none
  port : ℕ := 0xffff
  vlanTci : ℕ := 0
  txOffload : ℕ := 0
  hash : ℕ := 0
  olFlags : ℕ := 0
  packetType : ℕ := 0
  deriving DecidableEq

/-- The mbufs and the buffers, by address. From `fresh` on both belong to the pool
of the mirror, in the order in which they are allocated. -/
structure Memory where
  mbuf : ℕ → RteMbuf
  buf : ℕ → ℕ → UInt8
  fresh : ℕ

/-- One segment as the functions of `spp_port.c` see it. -/
def Memory.view (m : Memory) (pkt : ℕ) : Mbuf :=
  ⟨m.buf (m.mbuf pkt).bufAddr, (m.mbuf pkt).dataOff, (m.mbuf pkt).dataLen⟩

/-- A segment was rewritten. `rte_pktmbuf_prepend` and `rte_pktmbuf_adj` change the
length of the packet along with that of the segment. -/
def Memory.put (m : Memory) (pkt : ℕ) (v : Mbuf) : Memory :=
  let old := m.mbuf pkt
  { m with
    mbuf := Function.update m.mbuf pkt
      { old with dataOff := v.dataOff, dataLen := v.dataLen,
                 pktLen := old.pktLen + v.dataLen - old.dataLen }
    buf := Function.update m.buf old.bufAddr v.buf }

/-- The data of a segment. -/
def Memory.data (m : Memory) (r : ℕ) : List UInt8 := (m.view r).load 0 (m.view r).dataLen

/-- The bytes of a packet with these segments. -/
def Memory.frame (m : Memory) (segs : List ℕ) : List UInt8 := segs.flatMap m.data

/-- The segments are linked in this order, and there are no others. -/
def Memory.Chain (m : Memory) : List ℕ → Prop
  | [] => False
  | [r] => (m.mbuf r).next = none
  | r :: r' :: rest => (m.mbuf r).next = some r' ∧ Memory.Chain m (r' :: rest)

/-- The room and the bytes of a packet, its addresses apart. -/
def Memory.packet (m : Memory) : List ℕ → Packet
  | [] => ⟨0, [], []⟩
  | r :: rest => { (m.view r).packet with body := (m.view r).packet.body ++ m.frame rest }

end Memory

section Operate

variable (crc : List UInt8 → ℕ)

/-- The operation of a port on a segment ends in `set_fcs_packet`. -/
def rewrites (ability : Option PortAbility) (pkt : Mbuf) : Bool :=
  match ability with
  | none => false
  | some ability =>
    match ability.ope with
    | .none => false
    | .addVlantag => true
    | .delVlantag => pkt.load16 12 = gVlanTpid

/-- The operation of a port on one packet: the memory after it, or none if it
fails. The checksum behind the data overruns the buffer if there is no room. -/
def operatePacket (ability : Option PortAbility) (m : Memory) (pkt : ℕ) :
    Except Stop (Option Memory) :=
  match operation crc ability (m.view pkt) with
  | none => .ok none
  | some v =>
    if rewrites ability (m.view pkt) ∧ rteMbufDefaultBufSize < v.dataOff + v.dataLen + 4 then
      .error (.undef)
    else .ok (some (m.put pkt v))

/-- The loop of a port over a burst: the packets before the first one on which
the operation fails are counted. -/
def operatePackets (ability : Option PortAbility) : List ℕ → Memory → Except Stop (ℕ × Memory)
  | [], m => .ok (0, m)
  | pkt :: pkts, m =>
    match operatePacket crc ability m pkt with
    | .error e => .error e
    | .ok none => .ok (0, m)
    | .ok (some m) =>
      match operatePackets ability pkts m with
      | .error e => .error e
      | .ok (cnt, m) => .ok (cnt + 1, m)

/-- `spp_eth_tx_burst` on a port with at most one ability, whose device has room
for `room` packets: the packets that it accepts, and the memory. -/
def ethTxBurst (ability : Option PortAbility) (room : ℕ) (pkts : List ℕ) (m : Memory) :
    Except Stop (List ℕ × Memory) :=
  match operatePackets crc ability pkts m with
  | .error e => .error e
  | .ok (cnt, m) => .ok ((pkts.take cnt).take room, m)

end Operate

section InPlace

variable {m m' : Memory} {crc : List UInt8 → ℕ} {ability : Option PortAbility}

/-- A segment that is put back as it was changes nothing. -/
theorem Memory.put_view (m : Memory) (pkt : ℕ) : m.put pkt (m.view pkt) = m := by
  simp only [Memory.put, Memory.view, Nat.add_sub_cancel, Function.update_eq_self]

/-- What a rewritten segment leaves of other mbufs and buffers, and of the links. -/
theorem Memory.put_other (m : Memory) (pkt : ℕ) (v : Mbuf) :
    (∀ r ≠ pkt, (m.put pkt v).mbuf r = m.mbuf r) ∧
      (∀ b ≠ (m.mbuf pkt).bufAddr, (m.put pkt v).buf b = m.buf b) ∧
      ∀ r, ((m.put pkt v).mbuf r).next = (m.mbuf r).next ∧
        ((m.put pkt v).mbuf r).nbSegs = (m.mbuf r).nbSegs ∧
        ((m.put pkt v).mbuf r).bufAddr = (m.mbuf r).bufAddr := by
  refine ⟨fun r hr => Function.update_of_ne hr .., fun b hb => Function.update_of_ne hb .., ?_⟩
  intro r
  by_cases hr : r = pkt
  · subst hr
    simp only [Memory.put, Function.update_self, and_self]
  · simp only [Memory.put, Function.update_of_ne hr, and_self]

/-- The segment that was rewritten. -/
theorem Memory.view_put (m : Memory) (pkt : ℕ) (v : Mbuf) : (m.put pkt v).view pkt = v := by
  unfold Memory.view Memory.put
  simp only [Function.update_self]

/-- A segment whose mbuf and buffer are the same is the same. -/
theorem Memory.view_congr {r : ℕ} (hmbuf : m'.mbuf r = m.mbuf r)
    (hbuf : m'.buf (m.mbuf r).bufAddr = m.buf (m.mbuf r).bufAddr) : m'.view r = m.view r := by
  unfold Memory.view
  rw [hmbuf, hbuf]

/-- So are the bytes of segments. -/
theorem Memory.frame_congr {segs : List ℕ} (h : ∀ r ∈ segs, m'.view r = m.view r) :
    m'.frame segs = m.frame segs := by
  unfold Memory.frame
  rw [List.flatMap_def, List.flatMap_def]
  congr 1
  apply List.map_congr_left
  intro r hr
  unfold Memory.data
  rw [h r hr]

/-- And a packet. -/
theorem Memory.packet_congr {segs : List ℕ} (h : ∀ r ∈ segs, m'.view r = m.view r) :
    m'.packet segs = m.packet segs := by
  cases segs with
  | nil => rfl
  | cons r rest =>
    have hrest := Memory.frame_congr fun q hq => h q (List.mem_cons_of_mem r hq)
    simp only [Memory.packet, h r List.mem_cons_self, hrest]

/-- Links are a matter of the mbufs only. -/
theorem Memory.Chain.congr {segs : List ℕ} (h : m.Chain segs)
    (hnext : ∀ r ∈ segs, (m'.mbuf r).next = (m.mbuf r).next) : m'.Chain segs := by
  induction segs with
  | nil => exact h
  | cons r rest ih =>
    cases rest with
    | nil => exact (hnext r List.mem_cons_self).trans h
    | cons r' rest =>
      refine ⟨(hnext r List.mem_cons_self).trans h.1, ih h.2 fun q hq => ?_⟩
      exact hnext q (List.mem_cons_of_mem r hq)

/-- The bytes of a packet with a complete header are its frame. -/
theorem Memory.frame_packet {r : ℕ} {rest : List ℕ} (h : (m.view r).IsFrame) :
    (m.packet (r :: rest)).frame = m.frame (r :: rest) := by
  have hfirst := Mbuf.frame_packet h.addrs
  unfold Packet.frame at hfirst ⊢
  show (m.view r).packet.addrs ++ ((m.view r).packet.body ++ m.frame rest) = _
  rw [← List.append_assoc, hfirst]
  rfl

/-- An operation leaves the end of the data where it was. -/
theorem operation_end {v v' : Mbuf} (h : operation crc ability v = some v') :
    v'.dataOff + v'.dataLen = v.dataOff + v.dataLen := by
  have hadd : ∀ data, addVlantagPacket crc data v = some v' →
      v'.dataOff + v'.dataLen = v.dataOff + v.dataLen := by
    intro data hadd
    unfold addVlantagPacket rtePktmbufPrepend at hadd
    dsimp only at hadd
    by_cases htag : v.load16 12 = gVlanTpid
    · rw [if_pos htag] at hadd
      cases hadd
      rfl
    · rw [if_neg htag] at hadd
      by_cases hroom : 4 ≤ v.dataOff
      · rw [if_pos hroom] at hadd
        cases hadd
        show v.dataOff - 4 + (v.dataLen + 4) = _
        omega
      · rw [if_neg hroom] at hadd
        cases hadd
  have hdel : delVlantagPacket crc v = some v' →
      v'.dataOff + v'.dataLen = v.dataOff + v.dataLen := by
    intro hdel
    unfold delVlantagPacket rtePktmbufAdj at hdel
    by_cases htag : v.load16 12 = gVlanTpid
    · rw [if_pos htag] at hdel
      by_cases hlen : 4 ≤ v.dataLen
      · rw [if_pos hlen] at hdel
        cases hdel
        show v.dataOff + 4 + (v.dataLen - 4) = _
        omega
      · rw [if_neg hlen] at hdel
        cases hdel
    · rw [if_neg htag] at hdel
      cases hdel
      rfl
  unfold operation at h
  split at h
  · cases h
    rfl
  · split at h
    · cases h
      rfl
    · exact hadd _ h
    · exact hdel h

/-- The checksum that the operation of a port stores stays in the buffer. -/
def Fits (ability : Option PortAbility) (m : Memory) (r : ℕ) : Prop :=
  rewrites ability (m.view r) = true →
    (m.mbuf r).dataOff + (m.mbuf r).dataLen + 4 ≤ rteMbufDefaultBufSize

instance (ability : Option PortAbility) (m : Memory) (r : ℕ) : Decidable (Fits ability m r) := by
  unfold Fits
  infer_instance

/-- The segments of a packet: the first one, which is the packet, and the others. -/
abbrev Segments := ℕ × List ℕ

/-- All of them. -/
def Segments.all (f : Segments) : List ℕ := f.1 :: f.2

theorem Segments.head_mem {frames : List Segments} {g : Segments} (h : g ∈ frames) :
    g.1 ∈ frames.flatMap Segments.all :=
  List.mem_flatMap.mpr ⟨g, h, List.mem_cons_self⟩

/-- The packets of a burst share no mbuf and no buffer, and the header of each
is in its first segment. -/
structure Memory.Separate (m : Memory) (frames : List Segments) : Prop where
  nodup : (frames.flatMap Segments.all).Nodup
  buffers : ((frames.flatMap Segments.all).map fun r => (m.mbuf r).bufAddr).Nodup
  header : ∀ f ∈ frames, (m.view f.1).IsFrame

/-- What is left as it was when some first segments are rewritten. -/
structure Memory.Kept (m m' : Memory) (heads : List ℕ) : Prop where
  mbuf : ∀ r ∉ heads, m'.mbuf r = m.mbuf r
  buf : ∀ b, (∀ r ∈ heads, (m.mbuf r).bufAddr ≠ b) → m'.buf b = m.buf b
  link : ∀ r, (m'.mbuf r).next = (m.mbuf r).next ∧ (m'.mbuf r).nbSegs = (m.mbuf r).nbSegs ∧
    (m'.mbuf r).bufAddr = (m.mbuf r).bufAddr
  fresh : m'.fresh = m.fresh

theorem Memory.Kept.refl (m : Memory) (heads : List ℕ) : m.Kept m heads :=
  ⟨fun _ _ => rfl, fun _ _ => rfl, fun _ => ⟨rfl, rfl, rfl⟩, rfl⟩

/-- One segment that was rewritten, and then others. -/
theorem Memory.Kept.of_put {pkt : ℕ} {v : Mbuf} {heads : List ℕ}
    (h : (m.put pkt v).Kept m' heads) : m.Kept m' (pkt :: heads) := by
  obtain ⟨hmbuf, hbuf, hlink⟩ := m.put_other pkt v
  refine ⟨fun r hr => ?_, fun b hb => ?_, fun r => ?_, h.fresh⟩
  · obtain ⟨hne, hnot⟩ := not_or.mp (mt List.mem_cons.mpr hr)
    exact (h.mbuf r hnot).trans (hmbuf r hne)
  · refine (h.buf b fun r hr => ?_).trans (hbuf b (Ne.symm (hb pkt List.mem_cons_self)))
    rw [(hlink r).2.2]
    exact hb r (List.mem_cons_of_mem pkt hr)
  · obtain ⟨hnext, hsegs, haddr⟩ := h.link r
    obtain ⟨hnext', hsegs', haddr'⟩ := hlink r
    exact ⟨hnext.trans hnext', hsegs.trans hsegs', haddr.trans haddr'⟩

/-- A segment apart from those that are rewritten stays as it is. -/
theorem Memory.Kept.view {heads : List ℕ} (h : m.Kept m' heads) {r : ℕ} (hr : r ∉ heads)
    (hbuf : ∀ q ∈ heads, (m.mbuf q).bufAddr ≠ (m.mbuf r).bufAddr) : m'.view r = m.view r :=
  Memory.view_congr (h.mbuf r hr) (h.buf _ hbuf)

/-- Apart from the first packet of a burst, the others are separate from it. -/
theorem Memory.Separate.apart {f : Segments} {frames : List Segments}
    (h : m.Separate (f :: frames)) : m.Separate frames ∧
      (∀ r ∈ frames.flatMap Segments.all, ∀ q ∈ f.all,
        r ≠ q ∧ (m.mbuf r).bufAddr ≠ (m.mbuf q).bufAddr) ∧
      f.1 ∉ f.2 ∧ ∀ r ∈ f.2, (m.mbuf r).bufAddr ≠ (m.mbuf f.1).bufAddr := by
  obtain ⟨hnodup, hbuffers, hheader⟩ := h
  rw [List.flatMap_cons] at hnodup hbuffers
  rw [List.map_append] at hbuffers
  obtain ⟨hself, hrest, hcross⟩ := List.nodup_append.mp hnodup
  obtain ⟨hself', hrest', hcross'⟩ := List.nodup_append.mp hbuffers
  refine ⟨⟨hrest, hrest', fun g hg => hheader g (List.mem_cons_of_mem f hg)⟩, ?_, ?_, ?_⟩
  · intro r hr q hq
    exact ⟨fun heq => hcross q hq r hr heq.symm, fun heq =>
      hcross' _ (List.mem_map_of_mem hq) _ (List.mem_map_of_mem hr) heq.symm⟩
  · exact (List.nodup_cons.mp hself).1
  · intro r hr heq
    have hnot := (List.nodup_cons.mp hself').1
    exact hnot (List.mem_map.mpr ⟨r, hr, heq⟩)

/-- The operation of a port on the first segment of a packet is the operation on
its frame, or overruns the buffer. -/
theorem operatePacket_spec (crc : List UInt8 → ℕ) (ability : Option PortAbility) {f : Segments}
    (hframe : (m.view f.1).IsFrame) (hnot : f.1 ∉ f.2) (hbuf : ∀ r ∈ f.2,
      (m.mbuf r).bufAddr ≠ (m.mbuf f.1).bufAddr) :
    ((abilityOp ability).apply (m.packet f.all) = none →
      operatePacket crc ability m f.1 = .ok none) ∧
    (((abilityOp ability).apply (m.packet f.all)).isSome → ¬ Fits ability m f.1 →
      operatePacket crc ability m f.1 = .error (.undef)) ∧
    (((abilityOp ability).apply (m.packet f.all)).isSome → Fits ability m f.1 →
      ∃ v, operatePacket crc ability m f.1 = .ok (some (m.put f.1 v)) ∧ v.IsFrame ∧
        (abilityOp ability).apply (m.packet f.all) = some ((m.put f.1 v).packet f.all)) := by
  obtain ⟨hpacket, hframe'⟩ := operation_refines crc hframe ability
  have happly : (abilityOp ability).apply (m.packet f.all) =
      ((operation crc ability (m.view f.1)).map Mbuf.packet).map
        fun q => q.append (m.frame f.2) := by
    rw [hpacket]
    exact Op.apply_append hframe.complete _ _
  rw [happly]
  unfold operatePacket
  cases hop : operation crc ability (m.view f.1) with
  | none => exact ⟨fun _ => rfl, fun h => (by cases h), fun h => (by cases h)⟩
  | some v =>
    have hend : v.dataOff + v.dataLen = (m.mbuf f.1).dataOff + (m.mbuf f.1).dataLen :=
      operation_end hop
    refine ⟨fun h => (by cases h), fun _ hfits => ?_, fun _ hfits => ?_⟩
    · unfold Fits at hfits
      push Not at hfits
      exact if_pos ⟨hfits.1, by omega⟩
    · refine ⟨v, if_neg fun hover => ?_, hframe' v hop, ?_⟩
      · have hle := hfits hover.1
        omega
      · have hrest : (m.put f.1 v).frame f.2 = m.frame f.2 := by
          refine Memory.frame_congr fun r hr => ?_
          obtain ⟨hother, hbufs, -⟩ := m.put_other f.1 v
          exact Memory.view_congr (hother r fun heq => hnot (heq ▸ hr)) (hbufs _ (hbuf r hr))
        show some _ = some _
        simp only [Segments.all, Memory.packet, Memory.view_put, hrest]
        rfl

/-- The packets that are counted when a port operates on a burst: those before
the first one on which its operation fails. -/
def reached (ability : Option PortAbility) (m : Memory) (frames : List Segments) : List Segments :=
  frames.takeWhile fun f => ((abilityOp ability).apply (m.packet f.all)).isSome

/-- The checksums that a port stores in a burst all stay in their buffers. -/
def AllFit (ability : Option PortAbility) (m : Memory) (frames : List Segments) : Prop :=
  ∀ f ∈ reached ability m frames, Fits ability m f.1

theorem fits_congr {r : ℕ} (h : m'.view r = m.view r) :
    Fits ability m' r ↔ Fits ability m r := by
  show (rewrites ability (m'.view r) = true →
      (m'.view r).dataOff + (m'.view r).dataLen + 4 ≤ rteMbufDefaultBufSize) ↔ _
  rw [h]
  exact Iff.rfl

/-- The same packets are counted if their segments are the same. -/
theorem reached_congr {frames : List Segments}
    (h : ∀ r ∈ frames.flatMap Segments.all, m'.view r = m.view r) :
    reached ability m' frames = reached ability m frames := by
  unfold reached
  induction frames with
  | nil => rfl
  | cons f frames ih =>
    have hfirst : m'.packet f.all = m.packet f.all :=
      Memory.packet_congr fun r hr => h r (List.mem_append_left _ hr)
    have hrest := ih fun r hr => h r (List.mem_append_right _ hr)
    rw [List.takeWhile_cons, List.takeWhile_cons, hfirst, hrest]

/-- A port that operates on a burst of separate packets makes of each of those
that it counts what its operation makes of the frame, and touches nothing but
first segments; unless a checksum overruns its buffer. -/
theorem operatePackets_spec (crc : List UInt8 → ℕ) (ability : Option PortAbility)
    {frames : List Segments} (h : m.Separate frames) :
    (AllFit ability m frames → ∃ m',
      operatePackets crc ability (frames.map Prod.fst) m =
        .ok ((reached ability m frames).length, m') ∧
      m.Kept m' (frames.map Prod.fst) ∧
      ∀ f ∈ reached ability m frames,
        (abilityOp ability).apply (m.packet f.all) = some (m'.packet f.all) ∧
          (m'.view f.1).IsFrame) ∧
    (¬ AllFit ability m frames →
      operatePackets crc ability (frames.map Prod.fst) m = .error (.undef)) := by
  induction frames generalizing m with
  | nil =>
    refine ⟨fun _ => ⟨m, rfl, .refl m [], fun f hf => (by cases hf)⟩, fun hnot => ?_⟩
    exact absurd (fun f hf => by cases hf) hnot
  | cons f frames ih =>
    obtain ⟨hrest, hcross, hself, hselfbuf⟩ := h.apart
    obtain ⟨hnone, hover, hsome⟩ :=
      operatePacket_spec crc ability (h.header f List.mem_cons_self) hself hselfbuf
    unfold operatePackets AllFit reached
    rw [List.takeWhile_cons]
    by_cases happly : ((abilityOp ability).apply (m.packet f.all)).isSome
    · rw [if_pos happly]
      by_cases hfits : Fits ability m f.1
      · obtain ⟨v, hop, hframe, hpacket⟩ := hsome happly hfits
        obtain ⟨hother, hbufs, hlink⟩ := m.put_other f.1 v
        have hview : ∀ r ∈ frames.flatMap Segments.all, (m.put f.1 v).view r = m.view r := by
          intro r hr
          obtain ⟨hne, hbuf⟩ := hcross r hr f.1 List.mem_cons_self
          exact Memory.view_congr (hother r hne) (hbufs _ hbuf)
        have hsep : (m.put f.1 v).Separate frames := by
          refine ⟨hrest.nodup, ?_, fun g hg => ?_⟩
          · simp only [fun r => (hlink r).2.2]
            exact hrest.buffers
          · rw [hview g.1 (Segments.head_mem hg)]
            exact hrest.header g hg
        have hsame : reached ability (m.put f.1 v) frames = reached ability m frames :=
          reached_congr hview
        have hfit : AllFit ability (m.put f.1 v) frames ↔
            ∀ g ∈ reached ability m frames, Fits ability m g.1 := by
          unfold AllFit
          rw [hsame]
          refine forall₂_congr fun g hg => fits_congr (hview g.1 ?_)
          exact Segments.head_mem ((List.takeWhile_prefix _).subset hg)
        obtain ⟨hok, hundef⟩ := ih hsep
        refine ⟨fun hall => ?_, fun hall => ?_⟩
        · obtain ⟨m', hrun, hkept, heach⟩ :=
            hok (hfit.mpr fun g hg => hall g (List.mem_cons_of_mem f hg))
          rw [hsame] at hrun heach
          refine ⟨m', ?_, hkept.of_put, ?_⟩
          · simp only [List.map_cons, hop, hrun]
            rfl
          · have hstay : ∀ r ∈ f.all, m'.view r = (m.put f.1 v).view r := by
              intro r hr
              refine hkept.view (fun hmem => ?_) fun q hq => ?_
              · obtain ⟨g, hg, rfl⟩ := List.mem_map.mp hmem
                exact (hcross g.1 (Segments.head_mem hg) g.1 hr).1 rfl
              · obtain ⟨g, hg, rfl⟩ := List.mem_map.mp hq
                rw [(hlink g.1).2.2, (hlink r).2.2]
                exact (hcross g.1 (Segments.head_mem hg) r hr).2
            intro g hg
            rcases List.mem_cons.mp hg with rfl | hg
            · rw [Memory.packet_congr hstay, hstay g.1 List.mem_cons_self, Memory.view_put]
              exact ⟨hpacket, hframe⟩
            · obtain ⟨hpacket', hframe'⟩ := heach g hg
              refine ⟨?_, hframe'⟩
              rw [← hpacket']
              congr 1
              have hmem : g ∈ frames := (List.takeWhile_prefix _).subset hg
              exact (Memory.packet_congr fun r hr =>
                hview r (List.mem_flatMap.mpr ⟨g, hmem, hr⟩)).symm
        · have hnot : ¬ AllFit ability (m.put f.1 v) frames := by
            refine mt hfit.mp fun hrest => hall fun g hg => ?_
            rcases List.mem_cons.mp hg with rfl | hg
            · exact hfits
            · exact hrest g hg
          simp only [List.map_cons, hop, hundef hnot]
      · refine ⟨fun hall => absurd (hall f List.mem_cons_self) hfits, fun _ => ?_⟩
        simp only [List.map_cons, hover happly hfits]
    · rw [if_neg happly]
      refine ⟨fun _ => ⟨m, ?_, .refl m _, fun g hg => (by cases hg)⟩, fun hnot => ?_⟩
      · simp only [List.map_cons, hnone (Option.not_isSome_iff_eq_none.mp happly)]
        rfl
      · exact absurd (fun g hg => by cases hg) hnot

end InPlace

end Spp.Mirror
