import Spp.Mirror.MirrorCopy

/-!
# Faithful mirror copies

Both ports of a mirror send what their own operations make of the frame as it was
received, and in a deep copy nothing that is done to one of the two packets
reaches the other. This holds exactly if every checksum that a port stores behind
the data of a first segment still falls into the buffer.
-/

namespace Spp.Mirror.Frames

open Vf Vlan

section Statement

/-- The copy carries the same frame, in a chain of segments of the same lengths. -/
structure SameFrame (m m' : Memory) (f c : Segments) : Prop where
  chain : m'.Chain c.all
  pktLen : (m'.mbuf c.1).pktLen = (m.mbuf f.1).pktLen
  nbSegs : (m'.mbuf c.1).nbSegs = (m.mbuf f.1).nbSegs
  dataLen : (c.all.map fun r => (m'.mbuf r).dataLen) = f.all.map fun r => (m.mbuf r).dataLen
  bytes : m'.frame c.all = m.frame f.all

/-- Only the segments of a packet and their buffers are changed. -/
structure ChangedOnly (m m' : Memory) (f : Segments) : Prop where
  mbuf : ∀ r ∉ f.all, m'.mbuf r = m.mbuf r
  buf : ∀ b, (∀ r ∈ f.all, (m.mbuf r).bufAddr ≠ b) → m'.buf b = m.buf b

/-- Nothing that is done to one packet changes the bytes of the other. -/
def Independent (m : Memory) (f c : Segments) : Prop :=
  (∀ m', ChangedOnly m m' f → m'.frame c.all = m.frame c.all) ∧
    ∀ m', ChangedOnly m m' c → m'.frame f.all = m.frame f.all

/-- The frame that a port sends is what its operation makes of another one. -/
def Emits (ability : Option PortAbility) (m m' : Memory) (f c : Segments) : Prop :=
  (abilityOp ability).emit (m.packet f.all) = some (m'.frame c.all)

/-- What the mirror is for. The copies carry the frames that were received; a port
sends the packets before the first one on which its operation fails, as far as
its device accepts them, with the bytes that its own operation makes of the frame;
the copies keep their bytes when the other port operates on the packets. -/
structure Faithful (mode : CopyMode) (ability₁ ability₂ : Option PortAbility) (room₁ room₂ : ℕ)
    (m : Memory) (frames copies : List Segments) (run : MirrorRun) : Prop where
  made : run.copies = copies.map Prod.fst
  same : List.Forall₂ (SameFrame m run.copied) frames copies
  apart : mode = .deep → ∀ f ∈ frames, ∀ c ∈ copies, Independent run.copied f c
  sentCopies : run.sentCopies =
    ((copies.map Prod.fst).take (reached ability₂ m frames).length).take room₂
  sent : run.sent = ((frames.map Prod.fst).take (reached ability₁ m frames).length).take room₁
  copyBytes : List.Forall₂ (Emits ability₂ m run.operated) (reached ability₂ m frames)
    (copies.take (reached ability₂ m frames).length)
  kept : ∀ c ∈ copies, run.mem.frame c.all = run.operated.frame c.all
  bytes : ∀ f ∈ reached ability₁ m frames, Emits ability₁ m run.mem f f

end Statement

section Copies

variable {mode : CopyMode} {m m' : Memory} {f c : Segments} {ability : Option PortAbility}

/-- A copy of a segment has the same data. -/
theorem SegCopy.load {orgMbuf copyMbuf : ℕ} (h : SegCopy mode m m' orgMbuf copyMbuf)
    {offset len : ℕ} (hle : offset + len ≤ (m.mbuf orgMbuf).dataLen) :
    (m'.view copyMbuf).load offset len = (m.view orgMbuf).load offset len := by
  refine load_congr fun k hk => ?_
  show m'.buf (m'.mbuf copyMbuf).bufAddr ((m'.mbuf copyMbuf).dataOff + (offset + k)) = _
  rw [h.dataOff, h.data _ (by omega) (by omega)]
  rfl

theorem SegCopy.data_eq {orgMbuf copyMbuf : ℕ} (h : SegCopy mode m m' orgMbuf copyMbuf) :
    m'.data copyMbuf = m.data orgMbuf := by
  show (m'.view copyMbuf).load 0 (m'.mbuf copyMbuf).dataLen = _
  rw [h.dataLen]
  exact h.load (Nat.zero_add _).le

/-- Copies of segments have the same bytes. -/
theorem frame_eq_of_segCopy {segs copies : List ℕ}
    (h : List.Forall₂ (SegCopy mode m m') segs copies) : m'.frame copies = m.frame segs := by
  unfold Memory.frame
  induction h with
  | nil => rfl
  | cons hseg _ ih => rw [List.flatMap_cons, List.flatMap_cons, hseg.data_eq, ih]

/-- And the same lengths. -/
theorem dataLen_eq_of_segCopy {segs copies : List ℕ}
    (h : List.Forall₂ (SegCopy mode m m') segs copies) :
    (copies.map fun r => (m'.mbuf r).dataLen) = segs.map fun r => (m.mbuf r).dataLen := by
  induction h with
  | nil => rfl
  | cons hseg _ ih => rw [List.map_cons, List.map_cons, hseg.dataLen, ih]

theorem PacketCopy.sameFrame (h : PacketCopy mode m m' f c) : SameFrame m m' f c :=
  ⟨h.chain, h.pktLen, h.nbSegs, dataLen_eq_of_segCopy h.segs, frame_eq_of_segCopy h.segs⟩

/-- The first segment of a copy is the first segment of the packet. -/
theorem PacketCopy.head_eq (h : PacketCopy mode m m' f c) (hframe : (m.view f.1).IsFrame) :
    (m'.view c.1).packet = (m.view f.1).packet ∧ (m'.view c.1).IsFrame ∧
      (m'.mbuf c.1).dataOff = (m.mbuf f.1).dataOff ∧
      (m'.mbuf c.1).dataLen = (m.mbuf f.1).dataLen := by
  obtain ⟨addrs, complete⟩ := hframe
  have haddrs : 12 ≤ (m.mbuf f.1).dataLen := addrs
  cases h.segs with
  | cons hhead hrest =>
    have hlen : (m'.view c.1).dataLen = (m.view f.1).dataLen := hhead.dataLen
    have hpacket : (m'.view c.1).packet = (m.view f.1).packet := by
      unfold Mbuf.packet
      rw [hlen, hhead.load (by omega), hhead.load (by exact (Nat.add_sub_cancel' addrs).le)]
      congr 1
      exact hhead.dataOff
    refine ⟨hpacket, ⟨by rw [hlen]; exact addrs, by rw [hpacket]; exact complete⟩, ?_, hlen⟩
    exact hhead.dataOff

/-- A copy of a packet is the same packet. -/
theorem PacketCopy.packet_eq (h : PacketCopy mode m m' f c) (hframe : (m.view f.1).IsFrame) :
    m'.packet c.all = m.packet f.all := by
  have hpacket := (h.head_eq hframe).1
  cases h.segs with
  | cons _ hrest => simp only [Segments.all, Memory.packet, hpacket, frame_eq_of_segCopy hrest]

/-- A port rewrites a copy iff it rewrites the packet. -/
theorem rewrites_congr {v v' : Mbuf} (hv : v.IsFrame) (hv' : v'.IsFrame)
    (h : v'.packet = v.packet) : rewrites ability v' = rewrites ability v := by
  have htag : v'.load16 12 = gVlanTpid ↔ v.load16 12 = gVlanTpid := by
    rw [hv'.tagged_iff, hv.tagged_iff, h]
  unfold rewrites
  simp only [htag]

/-- The checksum behind a copy fits iff the one behind the packet does. -/
theorem PacketCopy.fits_iff (h : PacketCopy mode m m' f c) (hframe : (m.view f.1).IsFrame) :
    Fits ability m' c.1 ↔ Fits ability m f.1 := by
  obtain ⟨hpacket, hframe', hoff, hlen⟩ := h.head_eq hframe
  unfold Fits
  rw [rewrites_congr hframe hframe' hpacket, hoff, hlen]

/-- What is in the second list is related to something in the first. -/
theorem exists_of_forall₂ {α β : Type} {R : α → β → Prop} {as : List α} {bs : List β}
    (h : List.Forall₂ R as bs) : ∀ b ∈ bs, ∃ a ∈ as, R a b := by
  induction h with
  | nil => exact fun b hb => (by cases hb)
  | cons hab _ ih =>
    intro b hb
    rcases List.mem_cons.mp hb with rfl | hb
    · exact ⟨_, List.mem_cons_self, hab⟩
    · obtain ⟨a, ha, hr⟩ := ih b hb
      exact ⟨a, List.mem_cons_of_mem _ ha, hr⟩

variable {frames copies : List Segments}

/-- The copies that a port reaches are those of the packets that it would reach. -/
theorem reached_copies (ability : Option PortAbility)
    (h : List.Forall₂ (PacketCopy mode m m') frames copies)
    (hframe : ∀ f ∈ frames, (m.view f.1).IsFrame) :
    reached ability m' copies = copies.take (reached ability m frames).length ∧
      List.Forall₂ (PacketCopy mode m m') (reached ability m frames)
        (reached ability m' copies) := by
  unfold reached
  induction h with
  | nil => exact ⟨rfl, .nil⟩
  | @cons f c _ _ hcopy _ ih =>
    obtain ⟨htake, hreached⟩ := ih fun g hg => hframe g (List.mem_cons_of_mem f hg)
    rw [List.takeWhile_cons, List.takeWhile_cons,
      hcopy.packet_eq (hframe f List.mem_cons_self)]
    by_cases happly : ((abilityOp ability).apply (m.packet f.all)).isSome
    · rw [if_pos happly, if_pos happly, List.length_cons, List.take_succ_cons, htake]
      rw [htake] at hreached
      exact ⟨rfl, .cons hcopy hreached⟩
    · rw [if_neg happly, if_neg happly]
      exact ⟨rfl, .nil⟩

/-- The checksums fit behind copies iff they fit behind the packets. -/
theorem forall_fits_iff (ability : Option PortAbility)
    (h : List.Forall₂ (PacketCopy mode m m') frames copies)
    (hframe : ∀ f ∈ frames, (m.view f.1).IsFrame) :
    (∀ c ∈ copies, Fits ability m' c.1) ↔ ∀ f ∈ frames, Fits ability m f.1 := by
  induction h with
  | nil => exact ⟨fun _ f hf => (by cases hf), fun _ c hc => (by cases hc)⟩
  | @cons f c _ _ hcopy _ ih =>
    rw [List.forall_mem_cons, List.forall_mem_cons,
      hcopy.fits_iff (hframe f List.mem_cons_self),
      ih fun g hg => hframe g (List.mem_cons_of_mem f hg)]

theorem allFit_copies (ability : Option PortAbility)
    (h : List.Forall₂ (PacketCopy mode m m') frames copies)
    (hframe : ∀ f ∈ frames, (m.view f.1).IsFrame) :
    AllFit ability m' copies ↔ AllFit ability m frames :=
  forall_fits_iff ability (reached_copies ability h hframe).2
    fun f hf => hframe f ((List.takeWhile_prefix _).subset hf)

/-- Every segment of a deep copy has a buffer of its own. -/
theorem bufAddr_of_deep (h : List.Forall₂ (PacketCopy .deep m m') frames copies) :
    ∀ r ∈ copies.flatMap Segments.all, (m'.mbuf r).bufAddr = r := by
  intro r hr
  obtain ⟨c, hc, hmem⟩ := List.mem_flatMap.mp hr
  obtain ⟨f, -, hcopy⟩ := exists_of_forall₂ h c hc
  obtain ⟨q, -, hseg⟩ := exists_of_forall₂ hcopy.segs r hmem
  rw [hseg.deep rfl]

/-- So deep copies are separate packets. -/
theorem separate_copies (h : List.Forall₂ (PacketCopy .deep m m') frames copies)
    (hframe : ∀ f ∈ frames, (m.view f.1).IsFrame) (hnodup : (copies.flatMap Segments.all).Nodup) :
    m'.Separate copies := by
  refine ⟨hnodup, ?_, fun c hc => ?_⟩
  · rw [List.map_congr_left (bufAddr_of_deep h), List.map_id']
    exact hnodup
  · obtain ⟨f, hf, hcopy⟩ := exists_of_forall₂ h c hc
    exact (hcopy.head_eq (hframe f hf)).2.1

end Copies

section Ports

variable (crc : List UInt8 → ℕ) {mode : CopyMode} {m m' : Memory} {ability : Option PortAbility}
  {frames copies : List Segments}

/-- A packet that an operation has succeeded on is sent with the bytes of the
operation. -/
theorem emits_of_apply {f c : Segments} (hframe : (m'.view c.1).IsFrame)
    (h : (abilityOp ability).apply (m.packet f.all) = some (m'.packet c.all)) :
    Emits ability m m' f c := by
  unfold Emits Op.emit
  rw [h]
  exact congrArg some (Memory.frame_packet hframe)

/-- A port without an ability does nothing to a segment. -/
theorem operation_keep (hkeep : abilityOp ability = .keep) (v : Mbuf) :
    operation crc ability v = some v ∧ rewrites ability v = false := by
  unfold abilityOp at hkeep
  unfold operation rewrites
  cases ability with
  | none => exact ⟨rfl, rfl⟩
  | some ability =>
    dsimp only at hkeep ⊢
    cases hope : ability.ope with
    | none => exact ⟨rfl, rfl⟩
    | addVlantag =>
      rw [hope] at hkeep
      cases hkeep
    | delVlantag =>
      rw [hope] at hkeep
      cases hkeep

/-- So it leaves its packets as they are. -/
theorem operatePackets_keep (hkeep : abilityOp ability = .keep) (pkts : List ℕ) (m : Memory) :
    operatePackets crc ability pkts m = .ok (pkts.length, m) := by
  have hpacket : ∀ pkt, operatePacket crc ability m pkt = .ok (some m) := by
    intro pkt
    obtain ⟨hop, hrewrites⟩ := operation_keep crc hkeep (m.view pkt)
    unfold operatePacket
    simp only [hop, hrewrites, Bool.false_eq_true, false_and, if_false, Memory.put_view]
  induction pkts with
  | nil => rfl
  | cons pkt pkts ih => simp only [operatePackets, hpacket, ih, List.length_cons]

/-- And reaches all of them. -/
theorem reached_keep (hkeep : abilityOp ability = .keep) (m : Memory) (frames : List Segments) :
    reached ability m frames = frames := by
  unfold reached
  rw [hkeep]
  exact List.takeWhile_eq_self_iff.mpr fun _ _ => rfl

/-- A port operates on packets that are separate, unless it has no ability. -/
theorem operate_spec (ability : Option PortAbility)
    (hsep : abilityOp ability ≠ .keep → m.Separate frames)
    (hframe : ∀ f ∈ frames, (m.view f.1).IsFrame) :
    (AllFit ability m frames → ∃ m',
      operatePackets crc ability (frames.map Prod.fst) m =
        .ok ((reached ability m frames).length, m') ∧
      m.Kept m' (frames.map Prod.fst) ∧ (abilityOp ability = .keep → m' = m) ∧
      ∀ f ∈ reached ability m frames,
        (abilityOp ability).apply (m.packet f.all) = some (m'.packet f.all) ∧
          (m'.view f.1).IsFrame) ∧
    (¬ AllFit ability m frames →
      operatePackets crc ability (frames.map Prod.fst) m = .error (.undef)) := by
  by_cases hkeep : abilityOp ability = .keep
  · refine ⟨fun _ => ⟨m, ?_, .refl m _, fun _ => rfl, fun f hf => ?_⟩, fun hnot => ?_⟩
    · rw [operatePackets_keep crc hkeep, reached_keep hkeep, List.length_map]
    · rw [hkeep]
      rw [reached_keep hkeep] at hf
      exact ⟨rfl, hframe f hf⟩
    · refine absurd (fun f _ hrewrites => ?_) hnot
      rw [(operation_keep (fun _ => 0) hkeep (m.view f.1)).2] at hrewrites
      cases hrewrites
  · obtain ⟨hok, hundef⟩ := operatePackets_spec crc ability (hsep hkeep)
    refine ⟨fun hall => ?_, hundef⟩
    obtain ⟨m', hrun, hkept, heach⟩ := hok hall
    exact ⟨m', hrun, hkept, fun h => absurd h hkeep, heach⟩

end Ports

section Main

variable (crc : List UInt8 → ℕ) {mode : CopyMode} {alloc : ℕ → Bool} {path : DataPath}
  {ability₁ ability₂ : Option PortAbility} (room₁ room₂ : ℕ) {m : Memory}
  {frames : List Segments}

/-- Packets in memory are independent if they share neither an mbuf nor a buffer. -/
theorem independent_of_apart {f c : Segments}
    (h : ∀ r ∈ f.all, ∀ q ∈ c.all, r ≠ q ∧ (m.mbuf r).bufAddr ≠ (m.mbuf q).bufAddr) :
    Independent m f c := by
  refine ⟨fun m' hchanged => Memory.frame_congr fun q hq => ?_,
    fun m' hchanged => Memory.frame_congr fun r hr => ?_⟩
  · refine Memory.view_congr (hchanged.mbuf q fun hmem => (h q hmem q hq).1 rfl) ?_
    exact hchanged.buf _ fun r hr => (h r hr q hq).2
  · refine Memory.view_congr (hchanged.mbuf r fun hmem => (h r hr r hmem).1 rfl) ?_
    exact hchanged.buf _ fun q hq => (h r hr q hq).2.symm

/-- What was there before the copies were made is as it was. -/
structure OldSame (m m' : Memory) : Prop where
  mbuf : ∀ r < m.fresh, m'.mbuf r = m.mbuf r
  buf : ∀ b < m.fresh, m'.buf b = m.buf b

/-- The port of the copies sends each with the bytes of its own operation, and
leaves the packets as they were. -/
theorem operate_copies {copies : List Segments} {copied : Memory} {ability : Option PortAbility}
    {n : ℕ} (hcopies : List.Forall₂ (PacketCopy mode m copied) frames copies)
    (hframe : ∀ f ∈ frames, (m.view f.1).IsFrame)
    (hnew : copies.flatMap Segments.all = List.range' m.fresh n) (hold : OldSame m copied)
    (hmode : mode = .shallow → abilityOp ability = .keep) :
    (AllFit ability m frames → ∃ m₂,
      operatePackets crc ability (copies.map Prod.fst) copied =
        .ok ((reached ability m frames).length, m₂) ∧
      OldSame m m₂ ∧
      (mode = .deep → ∀ r ∈ copies.flatMap Segments.all, (m₂.mbuf r).bufAddr = r) ∧
      List.Forall₂ (Emits ability m m₂) (reached ability m frames)
        (copies.take (reached ability m frames).length)) ∧
    (¬ AllFit ability m frames →
      operatePackets crc ability (copies.map Prod.fst) copied = .error (.undef)) := by
  obtain ⟨htake, hreached⟩ := reached_copies ability hcopies hframe
  have hsep : abilityOp ability ≠ .keep → copied.Separate copies := by
    intro hne
    cases mode with
    | deep => exact separate_copies hcopies hframe (hnew ▸ List.nodup_range')
    | shallow => exact absurd (hmode rfl) hne
  have hframe' : ∀ c ∈ copies, (copied.view c.1).IsFrame := by
    intro c hc
    obtain ⟨f, hf, hcopy⟩ := exists_of_forall₂ hcopies c hc
    exact (hcopy.head_eq (hframe f hf)).2.1
  obtain ⟨hok, hundef⟩ := operate_spec crc ability hsep hframe'
  rw [allFit_copies ability hcopies hframe, ← hreached.length_eq] at hok
  rw [allFit_copies ability hcopies hframe] at hundef
  refine ⟨fun hall => ?_, hundef⟩
  obtain ⟨m₂, hrun, hkept, hsame, heach⟩ := hok hall
  refine ⟨m₂, hrun, ?_, fun hdeep r hr => ?_, ?_⟩
  · cases mode with
    | shallow =>
      rw [hsame (hmode rfl)]
      exact hold
    | deep =>
      have hge : ∀ r ∈ copies.map Prod.fst, m.fresh ≤ r ∧ m.fresh ≤ (copied.mbuf r).bufAddr := by
        intro r hr
        obtain ⟨c, hc, rfl⟩ := List.mem_map.mp hr
        have hmem := Segments.head_mem hc
        rw [bufAddr_of_deep hcopies c.1 hmem]
        rw [hnew, List.mem_range'_1] at hmem
        exact ⟨hmem.1, hmem.1⟩
      refine ⟨fun r hr => ?_, fun b hb => ?_⟩
      · rw [hkept.mbuf r fun hmem => Nat.not_le_of_lt hr (hge r hmem).1, hold.mbuf r hr]
      · rw [hkept.buf b fun r hmem heq => Nat.not_le_of_lt hb (heq ▸ (hge r hmem).2),
          hold.buf b hb]
  · subst hdeep
    rw [(hkept.link r).2.2, bufAddr_of_deep hcopies r hr]
  · rw [← htake]
    rw [List.forall₂_iff_zip] at hreached ⊢
    refine ⟨hreached.1, fun {f c} hmem => ?_⟩
    obtain ⟨hf, hc⟩ := List.of_mem_zip hmem
    obtain ⟨happly, hframe₂⟩ := heach c hc
    refine emits_of_apply hframe₂ ?_
    rw [← (hreached.2 hmem).packet_eq (hframe f ((List.takeWhile_prefix _).subset hf)), happly]

/-- The port of the packets sends each with the bytes of its own operation, and
leaves everything that was made since. -/
theorem operate_originals {m₂ : Memory} {ability : Option PortAbility}
    (hreceived : ∀ f ∈ frames, Received m f) (hold : OldSame m m₂)
    (hsep : abilityOp ability ≠ .keep → m.Separate frames) :
    (AllFit ability m frames → ∃ m₃,
      operatePackets crc ability (frames.map Prod.fst) m₂ =
        .ok ((reached ability m frames).length, m₃) ∧
      (abilityOp ability = .keep → m₃ = m₂) ∧
      (∀ r, m.fresh ≤ r → m.fresh ≤ (m₂.mbuf r).bufAddr → m₃.view r = m₂.view r) ∧
      ∀ f ∈ reached ability m frames, Emits ability m m₃ f f) ∧
    (¬ AllFit ability m frames →
      operatePackets crc ability (frames.map Prod.fst) m₂ = .error (.undef)) := by
  have hcopyable : ∀ r ∈ frames.flatMap Segments.all, Copyable m r := by
    intro r hr
    obtain ⟨f, hf, hmem⟩ := List.mem_flatMap.mp hr
    exact (hreceived f hf).copyable r hmem
  have hmbuf : ∀ r ∈ frames.flatMap Segments.all, m₂.mbuf r = m.mbuf r :=
    fun r hr => hold.mbuf r (hcopyable r hr).lt
  have hview : ∀ r ∈ frames.flatMap Segments.all, m₂.view r = m.view r :=
    fun r hr => Memory.view_congr (hmbuf r hr) (hold.buf _ (hcopyable r hr).addr_lt)
  have hframe : ∀ f ∈ frames, (m₂.view f.1).IsFrame := by
    intro f hf
    rw [hview f.1 (Segments.head_mem hf)]
    exact (hreceived f hf).header
  have hsep₂ : abilityOp ability ≠ .keep → m₂.Separate frames := by
    intro hne
    obtain ⟨hnodup, hbuffers, -⟩ := hsep hne
    refine ⟨hnodup, ?_, hframe⟩
    rwa [List.map_congr_left fun r hr => congrArg RteMbuf.bufAddr (hmbuf r hr)]
  have hreached : reached ability m₂ frames = reached ability m frames := reached_congr hview
  have hfit : AllFit ability m₂ frames ↔ AllFit ability m frames := by
    unfold AllFit
    rw [hreached]
    refine forall₂_congr fun f hf => fits_congr (hview f.1 ?_)
    exact Segments.head_mem ((List.takeWhile_prefix _).subset hf)
  obtain ⟨hok, hundef⟩ := operate_spec crc ability hsep₂ hframe
  rw [hfit, hreached] at hok
  rw [hfit] at hundef
  refine ⟨fun hall => ?_, hundef⟩
  obtain ⟨m₃, hrun, hkept, hsame, heach⟩ := hok hall
  refine ⟨m₃, hrun, hsame, fun r hr haddr => ?_, fun f hf => ?_⟩
  · have hlt : ∀ q ∈ frames.map Prod.fst, q < m.fresh ∧ (m₂.mbuf q).bufAddr < m.fresh := by
      intro q hq
      obtain ⟨f, hf, rfl⟩ := List.mem_map.mp hq
      have hmem := Segments.head_mem hf
      rw [hmbuf f.1 hmem]
      exact ⟨(hcopyable f.1 hmem).lt, (hcopyable f.1 hmem).addr_lt⟩
    refine hkept.view (fun hmem => Nat.not_le_of_lt (hlt r hmem).1 hr) fun q hq heq => ?_
    exact Nat.not_le_of_lt (hlt q hq).2 (heq ▸ haddr)
  · obtain ⟨happly, hframe₃⟩ := heach f hf
    refine emits_of_apply hframe₃ ?_
    rw [← happly]
    refine congrArg _ (Memory.packet_congr fun r hr => (hview r ?_).symm)
    exact List.mem_flatMap.mpr ⟨f, (List.takeWhile_prefix _).subset hf, hr⟩

/-- No copy is NULL. -/
theorem mapM_id_map_some (pkts : List ℕ) : (pkts.map some).mapM id = some pkts := by
  induction pkts with
  | nil => rfl
  | cons pkt pkts ih =>
    rw [List.map_cons, List.mapM_cons, ih]
    rfl

/-- A mirror whose copies can be made is faithful iff no port stores a checksum
behind the end of a buffer. -/
theorem mirrorProc_faithful_iff (halloc : ∀ r, alloc r = true)
    (hpath : path.numTx = 2 ∧ path.numRx = 1) (hdevice₁ : 0 ≤ (path.ports 0).tx.dpdkPort)
    (hdevice₂ : 0 ≤ (path.ports 1).tx.dpdkPort) (hreceived : ∀ f ∈ frames, Received m f)
    (hsep : abilityOp ability₁ ≠ .keep → m.Separate frames)
    (hshallow : mode = .shallow → abilityOp ability₁ = .keep ∧ abilityOp ability₂ = .keep) :
    (∃ copies run, mirrorProc crc mode alloc path ability₁ ability₂ room₁ room₂
        (frames.map Prod.fst) m = .ok run ∧
      Faithful mode ability₁ ability₂ room₁ room₂ m frames copies run) ↔
    AllFit ability₁ m frames ∧ AllFit ability₂ m frames := by
  obtain ⟨copies, copied, hcopy, hfresh, hnew, hcopies, hmbuf, hbuf⟩ :=
    copyPackets_spec mode halloc hreceived
  have hframe : ∀ f ∈ frames, (m.view f.1).IsFrame := fun f hf => (hreceived f hf).header
  have hmap : (copies.map fun c => some c.1).mapM id = some (copies.map Prod.fst) := by
    rw [← mapM_id_map_some, List.map_map]
    rfl
  obtain ⟨hok₂, hundef₂⟩ := operate_copies crc hcopies hframe hnew ⟨hmbuf, hbuf⟩
    fun hmode => (hshallow hmode).2
  have hge : ∀ q ∈ copies.flatMap Segments.all, m.fresh ≤ q := by
    intro q hq
    rw [hnew, List.mem_range'_1] at hq
    exact hq.1
  unfold mirrorProc txTo ethTxBurst
  simp only [hpath, and_self, not_true, if_false, hdevice₁, hdevice₂, if_true, hcopy, hmap]
  by_cases hall₂ : AllFit ability₂ m frames
  · obtain ⟨m₂, hrun₂, hold₂, haddr, hemits⟩ := hok₂ hall₂
    obtain ⟨hok₁, hundef₁⟩ := operate_originals crc hreceived hold₂ hsep
    simp only [hrun₂]
    by_cases hall₁ : AllFit ability₁ m frames
    · obtain ⟨m₃, hrun₁, hkeep, hstay, hemits₁⟩ := hok₁ hall₁
      refine ⟨fun _ => ⟨hall₁, hall₂⟩, fun _ => ⟨copies, _, by rw [hrun₁], ?_⟩⟩
      refine ⟨rfl, hcopies.imp fun _ _ h => h.sameFrame, ?_, rfl, rfl, hemits, ?_, hemits₁⟩
      · intro hdeep f hf c hc
        subst hdeep
        refine independent_of_apart fun r hr q hq => ?_
        have hq := List.mem_flatMap.mpr ⟨c, hc, hq⟩
        obtain ⟨hlt, hlt', -⟩ := (hreceived f hf).copyable r hr
        rw [bufAddr_of_deep hcopies q hq, hmbuf r hlt]
        have hle := hge q hq
        omega
      · intro c hc
        cases hmode : mode with
        | shallow => rw [hkeep (hshallow hmode).1]
        | deep =>
          refine Memory.frame_congr fun q hq => ?_
          have hq := List.mem_flatMap.mpr ⟨c, hc, hq⟩
          refine hstay q (hge q hq) ?_
          rw [haddr hmode q hq]
          exact hge q hq
    · simp only [hundef₁ hall₁]
      exact ⟨fun ⟨_, _, h, _⟩ => (by cases h), fun h => absurd h.1 hall₁⟩
  · simp only [hundef₂ hall₂]
    exact ⟨fun ⟨_, _, h, _⟩ => (by cases h), fun h => absurd h.2 hall₂⟩

end Main

section Overrun

/-- A frame in two segments, the first of them with this much data. -/
def twoSegments (dataLen : ℕ) : Memory where
  mbuf r :=
    if r = 0 then { bufAddr := 0, dataLen := dataLen, pktLen := dataLen + 10, nbSegs := 2,
                    next := some 1 }
    else { bufAddr := r, dataLen := 10 }
  buf _ _ := 0
  fresh := 2

/-- Ports with devices, one to receive from and two to send to. -/
def mirrorPath : DataPath :=
  { name := ['m'], type := .mirror, numRx := 1, numTx := 2
    ports := fun i => ⟨⟨.phy, 0, 0, {}, fun _ => {}⟩, ⟨.phy, i + 1, i + 1, {}, fun _ => {}⟩⟩ }

/-- Adding a tag. -/
def addTag : Option PortAbility :=
  some { ope := .addVlantag, rxtx := .tx, vlantag := { vid := 10, pcp := 3, tci := 0x0a60 } }

/-- The frame is one that a mirror receives, up to a segment that fills its buffer. -/
theorem received_twoSegments {dataLen : ℕ} (hlo : 14 ≤ dataLen) (hhi : dataLen ≤ 2048) :
    Received (twoSegments dataLen) (0, [1]) := by
  refine ⟨⟨rfl, rfl⟩, by decide, rfl, fun r hr => ?_, Nat.le_of_add_left_le hlo, fun k hk => ?_⟩
  · rcases List.mem_cons.mp hr with rfl | hr
    · refine ⟨Nat.two_pos, Nat.two_pos, ?_⟩
      show 128 + dataLen ≤ 2176
      omega
    · obtain rfl := List.mem_singleton.mp hr
      exact ⟨Nat.one_lt_two, Nat.one_lt_two, by show 128 + 10 ≤ 2176; omega⟩
  · obtain ⟨len, rfl⟩ := Nat.exists_eq_add_of_le hlo
    have hlen : 14 + len - 12 = 2 + len := by omega
    have hbody : ((twoSegments (14 + len)).view 0).packet.body =
        [0, 0] ++ ((twoSegments (14 + len)).view 0).load 14 len := by
      show Mbuf.load _ 12 (14 + len - 12) = _
      rw [hlen, load_add]
      rfl
    cases k with
    | zero =>
      show 2 ≤ ((twoSegments (14 + len)).view 0).packet.body.length
      rw [hbody, List.length_append]
      exact Nat.le_add_right 2 _
    | succ k =>
      have htag : Tagged ((twoSegments (14 + len)).view 0).packet.body := hk 0 (Nat.succ_pos k)
      rw [hbody] at htag
      exact absurd htag (by unfold Tagged; rw [List.take_left' (by rfl)]; decide)

theorem separate_twoSegments {dataLen : ℕ} (hlo : 14 ≤ dataLen) (hhi : dataLen ≤ 2048) :
    (twoSegments dataLen).Separate [(0, [1])] := by
  refine ⟨by decide, ?_, fun f hf => ?_⟩
  · show [0, 1].Nodup
    decide
  · obtain rfl := List.mem_singleton.mp hf
    exact (received_twoSegments hlo hhi).header

/-- A frame with short segments is mirrored faithfully, with a tag on one side. -/
theorem mirrorProc_faithful_sixty : ∃ copies run,
    mirrorProc (fun _ => 0) .deep (fun _ => true) mirrorPath addTag none 32 32 [0]
      (twoSegments 60) = .ok run ∧
    Faithful .deep addTag none 32 32 (twoSegments 60) [(0, [1])] copies run := by
  refine (mirrorProc_faithful_iff (fun _ => 0) 32 32 (fun _ => rfl) ⟨rfl, rfl⟩ (by decide)
    (by decide) (fun f hf => ?_) (fun _ => separate_twoSegments (by decide) (by decide))
    (fun h => by cases h)).mpr ?_
  · obtain rfl := List.mem_singleton.mp hf
    exact received_twoSegments (by decide) (by decide)
  · refine ⟨fun f hf => ?_, fun f hf => ?_⟩
    · obtain rfl := List.mem_singleton.mp ((List.takeWhile_prefix _).subset hf)
      exact fun _ => by decide
    · obtain rfl := List.mem_singleton.mp ((List.takeWhile_prefix _).subset hf)
      exact fun _ => by decide

/-- The first segment fills its buffer in a frame that a mirror receives, and the
checksum of a port that adds a tag is stored behind the end of the buffer. -/
theorem not_faithful_fullSegment :
    Received (twoSegments 2048) (0, [1]) ∧ (twoSegments 2048).Separate [(0, [1])] ∧
    mirrorProc (fun _ => 0) .deep (fun _ => true) mirrorPath addTag none 32 32 [0]
      (twoSegments 2048) = .error (.undef) ∧
    ¬ ∃ copies run, mirrorProc (fun _ => 0) .deep (fun _ => true) mirrorPath addTag none 32 32 [0]
        (twoSegments 2048) = .ok run ∧
      Faithful .deep addTag none 32 32 (twoSegments 2048) [(0, [1])] copies run := by
  refine ⟨received_twoSegments (by decide) (by decide),
    separate_twoSegments (by decide) (by decide), rfl, fun ⟨_, _, hrun, _⟩ => ?_⟩
  cases (show Except.error Stop.undef = _ from hrun)

end Overrun

end Spp.Mirror.Frames
