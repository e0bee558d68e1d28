import Mathlib.Data.List.Count
import Spp.Lib.VlanTag
import Spp.Vf.Port

/-!
# What the operations of a port do to a frame

The functions of `spp_port.c` on one packet, as operations on the bytes of its
frame: the addresses, the tag and what follows it. The stores of the source go
through the buffer of the packet; here they are read back byte by byte.
-/

namespace Spp.Vf

open Vlan

section Bytes

variable {m : Mbuf}

/-- A byte after a store. -/
theorem byte_store (m : Mbuf) (offset k : ℕ) (bytes : List UInt8) :
    (m.store offset bytes).byte k =
      if offset ≤ k then bytes.getD (k - offset) (m.byte k) else m.byte k := by
  simp only [Mbuf.byte, Mbuf.store, Nat.add_le_add_iff_left, Nat.add_sub_add_left]

@[simp] theorem store_dataOff (m : Mbuf) (offset : ℕ) (bytes : List UInt8) :
    (m.store offset bytes).dataOff = m.dataOff := rfl

@[simp] theorem store_dataLen (m : Mbuf) (offset : ℕ) (bytes : List UInt8) :
    (m.store offset bytes).dataLen = m.dataLen := rfl

@[simp] theorem length_load (m : Mbuf) (offset len : ℕ) : (m.load offset len).length = len := by
  simp [Mbuf.load]

/-- Data is equal if its bytes are. -/
theorem load_congr {m m' : Mbuf} {offset offset' len : ℕ}
    (h : ∀ k < len, m.byte (offset + k) = m'.byte (offset' + k)) :
    m.load offset len = m'.load offset' len := by
  apply List.map_congr_left
  intro k hk
  exact h k (List.mem_range.mp hk)

/-- Data splits into two parts. -/
theorem load_add (m : Mbuf) (offset len len' : ℕ) :
    m.load offset (len + len') = m.load offset len ++ m.load (offset + len) len' := by
  simp [Mbuf.load, List.range_add, Nat.add_assoc]

/-- The first four bytes of the data, and the rest. -/
theorem load_four (m : Mbuf) (offset len : ℕ) :
    m.load offset (4 + len) = m.byte offset :: m.byte (offset + 1) :: m.byte (offset + 2) ::
      m.byte (offset + 3) :: m.load (offset + 4) len := by
  rw [load_add]
  rfl

/-- A byte after the store of a `uint16_t`. -/
theorem byte_store16 (m : Mbuf) (offset value k : ℕ) :
    (m.store16 offset value).byte k =
      if k = offset then UInt8.ofNat value
      else if k = offset + 1 then UInt8.ofNat (value / 256) else m.byte k := by
  rw [Mbuf.store16, byte_store]
  by_cases hk : offset ≤ k
  · rw [if_pos hk]
    obtain ⟨j, rfl⟩ := Nat.exists_eq_add_of_le hk
    rw [Nat.add_sub_cancel_left]
    match j with
    | 0 => simp
    | 1 => simp
    | j + 2 => simp
  · rw [if_neg hk, if_neg (by omega), if_neg (by omega)]

@[simp] theorem store16_dataOff (m : Mbuf) (offset value : ℕ) :
    (m.store16 offset value).dataOff = m.dataOff := rfl

@[simp] theorem store16_dataLen (m : Mbuf) (offset value : ℕ) :
    (m.store16 offset value).dataLen = m.dataLen := rfl

/-- A `uint16_t` is stored the way it was loaded. -/
theorem ofNat_load16 (m : Mbuf) (offset : ℕ) :
    UInt8.ofNat (m.load16 offset) = m.byte offset ∧
      UInt8.ofNat (m.load16 offset / 256) = m.byte (offset + 1) := by
  have hlt := (m.byte offset).toNat_lt
  unfold Mbuf.load16
  constructor
  · apply UInt8.toNat_inj.mp
    rw [UInt8.toNat_ofNat']
    omega
  · apply UInt8.toNat_inj.mp
    rw [UInt8.toNat_ofNat']
    have hlt' := (m.byte (offset + 1)).toNat_lt
    omega

variable (crc : List UInt8 → ℕ)

@[simp] theorem setFcsPacket_dataOff (m : Mbuf) : (setFcsPacket crc m).dataOff = m.dataOff := rfl

@[simp] theorem setFcsPacket_dataLen (m : Mbuf) : (setFcsPacket crc m).dataLen = m.dataLen := rfl

/-- The checksum is stored behind the data. -/
theorem setFcsPacket_byte {k : ℕ} (hk : k < m.dataLen) : (setFcsPacket crc m).byte k = m.byte k := by
  unfold setFcsPacket
  dsimp only
  rw [byte_store16, if_neg (by omega), if_neg (by omega), byte_store16, if_neg (by omega),
    if_neg (by omega)]

end Bytes

section Refine

variable (crc : List UInt8 → ℕ) {m : Mbuf}

/-- The room, the addresses and the other bytes of the frame in a buffer. -/
def Mbuf.packet (m : Mbuf) : Packet := ⟨m.dataOff, m.load 0 12, m.load 12 (m.dataLen - 12)⟩

/-- The bytes inside `data_len`. -/
def Mbuf.data (m : Mbuf) : List UInt8 := m.load 0 m.dataLen

/-- The data is a frame: two addresses, tags, and an ethertype. -/
structure Mbuf.IsFrame (m : Mbuf) : Prop where
  addrs : 12 ≤ m.dataLen
  complete : Complete m.packet.body

/-- The bytes of the frame are the data. -/
theorem Mbuf.frame_packet (h : 12 ≤ m.dataLen) : m.packet.frame = m.load 0 m.dataLen := by
  have hsplit := load_add m 0 12 (m.dataLen - 12)
  rw [Nat.add_sub_cancel' h] at hsplit
  rw [hsplit, Nat.zero_add]
  rfl

/-- The ethertype is that of a tag iff its bytes are. -/
theorem load16_eq_tpid_iff (m : Mbuf) :
    m.load16 12 = gVlanTpid ↔ m.byte 12 = 0x81 ∧ m.byte 13 = 0x00 := by
  have htpid : gVlanTpid = 129 := by decide
  have hlt := (m.byte 12).toNat_lt
  unfold Mbuf.load16
  rw [htpid]
  constructor
  · intro heq
    have heq : (m.byte 12).toNat + 256 * (m.byte 13).toNat = 129 := heq
    have h12 : (0x81 : UInt8).toNat = 129 := rfl
    have h13 : (0x00 : UInt8).toNat = 0 := rfl
    exact ⟨UInt8.toNat_inj.mp (by omega), UInt8.toNat_inj.mp (by omega)⟩
  · rintro ⟨h12, h13⟩
    rw [h12, h13]
    rfl

/-- The ethertype is that of a tag iff the frame is tagged. -/
theorem Mbuf.IsFrame.tagged_iff (h : m.IsFrame) : m.load16 12 = gVlanTpid ↔ Tagged m.packet.body := by
  have hlen := h.complete.two_le
  simp only [Mbuf.packet, length_load] at hlen
  obtain ⟨len, hlen⟩ := Nat.exists_eq_add_of_le hlen
  have htake : m.packet.body.take 2 = [m.byte 12, m.byte 13] := by
    simp only [Mbuf.packet]
    rw [hlen, load_add, List.take_left' (by simp)]
    rfl
  rw [load16_eq_tpid_iff, Tagged, htake, tpid]
  simp only [List.cons.injEq, and_true]

/-- The bytes of the tag control information that `add_vlantag_packet` stores. -/
def VlantagInfo.tciBytes (data : VlantagInfo) : Tci :=
  ⟨UInt8.ofNat (data.tci % 2 ^ 16).toNat, UInt8.ofNat ((data.tci % 2 ^ 16).toNat / 256)⟩

/-- The result of a function on a buffer is that of an operation on its frame,
and a frame again. -/
def Refines (result : Option Mbuf) (spec : Option Packet) : Prop :=
  result.map Mbuf.packet = spec ∧ ∀ m, result = some m → m.IsFrame

theorem refines_some {m' : Mbuf} {q : Packet} (hpacket : m'.packet = q) (haddrs : 12 ≤ m'.dataLen)
    (hcomplete : Complete q.body) : Refines (some m') (some q) := by
  refine ⟨congrArg some hpacket, ?_⟩
  rintro _ ⟨⟩
  exact ⟨haddrs, hpacket ▸ hcomplete⟩

/-- A frame with a tag, from its bytes. -/
theorem packet_eq_tag {len : ℕ} {addrs rest : List UInt8} {tci : Tci}
    (hlen : m.dataLen = 16 + len) (haddrs : m.load 0 12 = addrs) (h12 : m.byte 12 = 0x81)
    (h13 : m.byte 13 = 0x00) (h14 : m.byte 14 = tci.hi) (h15 : m.byte 15 = tci.lo)
    (hrest : m.load 16 len = rest) : m.packet = ⟨m.dataOff, addrs, tag tci rest⟩ := by
  have hsub : m.dataLen - 12 = 4 + len := by omega
  unfold Mbuf.packet
  rw [haddrs, hsub, load_four, h12, h13, h14, h15, hrest]
  rfl

/-- The bytes of a frame with a tag. -/
theorem Mbuf.IsFrame.tagged (h : m.IsFrame) (htag : Tagged m.packet.body) :
    ∃ len, m.dataLen = 16 + len ∧ 2 ≤ len ∧ m.byte 12 = 0x81 ∧ m.byte 13 = 0x00 ∧
      untag m.packet.body = m.load 16 len := by
  have hsix := h.complete.six_le htag
  simp only [Mbuf.packet, length_load] at hsix
  obtain ⟨len, hlen⟩ : ∃ len, m.dataLen = 16 + len := ⟨m.dataLen - 16, by omega⟩
  have hbody : m.packet.body = m.byte 12 :: m.byte 13 :: m.byte 14 :: m.byte 15 ::
      m.load 16 len := by
    have hsub : m.dataLen - 12 = 4 + len := by omega
    unfold Mbuf.packet
    rw [hsub, load_four]
  rw [hbody] at htag ⊢
  obtain ⟨h12, h13⟩ : m.byte 12 = 0x81 ∧ m.byte 13 = 0x00 := by simpa [Tagged, tpid] using htag
  exact ⟨len, hlen, by omega, h12, h13, rfl⟩

/-- The bytes after a tag was put into an untagged frame, up to the checksum:
the header is copied to the front, its ethertype stored behind the place of the
tag, and then the tag over it. -/
theorem addedHeader_byte (hroom : 4 ≤ m.dataOff) (tci : ℕ) {k : ℕ} (hk : k < m.dataLen + 4) :
    let new := (⟨m.buf, m.dataOff - 4, m.dataLen + 4⟩ : Mbuf).store 0 (m.load 0 14)
    (setFcsPacket crc
        (((new.store16 16 (new.load16 12)).store16 12 gVlanTpid).store16 14 tci)).byte k =
      if k < 12 then m.byte k
      else if k = 12 then 0x81 else if k = 13 then 0x00
      else if k = 14 then UInt8.ofNat tci else if k = 15 then UInt8.ofNat (tci / 256)
      else m.byte (k - 4) := by
  intro new
  have hmoved : ∀ j, (⟨m.buf, m.dataOff - 4, m.dataLen + 4⟩ : Mbuf).byte (j + 4) = m.byte j := by
    intro j
    have hsum : m.dataOff - 4 + (j + 4) = m.dataOff + j := by omega
    simp only [Mbuf.byte, hsum]
  have hnew : ∀ j, new.byte j = if j < 14 then m.byte j
      else (⟨m.buf, m.dataOff - 4, m.dataLen + 4⟩ : Mbuf).byte j := by
    intro j
    rw [byte_store, if_pos (Nat.zero_le j), Nat.sub_zero]
    by_cases hj : j < 14
    · simp [Mbuf.load, List.getD_eq_getElem?_getD, hj]
    · simp [Mbuf.load, List.getD_eq_getElem?_getD, hj]
  have hlen : (((new.store16 16 (new.load16 12)).store16 12 gVlanTpid).store16 14 tci).dataLen =
      m.dataLen + 4 := rfl
  rw [setFcsPacket_byte crc (by rwa [hlen]), byte_store16, byte_store16, byte_store16,
    (ofNat_load16 new 12).1, (ofNat_load16 new 12).2, hnew 12, hnew 13, hnew k]
  have htpid : UInt8.ofNat gVlanTpid = 0x81 ∧ UInt8.ofNat (gVlanTpid / 256) = 0x00 := by decide
  rw [htpid.1, htpid.2]
  obtain hfront | rfl | rfl | rfl | rfl | hbehind :
      k < 12 ∨ k = 12 ∨ k = 13 ∨ k = 14 ∨ k = 15 ∨ 16 ≤ k := by omega
  · simp (disch := omega) only [if_pos, if_neg]
  · rfl
  · rfl
  · rfl
  · rfl
  · -- the rest has moved by the length of the tag
    obtain ⟨j, rfl⟩ : ∃ j, k = j + 4 := ⟨k - 4, by omega⟩
    rw [hmoved j, Nat.add_sub_cancel]
    obtain rfl | rfl | hrest : j = 12 ∨ j = 13 ∨ 14 ≤ j := by omega
    · rfl
    · rfl
    · simp (disch := omega) only [if_neg]

/-- `add_vlantag_packet` replaces the control information of a tag, or puts a
tag behind the addresses. -/
theorem addVlantagPacket_refines (h : m.IsFrame) (data : VlantagInfo) :
    Refines (addVlantagPacket crc data m) ((Op.add data.tciBytes).apply m.packet) := by
  have haddrs := h.addrs
  unfold addVlantagPacket
  dsimp only [Op.apply]
  by_cases htag : Tagged m.packet.body
  · rw [if_pos (h.tagged_iff.mpr htag), if_pos htag]
    obtain ⟨len, hlen, -, h12, h13, hrest⟩ := h.tagged htag
    have hbyte : ∀ k < m.dataLen,
        (setFcsPacket crc (m.store16 14 (data.tci % 2 ^ 16).toNat)).byte k =
          if k = 14 then data.tciBytes.hi else if k = 15 then data.tciBytes.lo else m.byte k := by
      intro k hk
      rw [setFcsPacket_byte crc (by simpa using hk), byte_store16]
      rfl
    refine refines_some ?_ (by simpa using haddrs) ((h.complete.untag htag).tag _)
    refine packet_eq_tag (by simpa using hlen) ?_ ?_ ?_ ?_ ?_ ?_
    · exact load_congr fun k hk => by rw [hbyte _ (by omega), if_neg (by omega), if_neg (by omega)]
    · rw [hbyte 12 (by omega), if_neg (by omega), if_neg (by omega), h12]
    · rw [hbyte 13 (by omega), if_neg (by omega), if_neg (by omega), h13]
    · rw [hbyte 14 (by omega), if_pos rfl]
    · rw [hbyte 15 (by omega), if_neg (by omega), if_pos rfl]
    · rw [hrest]
      exact load_congr fun k hk => by rw [hbyte _ (by omega), if_neg (by omega), if_neg (by omega)]
  · rw [if_neg (mt h.tagged_iff.mp htag), if_neg htag]
    unfold rtePktmbufPrepend
    by_cases hroom : 4 ≤ m.dataOff
    · rw [if_pos hroom, if_pos (by exact hroom)]
      dsimp only
      obtain ⟨len, hlen⟩ := Nat.exists_eq_add_of_le haddrs
      have hbyte := fun k hk => @addedHeader_byte crc m hroom (data.tci % 2 ^ 16).toNat k hk
      have hsub : m.dataLen - 12 = len := by omega
      refine refines_some ?_ (Nat.le_add_right_of_le haddrs) (h.complete.tag _)
      refine packet_eq_tag (show m.dataLen + 4 = 16 + len by omega) ?_ ?_ ?_ ?_ ?_ ?_
      · exact load_congr fun k hk => by rw [hbyte _ (by omega), if_pos (by omega)]
      · exact hbyte 12 (by omega)
      · exact hbyte 13 (by omega)
      · exact hbyte 14 (by omega)
      · exact hbyte 15 (by omega)
      · rw [Mbuf.packet, hsub]
        refine load_congr fun k hk => ?_
        rw [hbyte _ (by omega), if_neg (by omega), if_neg (by omega), if_neg (by omega),
          if_neg (by omega), if_neg (by omega)]
        congr 1
        omega
    · rw [if_neg hroom, if_neg (by exact hroom)]
      exact ⟨rfl, fun m hm => by cases hm⟩

/-- The bytes after a tag was taken out, up to the checksum: the addresses are
moved over it. -/
theorem removedTag_byte {k : ℕ} (hk : k < m.dataLen - 4) :
    (setFcsPacket crc
      ⟨((m.store 4 (m.load 0 12)).store 0 [0, 0, 0, 0]).buf, m.dataOff + 4, m.dataLen - 4⟩).byte k =
      if k < 12 then m.byte k else m.byte (k + 4) := by
  have hmoved : ∀ buf : ℕ → UInt8, (⟨buf, m.dataOff + 4, m.dataLen - 4⟩ : Mbuf).byte k =
      (⟨buf, m.dataOff, m.dataLen⟩ : Mbuf).byte (k + 4) := by
    intro buf
    have hsum : m.dataOff + 4 + k = m.dataOff + (k + 4) := by omega
    simp only [Mbuf.byte, hsum]
  have hstore := byte_store (m.store 4 (m.load 0 12)) 0 (k + 4) [0, 0, 0, 0]
  rw [setFcsPacket_byte crc hk, hmoved]
  refine Eq.trans hstore ?_
  rw [if_pos (Nat.zero_le _), byte_store, if_pos (Nat.le_add_left 4 k), Nat.add_sub_cancel]
  by_cases hk12 : k < 12
  · simp [Mbuf.load, List.getD_eq_getElem?_getD, hk12]
  · simp [Mbuf.load, List.getD_eq_getElem?_getD, hk12]

/-- `del_vlantag_packet` removes a tag. -/
theorem delVlantagPacket_refines (h : m.IsFrame) :
    Refines (delVlantagPacket crc m) (Op.del.apply m.packet) := by
  have haddrs := h.addrs
  unfold delVlantagPacket
  dsimp only [Op.apply]
  by_cases htag : Tagged m.packet.body
  · rw [if_pos (h.tagged_iff.mpr htag), if_pos htag]
    obtain ⟨len, hlen, htwo, h12, h13, hrest⟩ := h.tagged htag
    have hbyte := fun k hk => @removedTag_byte crc m k hk
    unfold rtePktmbufAdj
    rw [if_pos (by omega)]
    dsimp only
    refine refines_some ?_ (show 12 ≤ m.dataLen - 4 by omega) (h.complete.untag htag)
    rw [hrest]
    have hsub : m.dataLen - 4 - 12 = len := by omega
    refine Packet.mk.injEq .. |>.mpr ⟨rfl, ?_, ?_⟩
    · exact load_congr fun k hk => by rw [hbyte _ (by omega), if_pos (by omega)]
    · refine Eq.trans (congrArg _ hsub) ?_
      refine load_congr fun k hk => ?_
      rw [hbyte _ (by omega), if_neg (by omega)]
      congr 1
      omega
  · rw [if_neg (mt h.tagged_iff.mp htag), if_neg htag]
    exact refines_some rfl haddrs h.complete

end Refine

end Spp.Vf
