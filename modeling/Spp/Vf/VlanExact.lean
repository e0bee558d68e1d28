import Spp.Vf.PortAbility
import Spp.Vf.VlanFrame

/-!
# The stores of the VLAN operations, one after the other

`add_vlantag_packet` copies the header over itself with `rte_memcpy`, and
`del_vlantag_packet` moves the addresses word by word over memory that it has
yet to read. The stores are made here in the order of the source; the bytes of
the frame are those of the operations in `Spp.Vf.Port`.
-/

namespace Spp.Vf

open Vlan

section Stores

/-- `rte_memcpy` within the data of a packet: pieces of the given lengths are
loaded and stored, from the front to the back. -/
def rteMemcpy : List ℕ → ℕ → ℕ → Mbuf → Mbuf
  | [], _, _, m => m
  | len :: pieces, dst, src, m =>
    rteMemcpy pieces (dst + len) (src + len) (m.store dst (m.load src len))

/-- `new[i] = old[i]` in `del_vlantag_packet`, where the new header begins four
bytes behind the old one. -/
def copyWord (i : ℕ) (m : Mbuf) : Mbuf := m.store (4 + 4 * i) (m.load (4 * i) 4)

variable (crc : List UInt8 → ℕ) (pieces : List ℕ)

/-- `add_vlantag_packet`, with a copy in pieces. -/
def addVlantagStores (data : VlantagInfo) (pkt : Mbuf) : Option Mbuf :=
  let tci := (data.tci % 2 ^ 16).toNat
  if pkt.load16 12 = gVlanTpid then some (setFcsPacket crc (pkt.store16 14 tci))
  else
    match rtePktmbufPrepend pkt 4 with
    | none => none
    | some m =>
      -- The old header begins four bytes behind the new one.
      let new := rteMemcpy pieces 0 4 m
      let new := (new.store16 16 (new.load16 12)).store16 12 gVlanTpid
      some (setFcsPacket crc (new.store16 14 tci))

/-- `del_vlantag_packet`, with the copies of words in their order. -/
def delVlantagStores (pkt : Mbuf) : Option Mbuf :=
  if pkt.load16 12 = gVlanTpid then
    match rtePktmbufAdj pkt 4 with
    | none => none
    | some new =>
      let moved := (copyWord 0 (copyWord 1 (copyWord 2 pkt))).store 0 [0, 0, 0, 0]
      some (setFcsPacket crc { new with buf := moved.buf })
  else some pkt

end Stores

section Copies

variable {m : Mbuf}

/-- A byte after stored data has been loaded from elsewhere. -/
theorem byte_store_load (m : Mbuf) (dst src len k : ℕ) :
    (m.store dst (m.load src len)).byte k =
      if dst ≤ k ∧ k < dst + len then m.byte (src + (k - dst)) else m.byte k := by
  rw [byte_store]
  by_cases hdst : dst ≤ k
  · by_cases hlen : k < dst + len
    · have hindex : k - dst < len := by omega
      rw [if_pos hdst, if_pos ⟨hdst, hlen⟩]
      simp [Mbuf.load, List.getD_eq_getElem?_getD, hindex]
    · have hindex : ¬ k - dst < len := by omega
      rw [if_pos hdst, if_neg fun h => hlen h.2]
      simp [Mbuf.load, List.getD_eq_getElem?_getD, hindex]
  · rw [if_neg hdst, if_neg fun h => hdst h.1]

/-- A copy to lower addresses, made from the front to the back, reads every byte
before it is overwritten. -/
theorem rteMemcpy_spec (pieces : List ℕ) {dst src : ℕ} (h : dst ≤ src) (m : Mbuf) :
    (rteMemcpy pieces dst src m).dataOff = m.dataOff ∧
      (rteMemcpy pieces dst src m).dataLen = m.dataLen ∧
      ∀ k, (rteMemcpy pieces dst src m).byte k =
        if dst ≤ k ∧ k < dst + pieces.sum then m.byte (src + (k - dst)) else m.byte k := by
  induction pieces generalizing dst src m with
  | nil =>
    refine ⟨rfl, rfl, fun k => ?_⟩
    rw [List.sum_nil, if_neg (by omega)]
    rfl
  | cons len pieces ih =>
    obtain ⟨hoff, hlen, hbyte⟩ := ih (Nat.add_le_add_right h len) (m.store dst (m.load src len))
    refine ⟨hoff, hlen, fun k => ?_⟩
    rw [rteMemcpy, hbyte k, List.sum_cons]
    by_cases hlow : k < dst + len
    · rw [if_neg (by omega), byte_store_load]
      by_cases hdst : dst ≤ k
      · rw [if_pos ⟨hdst, hlow⟩, if_pos (by omega)]
      · rw [if_neg (by omega), if_neg (by omega)]
    · by_cases hhigh : k < dst + len + pieces.sum
      · -- The source lies behind everything that has been stored so far.
        have hsource : src + len + (k - (dst + len)) = src + (k - dst) := by omega
        rw [if_pos (by omega), if_pos (by omega), byte_store_load, if_neg (by omega), hsource]
      · rw [if_neg (by omega), if_neg (by omega), byte_store_load, if_neg (by omega)]

/-- Buffers are equal if their data begins at one place and all bytes are. -/
theorem mbuf_ext {m m' : Mbuf} (hoff : m.dataOff = m'.dataOff) (hlen : m.dataLen = m'.dataLen)
    (hbuf : ∀ k, m.buf k = m'.buf k) : m = m' := by
  cases m
  cases m'
  obtain rfl : _ = _ := funext hbuf
  dsimp only at hoff hlen
  rw [hoff, hlen]

/-- Bytes in front of the data are not stored. -/
theorem store_buf_lt {k : ℕ} (h : k < m.dataOff) (offset : ℕ) (bytes : List UInt8) :
    (m.store offset bytes).buf k = m.buf k := by
  dsimp only [Mbuf.store]
  rw [if_neg (by omega)]

theorem rteMemcpy_buf_lt (pieces : List ℕ) (dst src : ℕ) (m : Mbuf) {k : ℕ} (h : k < m.dataOff) :
    (rteMemcpy pieces dst src m).buf k = m.buf k := by
  induction pieces generalizing dst src m with
  | nil => rfl
  | cons len pieces ih =>
    have hrest := ih (dst + len) (src + len) (m.store dst (m.load src len)) h
    exact hrest.trans (store_buf_lt h dst _)

/-- Buffers with the same bytes in front of the data, and the same data. -/
theorem mbuf_ext_byte {m m' : Mbuf} (hoff : m.dataOff = m'.dataOff)
    (hlen : m.dataLen = m'.dataLen) (hfront : ∀ k < m.dataOff, m.buf k = m'.buf k)
    (hbyte : ∀ k, m.byte k = m'.byte k) : m = m' := by
  refine mbuf_ext hoff hlen fun k => ?_
  by_cases hk : k < m.dataOff
  · exact hfront k hk
  · obtain ⟨j, rfl⟩ := Nat.exists_eq_add_of_le (Nat.not_lt.mp hk)
    have hj := hbyte j
    unfold Mbuf.byte at hj
    rwa [← hoff] at hj

/-- However the header is cut into pieces, it arrives as it was. -/
theorem rteMemcpy_header {pieces : List ℕ} (h : pieces.sum = 14) (pkt m : Mbuf)
    (hm : rtePktmbufPrepend pkt 4 = some m) :
    rteMemcpy pieces 0 4 m = m.store 0 (pkt.load 0 14) := by
  obtain ⟨hoff, hlen, hbyte⟩ := rteMemcpy_spec pieces (Nat.zero_le 4) m
  unfold rtePktmbufPrepend at hm
  split at hm
  · rename_i hroom
    have hload : pkt.load 0 14 = m.load 4 14 := by
      obtain rfl := Option.some.inj hm
      refine load_congr fun k _ => ?_
      have hsum : pkt.dataOff - 4 + (4 + k) = pkt.dataOff + (0 + k) := by omega
      simp only [Mbuf.byte, hsum]
    rw [hload]
    refine mbuf_ext_byte hoff hlen (fun k hk => ?_) fun k => ?_
    · rw [hoff] at hk
      rw [rteMemcpy_buf_lt pieces 0 4 m hk, store_buf_lt hk]
    · rw [hbyte, byte_store_load, h]
  · cases hm

/-- The words of the addresses arrive as they were: each is read before the
store of the one in front of it. -/
theorem copyWords_eq (m : Mbuf) :
    copyWord 0 (copyWord 1 (copyWord 2 m)) = m.store 4 (m.load 0 12) := by
  refine mbuf_ext_byte rfl rfl (fun k hk => ?_) fun k => ?_
  · have hk : k < m.dataOff := hk
    rw [copyWord, copyWord, copyWord, store_buf_lt (by exact hk), store_buf_lt (by exact hk),
      store_buf_lt hk, store_buf_lt hk]
  · have hword : ∀ (i : ℕ) (m : Mbuf) (k : ℕ), (copyWord i m).byte k =
        if 4 + 4 * i ≤ k ∧ k < 4 + 4 * i + 4 then m.byte (k - 4) else m.byte k := by
      intro i m k
      rw [copyWord, byte_store_load]
      split_ifs with hk
      · have hindex : 4 * i + (k - (4 + 4 * i)) = k - 4 := by omega
        rw [hindex]
      · rfl
    simp only [hword, byte_store_load]
    by_cases h : 4 ≤ k ∧ k < 16
    · have hindex : 0 + (k - 4) = k - 4 := by omega
      rw [if_pos (by omega : 4 ≤ k ∧ k < 4 + 12), hindex]
      split_ifs <;> first | rfl | omega
    · rw [if_neg (by omega : ¬ (4 ≤ k ∧ k < 4 + 12))]
      split_ifs <;> first | rfl | omega

end Copies

section Refine

variable (crc : List UInt8 → ℕ) {pieces : List ℕ} (hpieces : pieces.sum = 14)

include hpieces in
/-- The stores of `add_vlantag_packet` make what its copy as a whole makes. -/
theorem addVlantagStores_eq (data : VlantagInfo) (pkt : Mbuf) :
    addVlantagStores crc pieces data pkt = addVlantagPacket crc data pkt := by
  unfold addVlantagStores addVlantagPacket
  cases hm : rtePktmbufPrepend pkt 4 with
  | none => rfl
  | some m =>
    have hheader := rteMemcpy_header hpieces pkt m hm
    dsimp only
    rw [hheader]

/-- The stores of `del_vlantag_packet` make what its copy as a whole makes. -/
theorem delVlantagStores_eq (pkt : Mbuf) : delVlantagStores crc pkt = delVlantagPacket crc pkt := by
  unfold delVlantagStores delVlantagPacket
  cases rtePktmbufAdj pkt 4 with
  | none => rfl
  | some new =>
    dsimp only
    rw [copyWords_eq]

end Refine

section Exact

/-- The frame has an Ethernet header, and its ethertype is that of a tag. -/
def Mbuf.HasTag (m : Mbuf) : Prop := m.byte 12 = 0x81 ∧ m.byte 13 = 0x00

variable (crc : List UInt8 → ℕ) (pieces : List ℕ)

/-- Insertion and removal of a tag whose control information is `hi`, `lo` are
exact on every frame of at least fourteen bytes. -/
structure ExactTag (data : VlantagInfo) (hi lo : UInt8) : Prop where
  /-- An untagged frame gets a tag behind the addresses, and loses it again. -/
  inserted : ∀ m : Mbuf, 14 ≤ m.dataLen → ¬ m.HasTag → 4 ≤ m.dataOff →
    ∃ added removed, addVlantagStores crc pieces data m = some added ∧
      added.data = m.load 0 12 ++ [0x81, 0x00, hi, lo] ++ m.load 12 (m.dataLen - 12) ∧
      delVlantagStores crc added = some removed ∧
      removed.data = m.data ∧ removed.dataLen = m.dataLen
  /-- Of a tagged frame the control information is replaced. -/
  replaced : ∀ m : Mbuf, 14 ≤ m.dataLen → m.HasTag →
    ∃ added, addVlantagStores crc pieces data m = some added ∧ added.dataLen = m.dataLen ∧
      ∀ k < m.dataLen, added.byte k = if k = 14 then hi else if k = 15 then lo else m.byte k
  /-- Removal leaves an untagged frame as it is. -/
  kept : ∀ m : Mbuf, 14 ≤ m.dataLen → ¬ m.HasTag → delVlantagStores crc m = some m

variable {pieces}

/-- The bytes after a tag was inserted and removed again. -/
theorem data_delVlantag_added {m added : Mbuf} (hlen : 14 ≤ m.dataLen)
    (haddedLen : added.dataLen = m.dataLen + 4) (hbyte : ∀ k < m.dataLen + 4, added.byte k =
      if k < 12 then m.byte k else if k = 12 then 0x81 else if k = 13 then 0x00
      else if 16 ≤ k then m.byte (k - 4) else added.byte k) :
    ∃ removed, delVlantagPacket crc added = some removed ∧ removed.data = m.data ∧
      removed.dataLen = m.dataLen := by
  have htag : added.load16 12 = gVlanTpid := by
    have h12 := hbyte 12 (by omega)
    have h13 := hbyte 13 (by omega)
    exact (load16_eq_tpid_iff added).mpr ⟨h12, h13⟩
  unfold delVlantagPacket rtePktmbufAdj
  rw [if_pos htag, if_pos (by omega)]
  dsimp only
  have hremovedLen : added.dataLen - 4 = m.dataLen := by omega
  refine ⟨_, rfl, ?_, hremovedLen⟩
  have hdata : m.data = m.load 0 (added.dataLen - 4) := by rw [hremovedLen, Mbuf.data]
  rw [hdata]
  refine load_congr fun k hk => ?_
  have hk : k < added.dataLen - 4 := hk
  rw [Nat.zero_add, removedTag_byte crc hk]
  by_cases hfront : k < 12
  · rw [if_pos hfront, hbyte k (by omega), if_pos hfront]
  · rw [if_neg hfront, hbyte (k + 4) (by omega), if_neg (by omega), if_neg (by omega),
      if_neg (by omega), if_pos (by omega), Nat.add_sub_cancel]

/-- The tag that `port_ability_set_ability` publishes is in network byte order. -/
theorem tciBytes_publishAbility {ability : PortAbility} (hope : ability.ope = .addVlantag)
    {vid pcp : ℕ} (hvid : ability.vlantag.vid = vid) (hpcp : ability.vlantag.pcp = pcp)
    (hvlan : vid < 4096) (hprio : pcp < 8) :
    (publishAbility ability).vlantag.tciBytes =
      ⟨UInt8.ofNat ((pcp <<< 13 ||| vid) / 256), UInt8.ofNat ((pcp <<< 13 ||| vid) % 256)⟩ := by
  have htci : sppVlantagCalcTci vid pcp = pcp <<< 13 ||| vid := by
    unfold sppVlantagCalcTci
    have hprio' : ((pcp : ℤ) % 8).toNat = pcp := by omega
    have hvlan' : ((vid : ℤ) % 4096).toNat = vid := by omega
    rw [hprio', hvlan']
  have hlt : pcp <<< 13 ||| vid < 2 ^ 16 := by
    refine Nat.or_lt_two_pow ?_ (by omega)
    rw [Nat.shiftLeft_eq]
    omega
  rw [publishAbility, if_pos hope, VlantagInfo.tciBytes]
  dsimp only
  rw [hvid, hpcp, htci]
  generalize pcp <<< 13 ||| vid = tci at hlt
  have hswap : ((rteCpuToBe16 tci : ℤ) % 2 ^ 16).toNat = tci % 256 * 256 + tci / 256 := by
    have hdiv : tci / 256 % 256 = tci / 256 := Nat.mod_eq_of_lt (by omega)
    rw [rteCpuToBe16, hdiv]
    omega
  rw [hswap]
  have hhigh : (tci % 256 * 256 + tci / 256) / 256 = tci % 256 := by omega
  rw [hhigh]
  refine Tci.mk.injEq .. |>.mpr ⟨?_, rfl⟩
  apply UInt8.toNat_inj.mp
  rw [UInt8.toNat_ofNat', UInt8.toNat_ofNat']
  omega

/-- A tag that is added with an ID and a priority is inserted, replaced and
removed byte by byte as the standard has it. -/
theorem exactTag_publishAbility (hpieces : pieces.sum = 14) {ability : PortAbility}
    (hope : ability.ope = .addVlantag) {vid pcp : ℕ} (hvid : ability.vlantag.vid = vid)
    (hpcp : ability.vlantag.pcp = pcp) (hvlan : vid < 4096) (hprio : pcp < 8) :
    ExactTag crc pieces (publishAbility ability).vlantag
      (UInt8.ofNat ((pcp <<< 13 ||| vid) / 256)) (UInt8.ofNat ((pcp <<< 13 ||| vid) % 256)) := by
  have htci := tciBytes_publishAbility hope hvid hpcp hvlan hprio
  generalize (publishAbility ability).vlantag = data at htci
  generalize UInt8.ofNat ((pcp <<< 13 ||| vid) / 256) = hi at htci
  generalize UInt8.ofNat ((pcp <<< 13 ||| vid) % 256) = lo at htci
  have hhi : UInt8.ofNat (data.tci % 2 ^ 16).toNat = hi := congrArg Tci.hi htci
  have hlo : UInt8.ofNat ((data.tci % 2 ^ 16).toNat / 256) = lo := congrArg Tci.lo htci
  constructor
  · intro m hlen hntag hroom
    have hnload : ¬ m.load16 12 = gVlanTpid := mt (load16_eq_tpid_iff m).mp hntag
    rw [addVlantagStores_eq crc hpieces]
    unfold addVlantagPacket rtePktmbufPrepend
    rw [if_neg hnload, if_pos hroom]
    dsimp only
    have hbyte := fun k hk => @addedHeader_byte crc m hroom (data.tci % 2 ^ 16).toNat k hk
    dsimp only at hbyte
    rw [hhi, hlo] at hbyte
    generalize hadded : setFcsPacket crc _ = added at hbyte ⊢
    have haddedLen : added.dataLen = m.dataLen + 4 := by rw [← hadded]; rfl
    obtain ⟨removed, hremoved, hdata, hremovedLen⟩ :=
      data_delVlantag_added crc hlen haddedLen fun k hk => by
        rw [hbyte k hk]
        split_ifs <;> first | rfl | omega
    rw [← delVlantagStores_eq] at hremoved
    refine ⟨added, removed, rfl, ?_, hremoved, hdata, hremovedLen⟩
    have hparts : added.data =
        added.load 0 12 ++ (added.load 12 4 ++ added.load 16 (m.dataLen - 12)) := by
      have hsum : added.dataLen = 12 + (4 + (m.dataLen - 12)) := by omega
      rw [Mbuf.data, hsum, load_add, load_add]
    have hfront : added.load 0 12 = m.load 0 12 := by
      refine load_congr fun k hk => ?_
      rw [hbyte _ (by omega), if_pos (by omega)]
    have htag : added.load 12 4 = [0x81, 0x00, hi, lo] := by
      show [added.byte 12, added.byte 13, added.byte 14, added.byte 15] = _
      rw [hbyte 12 (by omega), hbyte 13 (by omega), hbyte 14 (by omega), hbyte 15 (by omega)]
      rfl
    have hrest : added.load 16 (m.dataLen - 12) = m.load 12 (m.dataLen - 12) := by
      refine load_congr fun k hk => ?_
      have hindex : 16 + k - 4 = 12 + k := by omega
      rw [hbyte _ (by omega), if_neg (by omega), if_neg (by omega), if_neg (by omega),
        if_neg (by omega), if_neg (by omega), hindex]
    rw [hparts, hfront, htag, hrest, List.append_assoc]
  · intro m hlen htag
    rw [addVlantagStores_eq crc hpieces, addVlantagPacket, if_pos ((load16_eq_tpid_iff m).mpr htag)]
    refine ⟨_, rfl, rfl, fun k hk => ?_⟩
    rw [setFcsPacket_byte crc (by simpa using hk), byte_store16, hhi, hlo]
  · intro m hlen hntag
    rw [delVlantagStores_eq, delVlantagPacket, if_neg (mt (load16_eq_tpid_iff m).mp hntag)]

/-- The tag of ID 100 and priority 3, with a copy of the header in pieces of two,
four and eight bytes. -/
theorem exactTag_hundred : ExactTag (fun _ => 0) [2, 4, 8]
    (publishAbility ⟨.addVlantag, .tx, ⟨100, 3, 0⟩⟩).vlantag 0x60 0x64 :=
  @exactTag_publishAbility (fun _ => 0) [2, 4, 8] rfl ⟨.addVlantag, .tx, ⟨100, 3, 0⟩⟩ rfl 100 3
    rfl rfl (by decide) (by decide)

end Exact

end Spp.Vf
