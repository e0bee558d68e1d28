import Mathlib.Data.Nat.Digits.Defs
import Spp.Lib.JsonText
import Spp.Lib.TokenList
import Spp.Nfv.Statistics
import Spp.Primary.ParseCommand
import Spp.Vf.ReplyJson

/-!
# The status reply of spp_primary

`get_status_json` with its six buffers and the message. The buffers for the ports and for
the rings take as many as fit, but neither the commas between them nor the rest of the
message is part of what is tested.
-/

namespace Spp.Primary

open CLib Json
open Nfv (Fault Stats StatsPtr PhyStat RingStat phyStat ringStat formatNat priBufSizePhy
  priBufSizeRing)

section Source

/-- `sizeof(lcore_id)`. -/
def lcoreIdSize : ℕ := 108

/-- `PRI_BUF_SIZE_LCORE`. -/
def priBufSizeLcore : ℕ := 128

/-- `buf_size`, the size of `phy_port` and `ring_port`. -/
def bufSize : ℕ := 256

/-- What `get_status_json` reads: `lcore_id_used` up to `RTE_MAX_LCORE`, `ports->id` of
length `ports->num_ports`, the MAC addresses of the ports, the number of rings and the
statistics. -/
structure StatusInput where
  maxLcore : ℕ
  lcoreIdUsed : ℕ → Bool
  maxEthports : ℕ
  ids : List ℕ
  addrBytes : ℕ → ℕ → ℕ
  numRings : ℕ
  counters : StatsPtr → Stats

/-- A text is printed at the start of a buffer, with its terminator. -/
def sprintf (size : ℕ) (text : CStr) : Except Fault CStr :=
  if text.length < size then .ok text else .error .outOfBounds

/-- `%02x` of a byte. -/
def hexByte (b : ℕ) : CStr := [Nat.digitChar (b / 16 % 16), Nat.digitChar (b % 16)]

/-- `get_printable_mac_addr`; its buffer holds seventeen characters. -/
def getPrintableMacAddr (input : StatusInput) (port : ℕ) : CStr :=
  if input.maxEthports ≤ port then "00:00:00:00:00:00".toList
  else
    ([':'].intercalate ((List.range 6).map fun i => hexByte (input.addrBytes port i)) ++
      ['\n']).take 17

/-- The loop over `lcore_id_used`. -/
def lcoreIdLoop (used : ℕ → Bool) : List ℕ → CStr → Except Fault CStr
  | [], lcoreId => .ok lcoreId
  | i :: rest, lcoreId =>
    if used i then do
      lcoreIdLoop used rest (← sprintf lcoreIdSize (lcoreId ++ (Nat.toDigits 10 i ++ [','])))
    else lcoreIdLoop used rest lcoreId

/-- The last character of a buffer is taken back, which has to be there. -/
def takeBack (buf : CStr) : Except Fault CStr :=
  if buf = [] then .error .outOfBounds else .ok buf.dropLast

/-- `lcore_ids`. -/
def lcoreIds (input : StatusInput) : Except Fault CStr := do
  let lcoreId ← takeBack (← lcoreIdLoop input.lcoreIdUsed (List.range input.maxLcore) [])
  sprintf priBufSizeLcore ("\"lcores\":[".toList ++ lcoreId ++ [']'])

/-- The loops over the physical ports and over the rings: each text is printed to a buffer of
its own and then to the one of `size` bytes, unless it does not fit. The result has the
number of texts in it. -/
def fillArray (size : ℕ) : CStr → List CStr → Except Fault (CStr × ℕ)
  | buf, [] => .ok (buf, 0)
  | buf, text :: texts => do
    let text ← sprintf bufSize text
    if size - 1 < buf.length + text.length then
      return (← takeBack buf, 0)
    else
      let buf ← sprintf size (buf ++ text)
      if texts = [] then
        return (buf, 1)
      else
        let r ← fillArray size (← sprintf size (buf ++ [','])) texts
        return (r.1, r.2 + 1)

/-- The physical ports, as their loop reads them. -/
def StatusInput.phyPorts (input : StatusInput) : List PhyStat :=
  input.ids.mapIdx (phyStat input.counters)

/-- The rings, as their loop reads them. -/
def StatusInput.ringPorts (input : StatusInput) : List RingStat :=
  (List.range input.numRings).map (ringStat input.counters)

/-- The texts of the physical ports. -/
def StatusInput.phyTexts (input : StatusInput) : List CStr :=
  input.phyPorts.map (PhyStat.text (getPrintableMacAddr input))

/-- The texts of the rings. -/
def StatusInput.ringTexts (input : StatusInput) : List CStr := input.ringPorts.map RingStat.text

/-- The message of its three parts. -/
def statusText (lcoreIds phyPorts ringPorts : CStr) : CStr :=
  '\x7b' :: lcoreIds ++ ", \"phy_ports\": [".toList ++ phyPorts ++
    "], \"ring_ports\": [".toList ++ ringPorts ++ "]\x7d".toList

/-- `get_status_json`. -/
def getStatusJson (input : StatusInput) : Except Fault CStr := do
  let lcoreIds ← lcoreIds input
  let phyPorts ← fillArray priBufSizePhy [] input.phyTexts
  let ringPorts ← fillArray priBufSizeRing [] input.ringTexts
  sprintf msgSize (statusText lcoreIds phyPorts.1 ringPorts.1)

end Source

section Statement

/-- The lcores in use, in their order. -/
def StatusInput.lcores (input : StatusInput) : List ℕ :=
  (List.range input.maxLcore).filter input.lcoreIdUsed

/-- A physical port in the reply. -/
def phyValue (eth : ℕ → CStr) (p : PhyStat) : Value :=
  .object [("id".toList, .number p.id), ("eth".toList, .string (eth p.id)),
    ("rx".toList, .number p.rx), ("tx".toList, .number p.tx),
    ("tx_drop".toList, .number p.txDrop)]

/-- A ring in the reply. -/
def ringValue (r : RingStat) : Value :=
  .object [("id".toList, .number r.id), ("rx".toList, .number r.rx),
    ("rx_drop".toList, .number r.rxDrop), ("tx".toList, .number r.tx),
    ("tx_drop".toList, .number r.txDrop)]

/-- What the reply says of the lcores, of the first `k` physical ports and of the first `m`
rings. -/
def statusValue (input : StatusInput) (k m : ℕ) : Value :=
  .object [("lcores".toList, .array (input.lcores.map fun i : ℕ => .number i)),
    ("phy_ports".toList,
      .array ((input.phyPorts.take k).map (phyValue (getPrintableMacAddr input)))),
    ("ring_ports".toList, .array ((input.ringPorts.take m).map ringValue))]

/-- The reply is printed within the buffers, and says this of some of the ports and rings. -/
def StatusReplied (input : StatusInput) : Prop :=
  ∃ text k m, getStatusJson input = .ok text ∧ IsText text (statusValue input k m)

/-- The counters are 64-bit numbers and the port ids 16-bit numbers. -/
structure StatusInput.Sized (input : StatusInput) : Prop where
  ids : ∀ id ∈ input.ids, id < 2 ^ 16
  rx : ∀ p, (input.counters p).rx < 2 ^ 64
  rxDrop : ∀ p, (input.counters p).rxDrop < 2 ^ 64
  tx : ∀ p, (input.counters p).tx < 2 ^ 64
  txDrop : ∀ p, (input.counters p).txDrop < 2 ^ 64
  rings : input.numRings ≤ 99

end Statement

section Condition

/-- The numbers of the lcores in use. -/
def StatusInput.lcoreTexts (input : StatusInput) : List CStr := input.lcores.map (Nat.toDigits 10)

/-- Texts that a buffer has room for, with the commas between them. -/
def Room (size : ℕ) (texts : List CStr) : Prop := (joined texts).length < size

instance (size : ℕ) (texts : List CStr) : Decidable (Room size texts) :=
  inferInstanceAs (Decidable (_ < _))

/-- The reply fits: the lcores fit their buffer, each with a comma behind it; some but not
all of the ports or rings never fill theirs to the last character, which leaves no room for
the comma; and the message has room for what the buffers hold. -/
structure StatusInput.Fits (input : StatusInput) : Prop where
  lcores : (joined input.lcoreTexts).length + 1 < lcoreIdSize
  phyComma : ∀ k < input.phyTexts.length,
    (joined (input.phyTexts.take k)).length ≠ priBufSizePhy - 1
  ringComma : ∀ k < input.ringTexts.length,
    (joined (input.ringTexts.take k)).length ≠ priBufSizeRing - 1
  message : ∀ k m, Room priBufSizePhy (input.phyTexts.take k) →
    Room priBufSizeRing (input.ringTexts.take m) →
    (statusText ("\"lcores\":[".toList ++ joined input.lcoreTexts ++ [']'])
      (joined (input.phyTexts.take k)) (joined (input.ringTexts.take m))).length < msgSize

end Condition

section Lcores

/-- What is printed is the text. -/
theorem sprintf_eq_ok {size : ℕ} {text t : CStr} :
    sprintf size text = .ok t ↔ text.length < size ∧ text = t := by
  unfold sprintf
  split_ifs with h <;> simp [h]

/-- The loop prints the lcores in use, each with a comma, as long as they fit. -/
theorem lcoreIdLoop_eq (used : ℕ → Bool) (l : List ℕ) (buf : CStr) :
    lcoreIdLoop used l buf =
      if l.filter used = [] ∨ (buf ++ ((l.filter used).map (Nat.toDigits 10)).flatMap
        (· ++ [','])).length < lcoreIdSize
      then .ok (buf ++ ((l.filter used).map (Nat.toDigits 10)).flatMap (· ++ [',']))
      else .error .outOfBounds := by
  induction l generalizing buf with
  | nil => simp [lcoreIdLoop]
  | cons i rest ih =>
    cases hi : used i with
    | false => simp [lcoreIdLoop, hi, ih]
    | true =>
      simp only [lcoreIdLoop, hi, if_true, List.filter_cons_of_pos, List.map_cons,
        List.flatMap_cons, ← List.append_assoc, reduceCtorEq, false_or]
      unfold sprintf
      by_cases hfit : (buf ++ Nat.toDigits 10 i ++ [',']).length < lcoreIdSize
      · rw [if_pos hfit]
        simp only [bind, Except.bind, ih]
        by_cases hrest : rest.filter used = []
        · simp only [hrest, true_or, if_true, List.map_nil, List.flatMap_nil, List.append_nil,
            if_pos hfit]
        · simp only [hrest, false_or]
      · have hmore : ¬ (buf ++ Nat.toDigits 10 i ++ [','] ++
            ((rest.filter used).map (Nat.toDigits 10)).flatMap (· ++ [','])).length <
              lcoreIdSize := by
          rw [List.length_append]
          omega
        rw [if_neg hfit, if_neg hmore]
        rfl

/-- The lcores in use are printed iff there are some and they fit. -/
theorem lcoreIds_eq {input : StatusInput} (hused : input.lcores ≠ []) :
    lcoreIds input =
      if (joined input.lcoreTexts).length + 1 < lcoreIdSize then
        .ok ("\"lcores\":[".toList ++ joined input.lcoreTexts ++ [']'])
      else .error .outOfBounds := by
  have hne : input.lcoreTexts ≠ [] := mt List.map_eq_nil_iff.mp hused
  have hloop : lcoreIdLoop input.lcoreIdUsed (List.range input.maxLcore) [] =
      if (joined input.lcoreTexts).length + 1 < lcoreIdSize then
        .ok (joined input.lcoreTexts ++ [','])
      else .error .outOfBounds := by
    have hall := lcoreIdLoop_eq input.lcoreIdUsed (List.range input.maxLcore) []
    rw [List.nil_append] at hall
    refine hall.trans ?_
    change (if input.lcores = [] ∨ (input.lcoreTexts.flatMap (· ++ [','])).length < lcoreIdSize
      then Except.ok (input.lcoreTexts.flatMap (· ++ [','])) else Except.error _) = _
    rw [flatMap_comma hne, List.length_append, List.length_singleton]
    simp only [hused, false_or]
  unfold lcoreIds
  rw [hloop]
  by_cases hfit : (joined input.lcoreTexts).length + 1 < lcoreIdSize
  · have hlast : takeBack (joined input.lcoreTexts ++ [',']) = .ok (joined input.lcoreTexts) := by
      simp [takeBack]
    have hwhole : ("\"lcores\":[".toList ++ joined input.lcoreTexts ++ [']']).length <
        priBufSizeLcore := by
      have hprefix : "\"lcores\":[".toList.length = 10 := by decide
      rw [List.length_append, List.length_append, hprefix, List.length_singleton]
      unfold lcoreIdSize at hfit
      unfold priBufSizeLcore
      omega
    simp only [if_pos hfit, bind, Except.bind, hlast, sprintf, if_pos hwhole]
  · simp only [if_neg hfit, bind, Except.bind]

end Lcores

section Fill

variable {size : ℕ} {done texts : List CStr} {text : CStr}

/-- What is tested before a text is appended. -/
theorem length_pending (done : List CStr) (text : CStr) :
    (done.flatMap (· ++ [','])).length + text.length = (joined (done ++ [text])).length := by
  by_cases hdone : done = []
  · subst hdone
    simp [joined]
  · rw [flatMap_comma hdone, joined_concat hdone, List.length_append, List.length_append,
      List.length_singleton, List.length_cons]
    omega

/-- Fewer texts are not longer. -/
theorem length_joined_le {texts' : List CStr} (h : texts <+: texts') :
    (joined texts).length ≤ (joined texts').length := by
  obtain ⟨rest, rfl⟩ := h
  by_cases htexts : texts = []
  · subst htexts
    simp [joined]
  · have hleft := congrArg List.length (flatMap_comma htexts)
    have hright := congrArg List.length
      (flatMap_comma (show texts ++ rest ≠ [] by simp [htexts]))
    rw [List.flatMap_append, List.length_append] at hright
    simp only [List.length_append, List.length_singleton] at hleft hright
    omega

/-- One round of the loop, with the texts before it in the buffer. -/
theorem fillArray_cons (hsize : bufSize ≤ size) (htext : text.length < bufSize) :
    fillArray size (done.flatMap (· ++ [','])) (text :: texts) =
      if Room size (done ++ [text]) then
        if texts = [] then .ok (joined (done ++ [text]), 1)
        else if (joined (done ++ [text])).length = size - 1 then .error .outOfBounds
        else (fillArray size ((done ++ [text]).flatMap (· ++ [','])) texts).map
          fun r => (r.1, r.2 + 1)
      else .ok (joined done, 0) := by
  have hpos : 0 < bufSize := by decide
  have htest : size - 1 < (done.flatMap (· ++ [','])).length + text.length ↔
      ¬ Room size (done ++ [text]) := by
    rw [length_pending, Room]
    omega
  have hbuf : done.flatMap (· ++ [',']) ++ text = joined (done ++ [text]) := by
    by_cases hdone : done = []
    · subst hdone
      simp [joined]
    · rw [flatMap_comma hdone, joined_concat hdone, List.append_assoc, List.singleton_append]
  have hcomma : (done ++ [text]).flatMap (· ++ [',']) = joined (done ++ [text]) ++ [','] :=
    flatMap_comma (by simp)
  rw [fillArray, sprintf, if_pos htext]
  simp only [bind, Except.bind, htest, pure, Except.pure]
  by_cases hroom : Room size (done ++ [text])
  · rw [if_neg (not_not.mpr hroom), if_pos hroom, hbuf, hcomma]
    unfold Room at hroom
    by_cases hlast : texts = []
    · simp only [sprintf, if_pos hroom, if_pos hlast]
    · have hlength : (joined (done ++ [text]) ++ [',']).length =
          (joined (done ++ [text])).length + 1 := by simp
      by_cases hfull : (joined (done ++ [text])).length = size - 1
      · have hno : ¬ (joined (done ++ [text])).length + 1 < size := by omega
        simp only [sprintf, if_pos hroom, if_neg hlast, hlength, if_neg hno, if_pos hfull]
      · have hyes : (joined (done ++ [text])).length + 1 < size := by omega
        simp only [sprintf, if_pos hroom, if_neg hlast, hlength, if_pos hyes, if_neg hfull]
        cases fillArray size (joined (done ++ [text]) ++ [',']) texts <;> rfl
  · have hdone : done ≠ [] := by
      rintro rfl
      refine hroom ?_
      simp only [Room, List.nil_append, joined, List.intercalate_singleton]
      omega
    rw [if_pos hroom, if_neg hroom, flatMap_comma hdone]
    simp [takeBack]

/-- The loop puts in as many texts as there is room for, if none of them but the last leaves
no room for the comma. -/
theorem fillArray_ok (hsize : bufSize ≤ size) (htexts : ∀ text ∈ texts, text.length < bufSize)
    (hcomma : ∀ k, 0 < k → k < texts.length →
      (joined (done ++ texts.take k)).length ≠ size - 1)
    (hroom : Room size done) (hne : texts ≠ []) :
    ∃ k, fillArray size (done.flatMap (· ++ [','])) texts = .ok (joined (done ++ texts.take k), k) ∧
      Room size (done ++ texts.take k) ∧
      (k < texts.length → ¬ Room size (done ++ texts.take (k + 1))) := by
  induction texts generalizing done with
  | nil => exact absurd rfl hne
  | cons text texts ih =>
    rw [fillArray_cons hsize (htexts text List.mem_cons_self)]
    by_cases hfit : Room size (done ++ [text])
    · rw [if_pos hfit]
      by_cases hlast : texts = []
      · subst hlast
        exact ⟨1, by simp, by simpa using hfit, by simp⟩
      · have hfull := hcomma 1 (by omega) (by simpa [List.length_pos_iff] using hlast)
        rw [List.take_succ_cons, List.take_zero] at hfull
        obtain ⟨k, hk, hkroom, hkmax⟩ := ih (fun t ht => htexts t (List.mem_cons_of_mem text ht))
          (fun k hk hlt => by
            have hmore := hcomma (k + 1) (by omega) (by simpa using hlt)
            rwa [List.take_succ_cons, List.append_cons] at hmore) hfit hlast
        refine ⟨k + 1, ?_, ?_, fun hlt => ?_⟩
        · rw [if_neg hlast, if_neg hfull, hk, List.take_succ_cons,
            List.append_cons done text (texts.take k)]
          rfl
        · rwa [List.take_succ_cons, List.append_cons done text (texts.take k)]
        · rw [List.take_succ_cons, List.append_cons done text (texts.take (k + 1))]
          exact hkmax (by simpa using hlt)
    · rw [if_neg hfit]
      exact ⟨0, by simp, by simpa using hroom, by simpa using hfit⟩

/-- The loop writes past the end of the buffer if one of the texts but the last leaves no
room for the comma. -/
theorem fillArray_error (hsize : bufSize ≤ size) (htexts : ∀ text ∈ texts, text.length < bufSize)
    {k : ℕ} (hk : 0 < k) (hlt : k < texts.length)
    (hfull : (joined (done ++ texts.take k)).length = size - 1) :
    fillArray size (done.flatMap (· ++ [','])) texts = .error .outOfBounds := by
  induction texts generalizing done k with
  | nil => simp at hlt
  | cons text texts ih =>
    have hlast : texts ≠ [] := by
      rintro rfl
      simp only [List.length_singleton] at hlt
      omega
    obtain ⟨j, rfl⟩ := Nat.exists_eq_add_one_of_ne_zero (Nat.pos_iff_ne_zero.mp hk)
    rw [List.take_succ_cons, List.append_cons] at hfull
    have hpos : 0 < bufSize := by decide
    have hfit : Room size (done ++ [text]) := by
      have hle := length_joined_le (List.prefix_append (done ++ [text]) (texts.take j))
      unfold Room
      omega
    rw [fillArray_cons hsize (htexts text List.mem_cons_self), if_pos hfit, if_neg hlast]
    by_cases hnow : (joined (done ++ [text])).length = size - 1
    · rw [if_pos hnow]
    · have hj : 0 < j := by
        refine Nat.pos_of_ne_zero ?_
        rintro rfl
        exact hnow (by simpa using hfull)
      rw [if_neg hnow, ih (fun t ht => htexts t (List.mem_cons_of_mem text ht)) hj
        (by simpa using hlt) hfull]
      rfl

/-- A buffer that never gets full before the last text holds as many texts as it has room
for. -/
theorem fillArray_fits (hsize : bufSize ≤ size) (htexts : ∀ text ∈ texts, text.length < bufSize)
    (hcomma : ∀ k < texts.length, (joined (texts.take k)).length ≠ size - 1) :
    ∃ k, fillArray size [] texts = .ok (joined (texts.take k), k) ∧ Room size (texts.take k) ∧
      ∀ j, Room size (texts.take j) →
        (joined (texts.take j)).length ≤ (joined (texts.take k)).length := by
  have hpos : 0 < bufSize := by decide
  have hroom : Room size [] := by
    rw [Room, joined, List.intercalate_nil, List.length_nil]
    omega
  by_cases hne : texts = []
  · subst hne
    exact ⟨0, rfl, hroom, fun j _ => by simp⟩
  · obtain ⟨k, hk, hkroom, hkmax⟩ := @fillArray_ok size [] texts hsize htexts
      (fun k _ hlt => hcomma k hlt) hroom hne
    refine ⟨k, hk, hkroom, fun j hj => ?_⟩
    by_cases hle : j ≤ k
    · exact length_joined_le (List.take_prefix_take_left hle)
    · by_cases hlt : k < texts.length
      · have hnext := length_joined_le (List.take_prefix_take_left (l := texts)
          (show k + 1 ≤ j by omega))
        refine absurd ?_ (hkmax hlt)
        unfold Room at hj ⊢
        rw [List.nil_append]
        omega
      · have hk' : texts.length ≤ k := by omega
        rw [List.take_of_length_le hk', List.take_of_length_le (by omega)]

/-- A buffer that holds its texts never got full before the last one. -/
theorem fillArray_comma (hsize : bufSize ≤ size) (htexts : ∀ text ∈ texts, text.length < bufSize)
    {r : CStr × ℕ} (h : fillArray size [] texts = .ok r) :
    ∀ k < texts.length, (joined (texts.take k)).length ≠ size - 1 := by
  have hpos : 1 < bufSize := by decide
  intro k hlt hfull
  have hk : 0 < k := by
    refine Nat.pos_of_ne_zero ?_
    rintro rfl
    rw [List.take_zero, joined, List.intercalate_nil, List.length_nil] at hfull
    omega
  have herror := @fillArray_error size [] texts hsize htexts k hk hlt hfull
  rw [List.flatMap_nil, h] at herror
  cases herror

end Fill

section Texts

open Spp.Vf.ReplyText (plain_of_ascii asciiChar)

/-- A natural number is printed with its digits. -/
theorem decimal_natCast (n : ℕ) : decimal n = formatNat n := by
  have hnot : ¬ (n : ℤ) < 0 := by omega
  rw [decimal, if_neg hnot, Int.natAbs_natCast, formatNat]

theorem length_formatNat {n : ℕ} (h : n < 2 ^ 64) : (formatNat n).length ≤ 20 :=
  Nat.toDigits_length 10 n 20 (by decide) (h.trans (by decide))

/-- The text of a physical port is read as what it says. -/
theorem reads_phyText {eth : ℕ → CStr} {p : PhyStat} (heth : Plain (eth p.id)) :
    Reads (p.text eth) (phyValue eth p).tokens := by
  have hname : ∀ name : CStr, name.all asciiChar = true → Plain name := fun _ => plain_of_ascii
  have hdrop := Reads.member (hname "tx_drop".toList (by decide)) (reads_number p.txDrop).cons_space
  have htx := Reads.member_comma (hname "tx".toList (by decide)) (reads_number p.tx).cons_space
    hdrop.cons_space
  have hrx := Reads.member_comma (hname "rx".toList (by decide)) (reads_number p.rx).cons_space
    htx.cons_space
  have haddr := Reads.member_comma (hname "eth".toList (by decide)) (reads_string heth).cons_space
    hrx.cons_space
  have hid := Reads.member_comma (hname "id".toList (by decide)) (reads_number p.id).cons_space
    haddr.cons_space
  rw [decimal_natCast, decimal_natCast, decimal_natCast, decimal_natCast] at hid
  unfold phyValue
  convert hid.object using 1
  unfold PhyStat.text
  generalize formatNat p.id = idText
  generalize formatNat p.rx = rxText
  generalize formatNat p.tx = txText
  generalize formatNat p.txDrop = dropText
  generalize eth p.id = ethText
  simp only [List.append_assoc, List.cons_append, List.nil_append]
  rfl

/-- The text of a ring is read as what it says. -/
theorem reads_ringText (r : RingStat) : Reads r.text (ringValue r).tokens := by
  have hname : ∀ name : CStr, name.all asciiChar = true → Plain name := fun _ => plain_of_ascii
  have hdrop := Reads.member (hname "tx_drop".toList (by decide)) (reads_number r.txDrop).cons_space
  have htx := Reads.member_comma (hname "tx".toList (by decide)) (reads_number r.tx).cons_space
    hdrop.cons_space
  have hrxDrop := Reads.member_comma (hname "rx_drop".toList (by decide))
    (reads_number r.rxDrop).cons_space htx.cons_space
  have hrx := Reads.member_comma (hname "rx".toList (by decide)) (reads_number r.rx).cons_space
    hrxDrop.cons_space
  have hid := Reads.member_comma (hname "id".toList (by decide)) (reads_number r.id).cons_space
    hrx.cons_space
  rw [decimal_natCast, decimal_natCast, decimal_natCast, decimal_natCast, decimal_natCast] at hid
  unfold ringValue
  convert hid.object using 1
  unfold RingStat.text
  generalize formatNat r.id = idText
  generalize formatNat r.rx = rxText
  generalize formatNat r.rxDrop = rxDropText
  generalize formatNat r.tx = txText
  generalize formatNat r.txDrop = dropText
  simp only [List.append_assoc, List.cons_append]
  rfl

/-- A printed address is of ASCII characters, and has seventeen of them. -/
theorem getPrintableMacAddr_spec (input : StatusInput) (port : ℕ) :
    Plain (getPrintableMacAddr input port) ∧ (getPrintableMacAddr input port).length ≤ 17 := by
  have hdigit : ∀ n < 16, asciiChar (Nat.digitChar n) = true := by decide
  have hbyte : ∀ n, asciiChar (Nat.digitChar (n % 16)) = true :=
    fun n => hdigit _ (Nat.mod_lt n (by decide))
  unfold getPrintableMacAddr
  split
  · exact ⟨plain_of_ascii (by decide), by decide⟩
  · have hall : ([':'].intercalate ((List.range 6).map fun i =>
        hexByte (input.addrBytes port i)) ++ ['\n']).take 17 =
        [':'].intercalate ((List.range 6).map fun i => hexByte (input.addrBytes port i)) := rfl
    rw [hall]
    refine ⟨plain_of_ascii ?_, le_of_eq rfl⟩
    have hcolon : asciiChar ':' = true := by decide
    simp [List.range_succ, List.intercalate, hexByte, hbyte, hcolon]

/-- The text of a physical port fits its temporary buffer. -/
theorem length_phyText {input : StatusInput} (h : input.Sized) :
    ∀ text ∈ input.phyTexts, text.length < bufSize := by
  intro text htext
  obtain ⟨p, hp, rfl⟩ := List.mem_map.mp htext
  obtain ⟨i, hi, rfl⟩ := List.mem_mapIdx.mp hp
  have hid := length_formatNat (n := input.ids[i])
    ((h.ids _ (List.getElem_mem hi)).trans (by decide))
  have heth := (getPrintableMacAddr_spec input input.ids[i]).2
  have hrx := length_formatNat (h.rx (.portStats i))
  have htx := length_formatNat (h.tx (.portStats i))
  have htxDrop := length_formatNat (h.txDrop (.clientStats i))
  unfold PhyStat.text phyStat
  dsimp only
  simp only [List.length_append]
  have hlits : "\x7b\"id\": ".toList.length = 7 ∧ ", \"eth\": \"".toList.length = 10 ∧
      "\", \"rx\": ".toList.length = 9 ∧ ", \"tx\": ".toList.length = 8 ∧
      ", \"tx_drop\": ".toList.length = 13 ∧ ['\x7d'].length = 1 := by decide
  unfold bufSize
  omega

/-- The text of a ring fits its temporary buffer. -/
theorem length_ringText {input : StatusInput} (h : input.Sized) :
    ∀ text ∈ input.ringTexts, text.length < bufSize := by
  intro text htext
  simp only [StatusInput.ringTexts, StatusInput.ringPorts, List.mem_map, List.mem_range] at htext
  obtain ⟨r, ⟨i, hi, rfl⟩, rfl⟩ := htext
  have hid := length_formatNat (n := i) (by have := h.rings; omega)
  have hrx := length_formatNat (h.rx (.clientStats i))
  have hrxDrop := length_formatNat (h.rxDrop (.clientStats i))
  have htx := length_formatNat (h.tx (.clientStats i))
  have htxDrop := length_formatNat (h.txDrop (.clientStats i))
  unfold RingStat.text ringStat
  dsimp only
  simp only [List.length_append]
  have hlits : "\x7b\"id\": ".toList.length = 7 ∧ ", \"rx\": ".toList.length = 8 ∧
      ", \"rx_drop\": ".toList.length = 13 ∧ ", \"tx\": ".toList.length = 8 ∧
      ", \"tx_drop\": ".toList.length = 13 ∧ ['\x7d'].length = 1 := by decide
  unfold bufSize
  omega

/-- The message is read as what it says. -/
theorem reads_statusText (input : StatusInput) (k m : ℕ) :
    Reads (statusText ("\"lcores\":[".toList ++ joined input.lcoreTexts ++ [']'])
      (joined (input.phyTexts.take k)) (joined (input.ringTexts.take m)))
      (statusValue input k m).tokens := by
  have hname : ∀ name : CStr, name.all asciiChar = true → Plain name := fun _ => plain_of_ascii
  have hlcores : Reads (joined input.lcoreTexts)
      (elementTokens (input.lcores.map fun i : ℕ => .number i)) := by
    refine reads_joined fun i _ => ?_
    have hnumber := reads_number i
    rwa [decimal_natCast] at hnumber
  have hphys : Reads (joined (input.phyTexts.take k))
      (elementTokens ((input.phyPorts.take k).map (phyValue (getPrintableMacAddr input)))) := by
    rw [StatusInput.phyTexts, ← List.map_take]
    exact reads_joined fun p _ => reads_phyText (getPrintableMacAddr_spec input p.id).1
  have hrings : Reads (joined (input.ringTexts.take m))
      (elementTokens ((input.ringPorts.take m).map ringValue)) := by
    rw [StatusInput.ringTexts, ← List.map_take]
    exact reads_joined fun r _ => reads_ringText r
  have hlast := Reads.member (hname "ring_ports".toList (by decide)) hrings.array.cons_space
  have hmiddle := Reads.member_comma (hname "phy_ports".toList (by decide))
    hphys.array.cons_space hlast.cons_space
  have hfirst := Reads.member_comma (hname "lcores".toList (by decide)) hlcores.array
    hmiddle.cons_space
  unfold statusValue
  convert hfirst.object using 1
  unfold statusText
  generalize joined input.lcoreTexts = lcores
  generalize joined (input.phyTexts.take k) = phys
  generalize joined (input.ringTexts.take m) = rings
  simp only [List.append_assoc, List.cons_append, List.nil_append]
  rfl

end Texts

section Statistics

/-- A loop that stays within its buffers is the one of the statistics. -/
theorem fillBuffer_of_fillArray {size : ℕ} {buf : CStr} {texts : List CStr} {r : CStr × ℕ}
    (h : fillArray size buf texts = .ok r) : Nfv.fillBuffer size buf texts = .ok r := by
  induction texts generalizing buf r with
  | nil => exact h
  | cons text texts ih =>
    have hround : Nfv.fillBuffer size buf (text :: texts) =
        if size - 1 < buf.length + text.length then .ok (buf.dropLast, 0)
        else if texts = [] then .ok (buf ++ text, 1)
        else if size ≤ (buf ++ text ++ [',']).length then .error .outOfBounds
        else (Nfv.fillBuffer size (buf ++ text ++ [',']) texts).map fun r => (r.1, r.2 + 1) := by
      cases texts <;> rfl
    rw [fillArray] at h
    obtain ⟨text', htext, h⟩ := bind_eq_ok.mp h
    obtain ⟨-, rfl⟩ := sprintf_eq_ok.mp htext
    rw [hround]
    by_cases hfull : size - 1 < buf.length + text.length
    · rw [if_pos hfull] at h ⊢
      obtain ⟨shorter, hback, h⟩ := bind_eq_ok.mp h
      unfold takeBack at hback
      split_ifs at hback
      rwa [Except.ok.inj hback]
    · rw [if_neg hfull] at h ⊢
      obtain ⟨appended, happend, h⟩ := bind_eq_ok.mp h
      obtain ⟨-, rfl⟩ := sprintf_eq_ok.mp happend
      by_cases hlast : texts = []
      · rwa [if_pos hlast] at h ⊢
      · rw [if_neg hlast] at h ⊢
        obtain ⟨next, hcomma, h⟩ := bind_eq_ok.mp h
        obtain ⟨hroom, rfl⟩ := sprintf_eq_ok.mp hcomma
        obtain ⟨rest, hrest, h⟩ := bind_eq_ok.mp h
        rw [if_neg (by omega), ih hrest]
        exact h

/-- The reply is the one that the statistics are read from. -/
theorem getStatusJson_statistics {input : StatusInput} {text : CStr}
    (h : getStatusJson input = .ok text) : ∃ lcores r, lcoreIds input = .ok lcores ∧
      Nfv.getStatusJson ⟨input.ids, input.numRings, getPrintableMacAddr input, lcores⟩
        input.counters = .ok r ∧ r.text = text := by
  unfold getStatusJson at h
  obtain ⟨lcores, hlcores, h⟩ := bind_eq_ok.mp h
  obtain ⟨phys, hphys, h⟩ := bind_eq_ok.mp h
  obtain ⟨rings, hrings, h⟩ := bind_eq_ok.mp h
  obtain ⟨hroom, rfl⟩ := sprintf_eq_ok.mp h
  have hphys' := fillBuffer_of_fillArray hphys
  have hrings' := fillBuffer_of_fillArray hrings
  unfold StatusInput.phyTexts StatusInput.phyPorts at hphys'
  unfold StatusInput.ringTexts StatusInput.ringPorts at hrings'
  refine ⟨lcores, ⟨input.phyPorts.take phys.2, input.ringPorts.take rings.2, _⟩, hlcores, ?_, rfl⟩
  unfold Nfv.getStatusJson
  simp only [bind, Except.bind, hphys', hrings']
  have htext : '\x7b' :: lcores ++ ", \"phy_ports\": [".toList ++ phys.1 ++
      "], \"ring_ports\": [".toList ++ rings.1 ++ "]".toList ++ ['\x7d'] =
        statusText lcores phys.1 rings.1 := by
    unfold statusText
    rw [List.append_assoc _ "]".toList]
    rfl
  have hshort : ¬ 2048 ≤ (statusText lcores phys.1 rings.1).length := by
    unfold msgSize at hroom
    omega
  rw [htext, if_neg hshort]
  rfl

end Statistics

/-- Two physical ports and two rings, with nothing counted. -/
def twoPorts (used : ℕ → Bool) : StatusInput :=
  ⟨128, used, 32, [0, 1], fun _ _ => 0, 2, fun _ => {}⟩

/-- The inputs of two ports are sized. -/
theorem twoPorts_sized (used : ℕ → Bool) : (twoPorts used).Sized :=
  ⟨by simp [twoPorts], by simp [twoPorts], by simp [twoPorts], by simp [twoPorts],
    by simp [twoPorts], by simp [twoPorts]⟩

end Spp.Primary
