import Mathlib.Data.List.TakeWhile
import Spp.Vf.Multicast
import Spp.Vf.PortAbility

/-!
# The data of the abilities of a port

`port_ability_each_operation` takes the operation of an ability from its own
entry of the published list, and the tag to add from the first entry. A frame
comes out as its abilities ask for iff the last one does not add a tag that
differs from that of the first entry.
-/

namespace Spp.Vf

open Vlan

variable {ρ : Type} [DecidableEq ρ] (crc : List UInt8 → ℕ)

section Listed

/-- The abilities of a published list: the entries in front of the first one
without an operation. -/
def listed (info : List PortAbility) : List PortAbility :=
  info.takeWhile fun ability => ability.ope ≠ .none

/-- What the listed operations make of a packet, each with the tag of its own
entry. -/
def ownOperations (info : List PortAbility) (m : Mbuf) : Option Mbuf :=
  (listed info).foldlM (fun m ability => operation crc (some ability) m) m

/-- Every frame of a burst comes out as the listed operations make it, each with
its own data. -/
def AppliesOwnData (info : List PortAbility) (pkts : List ρ) (mem : ρ → Mbuf) : Prop :=
  ∀ pkt ∈ pkts, (ownOperations crc info (mem pkt)).map Mbuf.data =
    some ((portAbilityEachOperation crc info pkts mem).2.2 pkt).data

/-- If the last listed operation adds a tag, then it is that of the first entry. -/
def LastTagIsFirst (info : List PortAbility) : Prop :=
  ∀ first ∈ info.head?, ∀ last ∈ (listed info).getLast?, last.ope = .addVlantag →
    last.vlantag.tciBytes = first.vlantag.tciBytes

/-- An entry with the data of another one. -/
def PortAbility.withData (ability : PortAbility) (data : VlantagInfo) : PortAbility :=
  { ability with vlantag := data }

/-- The operations of a port are the listed ones, all with the same data. -/
theorem abilityOps_eq (data : VlantagInfo) (info : List PortAbility) :
    abilityOps crc data info =
      (listed info).map fun ability => operation crc (some (ability.withData data)) := by
  induction info with
  | nil => rfl
  | cons ability infos ih =>
    unfold abilityOps listed
    cases hope : ability.ope with
    | none =>
      rw [List.takeWhile_cons_of_neg (by simp [hope])]
      rfl
    | addVlantag =>
      rw [List.takeWhile_cons_of_pos (by simp [hope]), List.map_cons, ih]
      have hop : operation crc (some (ability.withData data)) = addVlantagPacket crc data := by
        funext m
        simp only [operation, PortAbility.withData, hope]
      rw [hop]
      rfl
    | delVlantag =>
      rw [List.takeWhile_cons_of_pos (by simp [hope]), List.map_cons, ih]
      have hop : operation crc (some (ability.withData data)) = delVlantagPacket crc := by
        funext m
        simp only [operation, PortAbility.withData, hope]
      rw [hop]
      rfl

end Listed

section Burst

variable {pkts : List ρ} {mem mem' : ρ → Mbuf}

/-- An operation on all packets of a burst that succeeds has been applied to each
of them once, and to no other packet. -/
theorem operateAll_each {operate : Mbuf → Option Mbuf} (hnodup : pkts.Nodup)
    (h : operateAll operate pkts mem = some mem') :
    (∀ pkt ∈ pkts, operate (mem pkt) = some (mem' pkt)) ∧ ∀ pkt ∉ pkts, mem' pkt = mem pkt := by
  unfold operateAll at h
  induction pkts generalizing mem with
  | nil =>
    obtain rfl := Option.some.inj h
    exact ⟨fun pkt hpkt => absurd hpkt List.not_mem_nil, fun pkt _ => rfl⟩
  | cons q pkts ih =>
    obtain ⟨hq, hnodup⟩ := List.nodup_cons.mp hnodup
    rw [List.foldlM_cons] at h
    obtain ⟨mem₁, hfirst, hrest⟩ := Option.bind_eq_some_iff.mp h
    obtain ⟨m, hop, rfl⟩ := Option.map_eq_some_iff.mp hfirst
    obtain ⟨hin, hout⟩ := ih hnodup hrest
    have hself : mem' q = m := by rw [hout q hq, Function.update_self]
    constructor
    · intro pkt hpkt
      by_cases hsame : pkt = q
      · rw [hsame, hop, hself]
      · have hmem : pkt ∈ pkts := (List.mem_cons.mp hpkt).resolve_left hsame
        have heach := hin pkt hmem
        rwa [Function.update_of_ne hsame] at heach
    · intro pkt hpkt
      obtain ⟨hsame, hmem⟩ := not_or.mp (mt List.mem_cons.mpr hpkt)
      rw [hout pkt hmem, Function.update_of_ne hsame]

/-- Operations on a burst that all succeed are composed on each of its packets. -/
theorem operations_each {operates : List (Mbuf → Option Mbuf)} (hnodup : pkts.Nodup)
    (h : operates.foldlM (fun mem operate => operateAll operate pkts mem) mem = some mem')
    {pkt : ρ} (hpkt : pkt ∈ pkts) :
    operates.foldlM (fun m operate => operate m) (mem pkt) = some (mem' pkt) := by
  induction operates generalizing mem with
  | nil =>
    obtain rfl := Option.some.inj h
    rfl
  | cons operate operates ih =>
    rw [List.foldlM_cons] at h ⊢
    obtain ⟨mem₁, hfirst, hrest⟩ := Option.bind_eq_some_iff.mp h
    rw [(operateAll_each hnodup hfirst).1 pkt hpkt]
    exact ih hrest

/-- The listed operations on a buffer are those on its frame. -/
theorem operations_refine (abilities : List PortAbility) {m : Mbuf} (h : m.IsFrame) :
    Refines (abilities.foldlM (fun m ability => operation crc (some ability) m) m)
      (applyAll (abilities.map fun ability => abilityOp (some ability)) m.packet) := by
  unfold applyAll
  induction abilities generalizing m with
  | nil => exact refines_some rfl h.addrs h.complete
  | cons ability abilities ih =>
    rw [List.foldlM_cons, List.map_cons, List.foldlM_cons]
    obtain ⟨hpacket, hframe⟩ := operation_refines crc h (some ability)
    rw [← hpacket]
    cases hop : operation crc (some ability) m with
    | none => exact ⟨rfl, fun m hm => by cases hm⟩
    | some m₁ => exact ih (hframe m₁ hop)

end Burst

section Exact

variable {pkts : List ρ} {mem : ρ → Mbuf}

/-- Abilities with the data of one entry are operations of the same kinds. -/
theorem sameKind_withData (ability : PortAbility) (data : VlantagInfo) :
    (abilityOp (some (ability.withData data))).SameKind (abilityOp (some ability)) := by
  unfold abilityOp PortAbility.withData
  cases hope : ability.ope with
  | none => simpa only [hope] using Op.SameKind.keep
  | addVlantag => simpa only [hope] using Op.SameKind.add _ _
  | delVlantag => simpa only [hope] using Op.SameKind.del

/-- An entry that adds a tag adds another one with other data, and the data is of
no account for the rest. -/
theorem withData_op_eq_iff {ability : PortAbility} (data : VlantagInfo) :
    abilityOp (some (ability.withData data)) = abilityOp (some ability) ↔
      (ability.ope = .addVlantag → ability.vlantag.tciBytes = data.tciBytes) := by
  unfold abilityOp PortAbility.withData
  cases hope : ability.ope with
  | none => simp [hope]
  | addVlantag => simp [hope, eq_comm]
  | delVlantag => simp [hope]

/-- On one frame the data of the first entry makes no difference iff the last
operation does not add another tag. -/
theorem frame_withData_iff {first : PortAbility} {infos : List PortAbility} {m result : Mbuf}
    (h : m.IsFrame)
    (hresult : (abilityOps crc first.vlantag (first :: infos)).foldlM
      (fun m operate => operate m) m = some result) :
    (ownOperations crc (first :: infos) m).map Mbuf.data = some result.data ↔
      LastTagIsFirst (first :: infos) := by
  rw [abilityOps_eq, List.foldlM_map] at hresult
  unfold ownOperations LastTagIsFirst
  rcases List.eq_nil_or_concat (listed (first :: infos)) with hnil | ⟨front, last, hconcat⟩
  · rw [hnil] at hresult ⊢
    obtain rfl := Option.some.inj hresult
    simp
  · rw [List.concat_eq_append] at hconcat
    rw [hconcat] at hresult ⊢
    have hlast : abilityOp (some (last.withData first.vlantag)) ≠ .keep := by
      have hmem : last ∈ listed (first :: infos) := by
        rw [hconcat]
        exact List.mem_append_right front List.mem_cons_self
      have hope : last.ope ≠ .none := by simpa using List.mem_takeWhile_imp hmem
      unfold abilityOp PortAbility.withData
      cases hkind : last.ope with
      | none => exact absurd hkind hope
      | addVlantag => simp
      | delVlantag => simp
    -- Both lists of operations, on the frame.
    have hown := operations_refine crc (front ++ [last]) h
    have hcode := operations_refine crc
      ((front ++ [last]).map fun ability => ability.withData first.vlantag) h
    rw [List.foldlM_map, hresult, List.map_map] at hcode
    have happly := hcode.1
    rw [List.map_append, List.map_singleton] at happly
    have hkinds : List.Forall₂ Op.SameKind
        (front.map ((fun ability => abilityOp (some ability)) ∘
          fun ability => ability.withData first.vlantag))
        (front.map fun ability => abilityOp (some ability)) := by
      rw [List.forall₂_map_left_iff, List.forall₂_map_right_iff]
      exact List.forall₂_same.mpr fun ability _ => sameKind_withData ability first.vlantag
    obtain ⟨q, hq, hframe⟩ :=
      applyAll_frame_iff hkinds (sameKind_withData last first.vlantag) hlast happly.symm
    rw [List.map_append, List.map_singleton, hq] at hown
    obtain ⟨hpacket, hownFrame⟩ := hown
    obtain ⟨m', hm', rfl⟩ := Option.map_eq_some_iff.mp hpacket
    have hdata : m'.packet.frame = m'.data := Mbuf.frame_packet (hownFrame m' hm').addrs
    have hdata' : result.packet.frame = result.data :=
      Mbuf.frame_packet (hcode.2 result rfl).addrs
    rw [hdata, hdata', withData_op_eq_iff] at hframe
    rw [hm', Option.map_some, Option.some.injEq, eq_comm, hframe]
    simp

/-- The frames of a burst on which no ability fails come out as the published
abilities ask for, each with the data of its own entry, iff the last of them does
not add a tag that differs from that of the first entry. -/
theorem appliesOwnData_iff (t : PortAbilityTable) (portId : ℕ) (rxtx : PortRxtx)
    (hnodup : pkts.Nodup) (hframes : ∀ pkt ∈ pkts, (mem pkt).IsFrame)
    (hok : (portAbilityEachOperation crc (sppPortAbilityGetInfo t portId rxtx) pkts mem).1 =
      pkts.length) :
    AppliesOwnData crc (sppPortAbilityGetInfo t portId rxtx) pkts mem ↔
      pkts = [] ∨ LastTagIsFirst (sppPortAbilityGetInfo t portId rxtx) := by
  generalize sppPortAbilityGetInfo t portId rxtx = info at hok ⊢
  have heach := @portAbilityEachOperation_spec _ _ crc info pkts mem
  cases happly : applyAbilities crc info pkts mem with
  | none =>
    rw [happly] at heach
    exact absurd hok (Nat.ne_of_lt heach.1)
  | some mem' =>
    rw [happly] at heach
    unfold AppliesOwnData
    dsimp only at heach
    rw [heach]
    have hpkt : ∀ pkt ∈ pkts, ((ownOperations crc info (mem pkt)).map Mbuf.data =
        some (mem' pkt).data ↔ LastTagIsFirst info) := by
      intro pkt hpkt
      cases info with
      | nil =>
        obtain rfl := Option.some.inj happly
        simp [ownOperations, listed, LastTagIsFirst]
      | cons first infos =>
        exact frame_withData_iff crc (hframes pkt hpkt) (operations_each hnodup happly hpkt)
    constructor
    · intro h
      by_cases hempty : pkts = []
      · exact .inl hempty
      · obtain ⟨pkt, hmem⟩ := List.exists_mem_of_ne_nil pkts hempty
        exact .inr ((hpkt pkt hmem).mp (h pkt hmem))
    · rintro (rfl | h) pkt hmem
      · cases hmem
      · exact (hpkt pkt hmem).mpr h

/-- A port whose frames get the tag of ID 10, and then another operation. -/
def retagPort (second : PortAbility) : PortInfo :=
  { ifaceType := .phy, ifaceNo := 0, dpdkPort := 0
    ability := fun k => [⟨.addVlantag, .tx, ⟨10, 3, 0⟩⟩, second].getD k.val {} }

/-- The abilities of that port after a worker has taken them over. -/
def retagTable (second : PortAbility) : PortAbilityTable :=
  ((portAbilitySetAbility .default sppPortAbilityInit (retagPort second) .tx).map
    changeIndexRef).getD sppPortAbilityInit

/-- A tag that is removed again makes no difference. -/
theorem appliesOwnData_delTag : AppliesOwnData (fun _ => 0)
    (sppPortAbilityGetInfo (retagTable ⟨.delVlantag, .tx, {}⟩) 0 .tx) [()] fun _ => groupMbuf :=
  (appliesOwnData_iff (fun _ => 0) (retagTable ⟨.delVlantag, .tx, {}⟩) 0 .tx (by decide)
    (fun _ _ => isFrame_groupMbuf) (by decide +kernel)).mpr (.inr (by
      intro first hfirst last hlast hope
      have hlisted : (listed (sppPortAbilityGetInfo (retagTable ⟨.delVlantag, .tx, {}⟩) 0
          .tx)).getLast? = some ⟨.delVlantag, .tx, {}⟩ := by decide +kernel
      rw [hlisted] at hlast
      obtain rfl := Option.some.inj hlast
      cases hope))

/-- A second tag is not the one of its own entry: the frame keeps that of the
first. -/
theorem not_appliesOwnData_secondTag :
    (portAbilityEachOperation (fun _ => 0)
      (sppPortAbilityGetInfo (retagTable ⟨.addVlantag, .tx, ⟨20, 5, 0⟩⟩) 0 .tx) [()]
      fun _ => groupMbuf).1 = 1 ∧
    ¬ AppliesOwnData (fun _ => 0)
      (sppPortAbilityGetInfo (retagTable ⟨.addVlantag, .tx, ⟨20, 5, 0⟩⟩) 0 .tx) [()]
      fun _ => groupMbuf := by
  refine ⟨by decide +kernel, fun h => ?_⟩
  have hframe := h () List.mem_cons_self
  revert hframe
  decide +kernel

end Exact

end Spp.Vf
