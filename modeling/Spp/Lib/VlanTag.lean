import Mathlib.Data.List.Basic
import Mathlib.Data.List.Nodup
import Mathlib.Data.List.Perm.Basic
import Mathlib.Data.Nat.Notation

/-!
# VLAN operations on a shared packet

Adding and removing a tag, on the bytes of a frame behind its addresses. A
packet that several ports share is rewritten in place by each of them in turn;
it is decided here when every port still sends what its own operation makes of
the packet.
-/

namespace Vlan

section Tag

/-- The tag control information, as its two bytes stand in the frame. -/
structure Tci where
  hi : UInt8
  lo : UInt8
  deriving DecidableEq

/-- The bytes that announce a tag. -/
def tpid : List UInt8 := [0x81, 0x00]

/-- The bytes behind the addresses begin with a tag. -/
def Tagged (body : List UInt8) : Prop := body.take 2 = tpid

instance : DecidablePred Tagged := fun body => inferInstanceAs (Decidable (body.take 2 = tpid))

/-- A tag in front of the bytes. -/
def tag (tci : Tci) (body : List UInt8) : List UInt8 := tpid ++ tci.hi :: tci.lo :: body

/-- The bytes behind a tag. -/
def untag (body : List UInt8) : List UInt8 := body.drop 4

@[simp] theorem tagged_tag (tci : Tci) (body : List UInt8) : Tagged (tag tci body) := rfl

@[simp] theorem untag_tag (tci : Tci) (body : List UInt8) : untag (tag tci body) = body := rfl

@[simp] theorem length_tag (tci : Tci) (body : List UInt8) :
    (tag tci body).length = body.length + 4 := rfl

/-- A tag is four bytes long. -/
theorem exists_tag_untag {body : List UInt8} (h : Tagged body) (hlen : 4 ≤ body.length) :
    ∃ tci, tag tci (untag body) = body := by
  match body, hlen with
  | a :: b :: c :: d :: rest, _ =>
    obtain ⟨rfl, rfl⟩ : a = 0x81 ∧ b = 0x00 := by simpa [Tagged, tpid] using h
    exact ⟨⟨c, d⟩, rfl⟩

/-- Behind the tags at the front there is an ethertype. -/
def Complete (body : List UInt8) : Prop :=
  ∀ k, (∀ j < k, Tagged (body.drop (4 * j))) → 4 * k + 2 ≤ body.length

theorem Complete.two_le {body : List UInt8} (h : Complete body) : 2 ≤ body.length := by
  have hlen := h 0 fun j hj => absurd hj (Nat.not_lt_zero j)
  omega

/-- Behind one tag there is at least an ethertype. -/
theorem Complete.six_le {body : List UInt8} (h : Complete body) (htag : Tagged body) :
    6 ≤ body.length := by
  refine h 1 fun j hj => ?_
  obtain rfl : j = 0 := by omega
  simpa using htag

theorem Complete.untag {body : List UInt8} (h : Complete body) (htag : Tagged body) :
    Complete (untag body) := by
  intro k hk
  have hlen : 4 * (k + 1) + 2 ≤ body.length := by
    refine h (k + 1) fun j hj => ?_
    cases j with
    | zero => simpa using htag
    | succ j =>
      have hnext := hk j (by omega)
      rwa [Vlan.untag, List.drop_drop, Nat.add_comm, ← Nat.mul_succ] at hnext
  rw [Vlan.untag, List.length_drop]
  omega

theorem Complete.tag {body : List UInt8} (h : Complete body) (tci : Tci) :
    Complete (tag tci body) := by
  intro k hk
  rw [length_tag]
  cases k with
  | zero =>
    have := h.two_le
    omega
  | succ k =>
    have hlen : 4 * k + 2 ≤ body.length := by
      refine h k fun j hj => ?_
      have hnext := hk (j + 1) (by omega)
      rwa [Nat.mul_succ, ← List.drop_drop, List.drop_drop, Nat.add_comm, ← List.drop_drop] at hnext
    omega

end Tag

section Operation

/-- A packet: the room in front of its data, the two addresses of the frame,
and the bytes behind them. -/
structure Packet where
  headroom : ℕ
  addrs : List UInt8
  body : List UInt8
  deriving DecidableEq

/-- The bytes of the frame. -/
def Packet.frame (p : Packet) : List UInt8 := p.addrs ++ p.body

/-- The operation of a port on its frames. -/
inductive Op
  | keep
  | add (tci : Tci)
  | del
  deriving DecidableEq

/-- An operation on one packet; a tag in front of an untagged frame needs room. -/
def Op.apply : Op → Packet → Option Packet
  | .keep, p => some p
  | .add tci, p =>
    if Tagged p.body then some { p with body := tag tci (untag p.body) }
    else if 4 ≤ p.headroom then
      some { p with headroom := p.headroom - 4, body := tag tci p.body }
    else none
  | .del, p =>
    if Tagged p.body then some { p with headroom := p.headroom + 4, body := untag p.body }
    else some p

/-- The frame that a port sends, if its operation does not fail. -/
def Op.emit (op : Op) (p : Packet) : Option (List UInt8) := (op.apply p).map Packet.frame

/-- The packet after operations in place, one after the other. One that fails
leaves the packet as it is. -/
def runInPlace (ops : List Op) (p : Packet) : Packet :=
  ops.foldl (fun p op => (op.apply p).getD p) p

@[simp] theorem runInPlace_nil (p : Packet) : runInPlace [] p = p := rfl

@[simp] theorem runInPlace_cons (op : Op) (ops : List Op) (p : Packet) :
    runInPlace (op :: ops) p = runInPlace ops ((op.apply p).getD p) := rfl

/-- The packet with more bytes at its end. -/
def Packet.append (p : Packet) (rest : List UInt8) : Packet := { p with body := p.body ++ rest }

/-- What follows a complete header is of no account for an operation. -/
theorem Op.apply_append {p : Packet} (hp : Complete p.body) (op : Op) (rest : List UInt8) :
    op.apply (p.append rest) = (op.apply p).map fun q => q.append rest := by
  have htwo := hp.two_le
  have htag : Tagged (p.append rest).body ↔ Tagged p.body := by
    unfold Tagged
    show (p.body ++ rest).take 2 = tpid ↔ _
    rw [List.take_append_of_le_length htwo]
  by_cases h : Tagged p.body
  · have hsix := hp.six_le h
    have huntag : untag (p.append rest).body = untag p.body ++ rest := by
      unfold untag
      show (p.body ++ rest).drop 4 = _
      rw [List.drop_append_of_le_length (by omega)]
    cases op with
    | keep => rfl
    | add tci =>
      simp only [Op.apply, if_pos (htag.mpr h), if_pos h, huntag, Option.map_some]
      rfl
    | del =>
      simp only [Op.apply, if_pos (htag.mpr h), if_pos h, huntag, Option.map_some]
      rfl
  · cases op with
    | keep => rfl
    | add tci =>
      simp only [Op.apply, if_neg (mt htag.mp h), if_neg h]
      by_cases hroom : 4 ≤ p.headroom
      · rw [if_pos hroom, if_pos (by exact hroom)]
        rfl
      · rw [if_neg hroom, if_neg (by exact hroom)]
        rfl
    | del =>
      simp only [Op.apply, if_neg (mt htag.mp h), if_neg h]
      rfl

/-- A property that every operation keeps holds after operations in place. -/
theorem runInPlace_invariant {P : Packet → Prop} {ops : List Op} {p : Packet} (hp : P p)
    (hstep : ∀ op ∈ ops, ∀ q q', P q → op.apply q = some q' → P q') : P (runInPlace ops p) := by
  induction ops generalizing p with
  | nil => exact hp
  | cons op ops ih =>
    rw [runInPlace_cons]
    refine ih ?_ fun op' hop' => hstep op' (List.mem_cons_of_mem op hop')
    cases happly : op.apply p with
    | none => exact hp
    | some q => exact hstep op List.mem_cons_self p q hp happly

end Operation

section Disturb

/-- The operation changes the bytes of the frame. -/
def Op.Alters (p : Packet) : Op → Prop
  | .keep => False
  | .add tci => if Tagged p.body then tag tci (untag p.body) ≠ p.body else 4 ≤ p.headroom
  | .del => Tagged p.body

instance (p : Packet) : DecidablePred (Op.Alters p)
  | .keep => inferInstanceAs (Decidable False)
  | .add tci => inferInstanceAs
      (Decidable (if Tagged p.body then tag tci (untag p.body) ≠ p.body else 4 ≤ p.headroom))
  | .del => inferInstanceAs (Decidable (Tagged p.body))

/-- Behind the first tag there is a second one. -/
def Packet.DoublyTagged (p : Packet) : Prop := Tagged p.body ∧ Tagged (untag p.body)

instance (p : Packet) : Decidable p.DoublyTagged :=
  inferInstanceAs (Decidable (Tagged p.body ∧ Tagged (untag p.body)))

/-- One operation, done first, spoils the packet for a second one: it alters a
frame that is to be sent as it is, or it removes one of two tags from a frame
that has yet to be operated on. -/
def Disturbs (p : Packet) (first second : Op) : Prop :=
  if second = .keep then first.Alters p else first = .del ∧ p.DoublyTagged

instance (p : Packet) (first second : Op) : Decidable (Disturbs p first second) :=
  inferInstanceAs
    (Decidable (if second = .keep then first.Alters p else first = .del ∧ p.DoublyTagged))

/-- An operation that does not alter the frame leaves the packet as it is. -/
theorem Op.apply_of_not_alters {op : Op} {p : Packet} (h : ¬ op.Alters p) :
    (op.apply p).getD p = p := by
  cases op with
  | keep => rfl
  | add tci =>
    simp only [Op.Alters] at h
    simp only [Op.apply]
    split at h
    · rename_i htag
      rw [not_not] at h
      simp [htag, h]
    · rename_i htag
      simp [htag, h]
  | del =>
    simp only [Op.Alters] at h
    simp [Op.apply, h]

/-- A packet of which one untagged packet is the common base: that packet, or
that packet with a tag. -/
def Based (u q : Packet) : Prop :=
  q = u ∨ ∃ tci, 4 ≤ u.headroom ∧ q = ⟨u.headroom - 4, u.addrs, tag tci u.body⟩

/-- Packets with one base stay so, and operations make the same of them. -/
theorem Based.apply {u q : Packet} (hu : ¬ Tagged u.body) (h : Based u q) {op : Op}
    (hop : op ≠ .keep) :
    op.apply q = op.apply u ∧ ∀ q', op.apply q = some q' → Based u q' := by
  have hbase : ∀ q', op.apply u = some q' → Based u q' := by
    intro q' hq'
    cases op with
    | keep => exact absurd rfl hop
    | add tci =>
      simp only [Op.apply, if_neg hu] at hq'
      split at hq'
      · rename_i hroom
        cases hq'
        exact .inr ⟨tci, hroom, rfl⟩
      · cases hq'
    | del =>
      simp only [Op.apply, if_neg hu] at hq'
      cases hq'
      exact .inl rfl
  have hsame : op.apply q = op.apply u := by
    obtain rfl | ⟨tci, hroom, rfl⟩ := h
    · rfl
    · cases op with
      | keep => exact absurd rfl hop
      | add tci' => simp [Op.apply, hu, hroom]
      | del => simp [Op.apply, hu, Nat.sub_add_cancel hroom]
  exact ⟨hsame, fun q' hq' => hbase q' (hsame ▸ hq')⟩

/-- A packet without a second tag has an untagged base. -/
theorem exists_based {p : Packet} (hp : Complete p.body) (h : ¬ p.DoublyTagged) :
    ∃ u, ¬ Tagged u.body ∧ Based u p := by
  by_cases htag : Tagged p.body
  · have hsix := hp.six_le htag
    obtain ⟨tci, htci⟩ := exists_tag_untag htag (by omega)
    refine ⟨⟨p.headroom + 4, p.addrs, untag p.body⟩, fun hinner => h ⟨htag, hinner⟩, .inr ?_⟩
    refine ⟨tci, by simp, ?_⟩
    simp [htci]
  · exact ⟨p, htag, .inl rfl⟩

/-- Where no operation done before disturbs it, a port sends what its operation
makes of the packet as it was. -/
theorem emit_runInPlace {p : Packet} (hp : Complete p.body) {ops : List Op} {op : Op}
    (h : ∀ first ∈ ops, ¬ Disturbs p first op) : op.emit (runInPlace ops p) = op.emit p := by
  unfold Disturbs at h
  by_cases hop : op = .keep
  · -- No operation before alters the frame, so the packet is as it was.
    simp only [if_pos hop] at h
    have hsame : runInPlace ops p = p := by
      clear hp
      induction ops with
      | nil => rfl
      | cons first ops ih =>
        rw [runInPlace_cons, Op.apply_of_not_alters (h first List.mem_cons_self)]
        exact ih fun next hnext => h next (List.mem_cons_of_mem first hnext)
    rw [hsame]
  · simp only [if_neg hop] at h
    by_cases hdouble : p.DoublyTagged
    · -- No tag has been removed, so only the control information may differ.
      obtain ⟨hroom, haddrs, htag, hrest⟩ :
          (runInPlace ops p).headroom = p.headroom ∧ (runInPlace ops p).addrs = p.addrs ∧
            Tagged (runInPlace ops p).body ∧ untag (runInPlace ops p).body = untag p.body := by
        refine runInPlace_invariant (P := fun q => q.headroom = p.headroom ∧ q.addrs = p.addrs ∧
          Tagged q.body ∧ untag q.body = untag p.body) ⟨rfl, rfl, hdouble.1, rfl⟩ ?_
        rintro first hfirst q q' ⟨hroom, haddrs, htag, hrest⟩ happly
        cases first with
        | keep =>
          cases happly
          exact ⟨hroom, haddrs, htag, hrest⟩
        | add tci =>
          simp only [Op.apply, if_pos htag] at happly
          cases happly
          exact ⟨hroom, haddrs, tagged_tag .., hrest⟩
        | del => exact absurd ⟨rfl, hdouble⟩ (h .del hfirst)
      cases op with
      | keep => exact absurd rfl hop
      | add tci => simp [Op.emit, Op.apply, Packet.frame, htag, hdouble.1, haddrs, hrest]
      | del => simp [Op.emit, Op.apply, Packet.frame, htag, hdouble.1, haddrs, hrest]
    · -- Whatever was done, the packet has the base it had.
      obtain ⟨u, hu, hbased⟩ := exists_based hp hdouble
      have hrun : Based u (runInPlace ops p) := by
        refine runInPlace_invariant (P := Based u) hbased fun first _ q q' hq happly => ?_
        by_cases hfirst : first = .keep
        · subst hfirst
          cases happly
          exact hq
        · exact (hq.apply hu hfirst).2 q' happly
      unfold Op.emit
      rw [(hrun.apply hu hop).1, (hbased.apply hu hop).1]

/-- An operation that disturbs another one and is done first makes a difference. -/
theorem emit_of_disturbs {p : Packet} (hp : Complete p.body) {first second : Op}
    (h : Disturbs p first second) :
    second.emit ((first.apply p).getD p) ≠ second.emit p := by
  unfold Disturbs at h
  split at h
  · rename_i hkeep
    subst hkeep
    intro heq
    have hframe : ((first.apply p).getD p).frame = p.frame := Option.some.inj heq
    cases first with
    | keep => exact h
    | add tci =>
      simp only [Op.Alters] at h
      simp only [Op.apply] at hframe
      split at h
      · rename_i htag
        rw [if_pos htag] at hframe
        exact h (List.append_cancel_left hframe)
      · rename_i htag
        rw [if_neg htag, if_pos h] at hframe
        have hlen := congrArg List.length hframe
        simp [Packet.frame] at hlen
    | del =>
      simp only [Op.Alters] at h
      have hsix := hp.six_le h
      rw [Op.apply, if_pos h] at hframe
      have hlen := congrArg List.length hframe
      simp only [Packet.frame, Option.getD_some, List.length_append, untag,
        List.length_drop] at hlen
      omega
  · rename_i hkeep
    obtain ⟨rfl, htag, hinner⟩ := h
    have hsix := (hp.untag htag).six_le hinner
    rw [Op.apply, if_pos htag]
    intro heq
    cases second with
    | keep => exact absurd rfl hkeep
    | add tci =>
      simp only [Op.emit, Op.apply, Option.getD_some, if_pos hinner, if_pos htag, Option.map_some,
        Packet.frame, Option.some.injEq] at heq
      have hlen := congrArg List.length heq
      simp only [List.length_append, length_tag] at hlen
      simp only [untag, List.length_drop] at hlen hsix
      omega
    | del =>
      simp only [Op.emit, Op.apply, Option.getD_some, if_pos hinner, if_pos htag, Option.map_some,
        Packet.frame, Option.some.injEq] at heq
      have hlen := congrArg List.length heq
      simp only [List.length_append] at hlen
      simp only [untag, List.length_drop] at hlen hsix
      omega

/-- In whatever order the ports come, each sends what its own operation makes
of the packet, iff no operation disturbs that of another port. -/
theorem emit_inOrder_iff {ι : Type*} {p : Packet} (hp : Complete p.body) (ops : ι → Op)
    {dests : List ι} (hnodup : dests.Nodup) :
    (∀ order, order.Perm dests → ∀ before i after, order = before ++ i :: after →
      (ops i).emit (runInPlace (before.map ops) p) = (ops i).emit p) ↔
    ∀ i ∈ dests, ∀ j ∈ dests, i ≠ j → ¬ Disturbs p (ops i) (ops j) := by
  constructor
  · intro h i hi j hj hne hdisturbs
    obtain ⟨rest, hrest⟩ : ∃ rest, (i :: j :: rest).Perm dests := by
      obtain ⟨left, hleft⟩ := (List.mem_iff_append.mp hi)
      obtain ⟨right, rfl⟩ := hleft
      have hj' : j ∈ left ++ right := by
        rcases List.mem_append.mp hj with hj | hj
        · exact List.mem_append_left right hj
        · rcases List.mem_cons.mp hj with rfl | hj
          · exact absurd rfl hne
          · exact List.mem_append_right left hj
      obtain ⟨a, b, hab⟩ := List.mem_iff_append.mp hj'
      refine ⟨a ++ b, ?_⟩
      have hmove : (left ++ right).Perm (j :: (a ++ b)) := by
        rw [hab]
        exact List.perm_middle
      exact (hmove.symm.cons i).trans List.perm_middle.symm
    refine emit_of_disturbs hp hdisturbs ?_
    exact h _ hrest [i] j rest rfl
  · rintro h order hperm before j after rfl
    refine emit_runInPlace hp fun first hfirst => ?_
    obtain ⟨i, hi, rfl⟩ := List.mem_map.mp hfirst
    have hnodup' := hperm.nodup_iff.mpr hnodup
    have hne : i ≠ j := by
      rintro rfl
      exact (List.nodup_append.mp hnodup').2.2 i hi i List.mem_cons_self rfl
    exact h i (hperm.mem_iff.mp (List.mem_append_left _ hi)) j
      (hperm.mem_iff.mp (List.mem_append_right _ List.mem_cons_self)) hne

end Disturb

section Retag

/-- Operations one after the other, if none fails. -/
def applyAll (ops : List Op) (p : Packet) : Option Packet := ops.foldlM (fun p op => op.apply p) p

/-- Operations that differ at most in the tag they put in front. -/
inductive Op.SameKind : Op → Op → Prop
  | keep : SameKind .keep .keep
  | add (tci tci' : Tci) : SameKind (.add tci) (.add tci')
  | del : SameKind .del .del

/-- Packets that differ at most in the control information of their first tag. -/
inductive SameButTci : Packet → Packet → Prop
  | same (p : Packet) : SameButTci p p
  | tagged (headroom : ℕ) (addrs body : List UInt8) (tci tci' : Tci) :
      SameButTci ⟨headroom, addrs, tag tci body⟩ ⟨headroom, addrs, tag tci' body⟩

variable {p q : Packet} {op op' : Op}

/-- Operations of one kind fail alike. -/
theorem SameButTci.apply (h : SameButTci p q) (hkind : op.SameKind op') :
    (op.apply p = none ∧ op'.apply q = none) ∨
      ∃ p' q', op.apply p = some p' ∧ op'.apply q = some q' ∧ SameButTci p' q' ∧
        (op ≠ .keep → (p'.frame = q'.frame ↔ op = op')) := by
  cases hkind with
  | keep => exact .inr ⟨p, q, rfl, rfl, h, fun hkeep => absurd rfl hkeep⟩
  | add tci tci' =>
    -- The new tag stands in front of the same bytes.
    have hadded : ∀ headroom addrs body, ∃ p' q' : Packet,
        p' = ⟨headroom, addrs, tag tci body⟩ ∧ q' = ⟨headroom, addrs, tag tci' body⟩ ∧
          SameButTci p' q' ∧
            (Op.add tci ≠ .keep → (p'.frame = q'.frame ↔ Op.add tci = .add tci')) := by
      intro headroom addrs body
      refine ⟨_, _, rfl, rfl, .tagged .., fun _ => ?_⟩
      cases tci
      cases tci'
      simp [Packet.frame, tag]
    cases h with
    | same =>
      by_cases htag : Tagged p.body
      · obtain ⟨p', q', hp', hq', hrest⟩ := hadded p.headroom p.addrs (untag p.body)
        refine .inr ⟨p', q', ?_, ?_, hrest⟩
        · rw [Op.apply, if_pos htag, hp']
        · rw [Op.apply, if_pos htag, hq']
      · by_cases hroom : 4 ≤ p.headroom
        · obtain ⟨p', q', hp', hq', hrest⟩ := hadded (p.headroom - 4) p.addrs p.body
          refine .inr ⟨p', q', ?_, ?_, hrest⟩
          · rw [Op.apply, if_neg htag, if_pos hroom, hp']
          · rw [Op.apply, if_neg htag, if_pos hroom, hq']
        · left
          simp only [Op.apply, if_neg htag, if_neg hroom, and_self]
    | tagged headroom addrs body old old' =>
      obtain ⟨p', q', hp', hq', hrest⟩ := hadded headroom addrs body
      refine .inr ⟨p', q', ?_, ?_, hrest⟩
      · rw [hp']
        rfl
      · rw [hq']
        rfl
  | del =>
    cases h with
    | same =>
      by_cases htag : Tagged p.body
      · have happly : Op.del.apply p = some ⟨p.headroom + 4, p.addrs, untag p.body⟩ := by
          rw [Op.apply, if_pos htag]
        exact .inr ⟨_, _, happly, happly, .same _, fun _ => iff_of_true rfl rfl⟩
      · have happly : Op.del.apply p = some p := by rw [Op.apply, if_neg htag]
        exact .inr ⟨_, _, happly, happly, .same _, fun _ => iff_of_true rfl rfl⟩
    | tagged headroom addrs body old old' =>
      exact .inr ⟨⟨headroom + 4, addrs, body⟩, _, rfl, rfl, .same _, fun _ => iff_of_true rfl rfl⟩

/-- Lists of operations of one kind fail alike. -/
theorem SameButTci.applyAll {ops ops' : List Op} (h : SameButTci p q)
    (hkinds : List.Forall₂ Op.SameKind ops ops') :
    (applyAll ops p = none ∧ applyAll ops' q = none) ∨
      ∃ p' q', applyAll ops p = some p' ∧ applyAll ops' q = some q' ∧ SameButTci p' q' := by
  unfold Vlan.applyAll
  induction hkinds generalizing p q with
  | nil => exact .inr ⟨p, q, rfl, rfl, h⟩
  | cons hkind hkinds ih =>
    rw [List.foldlM_cons, List.foldlM_cons]
    rcases h.apply hkind with ⟨hp, hq⟩ | ⟨p', q', hp, hq, hsame, -⟩
    · rw [hp, hq]
      exact .inl ⟨rfl, rfl⟩
    · rw [hp, hq]
      exact ih hsame

/-- Of operations that differ only in their tags, it is the last one that makes
a difference for the frame. -/
theorem applyAll_frame_iff {ops ops' : List Op} (hkinds : List.Forall₂ Op.SameKind ops ops')
    (hkind : op.SameKind op') (hkeep : op ≠ .keep) {p' : Packet}
    (h : applyAll (ops ++ [op]) p = some p') :
    ∃ q', applyAll (ops' ++ [op']) p = some q' ∧ (p'.frame = q'.frame ↔ op = op') := by
  unfold applyAll at h ⊢
  rw [List.foldlM_append] at h ⊢
  rcases (SameButTci.same p).applyAll hkinds with ⟨hp, -⟩ | ⟨p₁, q₁, hp, hq, hsame⟩
  · unfold applyAll at hp
    rw [hp] at h
    cases h
  · unfold applyAll at hp hq
    rw [hp] at h
    rw [hq]
    have h : (op.apply p₁).bind (fun p => some p) = some p' := h
    rcases hsame.apply hkind with ⟨hnone, -⟩ | ⟨p₂, q₂, hp₂, hq₂, -, hframe⟩
    · rw [hnone] at h
      cases h
    · rw [hp₂] at h
      obtain rfl := Option.some.inj h
      refine ⟨q₂, ?_, hframe hkeep⟩
      show (op'.apply q₁).bind (fun q => some q) = some q₂
      rw [hq₂]
      rfl

end Retag

end Vlan
