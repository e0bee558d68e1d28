import Spp.Vf.PortOwnership

/-!
# VLAN abilities and attachments

The VLAN operations of a port are kept in an array of the port, shared by its
two directions, while the attachment is kept in the component. They stay in
step as long as a component that is stopped holds no port with an operation, a
`port del` names the component that holds the port, and a repeated `port add`
replaces the tag of its own direction.
-/

namespace Spp.Vf

open CLib GuardedRun

variable {L : Limits} {M : SppModule}

section History

/-- The tables with a history: the ability that the last `port add` has given to
a component for a port in a direction. -/
structure AbilityState where
  s : MngData
  given : ℕ × PortRxtx × PortRef → PortAbility

variable (L M)

/-- The history after a request: an accepted `port add` is recorded. -/
def recordGiven (text : CStr) (st : AbilityState) : ℕ × PortRxtx × PortRef → PortAbility :=
  match sppCommandDecodeRequest L M st.s text with
  | .ok (.port c) =>
    match sppUpdatePort L st.s c, sppGetComponentId L st.s c.name,
      ifaceEntry L c.port.ifaceType c.port.ifaceNo with
    | .ok _, some id, .ok port =>
      if c.action = .add then Function.update st.given (id, c.rxtx, port) c.ability else st.given
    | _, _, _ => st.given
  | _ => st.given

/-- The state after one request. -/
def abilityServe (r : Request) (st : AbilityState) : Option AbilityState :=
  (serve L M r st.s).map fun s => ⟨s, recordGiven L M r.text st⟩

variable {L M}

/-- A request changes nothing, or it is accepted by its update function, and the
tables change by that function and a flush. -/
theorem abilityServe_cases {r : Request} {st st' : AbilityState}
    (h : abilityServe L M r st = some st') :
    st' = st ∨ ∃ command s₁ ret, sppCommandDecodeRequest L M st.s r.text = .ok command ∧
      updateCommand L st.s command = some (.ok s₁) ∧ sppFlush L M r.dev s₁ = (ret, st'.s) ∧
      st'.given = recordGiven L M r.text st := by
  obtain ⟨s', hserve, rfl⟩ := Option.map_eq_some_iff.mp h
  have hsame : s' = st.s → recordGiven L M r.text st = st.given →
      (⟨s', recordGiven L M r.text st⟩ : AbilityState) = st := by
    rintro rfl hgiven
    rw [hgiven]
  obtain ⟨ret, hserve⟩ := serve_eq_some.mp hserve
  unfold processRequest at hserve
  split at hserve
  · cases hserve
  · rename_i e hdecode
    cases hserve
    exact .inl (hsame rfl (by simp only [recordGiven, hdecode]))
  · rename_i command hdecode
    unfold executeCommand at hserve
    split at hserve
    · rename_i hnone
      cases hserve
      refine .inl (hsame rfl ?_)
      unfold recordGiven
      rw [hdecode]
      cases command <;> first | rfl | cases hnone
    · cases hserve
    · rename_i hng
      cases hserve
      refine .inl (hsame rfl ?_)
      unfold recordGiven
      rw [hdecode]
      cases command with
      | port c =>
        have hc : sppUpdatePort L st.s c = .error .ng := Option.some.inj hng
        simp only [hc]
      | _ => rfl
    · rename_i s₁ hok
      exact .inr ⟨command, s₁, ret, hdecode, hok, Option.some.inj hserve, rfl⟩

end History

section Follow

/-- The direction of an attachment. -/
def PortRxtx.Directed (d : PortRxtx) : Prop := d = .rx ∨ d = .tx

/-- An entry of the ability array that is in use for a direction. -/
def PortInfo.Entry (info : PortInfo) (d : PortRxtx) (cnt : Fin sppPortAbilityMax) : Prop :=
  (info.ability cnt).ope ≠ .none ∧ (info.ability cnt).rxtx = d

/-- A used component holds a port in a direction. -/
def MngData.Holds (s : MngData) (L : Limits) (id : ℕ) (d : PortRxtx) (port : PortRef) : Prop :=
  id < L.maxLcore ∧ (s.component id).type ≠ .unuse ∧ port ∈ (s.component id).ports d

/-- The ability arrays follow the attachments. -/
structure AbilitiesFollow (L : Limits) (st : AbilityState) : Prop where
  /-- A port has an entry for a direction only if it is attached in it. -/
  attached : ∀ port d cnt, d.Directed → (st.s.iface port).Entry d cnt →
    ∃ id, st.s.Holds L id d port
  /-- Every such entry is the ability that was given for the attachment. -/
  entry_eq : ∀ id port d cnt, d.Directed → st.s.Holds L id d port →
    (st.s.iface port).Entry d cnt → (st.s.iface port).ability cnt = st.given (id, d, port)
  /-- An ability that was given has exactly one entry. -/
  entry_unique : ∀ id port d, d.Directed → st.s.Holds L id d port →
    (st.given (id, d, port)).ope ≠ .none → ∃! cnt, (st.s.iface port).Entry d cnt

variable {st st' : AbilityState}

/-- Abilities and attachments are all that matters. -/
theorem AbilitiesFollow.congr (h : AbilitiesFollow L st)
    (hholds : ∀ id d port, st'.s.Holds L id d port ↔ st.s.Holds L id d port)
    (hability : ∀ port, (st'.s.iface port).ability = (st.s.iface port).ability)
    (hgiven : st'.given = st.given) : AbilitiesFollow L st' := by
  constructor <;> simp only [hholds, PortInfo.Entry, hability, hgiven]
  · exact h.attached
  · exact h.entry_eq
  · exact h.entry_unique

/-- A port that no used component holds has no entry. -/
theorem AbilitiesFollow.no_entry (h : AbilitiesFollow L st) {port : PortRef} {d : PortRxtx}
    (hd : d.Directed) (hfree : ∀ id, ¬ st.s.Holds L id d port) (cnt : Fin sppPortAbilityMax) :
    ¬ (st.s.iface port).Entry d cnt := by
  intro hentry
  obtain ⟨id, hid⟩ := h.attached port d cnt hd hentry
  exact hfree id hid

/-- Only the attachments and entries of one port in one direction change, to at
most one holder and at most the entry it was given. -/
theorem AbilitiesFollow.update (h : AbilitiesFollow L st) (port : PortRef) (d : PortRxtx)
    (hholds : ∀ id d' p, d'.Directed → ¬ (p = port ∧ d' = d) →
      (st'.s.Holds L id d' p ↔ st.s.Holds L id d' p))
    (hability : ∀ d' p cnt, d'.Directed → ¬ (p = port ∧ d' = d) →
      ((st'.s.iface p).Entry d' cnt → (st'.s.iface p).ability cnt = (st.s.iface p).ability cnt) ∧
        ((st'.s.iface p).Entry d' cnt ↔ (st.s.iface p).Entry d' cnt))
    (hgiven : ∀ id d' p, ¬ (p = port ∧ d' = d) → st'.given (id, d', p) = st.given (id, d', p))
    (hattached : ∀ cnt, (st'.s.iface port).Entry d cnt → ∃ id, st'.s.Holds L id d port)
    (hentry : ∀ id cnt, st'.s.Holds L id d port → (st'.s.iface port).Entry d cnt →
      (st'.s.iface port).ability cnt = st'.given (id, d, port))
    (hunique : ∀ id, st'.s.Holds L id d port → (st'.given (id, d, port)).ope ≠ .none →
      ∃! cnt, (st'.s.iface port).Entry d cnt) : AbilitiesFollow L st' := by
  refine ⟨fun p d' cnt hd' hin => ?_, fun id p d' cnt hd' hid hin => ?_,
    fun id p d' hd' hid hne => ?_⟩ <;> by_cases hpd : p = port ∧ d' = d
  · obtain ⟨rfl, rfl⟩ := hpd
    exact hattached cnt hin
  · obtain ⟨id, hid⟩ := h.attached p d' cnt hd' ((hability d' p cnt hd' hpd).2.mp hin)
    exact ⟨id, (hholds id d' p hd' hpd).mpr hid⟩
  · obtain ⟨rfl, rfl⟩ := hpd
    exact hentry id cnt hid hin
  · have hold := (hability d' p cnt hd' hpd).2.mp hin
    rw [(hability d' p cnt hd' hpd).1 hin, hgiven id d' p hpd]
    exact h.entry_eq id p d' cnt hd' ((hholds id d' p hd' hpd).mp hid) hold
  · obtain ⟨rfl, rfl⟩ := hpd
    exact hunique id hid hne
  · rw [hgiven id d' p hpd] at hne
    obtain ⟨cnt, hcnt, honly⟩ := h.entry_unique id p d' hd' ((hholds id d' p hd' hpd).mp hid) hne
    refine ⟨cnt, (hability d' p cnt hd' hpd).2.mpr hcnt, fun j hj => ?_⟩
    exact honly j ((hability d' p j hd' hpd).2.mp hj)

end Follow

section Edits

variable {st : AbilityState} {s' : MngData}

/-- The entries after one element of the array is overwritten. -/
theorem entry_setAbility {info : PortInfo} {cnt j : Fin sppPortAbilityMax} {ability : PortAbility}
    {d : PortRxtx} : (info.setAbility cnt ability).Entry d j ↔
      if j = cnt then ability.ope ≠ .none ∧ ability.rxtx = d else info.Entry d j := by
  by_cases hj : j = cnt
  · subst hj
    simp [PortInfo.Entry, PortInfo.setAbility]
  · simp [PortInfo.Entry, PortInfo.setAbility, hj]

/-- The attachments after one slot is replaced. -/
theorem holds_update {s : MngData} {id : ℕ} {c : ComponentInfo}
    (hcomp : s'.component = Function.update s.component id c) (j : ℕ) (d : PortRxtx)
    (port : PortRef) : s'.Holds L j d port ↔
      if j = id then id < L.maxLcore ∧ c.type ≠ .unuse ∧ port ∈ c.ports d
      else s.Holds L j d port := by
  by_cases hj : j = id
  · subst hj
    simp [MngData.Holds, hcomp]
  · simp [MngData.Holds, hcomp, hj]

/-- Two attachments of a port in one direction are of one component. -/
theorem PortsOwned.holds_unique {s : MngData} (h : PortsOwned L s) {i j : ℕ} {d : PortRxtx}
    {port : PortRef} (hi : s.Holds L i d port) (hj : s.Holds L j d port) : i = j :=
  h.owner_unique i hi.1 j hj.1 hi.2.1 hj.2.1 d port hi.2.2 hj.2.2

/-- The entries that a port of its own gets: those of its new array, of which
only the one just stored is of the direction of the request. -/
theorem AbilitiesFollow.attach (h : AbilitiesFollow L st) {c : CommandPort} {id : ℕ}
    {port : PortRef} {info : PortInfo} (hd : c.rxtx.Directed)
    (hrxtx : c.ability.ope ≠ .none → c.ability.rxtx = c.rxtx) (hlt : id < L.maxLcore)
    (hused : (st.s.component id).type ≠ .unuse)
    (hnot : port ∉ (st.s.component id).ports c.rxtx)
    (hfree : ∀ j < L.maxLcore, j ≠ id → (st.s.component j).type ≠ .unuse →
      port ∉ (st.s.component j).ports c.rxtx)
    (hinfo : c.ability.ope = .none ∧ info = st.s.iface port ∨
      c.ability.ope ≠ .none ∧ ∃ cnt, findAbility (st.s.iface port) .none = some cnt ∧
        info = (st.s.iface port).setAbility cnt c.ability) :
    AbilitiesFollow L ⟨attachEdit st.s id port c info,
      Function.update st.given (id, c.rxtx, port) c.ability⟩ := by
  have hunheld : ∀ j, ¬ st.s.Holds L j c.rxtx port := by
    rintro j ⟨hj, huj, hmem⟩
    by_cases hjd : j = id
    · subst hjd
      exact hnot hmem
    · exact hfree j hj hjd huj hmem
  have hnone := h.no_entry hd hunheld
  have hcomp : (attachEdit st.s id port c info).component = Function.update st.s.component id
      ((st.s.component id).setPorts c.rxtx ((st.s.component id).ports c.rxtx ++ [port])) := rfl
  have hiface : ∀ p, ((attachEdit st.s id port c info).iface p).ability =
      if p = port then info.ability else (st.s.iface p).ability := by
    intro p
    by_cases hp : p = port
    · subst hp
      simp [attachEdit]
    · simp [attachEdit, hp]
  -- The attached port is held by this component alone.
  have honly : ∀ j, (attachEdit st.s id port c info).Holds L j c.rxtx port ↔ j = id := by
    intro j
    rw [holds_update hcomp]
    by_cases hj : j = id
    · simp [hj, hlt, hused, setPorts_ports]
    · simp [hj, hunheld j]
  have hentries : ∀ d' p cnt, ((attachEdit st.s id port c info).iface p).Entry d' cnt ↔
      if p = port then info.Entry d' cnt else (st.s.iface p).Entry d' cnt := by
    intro d' p cnt
    unfold PortInfo.Entry
    rw [hiface]
    split <;> rfl
  refine h.update port c.rxtx ?_ ?_ ?_ ?_ ?_ ?_
  · intro j d' p hd' hne
    rw [holds_update hcomp]
    split
    · rename_i hj
      subst hj
      rw [setPorts_type, setPorts_ports]
      unfold MngData.Holds
      split
      · rename_i hiff
        have hdir : d' = c.rxtx := by
          rcases hd' with rfl | rfl <;> rcases hd with hc | hc <;> simp_all
        have hp : p ≠ port := fun hp => hne ⟨hp, hdir⟩
        simp [hdir, hp]
      · rfl
    · rfl
  · intro d' p cnt hd' hne
    rw [hentries, hiface]
    by_cases hp : p = port
    · have hdir : d' ≠ c.rxtx := fun hdir => hne ⟨hp, hdir⟩
      subst hp
      rw [if_pos rfl, if_pos rfl]
      rcases hinfo with ⟨-, rfl⟩ | ⟨hope, cnt₀, hcnt₀, rfl⟩
      · exact ⟨fun _ => rfl, Iff.rfl⟩
      · by_cases hcnt : cnt = cnt₀
        · subst hcnt
          have hnew : ¬ ((st.s.iface p).setAbility cnt c.ability).Entry d' cnt := by
            rw [entry_setAbility, if_pos rfl]
            rintro ⟨-, heq⟩
            exact hdir (heq.symm.trans (hrxtx hope))
          have hold : ¬ (st.s.iface p).Entry d' cnt := by
            rintro ⟨hne, -⟩
            exact hne (by simpa using List.find?_some hcnt₀)
          exact ⟨fun hin => absurd hin hnew, iff_of_false hnew hold⟩
        · rw [entry_setAbility, if_neg hcnt]
          exact ⟨fun _ => Function.update_of_ne hcnt .., Iff.rfl⟩
    · simp [hp]
  · intro j d' p hne
    apply Function.update_of_ne
    rintro heq
    cases heq
    exact hne ⟨rfl, rfl⟩
  · intro cnt _
    exact ⟨id, (honly id).mpr rfl⟩
  · intro j cnt hj hin
    obtain rfl := (honly j).mp hj
    dsimp only at hin ⊢
    rw [hentries, if_pos rfl] at hin
    rw [hiface, if_pos rfl, Function.update_self]
    rcases hinfo with ⟨-, rfl⟩ | ⟨hope, cnt₀, hcnt₀, rfl⟩
    · exact absurd hin (hnone cnt)
    · rw [entry_setAbility] at hin
      split at hin
      · rename_i hcnt
        subst hcnt
        simp [PortInfo.setAbility]
      · exact absurd hin (hnone cnt)
  · intro j hj hne
    obtain rfl := (honly j).mp hj
    dsimp only at hne ⊢
    rw [Function.update_self] at hne
    rcases hinfo with ⟨hope, -⟩ | ⟨hope, cnt₀, hcnt₀, rfl⟩
    · exact absurd hope hne
    · refine ⟨cnt₀, ?_, ?_⟩
      · apply (hentries ..).mpr
        rw [if_pos rfl, entry_setAbility, if_pos rfl]
        exact ⟨hope, hrxtx hope⟩
      · intro cnt hin
        have hin := (hentries ..).mp hin
        rw [if_pos rfl, entry_setAbility] at hin
        by_contra hcnt
        rw [if_neg hcnt] at hin
        exact hnone cnt hin

/-- The tag of an attached port is replaced, if the first tag in its array is
the one of this direction. -/
theorem AbilitiesFollow.retag (h : AbilitiesFollow L st) (howned : PortsOwned L st.s)
    {c : CommandPort} {id : ℕ} {port : PortRef} {cnt : Fin sppPortAbilityMax}
    (hd : c.rxtx.Directed) (hope : c.ability.ope = .addVlantag)
    (hrxtx : c.ability.rxtx = c.rxtx) (hheld : st.s.Holds L id c.rxtx port)
    (hcnt : findAbility (st.s.iface port) .addVlantag = some cnt)
    (hown : ((st.s.iface port).ability cnt).rxtx = c.rxtx) :
    AbilitiesFollow L
      ⟨(st.s.setIface port ((st.s.iface port).setAbility cnt c.ability)).setChangeComponent id true,
        Function.update st.given (id, c.rxtx, port) c.ability⟩ := by
  have hadd : ((st.s.iface port).ability cnt).ope = .addVlantag := by
    simpa using List.find?_some hcnt
  have hold : (st.s.iface port).Entry c.rxtx cnt := ⟨by simp [hadd], hown⟩
  -- The old tag was given for this attachment, so it is its only entry.
  have hgiven := h.entry_eq id port c.rxtx cnt hd hheld hold
  have honly : ∀ j, (st.s.iface port).Entry c.rxtx j → j = cnt := by
    intro j hj
    obtain ⟨k, -, hk⟩ := h.entry_unique id port c.rxtx hd hheld (by simp [← hgiven, hadd])
    rw [hk j hj, hk cnt hold]
  have hiface : ∀ p, ((st.s.setIface port ((st.s.iface port).setAbility cnt c.ability)).iface p) =
      if p = port then (st.s.iface port).setAbility cnt c.ability else st.s.iface p := by
    intro p
    by_cases hp : p = port
    · subst hp
      simp
    · simp [hp]
  refine h.update port c.rxtx (fun _ _ _ _ _ => Iff.rfl) ?_ ?_ ?_ ?_ ?_ <;>
    simp only [MngData.setChangeComponent_iface, hiface, if_pos]
  · intro d' p j hd' hne
    by_cases hp : p = port
    · have hdir : d' ≠ c.rxtx := fun hdir => hne ⟨hp, hdir⟩
      subst hp
      rw [if_pos rfl]
      by_cases hj : j = cnt
      · subst hj
        have hnew : ¬ ((st.s.iface p).setAbility j c.ability).Entry d' j := by
          rw [entry_setAbility, if_pos rfl]
          rintro ⟨-, heq⟩
          exact hdir (heq.symm.trans hrxtx)
        have hold : ¬ (st.s.iface p).Entry d' j := by
          rintro ⟨-, heq⟩
          exact hdir (heq.symm.trans hown)
        exact ⟨fun hin => absurd hin hnew, iff_of_false hnew hold⟩
      · rw [entry_setAbility, if_neg hj]
        exact ⟨fun _ => Function.update_of_ne hj .., Iff.rfl⟩
    · rw [if_neg hp]
      exact ⟨fun _ => rfl, Iff.rfl⟩
  · intro j d' p hne
    apply Function.update_of_ne
    rintro heq
    cases heq
    exact hne ⟨rfl, rfl⟩
  · intro j _
    exact ⟨id, hheld⟩
  · intro i j hi hin
    obtain rfl := howned.holds_unique hheld hi
    rw [entry_setAbility] at hin
    split at hin
    · rename_i hj
      subst hj
      simp [PortInfo.setAbility]
    · rename_i hj
      exact absurd (honly j hin) hj
  · intro i hi _
    refine ⟨cnt, ?_, ?_⟩
    · apply entry_setAbility.mpr
      rw [if_pos rfl]
      exact ⟨by simp [hope], hrxtx⟩
    · intro j hin
      have hin := entry_setAbility.mp hin
      by_contra hj
      rw [if_neg hj] at hin
      exact hj (honly j hin)

/-- The ports left after one is taken out of an array. -/
theorem mem_getDelPortElement {port p : PortRef} {array ports : List PortRef}
    (h : getDelPortElement port array = some ports) : p ∈ ports ↔ p ∈ array.erase port := by
  obtain ⟨k, hk, rfl⟩ := Option.map_eq_some_iff.mp h
  exact (eraseIdx_lastIdxOf?_perm hk).mem_iff

/-- The attachments after a `port del`: those before, without the port in that
direction of that component. -/
theorem holds_sppUpdatePortDel {s : MngData} {id j : ℕ} {port p : PortRef} {d d' : PortRxtx}
    (hd : d.Directed) (hd' : d'.Directed) (hnodup : s.Holds L id d port →
      ((s.component id).ports d).Nodup) :
    (sppUpdatePortDel s id port d).Holds L j d' p ↔
      s.Holds L j d' p ∧ ¬ (j = id ∧ d' = d ∧ p = port) := by
  unfold sppUpdatePortDel
  dsimp only
  split
  · rename_i ports hports
    rw [holds_update (by rfl)]
    by_cases hj : j = id
    · subst hj
      rw [if_pos rfl, setPorts_type, setPorts_ports]
      by_cases hdir : d' = d
      · subst hdir
        rw [if_pos Iff.rfl, mem_getDelPortElement hports]
        by_cases hp : p = port
        · subst hp
          simp only [true_and, not_true, and_false, iff_false]
          rintro ⟨hlt, hused, hmem⟩
          have hheld : s.Holds L j d' p := ⟨hlt, hused, List.mem_of_mem_erase hmem⟩
          exact absurd hmem (hnodup hheld).not_mem_erase
        · simp [hp, MngData.Holds, List.mem_erase_of_ne hp]
      · have hiff : ¬ (d' = .rx ↔ d = .rx) := by
          rcases hd with rfl | rfl <;> rcases hd' with rfl | rfl <;> simp at hdir ⊢
        rw [if_neg hiff]
        simp [hdir, MngData.Holds]
    · rw [if_neg hj]
      exact (and_iff_left fun hsame => hj hsame.1).symm
  · rename_i hnone
    have hnot : port ∉ (s.component id).ports d := by
      simpa [getDelPortElement, checkPortElement] using hnone
    constructor
    · intro hheld
      refine ⟨hheld, ?_⟩
      rintro ⟨rfl, rfl, rfl⟩
      exact hnot hheld.2.2
    · exact And.left

/-- A port is detached by its holder, or has no ability in the direction. -/
theorem AbilitiesFollow.detach (h : AbilitiesFollow L st) (howned : PortsOwned L st.s)
    {d : PortRxtx} (hd : d.Directed) {id : ℕ} {port : PortRef}
    (hheld : st.s.Holds L id d port ∨ ∀ cnt, ¬ (st.s.iface port).Entry d cnt) :
    AbilitiesFollow L ⟨sppUpdatePortDel st.s id port d, st.given⟩ := by
  have hiface : ∀ p, (sppUpdatePortDel st.s id port d).iface p =
      if p = port then (st.s.iface port).clearAbility d else st.s.iface p := by
    intro p
    unfold sppUpdatePortDel
    dsimp only
    split <;> by_cases hp : p = port <;> simp [hp]
  have hcleared : ∀ cnt, ¬ ((st.s.iface port).clearAbility d).Entry d cnt := by
    rintro cnt ⟨hope, hrxtx⟩
    simp only [PortInfo.clearAbility] at hope hrxtx
    split at hope
    · exact hope rfl
    · rename_i hnot
      rw [if_neg hnot] at hrxtx
      exact hnot ⟨hope, hrxtx⟩
  have hholds := fun j d' p (hd' : d'.Directed) => @holds_sppUpdatePortDel L st.s id j port p d d'
    hd hd' fun hheld => howned.nodup id hheld.1 hheld.2.1 d
  refine h.update port d ?_ ?_ (fun _ _ _ _ => rfl) ?_ ?_ ?_ <;> simp only [hiface, if_pos]
  · intro j d' p hd' hne
    rw [hholds j d' p hd']
    constructor
    · exact And.left
    · intro hheld
      exact ⟨hheld, fun hsame => hne ⟨hsame.2.2, hsame.2.1⟩⟩
  · intro d' p cnt hd' hne
    by_cases hp : p = port
    · have hdir : d' ≠ d := fun hdir => hne ⟨hp, hdir⟩
      subst hp
      rw [if_pos rfl]
      unfold PortInfo.Entry PortInfo.clearAbility
      dsimp only
      split
      · rename_i hclear
        exact ⟨fun hin => absurd rfl hin.1, iff_of_false (fun hin => hin.1 rfl)
          fun hin => hdir (hin.2.symm.trans hclear.2)⟩
      · exact ⟨fun _ => rfl, Iff.rfl⟩
    · rw [if_neg hp]
      exact ⟨fun _ => rfl, Iff.rfl⟩
  · intro cnt hin
    exact absurd hin (hcleared cnt)
  · intro j cnt _ hin
    exact absurd hin (hcleared cnt)
  · intro j hj hne
    obtain ⟨hj, hnot⟩ := (hholds j d port hd).mp hj
    rcases hheld with hheld | hnone
    · exact absurd ⟨howned.holds_unique hj hheld, rfl, rfl⟩ hnot
    · obtain ⟨cnt, hin, -⟩ := h.entry_unique j port d hd hj hne
      exact absurd hin (hnone cnt)

/-- A slot without attachments may be filled by a component without ports, and
one without abilities may be emptied. -/
theorem AbilitiesFollow.resetSlot (h : AbilitiesFollow L st) {s' : MngData} {id : ℕ}
    {c : ComponentInfo} (hcomp : s'.component = Function.update st.s.component id c)
    (hiface : s'.iface = st.s.iface) (hempty : ∀ d, c.ports d = [])
    (hnone : ∀ d port cnt, d.Directed → st.s.Holds L id d port → ¬ (st.s.iface port).Entry d cnt) :
    AbilitiesFollow L ⟨s', st.given⟩ := by
  have hholds : ∀ j d port, s'.Holds L j d port ↔ j ≠ id ∧ st.s.Holds L j d port := by
    intro j d port
    rw [holds_update hcomp, hempty]
    by_cases hj : j = id <;> simp [hj]
  constructor
  · intro port d cnt hd hin
    rw [hiface] at hin
    obtain ⟨j, hj⟩ := h.attached port d cnt hd hin
    refine ⟨j, (hholds j d port).mpr ⟨?_, hj⟩⟩
    rintro rfl
    exact hnone d port cnt hd hj hin
  · intro j port d cnt hd hj hin
    dsimp only at hin ⊢
    rw [hiface] at hin ⊢
    exact h.entry_eq j port d cnt hd ((hholds j d port).mp hj).2 hin
  · intro j port d hd hj hne
    dsimp only
    rw [hiface]
    exact h.entry_unique j port d hd ((hholds j d port).mp hj).2 hne

end Edits

section Run

variable {st st' : AbilityState}

variable (L M) in
/-- What an accepted request has to meet for abilities and attachments to stay
in step. -/
structure AbilityInOrder (r : Request) (st : AbilityState) : Prop where
  /-- A component that is stopped holds no port with an ability. -/
  stop : ∀ c id, sppCommandDecodeRequest L M st.s r.text = .ok (.component c) →
    c.action = .stop → sppGetComponentId L st.s c.name = some id →
    ∀ d port cnt, d.Directed → st.s.Holds L id d port → ¬ (st.s.iface port).Entry d cnt
  /-- A port is detached from the component that holds it, or has no ability. -/
  detach : ∀ c id port, sppCommandDecodeRequest L M st.s r.text = .ok (.port c) →
    c.action = .del → sppGetComponentId L st.s c.name = some id →
    ifaceEntry L c.port.ifaceType c.port.ifaceNo = .ok port →
    st.s.Holds L id c.rxtx port ∨ ∀ cnt, ¬ (st.s.iface port).Entry c.rxtx cnt
  /-- An add of a port that is attached already finds the tag of its own
  direction first, or asks for the ability that the port has. -/
  reattach : ∀ c id port, sppCommandDecodeRequest L M st.s r.text = .ok (.port c) →
    c.action = .add → sppGetComponentId L st.s c.name = some id →
    ifaceEntry L c.port.ifaceType c.port.ifaceNo = .ok port →
    checkPortCount (st.s.component id).type c.rxtx (st.s.component id).rxPorts.length
      (st.s.component id).txPorts.length = .ok →
    port ∈ (st.s.component id).ports c.rxtx →
    if c.ability.ope = .addVlantag then
      ∀ cnt, findAbility (st.s.iface port) .addVlantag = some cnt →
        ((st.s.iface port).ability cnt).rxtx = c.rxtx
    else ∃ cnt, (st.s.iface port).Entry c.rxtx cnt ∧ (st.s.iface port).ability cnt = c.ability
  /-- No other component holds a port that is attached. -/
  free : TaggedAddFree L M r st.s

/-- The history after an accepted `port` request. -/
theorem recordGiven_port {text : CStr} {c : CommandPort} {s₁ : MngData} {id : ℕ} {port : PortRef}
    (hdecode : sppCommandDecodeRequest L M st.s text = .ok (.port c))
    (hc : sppUpdatePort L st.s c = .ok s₁) (hid : sppGetComponentId L st.s c.name = some id)
    (hport : ifaceEntry L c.port.ifaceType c.port.ifaceNo = .ok port) :
    recordGiven L M text st =
      if c.action = .add then Function.update st.given (id, c.rxtx, port) c.ability
      else st.given := by
  simp only [recordGiven, hdecode, hc, hid, hport]

/-- Other requests add nothing to the history. -/
theorem recordGiven_of_not_port {text : CStr} {command : SppCommand}
    (hdecode : sppCommandDecodeRequest L M st.s text = .ok command)
    (hne : ∀ c, command ≠ .port c) : recordGiven L M text st = st.given := by
  unfold recordGiven
  rw [hdecode]
  cases command with
  | port c => exact absurd rfl (hne c)
  | _ => rfl

/-- An accepted `component` request in order keeps abilities and attachments in step. -/
theorem AbilitiesFollow.sppUpdateComponent (h : AbilitiesFollow L st) {r : Request}
    {c : CommandComponent} {s₁ : MngData}
    (hdecode : sppCommandDecodeRequest L M st.s r.text = .ok (.component c))
    (horder : AbilityInOrder L M r st) (hc : sppUpdateComponent L st.s c = .ok s₁) :
    AbilitiesFollow L ⟨s₁, st.given⟩ := by
  cases haction : c.action with
  | start =>
    obtain ⟨-, -, id, hfree, rfl⟩ := sppUpdateComponent_start c haction hc
    refine h.resetSlot rfl rfl (fun d => ?_) fun d port cnt _ hheld => ?_
    · simp [ComponentInfo.ports]
    · exact absurd (getFreeComponent_eq_some hfree).2 hheld.2.1
  | stop =>
    obtain ⟨-, rfl⟩ | ⟨id, hid, rfl⟩ := sppUpdateComponent_stop c haction hc
    · exact h
    · refine h.resetSlot rfl rfl (fun d => ?_) (horder.stop c id hdecode haction hid)
      simp [ComponentInfo.ports]
  | none | add | del => simp [Spp.Vf.sppUpdateComponent, haction] at hc

/-- An accepted `port` request in order keeps abilities and attachments in step. -/
theorem AbilitiesFollow.sppUpdatePort (h : AbilitiesFollow L st) (howned : PortsOwned L st.s)
    {r : Request} {c : CommandPort} {s₁ : MngData}
    (hdecode : sppCommandDecodeRequest L M st.s r.text = .ok (.port c))
    (horder : AbilityInOrder L M r st) (hc : sppUpdatePort L st.s c = .ok s₁) :
    AbilitiesFollow L ⟨s₁, recordGiven L M r.text st⟩ := by
  obtain ⟨args, -, hmin, -, hparams⟩ := decodeRequest_port hdecode
  have hd : c.rxtx.Directed := (portRequest_of_decode hmin hparams).rxtx
  have hrxtx := decodeCommandParameterPort_ability hmin hparams
  obtain ⟨id, port, hid, hport, hcase⟩ := sppUpdatePort_cases hc
  have hlt := (sppGetComponentId_eq_some hid).1
  rw [recordGiven_port hdecode hc hid hport]
  rcases hcase with ⟨haction, hadd⟩ | ⟨haction, rfl⟩
  · rw [if_pos haction]
    obtain ⟨hcount, hcases⟩ := sppUpdatePortAdd_cases hadd
    have hused := (portLimits_of_checkPortCount hcount port).1
    rcases hcases with ⟨hmem, hope, cnt, hcnt, rfl⟩ | ⟨hmem, hope, rfl⟩ |
      ⟨hnot, hroom, info, rfl, hinfo⟩
    · have horder := horder.reattach c id port hdecode haction hid hport hcount hmem
      rw [if_pos hope] at horder
      exact h.retag howned hd hope (hrxtx (by simp [hope])) ⟨hlt, hused, hmem⟩ hcnt
        (horder cnt hcnt)
    · have horder := horder.reattach c id port hdecode haction hid hport hcount hmem
      rw [if_neg hope] at horder
      obtain ⟨cnt, hin, hsame⟩ := horder
      have hgiven := h.entry_eq id port c.rxtx cnt hd ⟨hlt, hused, hmem⟩ hin
      rw [← hsame, hgiven, Function.update_eq_self]
      exact h
    · refine h.attach hd hrxtx hlt hused hnot ?_ hinfo
      refine horder.free.unheld hdecode haction hid hport hcount hroom ?_
      rcases hinfo with ⟨hope, -⟩ | ⟨-, cnt, hcnt, -⟩
      · exact fun hne => absurd hope hne
      · exact fun _ => by simp [hcnt]
  · rw [if_neg (by simp [haction])]
    exact h.detach howned hd (horder.detach c id port hdecode haction hid hport)

/-- A `classifier_table` request touches no ability and no attachment. -/
theorem AbilitiesFollow.sppUpdateClassifierTable (h : AbilitiesFollow L st)
    {table : CommandClassifierTable} {s₁ : MngData}
    (hc : sppUpdateClassifierTable L st.s table = .ok s₁) : AbilitiesFollow L ⟨s₁, st.given⟩ := by
  obtain ⟨port, classId, t, ht, hs⟩ := sppUpdateClassifierTable_cases hc
  have hcomp : s₁.component = st.s.component := by
    rcases ht with rfl | rfl
    · rcases hs with rfl | ⟨id, -, -, rfl⟩ <;> rfl
    · rcases hs with rfl | ⟨id, -, -, rfl⟩ <;> rfl
  have hiface : s₁.iface = t.iface := by
    rcases hs with rfl | ⟨id, -, -, rfl⟩ <;> rfl
  refine h.congr (fun id d p => ?_) (fun p => ?_) rfl
  · unfold MngData.Holds
    rw [hcomp]
  · dsimp only
    rw [hiface]
    rcases ht with rfl | rfl
    · rfl
    · by_cases hp : p = port
      · subst hp
        simp
      · simp [hp]

/-- A flush touches no ability. -/
theorem sppFlush_ability {s s' : MngData} {dev : Devices} {ret : Ret}
    (h : sppFlush L M dev s = (ret, s')) (port : PortRef) :
    (s'.iface port).ability = (s.iface port).ability := by
  obtain ⟨iface', hdev, hs⟩ := sppFlush_cases h
  have hiface : s'.iface = iface' := by
    rcases hs with ⟨-, -, hs⟩ | ⟨-, -, hs⟩ <;> simp only [hs, backupMngInfo, flushCore]
  rw [hiface]
  rcases hdev port with heq | ⟨-, -, d, -, heq⟩ <;> rw [heq]

/-- A flush touches no ability and no attachment. -/
theorem AbilitiesFollow.sppFlush (h : AbilitiesFollow L st) {dev : Devices} {ret : Ret}
    (hflush : sppFlush L M dev st.s = (ret, st'.s)) (hgiven : st'.given = st.given) :
    AbilitiesFollow L st' := by
  refine h.congr (fun id d port => ?_) (sppFlush_ability hflush) hgiven
  unfold MngData.Holds
  rw [sppFlush_component hflush]

/-- One request in order keeps abilities and attachments in step. -/
theorem AbilitiesFollow.abilityServe (h : AbilitiesFollow L st) (howned : PortsOwned L st.s)
    {r : Request} (horder : AbilityInOrder L M r st)
    (hr : abilityServe L M r st = some st') : AbilitiesFollow L st' := by
  obtain rfl | ⟨command, s₁, ret, hdecode, hupdate, hflush, hgiven⟩ := abilityServe_cases hr
  · exact h
  · have hs₁ : AbilitiesFollow L ⟨s₁, recordGiven L M r.text st⟩ := by
      rcases updateCommand_cases hupdate with ⟨c, rfl, hc⟩ | ⟨c, rfl, hc⟩ | ⟨c, htable, hc⟩
      · rw [recordGiven_of_not_port hdecode (by simp)]
        exact h.sppUpdateComponent hdecode horder hc
      · exact h.sppUpdatePort howned hdecode horder hc
      · rw [recordGiven_of_not_port hdecode (by rcases htable with rfl | rfl <;> simp)]
        exact h.sppUpdateClassifierTable hc
    exact hs₁.sppFlush hflush hgiven

/-- No port has an ability before the first request. -/
def startHistory (s : MngData) : AbilityState := ⟨s, fun _ => {}⟩

/-- Nothing is attached and no ability is in use before the first request. -/
theorem abilitiesFollow_start (slave : ℕ → Bool) (numNic mainLcore : ℕ) :
    AbilitiesFollow L
      (startHistory (startForwarding slave mainLcore (initMngData L slave numNic))) := by
  have hunused : ∀ port cnt,
      ((startForwarding slave mainLcore (initMngData L slave numNic)).iface port).ability cnt = {} := by
    intro port cnt
    simp only [startForwarding, initMngData, initIfaceInfo]
    split <;> rfl
  constructor
  · intro port d cnt _ hin
    exact absurd (by simp [startHistory, hunused]) hin.1
  · intro id port d cnt _ hheld
    exact absurd rfl hheld.2.1
  · intro id port d _ hheld
    exact absurd rfl hheld.2.1

/-- A port attached without an operation has no ability in that direction. -/
theorem AbilitiesFollow.no_operation (h : AbilitiesFollow L st) {id : ℕ} {port : PortRef}
    {d : PortRxtx} (hd : d.Directed) (hheld : st.s.Holds L id d port)
    (hgiven : (st.given (id, d, port)).ope = .none) (cnt : Fin sppPortAbilityMax) :
    ¬ (st.s.iface port).Entry d cnt := by
  intro hin
  apply hin.1
  rw [h.entry_eq id port d cnt hd hheld hin]
  exact hgiven

/-- In every run of requests in order, between any two requests, a port has an
ability in a direction only if it is attached in it, and then exactly the one
that the last add has given it. -/
theorem abilitiesFollow_of_reaches (slave : ℕ → Bool) (numNic mainLcore : ℕ)
    (h : Reaches (abilityServe L M) (AbilityInOrder L M)
      (startHistory (startForwarding slave mainLcore (initMngData L slave numNic))) st) :
    AbilitiesFollow L st ∧ ∀ id port d, d.Directed → st.s.Holds L id d port →
      (st.given (id, d, port)).ope = .none → ∀ cnt, ¬ (st.s.iface port).Entry d cnt := by
  have hboth : PortsOwned L st.s ∧ AbilitiesFollow L st := by
    refine @Reaches.invariant _ _ _ _ (fun st => PortsOwned L st.s ∧ AbilitiesFollow L st) _ _ h
      ?_ ?_
    · exact ⟨portsOwned_initMngData L slave numNic mainLcore,
        abilitiesFollow_start slave numNic mainLcore⟩
    rintro r u v ⟨howned, hfollow⟩ horder hstep
    refine ⟨?_, hfollow.abilityServe howned horder hstep⟩
    obtain ⟨s', hserve, rfl⟩ := Option.map_eq_some_iff.mp hstep
    exact howned.serve horder.free hserve
  exact ⟨hboth.2, fun id port d hd hheld hgiven => hboth.2.no_operation hd hheld hgiven⟩

/-- A test that is enough for a request to be in order: a start, or an add
while no component has a port in the direction. -/
def startsOrAttaches (L : Limits) (M : SppModule) (r : Request) (st : AbilityState) : Bool :=
  match sppCommandDecodeRequest L M st.s r.text with
  | .ok (.component c) => c.action = .start
  | .ok (.port c) =>
    c.action = .add ∧ ∀ j ∈ List.range L.maxLcore, (st.s.component j).ports c.rxtx = []
  | _ => true

theorem abilityInOrder_of_startsOrAttaches {r : Request} (h : startsOrAttaches L M r st = true) :
    AbilityInOrder L M r st := by
  unfold startsOrAttaches at h
  constructor
  · intro c id hdecode haction
    simp [hdecode, haction] at h
  · intro c id port hdecode haction
    simp [hdecode, haction] at h
  · intro c id port hdecode _ hid _ _ hmem
    have hlt := (sppGetComponentId_eq_some hid).1
    simp only [hdecode, decide_eq_true_eq] at h
    rw [h.2 id (List.mem_range.mpr hlt)] at hmem
    cases hmem
  · intro c id port hdecode _ _ _ _ _ _ _ j hj _ _
    simp only [hdecode, decide_eq_true_eq] at h
    rw [h.2 j (List.mem_range.mpr hj)]
    exact List.not_mem_nil

/-- A forwarder is started and receives on a port whose frames are tagged. -/
def attachTagged : List Request :=
  [.ofString "component start f1 1 forward", .ofString "port add phy:0 rx f1 add_vlantag 10 3"]

/-- The tag is stored, and the abilities follow the attachments. -/
theorem abilitiesFollow_attachTagged :
    ∃ st, runAll (tested (abilityServe .default .vf) (startsOrAttaches .default .vf)) attachTagged
        (startHistory bootState) = some st ∧
      ((st.s.iface ⟨.nic, 0⟩).ability 0).vlantag.vid = 10 ∧ AbilitiesFollow .default st := by
  obtain ⟨st, hst, htag⟩ : ∃ st,
      runAll (tested (abilityServe .default .vf) (startsOrAttaches .default .vf)) attachTagged
        (startHistory bootState) = some st ∧
      ((st.s.iface ⟨.nic, 0⟩).ability 0).vlantag.vid = 10 := by
    simpa [Option.any_eq_true] using (by decide +kernel :
      (runAll (tested (abilityServe .default .vf) (startsOrAttaches .default .vf)) attachTagged
        (startHistory bootState)).any fun st =>
          ((st.s.iface ⟨.nic, 0⟩).ability 0).vlantag.vid = 10)
  exact ⟨st, hst, htag, (abilitiesFollow_of_reaches _ _ _ (reaches_of_runAll_tested hst
    fun _ _ _ => abilityInOrder_of_startsOrAttaches)).1⟩

/-- The forwarder is stopped while its port has the tag. -/
def stopTagged : List Request := attachTagged ++ [.ofString "component stop f1"]

/-- The tag stays with the port although no component holds it. -/
theorem not_abilitiesFollow_stopTagged :
    ∃ st, Reaches (abilityServe .default .vf) (fun r st => accepted .default .vf r st.s = true)
        (startHistory bootState) st ∧ ¬ AbilitiesFollow .default st := by
  obtain ⟨st, hst, htag, hfree⟩ : ∃ st,
      runAll (tested (abilityServe .default .vf) fun r st => accepted .default .vf r st.s)
        stopTagged (startHistory bootState) = some st ∧
      ((st.s.iface ⟨.nic, 0⟩).ability 0).ope = .addVlantag ∧
      (((st.s.iface ⟨.nic, 0⟩).ability 0).rxtx = .rx ∧
        ∀ j ∈ List.range 128, (st.s.component j).type = .unuse) := by
    simpa [Option.any_eq_true] using (by decide +kernel :
      (runAll (tested (abilityServe .default .vf) fun r st => accepted .default .vf r st.s)
        stopTagged (startHistory bootState)).any fun st =>
        ((st.s.iface ⟨.nic, 0⟩).ability 0).ope = .addVlantag ∧
          ((st.s.iface ⟨.nic, 0⟩).ability 0).rxtx = .rx ∧
            ∀ j ∈ List.range 128, (st.s.component j).type = .unuse)
  refine ⟨st, reaches_of_runAll_tested hst fun _ _ _ htest => htest, fun hfollow => ?_⟩
  have hentry : (st.s.iface ⟨.nic, 0⟩).Entry .rx 0 := ⟨by simp [htag], hfree.1⟩
  obtain ⟨id, hlt, hused, -⟩ := hfollow.attached ⟨.nic, 0⟩ .rx 0 (.inl rfl) hentry
  exact hused (hfree.2 id (List.mem_range.mpr hlt))

end Run

end Spp.Vf
