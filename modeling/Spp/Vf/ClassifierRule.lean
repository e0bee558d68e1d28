import Spp.Vf.Multicast

/-!
# The rule that the classifier's tables implement

Which transmit ports a frame goes to, as a rule about the class ids of the ports
alone. The tables that `init_component_info` builds hold exactly the ports that
the rule speaks of, so `select_classified_index` and `handle_l2multicast_packet`
deliver every frame as the rule says.
-/

namespace Spp.Vf

section Rule

/-- The positions of the ports with a property, in ascending order. -/
def positions (p : PortInfo → Bool) (ports : List PortInfo) : List ℕ :=
  (List.range ports.length).filter fun i => (ports[i]?).any p

/-- A port is registered with a VLAN id iff it has a MAC address. -/
def isRegistered (vid : ℕ) (port : PortInfo) : Bool :=
  port.classId.macAddr ≠ 0 ∧ port.classId.vid = vid

/-- A registered port is a default entry of its VLAN, or an entry of an address. -/
def isDefaultEntry (vid : ℕ) (port : PortInfo) : Bool :=
  isRegistered vid port ∧ port.classId.macAddr = sppDefaultClassifiedDmyAddr

/-- An entry of an address. -/
def isEntry (vid dAddr : ℕ) (port : PortInfo) : Bool :=
  isRegistered vid port ∧ port.classId.macAddr ≠ sppDefaultClassifiedDmyAddr ∧
    port.classId.macAddr = dAddr

/-- The default of a VLAN: its last default entry. -/
def defaultOf (ports : List PortInfo) (vid : ℕ) : Option ℕ :=
  (positions (isDefaultEntry vid) ports).getLast?

/-- The default of the untagged frames, for frames of another VLAN. -/
def untaggedDefault (ports : List PortInfo) (vid : ℕ) : Option ℕ :=
  if vid = vlanUntaggedVid then none else defaultOf ports vlanUntaggedVid

/-- The transmit ports that a frame of a VLAN with a destination address is to be
delivered to. -/
def destinations (ports : List PortInfo) (vid dAddr : ℕ) : List ℕ :=
  match (positions (isEntry vid dAddr) ports).getLast? with
  | some i => [i]
  | none =>
    let registered := positions (isRegistered vid) ports
    if registered = [] then (untaggedDefault ports vid).toList
    else if dAddr % 2 = 1 then registered ++ (untaggedDefault ports vid).toList
    else ((defaultOf ports vid).or (untaggedDefault ports vid)).toList

end Rule

section Positions

variable {p q : PortInfo → Bool} {ports : List PortInfo}

/-- A port at the end is the last position, if it has the property. -/
theorem positions_append (p : PortInfo → Bool) (ports : List PortInfo) (port : PortInfo) :
    positions p (ports ++ [port]) =
      positions p ports ++ if p port then [ports.length] else [] := by
  unfold positions
  rw [List.length_append, List.length_singleton, List.range_succ, List.filter_append]
  have hfront : ∀ i ∈ List.range ports.length,
      ((ports ++ [port])[i]?).any p = (ports[i]?).any p := by
    intro i hi
    rw [List.getElem?_append_left (List.mem_range.mp hi)]
  rw [List.filter_congr hfront]
  congr 1
  rw [List.filter_singleton, List.getElem?_concat_length, Option.any_some]
  cases p port <;> rfl

/-- A port without the property changes nothing. -/
theorem positions_append_of_neg {port : PortInfo} (h : p port = false) :
    positions p (ports ++ [port]) = positions p ports := by
  rw [positions_append, h, if_neg (by decide), List.append_nil]

/-- A port with the property is the last one. -/
theorem positions_append_of_pos {port : PortInfo} (h : p port = true) :
    positions p (ports ++ [port]) = positions p ports ++ [ports.length] := by
  rw [positions_append, if_pos h]

theorem getLast?_positions_of_pos {port : PortInfo} (h : p port = true) :
    (positions p (ports ++ [port])).getLast? = some ports.length := by
  rw [positions_append_of_pos h, List.getLast?_concat]

/-- A property that implies one without a position has none. -/
theorem positions_eq_nil_of_imp (h : positions p ports = [])
    (himp : ∀ port, q port = true → p port = true) : positions q ports = [] := by
  unfold positions at h ⊢
  rw [List.filter_eq_nil_iff] at h ⊢
  intro i hi hany
  obtain ⟨port, hport, hqport⟩ := (Option.any_eq_true _ _).mp hany
  exact h i hi ((Option.any_eq_true _ _).mpr ⟨port, hport, himp port hqport⟩)

/-- Without a registered port a VLAN has neither an entry nor a default. -/
theorem entries_eq_nil {vid : ℕ} (h : positions (isRegistered vid) ports = []) :
    (∀ key, positions (isEntry vid key) ports = []) ∧ defaultOf ports vid = none := by
  constructor
  · intro key
    refine positions_eq_nil_of_imp h fun port hport => ?_
    simp only [isEntry, decide_eq_true_eq] at hport
    exact hport.1
  · have hdefault : positions (isDefaultEntry vid) ports = [] := by
      refine positions_eq_nil_of_imp h fun port hport => ?_
      simp only [isDefaultEntry, decide_eq_true_eq] at hport
      exact hport.1
    rw [defaultOf, hdefault, List.getLast?_nil]

end Positions

section Represent

variable {τ : Type} {hash : RteHash τ}

/-- A classification holds the registered ports of a VLAN: all of them as active,
the last entry of each address, and the last default entry. -/
structure MacClassification.Holds (hash : RteHash τ) (ports : List PortInfo) (vid : ℕ)
    (macCls : MacClassification τ) : Prop where
  active : macCls.activeClassifieds = positions (isRegistered vid) ports
  lookup : ∀ key, hash.lookupData macCls.classificationTab key =
    (positions (isEntry vid key) ports).getLast?
  default : macCls.defaultClassified = (defaultOf ports vid).elim (-1) fun i => (i : ℤ)

/-- The tables of an area hold the ports: a VLAN has a classification iff a port
is registered with it. -/
structure CmpInfo.Holds (hash : RteHash τ) (ports : List PortInfo) (cmpInfo : CmpInfo τ) :
    Prop where
  none_iff : ∀ vid, cmpInfo.macClassifications vid = none ↔
    positions (isRegistered vid) ports = []
  table : ∀ vid macCls, cmpInfo.macClassifications vid = some macCls →
    macCls.Holds hash ports vid

variable {ports : List PortInfo} {cmpInfo : CmpInfo τ} {port : PortInfo}

/-- The class id of a port is in range. -/
def ClassIdOk (port : PortInfo) : Prop :=
  port.classId.macAddr < 2 ^ 48 ∧ 0 ≤ port.classId.vid ∧ port.classId.vid ≤ 4095

/-- A port that is not registered with a VLAN changes nothing for it. -/
theorem MacClassification.Holds.append_other {vid : ℕ} {macCls : MacClassification τ}
    (h : macCls.Holds hash ports vid) (hport : isRegistered vid port = false) :
    macCls.Holds hash (ports ++ [port]) vid := by
  have hentry : ∀ key, isEntry vid key port = false := fun key => by simp [isEntry, hport]
  have hdefault : isDefaultEntry vid port = false := by simp [isDefaultEntry, hport]
  constructor
  · rw [h.active, positions_append_of_neg hport]
  · intro key
    rw [h.lookup, positions_append_of_neg (hentry key)]
  · rw [h.default, defaultOf, defaultOf, positions_append_of_neg hdefault]

/-- The classification of a VLAN that a port is added to holds the ports so far. -/
theorem CmpInfo.Holds.macClassification {memory : Bool} {vid : ℕ} {macCls : MacClassification τ}
    (h : cmpInfo.Holds hash ports)
    (hcls : macClassification hash memory cmpInfo vid = some macCls) :
    macCls.Holds hash ports vid := by
  unfold Vf.macClassification at hcls
  cases hold : cmpInfo.macClassifications vid with
  | some macCls₀ =>
    rw [hold] at hcls
    obtain rfl := Option.some.inj hcls
    exact h.table vid _ hold
  | none =>
    rw [hold] at hcls
    have hempty := (h.none_iff vid).mp hold
    obtain ⟨hentry, hdefault⟩ := entries_eq_nil hempty
    dsimp only at hcls
    split at hcls
    · obtain rfl := Option.some.inj hcls
      constructor
      · exact hempty.symm
      · intro key
        rw [hash.lookup_create, hentry key, List.getLast?_nil]
      · rw [hdefault]
        rfl
    · cases hcls

/-- A port is stored in the classification of its VLAN. -/
theorem CmpInfo.Holds.setMac {vid : ℕ} {macCls : MacClassification τ}
    (h : cmpInfo.Holds hash ports) (hport : isRegistered vid port = true)
    (hnew : macCls.Holds hash (ports ++ [port]) vid) :
    (cmpInfo.setMac vid macCls).Holds hash (ports ++ [port]) := by
  have hvid : ∀ vid', vid' ≠ vid → isRegistered vid' port = false := by
    intro vid' hne
    simp only [isRegistered, decide_eq_true_eq] at hport
    simp only [isRegistered, decide_eq_false_iff_not]
    rintro ⟨-, heq⟩
    have hcast : (vid' : ℤ) = vid := heq.symm.trans hport.2
    exact hne (by exact_mod_cast hcast)
  constructor
  · intro vid'
    by_cases heq : vid' = vid
    · subst heq
      rw [positions_append_of_pos hport]
      simp [CmpInfo.setMac]
    · rw [positions_append_of_neg (hvid vid' heq), ← h.none_iff vid']
      simp [CmpInfo.setMac, heq]
  · intro vid' macCls' hcls
    by_cases heq : vid' = vid
    · subst heq
      obtain rfl : macCls = macCls' := by simpa [CmpInfo.setMac] using hcls
      exact hnew
    · have hold : cmpInfo.macClassifications vid' = some macCls' := by
        simpa [CmpInfo.setMac, heq] using hcls
      exact (h.table vid' macCls' hold).append_other (hvid vid' heq)

/-- Only the tables count. -/
theorem CmpInfo.Holds.congr {other : CmpInfo τ} (h : cmpInfo.Holds hash ports)
    (heq : other.macClassifications = cmpInfo.macClassifications) : other.Holds hash ports := by
  refine ⟨?_, ?_⟩ <;> rw [heq]
  · exact h.none_iff
  · exact h.table

/-- One iteration of `init_component_info`. -/
theorem CmpInfo.Holds.initTxPort (h : cmpInfo.Holds hash ports) (hid : ClassIdOk port)
    {memory : Bool} (hok : (initTxPort hash memory ports.length port cmpInfo).1 = .ok) :
    (initTxPort hash memory ports.length port cmpInfo).2.Holds hash (ports ++ [port]) := by
  obtain ⟨hmac, hvid0, hvid⟩ := hid
  have hkey : port.classId.macAddr % 2 ^ 48 = port.classId.macAddr := Nat.mod_eq_of_lt hmac
  have hvidNat : ((port.classId.vid % 2 ^ 16).toNat : ℤ) = port.classId.vid := by omega
  unfold Vf.initTxPort at hok ⊢
  dsimp only at hok ⊢
  generalize (port.classId.vid % 2 ^ 16).toNat = vid at hok hvidNat ⊢
  by_cases hzero : port.classId.macAddr = 0
  · have hport : ∀ vid, isRegistered vid port = false := fun vid => by simp [isRegistered, hzero]
    rw [if_pos hzero]
    have hsame : cmpInfo.Holds hash (ports ++ [port]) := by
      refine ⟨fun vid => ?_, fun vid macCls hcls => ?_⟩
      · rw [positions_append_of_neg (hport vid), h.none_iff vid]
      · exact (h.table vid macCls hcls).append_other (hport vid)
    exact hsame.congr rfl
  · have hport : isRegistered vid port = true := by simp [isRegistered, hzero, hvidNat]
    rw [if_neg hzero] at hok ⊢
    split at hok
    · cases hok
    · rename_i macCls hcls
      have hcls' : Vf.macClassification hash memory cmpInfo vid = some macCls := hcls
      have hold := h.macClassification hcls'
      split at hok
      · rename_i hdmy
        have hdefault : isDefaultEntry vid port = true := by simp [isDefaultEntry, hport, hdmy]
        have hentry : ∀ key, isEntry vid key port = false := fun key => by simp [isEntry, hdmy]
        rw [if_pos hdmy]
        have hnew : MacClassification.Holds hash (ports ++ [port]) vid { macCls with
            activeClassifieds := macCls.activeClassifieds ++ [ports.length]
            defaultClassified := ports.length } := by
          constructor
          · rw [positions_append_of_pos hport, ← hold.active]
          · intro key
            rw [positions_append_of_neg (hentry key), ← hold.lookup key]
          · rw [defaultOf, getLast?_positions_of_pos hdefault]
            rfl
        exact (h.setMac hport hnew).congr rfl
      · rename_i hdmy
        have hdefault : isDefaultEntry vid port = false := by simp [isDefaultEntry, hdmy]
        rw [if_neg hdmy]
        split at hok
        · cases hok
        · rename_i tab hadd
          have hnew : MacClassification.Holds hash (ports ++ [port]) vid { macCls with
              activeClassifieds := macCls.activeClassifieds ++ [ports.length]
              classificationTab := tab } := by
            constructor
            · rw [positions_append_of_pos hport, ← hold.active]
            · intro key
              rw [hash.lookup_add hadd, hkey]
              by_cases hsame : key = port.classId.macAddr
              · have hentry : isEntry vid key port = true := by simp [isEntry, hport, hdmy, hsame]
                rw [if_pos hsame, getLast?_positions_of_pos hentry]
              · have hentry : isEntry vid key port = false := by
                  simp [isEntry, Ne.symm hsame]
                rw [if_neg hsame, positions_append_of_neg hentry, hold.lookup key]
            · rw [defaultOf, positions_append_of_neg hdefault]
              exact hold.default
          exact (h.setMac hport hnew).congr rfl

/-- The loop of `init_component_info`. -/
theorem CmpInfo.Holds.initTxPorts (ports : List PortInfo) {rest : List PortInfo}
    (h : cmpInfo.Holds hash ports)
    (hids : ∀ port ∈ rest, ClassIdOk port) {memory : ℕ → Bool}
    (hok : (initTxPorts hash memory ports.length rest cmpInfo).1 = .ok) :
    (initTxPorts hash memory ports.length rest cmpInfo).2.Holds hash (ports ++ rest) := by
  induction rest generalizing ports cmpInfo with
  | nil =>
    rw [List.append_nil]
    exact h
  | cons port rest ih =>
    have hstep (hok : (Vf.initTxPort hash (memory ports.length) ports.length port cmpInfo).1 =
        .ok) := h.initTxPort (hids port List.mem_cons_self) hok
    unfold Vf.initTxPorts at hok ⊢
    split at hok
    · cases hok
    · rename_i cmpInfo' hinit
      rw [hinit] at hstep
      have hrest := ih (ports ++ [port]) (hstep rfl) fun q hq =>
        hids q (List.mem_cons_of_mem port hq)
      rw [List.length_append, List.length_singleton, List.append_assoc] at hrest
      exact hrest hok

end Represent

section Deliver

variable {τ ρ : Type} {hash : RteHash τ} {ports : List PortInfo} {cmpInfo : CmpInfo τ}

/-- The general default is the default of the untagged frames. -/
theorem CmpInfo.Holds.generalDefault (h : cmpInfo.Holds hash ports) :
    getGeneralDefaultClassifiedIndex cmpInfo =
      (defaultOf ports vlanUntaggedVid).elim (-1) fun i => (i : ℤ) := by
  unfold getGeneralDefaultClassifiedIndex
  cases hcls : cmpInfo.macClassifications vlanUntaggedVid with
  | none =>
    rw [(entries_eq_nil ((h.none_iff vlanUntaggedVid).mp hcls)).2]
    rfl
  | some macCls => exact (h.table _ macCls hcls).default

/-- A frame that goes to a port if there is one, and is freed otherwise. -/
theorem classifyPacket_of_index {pkt : Frame ρ} {i : Option ℕ}
    (h : selectClassifiedIndex hash pkt cmpInfo = i.elim (-1) fun i => (i : ℤ)) :
    (classifyPacket hash pkt cmpInfo).pushes = i.toList ∧
      (classifyPacket hash pkt cmpInfo).freed = i.toList.isEmpty := by
  unfold classifyPacket
  dsimp only
  rw [h]
  cases i with
  | none => exact ⟨rfl, rfl⟩
  | some i =>
    have hnonneg : (0 : ℤ) ≤ i := Int.natCast_nonneg i
    rw [Option.elim_some, if_pos hnonneg, Int.toNat_natCast]
    exact ⟨rfl, rfl⟩

/-- A multicast frame of a VLAN with ports goes to all of them, and to the
untagged default if that is another one. -/
theorem CmpInfo.Holds.handleL2multicastPacket (h : cmpInfo.Holds hash ports) (pkt : Frame ρ)
    (hports : positions (isRegistered (getVid pkt)) ports ≠ []) :
    (handleL2multicastPacket pkt cmpInfo).pushes =
        positions (isRegistered (getVid pkt)) ports ++ (untaggedDefault ports (getVid pkt)).toList ∧
      (handleL2multicastPacket pkt cmpInfo).freed = false := by
  have hgeneral := h.generalDefault
  unfold Vf.handleL2multicastPacket
  dsimp only
  cases hcls : cmpInfo.macClassifications (getVid pkt) with
  | none => exact absurd ((h.none_iff _).mp hcls) hports
  | some macCls =>
    have hactive := (h.table _ macCls hcls).active
    have hlen : ¬ macCls.activeClassifieds.length = 0 := by
      rw [hactive]
      exact mt List.length_eq_zero_iff.mp hports
    dsimp only
    rw [if_neg hlen]
    refine ⟨?_, rfl⟩
    dsimp only
    rw [hactive, hgeneral, untaggedDefault]
    by_cases huntagged : getVid pkt = vlanUntaggedVid
    · rw [if_neg fun hto => hto.2 huntagged, if_pos huntagged, Option.toList_none]
    · cases hdefault : defaultOf ports vlanUntaggedVid with
      | none => simp [huntagged]
      | some i => simp [huntagged]

/-- Every frame is delivered as the rule says. -/
theorem CmpInfo.Holds.classifyPacket (h : cmpInfo.Holds hash ports) (pkt : Frame ρ) :
    (classifyPacket hash pkt cmpInfo).pushes = destinations ports (getVid pkt) pkt.dAddr ∧
      (classifyPacket hash pkt cmpInfo).freed =
        (destinations ports (getVid pkt) pkt.dAddr).isEmpty := by
  have hgeneral := h.generalDefault
  cases hcls : cmpInfo.macClassifications (getVid pkt) with
  | none =>
    have hempty := (h.none_iff _).mp hcls
    obtain ⟨hentry, hnone⟩ := entries_eq_nil hempty
    have hdest : destinations ports (getVid pkt) pkt.dAddr =
        (defaultOf ports vlanUntaggedVid).toList := by
      simp only [destinations, hentry, List.getLast?_nil, hempty, if_true, untaggedDefault]
      split
      · rename_i huntagged
        rw [← huntagged, hnone]
      · rfl
    rw [hdest]
    refine classifyPacket_of_index ?_
    rw [selectClassifiedIndex]
    simp only [hcls, hgeneral]
  | some macCls =>
    have htable := h.table _ macCls hcls
    have hports : positions (isRegistered (getVid pkt)) ports ≠ [] := by
      intro hempty
      rw [(h.none_iff _).mpr hempty] at hcls
      cases hcls
    have hlookup := htable.lookup pkt.dAddr
    cases hentry : (positions (isEntry (getVid pkt) pkt.dAddr) ports).getLast? with
    | some i =>
      rw [hentry] at hlookup
      have hdest : destinations ports (getVid pkt) pkt.dAddr = (some i).toList := by
        simp only [destinations, hentry, Option.toList_some]
      rw [hdest]
      refine classifyPacket_of_index ?_
      rw [selectClassifiedIndex]
      simp only [hcls, hlookup, Option.elim_some]
    | none =>
      rw [hentry] at hlookup
      by_cases hmulticast : pkt.dAddr % 2 = 1
      · have hselect : selectClassifiedIndex hash pkt cmpInfo = -2 := by
          rw [selectClassifiedIndex]
          simp only [hcls, hlookup, isMulticastEtherAddr, hmulticast, decide_true, if_true]
        have hdest : destinations ports (getVid pkt) pkt.dAddr =
            positions (isRegistered (getVid pkt)) ports ++
              (untaggedDefault ports (getVid pkt)).toList := by
          simp only [destinations, hentry, hports, if_false, hmulticast, if_true]
        obtain ⟨hpushes, hfreed⟩ := h.handleL2multicastPacket pkt hports
        have hfate :
            Vf.classifyPacket hash pkt cmpInfo = Vf.handleL2multicastPacket pkt cmpInfo := by
          rw [Vf.classifyPacket, hselect]
          rfl
        rw [hfate, hdest, hpushes, hfreed]
        have hne := List.append_ne_nil_of_left_ne_nil hports
          (untaggedDefault ports (getVid pkt)).toList
        exact ⟨rfl, (List.isEmpty_eq_false_iff.mpr hne).symm⟩
      · have hdest : destinations ports (getVid pkt) pkt.dAddr =
            ((defaultOf ports (getVid pkt)).or (untaggedDefault ports (getVid pkt))).toList := by
          simp only [destinations, hentry, hports, if_false, hmulticast]
        rw [hdest]
        refine classifyPacket_of_index ?_
        rw [selectClassifiedIndex]
        simp only [hcls, hlookup, isMulticastEtherAddr, hmulticast, decide_false,
          Bool.false_eq_true, if_false, htable.default, hgeneral, untaggedDefault]
        cases hdefault : defaultOf ports (getVid pkt) with
        | some i =>
          have hnonneg : ¬ ((i : ℤ) < 0) := by omega
          simp [hnonneg]
        | none =>
          by_cases huntagged : getVid pkt = vlanUntaggedVid
          · simp [huntagged]
          · simp [huntagged]

/-- A component whose tables have been built in a zeroed area delivers every frame
to the ports that the class ids of its transmit ports say, and frees it iff there
are none. -/
theorem classifyPacket_of_initComponentInfo {memory : ℕ → Bool} {iface : PortRef → PortInfo}
    {componentInfo : ComponentInfo} (hids : ∀ port ∈ componentInfo.txPorts, ClassIdOk (iface port))
    (hclean : ∀ vid, cmpInfo.macClassifications vid = none)
    (hok : (initComponentInfo hash memory iface componentInfo cmpInfo).1 = .ok) (pkt : Frame ρ) :
    let made := (initComponentInfo hash memory iface componentInfo cmpInfo).2
    let vid := if pkt.etherType = etherTypeVlan then pkt.vlanTci % 2 ^ 12 else vlanUntaggedVid
    (classifyPacket hash pkt made).pushes =
        destinations (componentInfo.txPorts.map iface) vid pkt.dAddr ∧
      (classifyPacket hash pkt made).freed =
        (destinations (componentInfo.txPorts.map iface) vid pkt.dAddr).isEmpty := by
  have hstart : ∀ start : CmpInfo τ, start.macClassifications = cmpInfo.macClassifications →
      start.Holds hash [] := by
    intro start hsame
    refine ⟨fun vid => ?_, fun vid macCls hcls => ?_⟩
    · rw [hsame]
      exact iff_of_true (hclean vid) rfl
    · rw [hsame, hclean vid] at hcls
      cases hcls
  have hids' : ∀ port ∈ componentInfo.txPorts.map iface, ClassIdOk port := by
    intro port hport
    obtain ⟨ref, href, rfl⟩ := List.mem_map.mp hport
    exact hids ref href
  intro made
  refine (CmpInfo.Holds.initTxPorts [] ?_ hids' hok).classifyPacket pkt
  exact hstart _ rfl

/-- In the component with two ports a frame to a group address goes to both. -/
theorem classifyPacket_groupFrame :
    (classifyPacket assocHash groupFrame
      (initComponentInfo assocHash (fun _ => true) twoPortsIface twoPorts {}).2).pushes = [0, 1] :=
  (classifyPacket_of_initComponentInfo (by unfold ClassIdOk; decide) (fun _ => rfl)
    (by decide +kernel) groupFrame).1.trans (by decide +kernel)

end Deliver

end Spp.Vf
