import Spp.Vf.EntryRuns
import Spp.Vf.NumericTokens
import Spp.Vf.PortDelete

/-!
# Replacing the tag of an attached port

A `port add` of a port that its component holds already, with a VLAN tag, replaces the
tag. The request goes through the path of a new attachment: the component has to admit
one more port in the direction, and the tag that is replaced is the first one of the
port, whichever direction it belongs to.
-/

namespace Spp.Vf

open CLib GuardedRun

variable {L : Limits} {s s' : MngData}

section Statement

/-- An entry of the ability array is a tag that is added in a direction. -/
def PortInfo.Tag (info : PortInfo) (d : PortRxtx) (cnt : Fin sppPortAbilityMax) : Prop :=
  (info.ability cnt).ope = .addVlantag ∧ (info.ability cnt).rxtx = d

/-- The ability to add a tag. -/
def tagAbility (d : PortRxtx) (vid pcp : ℤ) : PortAbility :=
  { ope := .addVlantag, rxtx := d, vlantag := { vid := vid, pcp := pcp } }

/-- The tag of a port in one direction is replaced, and nothing else changes. -/
structure Retagged (s s' : MngData) (port : PortRef) (d : PortRxtx) (vid pcp : ℤ) : Prop where
  /-- The arrays of ports are as they were. -/
  ports : ∀ j d', d'.Directed → (s'.component j).ports d' = (s.component j).ports d'
  /-- The tag is the requested one. -/
  replaced : ∀ cnt, (s.iface port).Tag d cnt → (s'.iface port).ability cnt = tagAbility d vid pcp
  /-- The other entries of the ability arrays are as they were. -/
  kept : ∀ p cnt, ¬ (p = port ∧ (s.iface port).Tag d cnt) →
    (s'.iface p).ability cnt = (s.iface p).ability cnt

/-- The text of a request `port add RES_UID DIR NAME add_vlantag VID PCP` for a port, a
direction, a component and a legal tag. -/
structure RetagRequest (text name : CStr) (port : PortRef) (d : PortRxtx) (vid pcp : ℤ) :
    Prop where
  /-- It fits the buffer of the decoder. -/
  fits : text.length < sppCmdMaxParameters * sppCmdValueBufsz
  /-- Its tokens denote the parameters. -/
  tokens : ∃ uid dir v p,
    strtok ' ' text = ["port".toList, "add".toList, uid, dir, name, "add_vlantag".toList, v, p] ∧
      DenotesPort uid port.index ∧ (dir, d) ∈ directionWords ∧
      IsNumber v vid 0 ethVlanIdMax ∧ IsNumber p pcp 0 sppVlanPcpMax

end Statement

section Flush

/-- An added interface that has no device yet. -/
def PortInfo.Pending (info : PortInfo) : Prop :=
  info.ifaceType ≠ .undef ∧ info.dpdkPort < 0

/-- Every device that the next flush has to create can be created. -/
def DevicesCreated (L : Limits) (dev : Devices) (s : MngData) : Prop :=
  (∀ no < L.maxEthports, (s.iface ⟨.vhost, no⟩).Pending →
      0 ≤ dev.addVhostPmd (s.iface ⟨.vhost, no⟩).ifaceNo) ∧
    ∀ no < L.maxEthports, (s.iface ⟨.ring, no⟩).Pending →
      0 ≤ dev.addRingPmd (s.iface ⟨.ring, no⟩).ifaceNo

/-- The table of every classifier that has changed can be updated. -/
def ClassifiersUpdated (L : Limits) (dev : Devices) (s : MngData) : Prop :=
  ∀ cnt < L.maxLcore, s.changeComponent cnt = true → (s.component cnt).type = .classifierMac →
    dev.classifierMacUpdate cnt = .ok

/-- A loop of `flush_port` succeeds iff the missing devices can be created. -/
theorem flushPortArray_ok_iff {addPmd : ℕ → ℤ} {ports : List PortRef} {s : MngData} :
    (flushPortArray addPmd ports s).1 = .ok ↔
      ∀ p ∈ ports, (s.iface p).Pending → 0 ≤ addPmd (s.iface p).ifaceNo := by
  induction ports generalizing s with
  | nil => simp [flushPortArray]
  | cons port ports ih =>
    by_cases hpending : (s.iface port).Pending
    · by_cases hret : addPmd (s.iface port).ifaceNo < 0
      · have hentry : flushPortEntry addPmd port s = (.ng, s) := by
          exact (if_pos hpending).trans (if_pos hret)
        simp only [flushPortArray, hentry]
        refine iff_of_false (by simp) fun h => ?_
        have hnot := h port List.mem_cons_self hpending
        omega
      · have hentry : flushPortEntry addPmd port s = (.ok, s.setIface port
            { s.iface port with dpdkPort := addPmd (s.iface port).ifaceNo }) := by
          exact (if_pos hpending).trans (if_neg hret)
        simp only [flushPortArray, hentry, ih, List.forall_mem_cons]
        refine ⟨fun h => ⟨fun _ => by omega, fun p hp hpend => ?_⟩, fun h p hp hpend => ?_⟩
        · by_cases heq : p = port
          · subst heq
            omega
          · simpa [heq] using h p hp (by simpa [heq] using hpend)
        · by_cases heq : p = port
          · subst heq
            have hneg := hpend.2
            simp only [MngData.setIface_iface, Function.update_self] at hneg
            exact absurd hneg hret
          · simpa [heq] using h.2 p hp (by simpa [heq] using hpend)
    · have hentry : flushPortEntry addPmd port s = (.ok, s) := by
        exact if_neg hpending
      simp [flushPortArray, hentry, ih, hpending]

/-- A loop of `flush_port` leaves the interfaces of the other arrays alone. -/
theorem flushPortArray_other {addPmd : ℕ → ℤ} {ports : List PortRef} {p : PortRef}
    (hp : p ∉ ports) : (flushPortArray addPmd ports s).2.iface p = s.iface p := by
  induction ports generalizing s with
  | nil => rfl
  | cons port ports ih =>
    obtain ⟨hne, hp⟩ := not_or.mp (mt List.mem_cons.mpr hp)
    have hentry : ((flushPortEntry addPmd port s).2).iface p = s.iface p := by
      unfold flushPortEntry
      dsimp only
      split
      · split
        · rfl
        · exact Function.update_of_ne hne ..
      · rfl
    unfold flushPortArray
    split
    · rename_i t ht
      rwa [ht] at hentry
    · rename_i t ht
      rw [ht] at hentry
      exact (ih hp).trans hentry

/-- `flush_port` succeeds iff the missing devices can be created. -/
theorem flushPort_ok_iff {dev : Devices} :
    (flushPort L dev s).1 = .ok ↔ DevicesCreated L dev s := by
  have hvhost : (flushPortArray dev.addVhostPmd
      ((List.range L.maxEthports).map (PortRef.mk .vhost)) s).1 = .ok ↔
        ∀ no < L.maxEthports, (s.iface ⟨.vhost, no⟩).Pending →
          0 ≤ dev.addVhostPmd (s.iface ⟨.vhost, no⟩).ifaceNo := by
    rw [flushPortArray_ok_iff]
    simp
  unfold flushPort DevicesCreated
  rw [← hvhost]
  split
  · rename_i t ht
    simp [ht]
  · rename_i t ht
    rw [flushPortArray_ok_iff]
    -- The first loop has left the rings alone.
    have hring : ∀ no, t.iface ⟨.ring, no⟩ = s.iface ⟨.ring, no⟩ := by
      intro no
      have hother : (flushPortArray dev.addVhostPmd
          ((List.range L.maxEthports).map (PortRef.mk .vhost)) s).2.iface ⟨.ring, no⟩ =
            s.iface ⟨.ring, no⟩ := flushPortArray_other (by simp)
      rwa [ht] at hother
    simp [ht, hring]

/-- A flush of updatable components succeeds iff the missing devices can be created and
the classifiers updated. -/
theorem sppFlush_ok_iff {dev : Devices} (h : ∀ i, Updatable (s.component i)) :
    (sppFlush L .vf dev s).1 = .ok ↔ DevicesCreated L dev s ∧ ClassifiersUpdated L dev s := by
  cases hflush : sppFlush L .vf dev s with
  | mk ret s' =>
  obtain ⟨iface', -, ⟨hport, rfl, -⟩ | ⟨hport, rfl, -⟩⟩ := sppFlush_cases hflush
  · refine iff_of_false (by simp) fun hboth => ?_
    have hok := flushPort_ok_iff.mpr hboth.1
    rw [hport] at hok
    cases hok
  · have hcreated : DevicesCreated L dev s := flushPort_ok_iff.mp (by rw [hport])
    simp only [hcreated, true_and]
    have hret : ∀ cnt, componentUpdateRet .vf dev (flushCore L { s with iface := iface' }) cnt =
        if (s.component cnt).type = .classifierMac then dev.classifierMacUpdate cnt else .ok := by
      intro cnt
      unfold componentUpdateRet
      dsimp only [flushCore]
      split
      · rfl
      · rename_i hclassifier
        obtain ⟨hrx, htx⟩ := (h cnt).2.resolve_left hclassifier
        have hsome : (sppForwardUpdate iface' (s.component cnt)).isSome = true := by
          unfold sppForwardUpdate
          dsimp only
          rw [if_neg (fun hforward => absurd (hrx hforward.1) (by omega)), if_neg (by omega)]
          rfl
        exact if_pos hsome
    unfold flushComponent ClassifiersUpdated
    simp only [hret]
    constructor
    · intro hall cnt hcnt hflag hclassifier
      by_contra hnot
      rw [if_neg] at hall
      · cases hall
      · intro hupdate
        have hcnt' := hupdate cnt hcnt hflag
        rw [if_pos hclassifier] at hcnt'
        exact hnot hcnt'
    · intro hall
      rw [if_pos]
      intro cnt hcnt hflag
      split
      · rename_i hclassifier
        exact hall cnt hcnt hflag hclassifier
      · rfl

end Flush

section Slots

/-- A component slot as requests leave it. -/
structure SlotOk (L : Limits) (c : ComponentInfo) : Prop where
  limits : PortLimits c
  updatable : Updatable c
  name_lt : c.name.length < sppCmdNameBufsz
  port_lt : ∀ d, ∀ p ∈ c.ports d, p.no < L.maxEthports ∧ p.no < 2 ^ 31

/-- A slot without ports. -/
theorem SlotOk.of_no_ports {c : ComponentInfo} (htype : c.type ≠ .mirror)
    (hname : c.name.length < sppCmdNameBufsz) (hrx : c.rxPorts = []) (htx : c.txPorts = []) :
    SlotOk L c := by
  refine ⟨?_, updatable_of_no_ports htype hrx htx, hname, fun d p hp => ?_⟩
  · unfold PortLimits
    cases c.type <;> simp [hrx, htx]
  · simp [ComponentInfo.ports, hrx, htx] at hp

@[simp] theorem setPorts_name (c : ComponentInfo) (d : PortRxtx) (ports : List PortRef) :
    (c.setPorts d ports).name = c.name := by
  unfold ComponentInfo.setPorts
  split <;> rfl

/-- The ports of a slot after one array is replaced are those before or of the new array. -/
theorem mem_setPorts_ports {c : ComponentInfo} {d d' : PortRxtx} {ports : List PortRef}
    {p : PortRef} (h : p ∈ (c.setPorts d ports).ports d') : p ∈ ports ∨ p ∈ c.ports d' := by
  rw [setPorts_ports] at h
  split at h
  · exact .inl h
  · exact .inr h

/-- A slot that admits a port may get it. -/
theorem SlotOk.attach {c : ComponentInfo} (h : SlotOk L c) {d : PortRxtx} {port : PortRef}
    (hcount : checkPortCount c.type d c.rxPorts.length c.txPorts.length = .ok)
    (hport : port.no < L.maxEthports ∧ port.no < 2 ^ 31) :
    SlotOk L (c.setPorts d (c.ports d ++ [port])) := by
  refine ⟨(portLimits_of_checkPortCount hcount port).2, h.updatable.attach hcount port, ?_,
    fun d' p hp => ?_⟩
  · rw [setPorts_name]
    exact h.name_lt
  · rcases mem_setPorts_ports hp with hnew | hold
    · rcases List.mem_append.mp hnew with hold | hnew
      · exact h.port_lt d p hold
      · rwa [List.mem_singleton.mp hnew]
    · exact h.port_lt d' p hold

/-- A slot may lose ports. -/
theorem SlotOk.shrink {c : ComponentInfo} (h : SlotOk L c) {d : PortRxtx} {ports : List PortRef}
    (hsub : ports.Sublist (c.ports d)) : SlotOk L (c.setPorts d ports) := by
  refine ⟨h.limits.setPorts hsub.length_le, h.updatable.shrink hsub.length_le, ?_,
    fun d' p hp => ?_⟩
  · rw [setPorts_name]
    exact h.name_lt
  · rcases mem_setPorts_ports hp with hnew | hold
    · exact h.port_lt d p (hsub.mem hnew)
    · exact h.port_lt d' p hold

/-- The slots after one of them is replaced. -/
theorem slotOk_update (h : ∀ i, SlotOk L (s.component i)) {id : ℕ} {c : ComponentInfo}
    (hcomp : s'.component = Function.update s.component id c) (hc : SlotOk L c) (i : ℕ) :
    SlotOk L (s'.component i) := by
  rw [hcomp]
  by_cases hi : i = id
  · rw [hi, Function.update_self]
    exact hc
  · rw [Function.update_of_ne hi]
    exact h i

/-- The number of the interface of a decoded `port` request is an `int`. -/
theorem decodeRequest_port_range {M : SppModule} {text : CStr} {c : CommandPort}
    (h : sppCommandDecodeRequest L M s text = .ok (.port c)) : c.port.ifaceNo < 2 ^ 31 := by
  obtain ⟨args, -, -, -, h⟩ := decodeRequest_port h
  refine decodeCommandParameter_keeps (P := fun c => c.port.ifaceNo < 2 ^ 31) ?_ h (by decide)
  intro q hq b arg b' hfunc hb
  simp only [parameterListPort, List.mem_cons, List.not_mem_nil, or_false] at hq
  rcases hq with rfl | rfl | rfl | rfl | hq
  · rcases decodePortActionValue_eq_ok hfunc with rfl | rfl <;> exact hb
  · obtain ⟨port, rfl, hconverts⟩ := decodePortPortValue_converts hfunc
    exact (sppConvertPortToIface_range hconverts).2
  · obtain ⟨rxtx, rfl, -⟩ := decodePortRxtxValue_word hfunc
    exact hb
  · obtain rfl := decodePortNameValue_eq_ok hfunc
    exact hb
  · have hmem : q ∈ (parameterListPort L s true).drop 4 := by simpa [parameterListPort] using hq
    obtain ⟨ability, rfl⟩ := parameterListPort_ability hmem hfunc
    exact hb

/-- A request keeps the slots. -/
theorem slotOk_serve (h : ∀ i, SlotOk L (s.component i)) {r : Request}
    (hserve : serve L .vf r s = some s') (i : ℕ) : SlotOk L (s'.component i) := by
  obtain ⟨ret, hr⟩ := serve_eq_some.mp hserve
  obtain rfl | ⟨command, s₁, hdecode, hupdate, hflush⟩ := processRequest_cases hr
  · exact h i
  rw [sppFlush_component hflush]
  rcases updateCommand_cases hupdate with ⟨c, rfl, hc⟩ | ⟨c, rfl, hc⟩ | ⟨c, -, hc⟩
  · cases haction : c.action with
    | start =>
      obtain ⟨args, -, hmin, hmax, hparams⟩ := decodeRequest_component hdecode
      obtain ⟨-, -, id, -, rfl⟩ := sppUpdateComponent_start c haction hc
      exact slotOk_update h rfl (.of_no_ports (decodeRequest_type hdecode)
        (componentRequest_of_decode hmin hmax hparams).name_length rfl rfl) i
    | stop =>
      obtain ⟨-, rfl⟩ | ⟨id, -, rfl⟩ := sppUpdateComponent_stop c haction hc
      · exact h i
      · exact slotOk_update h rfl (.of_no_ports (by decide) (by decide) rfl rfl) i
    | none | add | del => simp [sppUpdateComponent, haction] at hc
  · have hrange := decodeRequest_port_range hdecode
    obtain ⟨id, port, -, hport, ⟨-, hadd⟩ | ⟨-, rfl⟩⟩ := sppUpdatePort_cases hc
    · obtain ⟨hlt, -, hno, -⟩ := ifaceEntry_eq_ok hport
      obtain ⟨hcount, ⟨-, -, cnt, -, rfl⟩ | ⟨-, -, rfl⟩ | ⟨-, -, info, rfl, -⟩⟩ :=
        sppUpdatePortAdd_cases hadd
      · exact h i
      · exact h i
      · exact slotOk_update h rfl ((h id).attach hcount ⟨hlt, by omega⟩) i
    · unfold sppUpdatePortDel
      dsimp only
      split
      · rename_i ports hports
        obtain ⟨k, -, rfl⟩ := Option.map_eq_some_iff.mp hports
        exact slotOk_update h rfl ((h id).shrink (List.eraseIdx_sublist ..)) i
      · exact h i
  · obtain ⟨port, classId, t, ht, hs⟩ := sppUpdateClassifierTable_cases hc
    have hcomp : s₁.component = s.component := by
      rcases ht with rfl | rfl <;> rcases hs with rfl | ⟨id, -, -, rfl⟩ <;> rfl
    rw [hcomp]
    exact h i

/-- The slots of every state that requests lead to. -/
theorem slotOk_of_reaches {slave : ℕ → Bool} {numNic mainLcore : ℕ}
    (h : Reaches (serve L .vf) (fun _ _ => True)
      (startForwarding slave mainLcore (initMngData L slave numNic)) s) (i : ℕ) :
    SlotOk L (s.component i) := by
  have hslots : ∀ i, SlotOk L (s.component i) := by
    refine h.invariant (fun j => ?_) fun _ _ _ hinv _ hserve => slotOk_serve hinv hserve
    exact .of_no_ports (by simp [startForwarding, initMngData])
      (by simp [startForwarding, initMngData, sppCmdNameBufsz]) rfl rfl
  exact hslots i

end Slots

section Decode

variable {text name : CStr} {port : PortRef} {d : PortRxtx} {vid pcp : ℤ} {id : ℕ}

/-- The command of a request that replaces a tag. -/
def retagCommand (name : CStr) (port : PortRef) (d : PortRxtx) (vid pcp : ℤ) : CommandPort :=
  { action := .add, port := port.index, rxtx := d, name := name, ability := tagAbility d vid pcp }

/-- A `port` request of eight tokens goes to the handlers with the checks off. -/
theorem decodeRequest_eight {M : SppModule} {args : List CStr}
    (hfits : text.length < sppCmdMaxParameters * sppCmdValueBufsz)
    (htokens : strtok ' ' text = "port".toList :: args) (hargs : args.length = 7) :
    sppCommandDecodeRequest L M s text =
      (decodeCommandParameter (parameterListPort L s true) args {}).map .port := by
  simp only [sppCommandDecodeRequest, decodeCommandInList, strcpy_eq_ok.mpr ⟨hfits, rfl⟩, htokens,
    List.length_cons, hargs]
  rw [if_neg (by decide)]
  simp [commandList, searchCommandList, hargs, decodeCommandParameterPort]

/-- The request is decoded to its command. -/
theorem RetagRequest.decode (h : RetagRequest text name port d vid pcp)
    (hid : sppGetComponentId L s name = some id) (hname : name.length < sppCmdNameBufsz)
    (hport : port.no < 2 ^ 31) :
    sppCommandDecodeRequest L .vf s text = .ok (.port (retagCommand name port d vid pcp)) := by
  obtain ⟨uid, dir, v, p, htokens, huid, hdir, ⟨hv, hvlo, hvhi⟩, hp, hplo, hphi⟩ := h.tokens
  have hconvert : sppConvertPortToIface uid = .ok port.index :=
    sppConvertPortToIface_of_denotes huid (by
      show -2 ^ 31 ≤ (port.no : ℤ) ∧ (port.no : ℤ) < 2 ^ 31
      omega)
  have hvid : getIntValue v 0 ethVlanIdMax = .ok vid :=
    getIntValue_of_literal hv (by unfold ethVlanIdMax at hvhi; omega) ⟨hvlo, hvhi⟩
  have hpcp : getIntValue p 0 sppVlanPcpMax = .ok pcp :=
    getIntValue_of_literal hp (by unfold sppVlanPcpMax at hphi; omega) ⟨hplo, hphi⟩
  have haction : decodePortActionValue {} "add".toList = .ok { action := .add } := by decide
  have hindex : getArraryIndex dir portRxtxStrings = some d ∧ d ≠ .none := by
    simp only [directionWords, List.mem_cons, Prod.mk.injEq, List.not_mem_nil, or_false] at hdir
    rcases hdir with ⟨rfl, rfl⟩ | ⟨rfl, rfl⟩ <;> decide
  have hdirection : ∀ c : CommandPort, decodePortRxtxValue L s c dir true =
      .ok { c with rxtx := d } := by
    intro c
    unfold decodePortRxtxValue
    rw [hindex.1]
    have hne := hindex.2
    cases d <;> first | rfl | exact absurd rfl hne
  have hfits : decodeStrValue sppCmdNameBufsz name = .ok name := by
    unfold decodeStrValue
    rw [if_neg (by unfold sppCmdNameBufsz at hname; unfold sppCmdValueBufsz; omega)]
    exact strcpy_eq_ok.mpr ⟨hname, rfl⟩
  have hcomponent : ∀ c : CommandPort, decodePortNameValue L s c name =
      .ok { c with name := name } := by
    intro c
    unfold decodePortNameValue
    rw [if_neg (by simp [hid]), hfits]
    rfl
  have hvlan : ∀ c : CommandPort, c.ability.ope = .addVlantag → decodePortVid c v =
      .ok { c with ability :=
        { c.ability with vlantag := { c.ability.vlantag with vid := vid, pcp := -1 } } } := by
    intro c hope
    unfold decodePortVid
    rw [if_pos hope, hvid]
    rfl
  have hprio : ∀ c : CommandPort, c.ability.ope = .addVlantag → decodePortPcp c p =
      .ok { c with ability :=
        { c.ability with vlantag := { c.ability.vlantag with pcp := pcp } } } := by
    intro c hope
    unfold decodePortPcp
    rw [if_pos hope, hpcp]
    rfl
  rw [decodeRequest_eight h.fits htokens rfl]
  refine map_eq_ok.mpr ⟨retagCommand name port d vid pcp, ?_, rfl⟩
  -- One handler for each token after the name of the command.
  refine decodeCommandParameter_cons_eq_ok.mpr ⟨_, haction, ?_⟩
  refine decodeCommandParameter_cons_eq_ok.mpr ⟨{ action := .add, port := port.index }, ?_, ?_⟩
  · simp [decodePortPortValue, hconvert, bind, Except.bind]
  refine decodeCommandParameter_cons_eq_ok.mpr ⟨_, hdirection _, ?_⟩
  refine decodeCommandParameter_cons_eq_ok.mpr ⟨_, hcomponent _, ?_⟩
  refine decodeCommandParameter_cons_eq_ok.mpr ⟨_, rfl, ?_⟩
  refine decodeCommandParameter_cons_eq_ok.mpr ⟨_, hvlan _ rfl, ?_⟩
  refine decodeCommandParameter_cons_eq_ok.mpr ⟨_, hprio _ rfl, ?_⟩
  rfl

end Decode

section Condition

/-- The conditions under which the tag of an attached port is replaced. -/
structure RetagWorks (L : Limits) (dev : Devices) (s : MngData) (id : ℕ) (port : PortRef)
    (d : PortRxtx) (vid pcp : ℤ) : Prop where
  /-- The type of the component admits one more port in the direction. -/
  direction : (s.component id).type = .merge ∧ d = .rx ∨
    (s.component id).type = .classifierMac ∧ d = .tx
  /-- The first tag of the port is of the direction, and any other one of the direction is
  the requested one already. -/
  first : ∃ cnt, findAbility (s.iface port) .addVlantag = some cnt ∧ (s.iface port).Tag d cnt ∧
    ∀ j, j ≠ cnt → (s.iface port).Tag d j → (s.iface port).ability j = tagAbility d vid pcp
  /-- No device of an added interface is missing for good. -/
  devices : DevicesCreated L dev s
  /-- The classifiers that have changed can be updated. -/
  classifiers : ClassifiersUpdated L dev (s.setChangeComponent id true)

variable {id : ℕ} {port : PortRef} {d : PortRxtx} {vid pcp : ℤ} {name : CStr}

/-- A component admits one more port in a direction in which it holds one iff it is a
merger that receives on it or a classifier that transmits on it. -/
theorem checkPortCount_held {c : ComponentInfo} (hlimits : PortLimits c)
    (htype : c.type = .forward ∨ c.type = .merge ∨ c.type = .classifierMac) (hd : d.Directed)
    (hheld : port ∈ c.ports d) :
    checkPortCount c.type d c.rxPorts.length c.txPorts.length = .ok ↔
      c.type = .merge ∧ d = .rx ∨ c.type = .classifierMac ∧ d = .tx := by
  have hlength := List.length_pos_of_mem hheld
  unfold PortLimits at hlimits
  unfold ComponentInfo.ports at hlength
  unfold checkPortCount
  rcases hd with rfl | rfl
  · rw [if_pos rfl] at hlength
    rcases htype with htype | htype | htype <;> simp only [htype, if_true] at hlimits ⊢
    · rw [if_pos (.inl (by omega))]
      simp
    · rw [if_neg (by omega)]
      simp
    · rw [if_pos (by omega)]
      simp
  · rw [if_neg (by decide)] at hlength
    rcases htype with htype | htype | htype <;> simp only [htype, reduceCtorEq, if_false] at hlimits ⊢
    · rw [if_pos (.inr (by omega))]
      simp
    · rw [if_pos (by omega)]
      simp
    · rw [if_neg (by omega)]
      simp

/-- The edit that replaces an entry of the ability array. -/
def retagEdit (s : MngData) (id : ℕ) (port : PortRef) (cnt : Fin sppPortAbilityMax)
    (ability : PortAbility) : MngData :=
  (s.setIface port ((s.iface port).setAbility cnt ability)).setChangeComponent id true

/-- What the update function makes of a tag for a port that is held. -/
theorem sppUpdatePortAdd_retag (hheld : port ∈ (s.component id).ports d) :
    sppUpdatePortAdd L s id port (retagCommand name port d vid pcp) =
      if checkPortCount (s.component id).type d (s.component id).rxPorts.length
          (s.component id).txPorts.length ≠ .ok then .error .ng
      else match findAbility (s.iface port) .addVlantag with
        | none => .error .ng
        | some cnt => .ok (retagEdit s id port cnt (tagAbility d vid pcp)) := by
  have hsome : (checkPortElement port ((s.component id).ports d)).isSome = true := by
    rw [checkPortElement, Option.isSome_iff_ne_none]
    exact fun hnone => lastIdxOf?_eq_none.mp hnone hheld
  unfold sppUpdatePortAdd retagCommand
  dsimp only
  rw [if_pos hsome, if_pos (show (tagAbility d vid pcp).ope = .addVlantag from rfl)]
  rfl

/-- The abilities after an entry is replaced. -/
theorem ability_retagEdit {cnt : Fin sppPortAbilityMax} {ability : PortAbility} (p : PortRef)
    (j : Fin sppPortAbilityMax) : ((retagEdit s id port cnt ability).iface p).ability j =
      if p = port ∧ j = cnt then ability else (s.iface p).ability j := by
  by_cases hp : p = port
  · subst hp
    by_cases hj : j = cnt
    · simp [retagEdit, PortInfo.setAbility, hj]
    · simp [retagEdit, PortInfo.setAbility, hj]
  · simp [retagEdit, hp]

/-- The edit leaves the devices that are missing as they are. -/
theorem devicesCreated_retagEdit {cnt : Fin sppPortAbilityMax} {ability : PortAbility}
    {dev : Devices} :
    DevicesCreated L dev (retagEdit s id port cnt ability) ↔ DevicesCreated L dev s := by
  have hsame : ∀ p, ((retagEdit s id port cnt ability).iface p).ifaceType = (s.iface p).ifaceType ∧
      ((retagEdit s id port cnt ability).iface p).dpdkPort = (s.iface p).dpdkPort ∧
      ((retagEdit s id port cnt ability).iface p).ifaceNo = (s.iface p).ifaceNo := by
    intro p
    by_cases hp : p = port
    · subst hp
      simp [retagEdit, PortInfo.setAbility]
    · simp [retagEdit, hp]
  simp only [DevicesCreated, PortInfo.Pending, hsame]

/-- The edit of the first tag replaces the tag of the direction iff it is of the direction
and any other of the direction is the requested one. -/
theorem retagged_retagEdit {cnt : Fin sppPortAbilityMax}
    (hcnt : findAbility (s.iface port) .addVlantag = some cnt) :
    Retagged s (retagEdit s id port cnt (tagAbility d vid pcp)) port d vid pcp ↔
      (s.iface port).Tag d cnt ∧
        ∀ j, j ≠ cnt → (s.iface port).Tag d j → (s.iface port).ability j = tagAbility d vid pcp := by
  constructor
  · rintro ⟨-, hreplaced, hkept⟩
    refine ⟨?_, fun j hj htag => ?_⟩
    · by_contra hnot
      -- The entry of the other direction was overwritten.
      have hsame := hkept port cnt fun h => hnot h.2
      rw [ability_retagEdit, if_pos ⟨rfl, rfl⟩] at hsame
      exact hnot ⟨by rw [← hsame]; rfl, by rw [← hsame]; rfl⟩
    · have hnew := hreplaced j htag
      rwa [ability_retagEdit, if_neg fun h => hj h.2] at hnew
  · rintro ⟨htag, hothers⟩
    refine ⟨fun _ _ _ => rfl, fun j hj => ?_, fun p j hne => ?_⟩
    · rw [ability_retagEdit]
      split
      · rfl
      · rename_i hother
        exact hothers j (fun h => hother ⟨rfl, h⟩) hj
    · rw [ability_retagEdit, if_neg]
      rintro ⟨rfl, rfl⟩
      exact hne ⟨rfl, htag⟩

/-- A flush leaves the ports and the abilities alone. -/
theorem retagged_flush {M : SppModule} {s₁ : MngData} {dev : Devices} {ret : Ret}
    (hflush : sppFlush L M dev s₁ = (ret, s')) :
    Retagged s s' port d vid pcp ↔ Retagged s s₁ port d vid pcp := by
  have hability := sppFlush_ability hflush
  have hcomp := sppFlush_component hflush
  constructor <;> rintro ⟨hports, hreplaced, hkept⟩
  · simp only [hcomp, hability] at hports hreplaced hkept
    exact ⟨hports, hreplaced, hkept⟩
  · constructor <;> simp only [hcomp, hability]
    · exact hports
    · exact hreplaced
    · exact hkept

end Condition

/-- In every state that requests lead to, the tag of a port that a component holds in a
direction is replaced iff the type of the component admits one more port there, the first
tag of the port is of the direction and the flush succeeds. -/
theorem retag_iff {slave : ℕ → Bool} {numNic mainLcore : ℕ}
    (hreach : Reaches (serve L .vf) (fun _ _ => True)
      (startForwarding slave mainLcore (initMngData L slave numNic)) s)
    {name : CStr} {id : ℕ} {port : PortRef} {d : PortRxtx} {vid pcp : ℤ}
    (hid : sppGetComponentId L s name = some id)
    (htype : (s.component id).type = .forward ∨ (s.component id).type = .merge ∨
      (s.component id).type = .classifierMac)
    (hd : d.Directed) (hheld : port ∈ (s.component id).ports d)
    (htag : ∃ cnt, (s.iface port).Tag d cnt) {r : Request}
    (hrequest : RetagRequest r.text name port d vid pcp) :
    (∃ s', processRequest L .vf r s = some (.ok, s') ∧ Retagged s s' port d vid pcp) ↔
      RetagWorks L r.dev s id port d vid pcp := by
  have hslots := slotOk_of_reaches hreach
  have hname : name.length < sppCmdNameBufsz := by
    rw [← (sppGetComponentId_eq_some hid).2.1]
    exact (hslots id).name_lt
  obtain ⟨hlt, hint⟩ := (hslots id).port_lt d port hheld
  have hentry : ifaceEntry L port.index.ifaceType port.index.ifaceNo = .ok port := by
    show ifaceEntry L port.array.type port.no = .ok port
    rw [ifaceEntry, getIfaceInfo_index hlt]
  have hupdate : sppUpdatePort L s (retagCommand name port d vid pcp) =
      sppUpdatePortAdd L s id port (retagCommand name port d vid pcp) := by
    unfold sppUpdatePort
    simp only [retagCommand, hid, hentry]
  have hrefused : sppUpdatePortAdd L s id port (retagCommand name port d vid pcp) = .error .ng →
      processRequest L .vf r s = some (.ng, s) := by
    intro hadd
    simp only [processRequest, hrequest.decode hid hname hint, executeCommand, updateCommand,
      hupdate, hadd]
  have hprocess : ∀ s₁, sppUpdatePortAdd L s id port (retagCommand name port d vid pcp) = .ok s₁ →
      processRequest L .vf r s = some (sppFlush L .vf r.dev s₁) := by
    intro s₁ hadd
    simp only [processRequest, hrequest.decode hid hname hint, executeCommand, updateCommand,
      hupdate, hadd]
  obtain ⟨cnt, hcnt⟩ : ∃ cnt, findAbility (s.iface port) .addVlantag = some cnt := by
    obtain ⟨j, hj, -⟩ := htag
    refine Option.ne_none_iff_exists'.mp fun hnone => ?_
    have hnot := List.find?_eq_none.mp hnone j (List.mem_finRange j)
    simp [hj] at hnot
  rw [sppUpdatePortAdd_retag hheld, hcnt] at hrefused hprocess
  have hcount := checkPortCount_held (hslots id).limits htype hd hheld
  by_cases hok : checkPortCount (s.component id).type d (s.component id).rxPorts.length
      (s.component id).txPorts.length = .ok
  · rw [if_neg (not_not.mpr hok)] at hprocess
    rw [hprocess _ rfl]
    have hflushOk : (sppFlush L .vf r.dev (retagEdit s id port cnt (tagAbility d vid pcp))).1 = .ok ↔
        DevicesCreated L r.dev s ∧ ClassifiersUpdated L r.dev (s.setChangeComponent id true) := by
      have hup : ∀ i, Updatable
          ((retagEdit s id port cnt (tagAbility d vid pcp)).component i) :=
        fun i => (hslots i).updatable
      rw [sppFlush_ok_iff hup, devicesCreated_retagEdit]
      rfl
    constructor
    · rintro ⟨s', hflush, hretagged⟩
      have hflush := Option.some.inj hflush
      rw [retagged_flush hflush, retagged_retagEdit hcnt] at hretagged
      obtain ⟨hdevices, hclassifiers⟩ := hflushOk.mp (by rw [hflush])
      exact ⟨hcount.mp hok, ⟨cnt, hcnt, hretagged⟩, hdevices, hclassifiers⟩
    · rintro ⟨-, ⟨cnt', hcnt', hfirst⟩, hdevices, hclassifiers⟩
      obtain rfl := Option.some.inj (hcnt.symm.trans hcnt')
      cases hflush : sppFlush L .vf r.dev (retagEdit s id port cnt (tagAbility d vid pcp)) with
      | mk ret s' =>
      obtain rfl : ret = .ok := by
        have hret := hflushOk.mpr ⟨hdevices, hclassifiers⟩
        rwa [hflush] at hret
      refine ⟨s', rfl, ?_⟩
      rw [retagged_flush hflush, retagged_retagEdit hcnt]
      exact hfirst
  · rw [if_pos hok] at hrefused
    rw [hrefused rfl]
    refine iff_of_false ?_ fun hworks => hok (hcount.mpr hworks.direction)
    rintro ⟨s', hng, -⟩
    cases hng

section Runs

/-- A merger is given phy:0 with a tag. -/
def mergerTagged : List Request :=
  [.ofString "component start m1 1 merge", .ofString "port add phy:0 rx m1 add_vlantag 10 3"]

/-- A forwarder is given phy:0 with a tag. -/
def forwarderTagged : List Request :=
  [.ofString "component start f1 1 forward", .ofString "port add phy:0 rx f1 add_vlantag 10 3"]

/-- The tokens of a request for phy:0. -/
theorem retagRequest_phyZero {text name : String}
    (hfits : text.toList.length < sppCmdMaxParameters * sppCmdValueBufsz)
    (htokens : strtok ' ' text.toList = ["port".toList, "add".toList, "phy:0".toList, "rx".toList,
      name.toList, "add_vlantag".toList, "20".toList, "5".toList]) :
    RetagRequest text.toList name.toList phyZero .rx 20 5 := by
  refine ⟨hfits, _, _, _, _, htokens, denotesPort_phyZero, by decide, ?_, ?_⟩
  · exact ⟨by decide +kernel, by decide, by decide⟩
  · exact ⟨by decide +kernel, by decide, by decide⟩

/-- The merger gets the other tag. -/
theorem retag_merger :
    ∃ s, runAll (serve .default .vf) mergerTagged bootState = some s ∧
      ((∃ s', processRequest .default .vf (.ofString "port add phy:0 rx m1 add_vlantag 20 5") s =
          some (.ok, s') ∧ Retagged s s' phyZero .rx 20 5) ↔
        RetagWorks .default (Request.ofString "").dev s 0 phyZero .rx 20 5) := by
  obtain ⟨s, hs, hid, htype, hports, hope, hrxtx⟩ : ∃ s,
      runAll (serve .default .vf) mergerTagged bootState = some s ∧
        sppGetComponentId .default s "m1".toList = some 0 ∧ (s.component 0).type = .merge ∧
        (s.component 0).rxPorts = [phyZero] ∧ ((s.iface phyZero).ability 0).ope = .addVlantag ∧
        ((s.iface phyZero).ability 0).rxtx = .rx :=
    exists_of_runAll (by decide +kernel)
  exact ⟨s, hs, retag_iff (reaches_of_runAll hs fun _ _ _ => trivial) hid (.inr (.inl htype))
    (.inl rfl) (by simp [ComponentInfo.ports, hports]) ⟨0, hope, hrxtx⟩
    (retagRequest_phyZero (by decide) (by decide +kernel))⟩

/-- The forwarder does not: it is said to have too many ports. -/
theorem not_retagged_forwarder :
    ∃ s, Reaches (serve .default .vf) (fun _ _ => True) bootState s ∧
      sppGetComponentId .default s "f1".toList = some 0 ∧ (s.component 0).type = .forward ∧
      phyZero ∈ (s.component 0).ports .rx ∧ (∃ cnt, (s.iface phyZero).Tag .rx cnt) ∧
      RetagRequest "port add phy:0 rx f1 add_vlantag 20 5".toList "f1".toList phyZero .rx 20 5 ∧
      ¬ ∃ s', processRequest .default .vf (.ofString "port add phy:0 rx f1 add_vlantag 20 5") s =
        some (.ok, s') := by
  obtain ⟨s, hs, hid, htype, hports, hope, hrxtx, hng⟩ : ∃ s,
      runAll (serve .default .vf) forwarderTagged bootState = some s ∧
        sppGetComponentId .default s "f1".toList = some 0 ∧ (s.component 0).type = .forward ∧
        (s.component 0).rxPorts = [phyZero] ∧ ((s.iface phyZero).ability 0).ope = .addVlantag ∧
        ((s.iface phyZero).ability 0).rxtx = .rx ∧
        (processRequest .default .vf (.ofString "port add phy:0 rx f1 add_vlantag 20 5") s).map
          Prod.fst = some .ng :=
    exists_of_runAll (by decide +kernel)
  refine ⟨s, reaches_of_runAll hs fun _ _ _ => trivial, hid, htype,
    by simp [ComponentInfo.ports, hports], ⟨0, hope, hrxtx⟩,
    retagRequest_phyZero (by decide) (by decide +kernel), ?_⟩
  rintro ⟨s', hok⟩
  rw [hok] at hng
  cases hng

end Runs

end Spp.Vf
