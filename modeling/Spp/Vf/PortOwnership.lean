import Mathlib.Data.List.Nodup
import Spp.Lib.GuardedRun
import Spp.Vf.CommandSpec

/-!
# Which component holds a port

A port is attached to at most one used component in each direction. The
decoder tests this for a `port add`, but not when the request has all eight
tokens, and the update function looks only at the component that is named.
-/

namespace Spp.Vf

open CLib GuardedRun

variable {L : Limits} {M : SppModule} {s s' : MngData}

section Limits

/-- The limits of a component's type on its ports. -/
def PortLimits (c : ComponentInfo) : Prop :=
  match c.type with
  | .forward => c.rxPorts.length ≤ 1 ∧ c.txPorts.length ≤ 1
  | .merge => c.txPorts.length ≤ 1
  | .classifierMac => c.rxPorts.length ≤ 1
  | .mirror => c.rxPorts.length ≤ 1 ∧ c.txPorts.length ≤ 2
  | .unuse => True

@[simp] theorem setPorts_type (c : ComponentInfo) (rxtx : PortRxtx) (ports : List PortRef) :
    (c.setPorts rxtx ports).type = c.type := by
  unfold ComponentInfo.setPorts
  split <;> rfl

/-- The ports of either direction after those of one direction are replaced. -/
theorem setPorts_ports (c : ComponentInfo) (rxtx : PortRxtx) (ports : List PortRef)
    (d : PortRxtx) :
    (c.setPorts rxtx ports).ports d =
      if (d = .rx ↔ rxtx = .rx) then ports else c.ports d := by
  by_cases hd : d = .rx <;> by_cases hr : rxtx = .rx <;>
    simp [ComponentInfo.setPorts, ComponentInfo.ports, hd, hr]

/-- Two directions that are both receive or both not name the same ports. -/
theorem ports_eq_of_iff (c : ComponentInfo) {d d' : PortRxtx} (h : d = .rx ↔ d' = .rx) :
    c.ports d = c.ports d' := by
  simp only [ComponentInfo.ports, h]

/-- A count that passes leaves room for one more port, in a component that is used. -/
theorem portLimits_of_checkPortCount {c : ComponentInfo} {rxtx : PortRxtx}
    (h : checkPortCount c.type rxtx c.rxPorts.length c.txPorts.length = .ok) (port : PortRef) :
    c.type ≠ .unuse ∧ PortLimits (c.setPorts rxtx (c.ports rxtx ++ [port])) := by
  unfold checkPortCount at h
  by_cases hr : rxtx = .rx <;> cases htype : c.type <;>
    simp_all [PortLimits, ComponentInfo.setPorts, ComponentInfo.ports]

/-- Fewer ports obey the limits as well. -/
theorem PortLimits.setPorts {c : ComponentInfo} (h : PortLimits c) {rxtx : PortRxtx}
    {ports : List PortRef} (hle : ports.length ≤ (c.ports rxtx).length) :
    PortLimits (c.setPorts rxtx ports) := by
  unfold PortLimits at h ⊢
  by_cases hr : rxtx = .rx <;> cases htype : c.type <;>
    simp_all [ComponentInfo.setPorts, ComponentInfo.ports] <;> omega

end Limits

section Owned

/-- Exclusive ownership of ports by the used components, with every component
within its limits. -/
structure PortsOwned (L : Limits) (s : MngData) : Prop where
  /-- A port is held in a direction by at most one used component. -/
  owner_unique : ∀ i < L.maxLcore, ∀ j < L.maxLcore, (s.component i).type ≠ .unuse →
    (s.component j).type ≠ .unuse → ∀ rxtx, ∀ port ∈ (s.component i).ports rxtx,
      port ∈ (s.component j).ports rxtx → i = j
  /-- It is held there at most once. -/
  nodup : ∀ i < L.maxLcore, (s.component i).type ≠ .unuse →
    ∀ rxtx, ((s.component i).ports rxtx).Nodup
  /-- The limits of the type are obeyed. -/
  limits : ∀ i < L.maxLcore, PortLimits (s.component i)
  /-- The arrays are not outgrown. -/
  num_le : ∀ i < L.maxLcore, (s.component i).type ≠ .unuse →
    ∀ rxtx, ((s.component i).ports rxtx).length ≤ L.maxEthports

theorem PortsOwned.congr (h : PortsOwned L s) (hcomp : s'.component = s.component) :
    PortsOwned L s' := by
  constructor <;> simp only [hcomp]
  · exact h.owner_unique
  · exact h.nodup
  · exact h.limits
  · exact h.num_le

/-- A slot may be replaced by an unused one, or by one that is within its
limits and holds no port of another component. -/
theorem PortsOwned.update (h : PortsOwned L s) {id : ℕ} {c : ComponentInfo}
    (hcomp : s'.component = Function.update s.component id c) (hlimits : PortLimits c)
    (hnew : c.type ≠ .unuse → ∀ rxtx, (c.ports rxtx).Nodup ∧
      (c.ports rxtx).length ≤ L.maxEthports ∧
      ∀ j < L.maxLcore, j ≠ id → (s.component j).type ≠ .unuse →
        ∀ port ∈ c.ports rxtx, port ∉ (s.component j).ports rxtx) : PortsOwned L s' := by
  refine ⟨fun i hi j hj hui huj rxtx port hpi hpj => ?_, fun i hi hu rxtx => ?_, fun i hi => ?_,
    fun i hi hu rxtx => ?_⟩
  · by_cases hid : i = id <;> by_cases hjd : j = id
    · exact hid.trans hjd.symm
    · subst hid
      simp only [hcomp, Function.update_self, Function.update_of_ne hjd] at hui huj hpi hpj
      exact absurd hpj ((hnew hui rxtx).2.2 j hj hjd huj port hpi)
    · subst hjd
      simp only [hcomp, Function.update_self, Function.update_of_ne hid] at hui huj hpi hpj
      exact absurd hpi ((hnew huj rxtx).2.2 i hi hid hui port hpj)
    · simp only [hcomp, Function.update_of_ne hid, Function.update_of_ne hjd] at hui huj hpi hpj
      exact h.owner_unique i hi j hj hui huj rxtx port hpi hpj
  · by_cases hid : i = id
    · subst hid
      simp only [hcomp, Function.update_self] at hu ⊢
      exact (hnew hu rxtx).1
    · simp only [hcomp, Function.update_of_ne hid] at hu ⊢
      exact h.nodup i hi hu rxtx
  · by_cases hid : i = id
    · subst hid
      simpa only [hcomp, Function.update_self] using hlimits
    · simpa only [hcomp, Function.update_of_ne hid] using h.limits i hi
  · by_cases hid : i = id
    · subst hid
      simp only [hcomp, Function.update_self] at hu ⊢
      exact (hnew hu rxtx).2.1
    · simp only [hcomp, Function.update_of_ne hid] at hu ⊢
      exact h.num_le i hi hu rxtx

/-- Fewer ports in a used slot keep ownership. -/
theorem PortsOwned.shrink (h : PortsOwned L s) {id : ℕ} (hid : id < L.maxLcore) {rxtx : PortRxtx}
    {ports : List PortRef} (hsub : ports.Sublist ((s.component id).ports rxtx))
    (hcomp : s'.component =
      Function.update s.component id ((s.component id).setPorts rxtx ports)) :
    PortsOwned L s' := by
  refine h.update hcomp ((h.limits id hid).setPorts hsub.length_le) fun hu d => ?_
  rw [setPorts_type] at hu
  -- In either direction the ports are among those held before.
  have hd : (((s.component id).setPorts rxtx ports).ports d).Sublist
      ((s.component id).ports d) := by
    rw [setPorts_ports]
    split
    · rename_i hiff
      rwa [ports_eq_of_iff _ hiff]
    · exact List.Sublist.refl _
  refine ⟨(h.nodup id hid hu d).sublist hd, Nat.le_trans hd.length_le (h.num_le id hid hu d),
    fun j hj hne huj port hport hother => ?_⟩
  exact hne (h.owner_unique id hid j hj hu huj d port (hd.mem hport) hother).symm

/-- One more port in a used slot keeps ownership if no other component holds it. -/
theorem PortsOwned.attach (h : PortsOwned L s) {id : ℕ} (hid : id < L.maxLcore) {rxtx : PortRxtx}
    {port : PortRef}
    (hcount : checkPortCount (s.component id).type rxtx (s.component id).rxPorts.length
      (s.component id).txPorts.length = .ok)
    (hroom : ((s.component id).ports rxtx).length < L.maxEthports)
    (hnot : port ∉ (s.component id).ports rxtx)
    (hfree : ∀ j < L.maxLcore, j ≠ id → (s.component j).type ≠ .unuse →
      port ∉ (s.component j).ports rxtx)
    (hcomp : s'.component = Function.update s.component id
      ((s.component id).setPorts rxtx ((s.component id).ports rxtx ++ [port]))) :
    PortsOwned L s' := by
  obtain ⟨hu, hlimits⟩ := portLimits_of_checkPortCount hcount port
  refine h.update hcomp hlimits fun _ d => ?_
  have hothers : ∀ j < L.maxLcore, j ≠ id → (s.component j).type ≠ .unuse →
      ∀ p ∈ (s.component id).ports d, p ∉ (s.component j).ports d :=
    fun j hj hne huj p hp hother => hne (h.owner_unique id hid j hj hu huj d p hp hother).symm
  rw [setPorts_ports]
  split
  · rename_i hiff
    rw [ports_eq_of_iff _ hiff] at hothers
    refine ⟨?_, ?_, fun j hj hne huj p hp => ?_⟩
    · rw [List.nodup_append]
      exact ⟨h.nodup id hid hu rxtx, List.nodup_singleton _, fun a ha b hb hab =>
        hnot (by rwa [← List.mem_singleton.mp hb, ← hab])⟩
    · rw [List.length_append, List.length_singleton]
      omega
    · rcases List.mem_append.mp hp with hp | hp
      · exact hothers j hj hne huj p hp
      · obtain rfl := List.mem_singleton.mp hp
        rw [ports_eq_of_iff _ hiff]
        exact hfree j hj hne huj
  · exact ⟨h.nodup id hid hu d, h.num_le id hid hu d, hothers⟩

end Owned

section Run

/-- A `port add` with all eight tokens that attaches its port does not take it
from another used component. -/
def TaggedAddFree (L : Limits) (M : SppModule) (r : Request) (s : MngData) : Prop :=
  ∀ c id port, sppCommandDecodeRequest L M s r.text = .ok (.port c) → c.action = .add →
    (strtok ' ' r.text).length = 8 → sppGetComponentId L s c.name = some id →
    ifaceEntry L c.port.ifaceType c.port.ifaceNo = .ok port →
    checkPortCount (s.component id).type c.rxtx (s.component id).rxPorts.length
      (s.component id).txPorts.length = .ok →
    ((s.component id).ports c.rxtx).length < L.maxEthports →
    (c.ability.ope ≠ .none → (findAbility (s.iface port) .none).isSome) →
    ∀ j < L.maxLcore, j ≠ id → (s.component j).type ≠ .unuse → port ∉ (s.component j).ports c.rxtx

/-- A start or a stop leaves its slot without ports. -/
theorem PortsOwned.sppUpdateComponent (h : PortsOwned L s) {c : CommandComponent}
    (hc : sppUpdateComponent L s c = .ok s') : PortsOwned L s' := by
  have hempty : ∀ (d : ComponentInfo) (t : MngData) (id : ℕ), d.rxPorts = [] → d.txPorts = [] →
      t.component = Function.update s.component id d → PortsOwned L t := by
    intro d t id hrx htx hcomp
    have hports : ∀ rxtx, d.ports rxtx = [] := fun rxtx => by
      simp [ComponentInfo.ports, hrx, htx]
    refine h.update hcomp ?_ fun _ rxtx => by simp [hports]
    unfold PortLimits
    cases d.type <;> simp [hrx, htx]
  cases haction : c.action with
  | start =>
    obtain ⟨-, -, id, -, rfl⟩ := sppUpdateComponent_start c haction hc
    exact hempty _ _ id rfl rfl rfl
  | stop =>
    obtain ⟨-, rfl⟩ | ⟨id, -, rfl⟩ := sppUpdateComponent_stop c haction hc
    · exact h
    · exact hempty _ _ id rfl rfl rfl
  | none | add | del => simp [Spp.Vf.sppUpdateComponent, haction] at hc

/-- Detaching a port only shrinks a slot. -/
theorem PortsOwned.sppUpdatePortDel (h : PortsOwned L s) {id : ℕ} (hid : id < L.maxLcore)
    (port : PortRef) (rxtx : PortRxtx) : PortsOwned L (sppUpdatePortDel s id port rxtx) := by
  unfold Spp.Vf.sppUpdatePortDel
  dsimp only
  split
  · rename_i ports hports
    obtain ⟨k, -, rfl⟩ := Option.map_eq_some_iff.mp hports
    exact h.shrink hid (List.eraseIdx_sublist ..) rfl
  · exact h.congr rfl

/-- A port that an add attaches is held by no other used component. -/
theorem TaggedAddFree.unheld {r : Request} (hfree : TaggedAddFree L M r s) {c : CommandPort}
    {id : ℕ} {port : PortRef} (hdecode : sppCommandDecodeRequest L M s r.text = .ok (.port c))
    (haction : c.action = .add) (hid : sppGetComponentId L s c.name = some id)
    (hport : ifaceEntry L c.port.ifaceType c.port.ifaceNo = .ok port)
    (hcount : checkPortCount (s.component id).type c.rxtx (s.component id).rxPorts.length
      (s.component id).txPorts.length = .ok)
    (hroom : ((s.component id).ports c.rxtx).length < L.maxEthports)
    (hability : c.ability.ope ≠ .none → (findAbility (s.iface port) .none).isSome) :
    ∀ j < L.maxLcore, j ≠ id → (s.component j).type ≠ .unuse →
      port ∉ (s.component j).ports c.rxtx := by
  obtain ⟨args, hargs, hmin, -, hparams⟩ := decodeRequest_port hdecode
  have hreq := portRequest_of_decode hmin hparams
  by_cases hlen : args.length = 7
  · exact hfree c id port hdecode haction (by simp [hargs, hlen]) hid hport hcount hroom hability
  · intro j hj _ huj
    exact sppCheckUsedPort_eq_none hport (hreq.unheld (by simpa using hlen) haction) hj huj

/-- A `port` command keeps ownership if it does not take over a port. -/
theorem PortsOwned.sppUpdatePort (h : PortsOwned L s) {r : Request} {c : CommandPort}
    (hdecode : sppCommandDecodeRequest L M s r.text = .ok (.port c))
    (hfree : TaggedAddFree L M r s) (hc : sppUpdatePort L s c = .ok s') : PortsOwned L s' := by
  obtain ⟨id, port, hid, hport, ⟨haction, hadd⟩ | ⟨-, rfl⟩⟩ := sppUpdatePort_cases hc
  · have hlt := (sppGetComponentId_eq_some hid).1
    obtain ⟨hcount, ⟨-, -, cnt, -, rfl⟩ | ⟨-, -, rfl⟩ | ⟨hnot, hroom, info, rfl, hinfo⟩⟩ :=
      sppUpdatePortAdd_cases hadd
    · exact h.congr rfl
    · exact h
    · refine h.attach hlt hcount hroom hnot ?_ rfl
      refine hfree.unheld hdecode haction hid hport hcount hroom ?_
      rcases hinfo with ⟨hope, -⟩ | ⟨-, cnt, hcnt, -⟩
      · exact fun hne => absurd hope hne
      · exact fun _ => by simp [hcnt]
  · exact h.sppUpdatePortDel (sppGetComponentId_eq_some hid).1 port c.rxtx

/-- A flush leaves the component slots as they are. -/
theorem sppFlush_component {dev : Devices} {ret : Ret} (h : sppFlush L M dev s = (ret, s')) :
    s'.component = s.component := by
  obtain ⟨iface', -, ⟨-, -, rfl⟩ | ⟨-, -, rfl⟩⟩ := sppFlush_cases h <;> rfl

/-- One request that takes over no port keeps ownership. -/
theorem PortsOwned.serve (h : PortsOwned L s) {r : Request} (hfree : TaggedAddFree L M r s)
    (hr : serve L M r s = some s') : PortsOwned L s' := by
  obtain ⟨ret, hr⟩ := serve_eq_some.mp hr
  obtain rfl | ⟨command, s₁, hdecode, hupdate, hflush⟩ := processRequest_cases hr
  · exact h
  · refine PortsOwned.congr ?_ (sppFlush_component hflush)
    rcases updateCommand_cases hupdate with ⟨c, rfl, hc⟩ | ⟨c, rfl, hc⟩ | ⟨c, -, hc⟩
    · exact h.sppUpdateComponent hc
    · exact h.sppUpdatePort hdecode hfree hc
    · obtain ⟨port, classId, t, ht, hs⟩ := sppUpdateClassifierTable_cases hc
      have hcomp : t.component = s.component := by
        rcases ht with rfl | rfl <;> rfl
      rcases hs with rfl | ⟨id, -, -, rfl⟩
      · exact h.congr hcomp
      · exact h.congr hcomp

/-- No port is held before the first request. -/
theorem portsOwned_initMngData (L : Limits) (slave : ℕ → Bool) (numNic : ℕ) (mainLcore : ℕ) :
    PortsOwned L (startForwarding slave mainLcore (initMngData L slave numNic)) := by
  refine ⟨?_, ?_, ?_, ?_⟩ <;> simp [startForwarding, initMngData, PortLimits]

/-- In every run in which no eight-token `port add` takes over a port, each
port has at most one owner in each direction between any two requests, and
every component is within its limits. -/
theorem portsOwned_of_reaches (slave : ℕ → Bool) (numNic mainLcore : ℕ)
    (h : Reaches (serve L M) (TaggedAddFree L M)
      (startForwarding slave mainLcore (initMngData L slave numNic)) s) : PortsOwned L s :=
  h.invariant (portsOwned_initMngData L slave numNic mainLcore)
    fun _ _ _ hinv hguard hstep => hinv.serve hguard hstep

/-- An add that passes the count attaches a port that the component does not
hold, if it finds room for the port and for its ability. -/
theorem sppUpdatePortAdd_attach {id : ℕ} {port : PortRef} {c : CommandPort}
    (hcount : checkPortCount (s.component id).type c.rxtx (s.component id).rxPorts.length
      (s.component id).txPorts.length = .ok)
    (hnot : port ∉ (s.component id).ports c.rxtx)
    (hroom : ((s.component id).ports c.rxtx).length < L.maxEthports)
    (hability : c.ability.ope ≠ .none → (findAbility (s.iface port) .none).isSome) :
    ∃ info, sppUpdatePortAdd L s id port c = .ok (attachEdit s id port c info) := by
  unfold sppUpdatePortAdd
  dsimp only
  rw [if_neg (by simp [hcount]), checkPortElement, lastIdxOf?_eq_none.mpr hnot,
    if_neg (by simp), if_neg (by omega)]
  by_cases hope : c.ability.ope = .none
  · exact ⟨s.iface port, by simp [hope, attachEdit]⟩
  · obtain ⟨cnt, hcnt⟩ := Option.isSome_iff_exists.mp (hability hope)
    exact ⟨_, by rw [if_pos hope, hcnt]; rfl⟩

/-- The condition is exact: an eight-token add that does not meet it makes two
components hold the port. -/
theorem PortsOwned.taggedAddFree (h : PortsOwned L s) {r : Request}
    (hr : Spp.Vf.serve L M r s = some s') (hs' : PortsOwned L s') : TaggedAddFree L M r s := by
  intro c id port hdecode haction hlen hid hport hcount hroom hability j hj hne huj hmem
  obtain ⟨hlt, -, -⟩ := sppGetComponentId_eq_some hid
  obtain ⟨hu, -⟩ := portLimits_of_checkPortCount hcount port
  have hnot : port ∉ (s.component id).ports c.rxtx := fun hmem' =>
    hne (h.owner_unique j hj id hlt huj hu c.rxtx port hmem hmem')
  obtain ⟨info, hadd⟩ := sppUpdatePortAdd_attach hcount hnot hroom hability
  have hupdate : Spp.Vf.sppUpdatePort L s c = .ok (attachEdit s id port c info) := by
    simp [Spp.Vf.sppUpdatePort, hid, hport, haction, hadd]
  have hflush : (sppFlush L M r.dev (attachEdit s id port c info)).2 = s' := by
    simpa [Spp.Vf.serve, processRequest, hdecode, executeCommand, updateCommand, hupdate] using hr
  have hcomp : s'.component = (attachEdit s id port c info).component :=
    sppFlush_component (Prod.ext rfl hflush : sppFlush L M r.dev _ = (_, s'))
  have hslot : s'.component id =
      (s.component id).setPorts c.rxtx ((s.component id).ports c.rxtx ++ [port]) := by
    rw [hcomp]
    exact Function.update_self ..
  have hother : s'.component j = s.component j := by
    rw [hcomp]
    exact Function.update_of_ne hne ..
  refine hne (hs'.owner_unique j hj id hlt (by rwa [hother]) (by rwa [hslot, setPorts_type])
    c.rxtx port (by rwa [hother]) ?_)
  rw [hslot, setPorts_ports, if_pos Iff.rfl]
  simp

/-- A forwarder is started and given a port. -/
def attachOne : List Request :=
  [.ofString "component start f1 1 forward", .ofString "port add phy:0 rx f1"]

/-- Two forwarders are started and given the same port, the second time with a
VLAN tag. -/
def attachTwice : List Request :=
  [.ofString "component start f1 1 forward", .ofString "component start f2 1 forward",
    .ofString "port add phy:0 rx f1", .ofString "port add phy:0 rx f2 add_vlantag 10 3"]

/-- The port is attached, and to one owner. -/
theorem portsOwned_attachOne :
    ∃ s, runAll (serve .default .vf) attachOne bootState = some s ∧
      (s.component 0).rxPorts = [⟨.nic, 0⟩] ∧ PortsOwned .default s := by
  obtain ⟨s, hs, hports⟩ : ∃ s, runAll (serve .default .vf) attachOne bootState = some s ∧
      (s.component 0).rxPorts = [⟨.nic, 0⟩] := by
    simpa [Option.any_eq_true] using (by decide +kernel :
      (runAll (serve .default .vf) attachOne bootState).any fun s =>
        (s.component 0).rxPorts = [⟨.nic, 0⟩])
  refine ⟨s, hs, hports, portsOwned_of_reaches _ _ _ (reaches_of_runAll hs fun r hr t => ?_)⟩
  have hlen : (strtok ' ' r.text).length ≠ 8 := by
    revert r
    decide
  exact fun c id port _ _ hlen' => absurd hlen' hlen

/-- The tagged add gives both forwarders the same receive port. -/
theorem not_portsOwned_attachTwice :
    ∃ s, Reaches (serve .default .vf) (fun _ _ => True) bootState s ∧ ¬ PortsOwned .default s := by
  obtain ⟨s, hs, hfirst, hsecond⟩ : ∃ s,
      runAll (serve .default .vf) attachTwice bootState = some s ∧
        ((s.component 0).type = .forward ∧ (s.component 0).rxPorts = [⟨.nic, 0⟩]) ∧
        (s.component 1).type = .forward ∧ (s.component 1).rxPorts = [⟨.nic, 0⟩] := by
    simpa [Option.any_eq_true] using (by decide +kernel :
      (runAll (serve .default .vf) attachTwice bootState).any fun s =>
        ((s.component 0).type = .forward ∧ (s.component 0).rxPorts = [⟨.nic, 0⟩]) ∧
          (s.component 1).type = .forward ∧ (s.component 1).rxPorts = [⟨.nic, 0⟩])
  refine ⟨s, reaches_of_runAll hs fun _ _ _ => trivial, fun hok => ?_⟩
  have heq := hok.owner_unique 0 (by decide) 1 (by decide) (by simp [hfirst.1])
    (by simp [hsecond.1]) .rx ⟨.nic, 0⟩ (by simp [ComponentInfo.ports, hfirst.2])
    (by simp [ComponentInfo.ports, hsecond.2])
  cases heq

end Run

end Spp.Vf
