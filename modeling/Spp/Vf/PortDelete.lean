import Spp.Vf.AbilityTable
import Spp.Vf.OneReply

/-!
# What deleting a port leaves alone

A `port del` removes the abilities of a port in a direction before it looks for the
port in the component it names. Where that component holds the port the request takes
away that attachment and these abilities; where it does not, the abilities go all the
same, and they belong to another component.
-/

namespace Spp.Vf

open CLib GuardedRun

variable {L : Limits} {M : SppModule} {s s' : MngData}

section Statement

/-- Only one attachment is taken away, and only the abilities of that port and
direction. -/
structure DetachesOnly (s s' : MngData) (id : ℕ) (port : PortRef) (d : PortRxtx) : Prop where
  /-- The other ports of the component keep their order. -/
  own : (s'.component id).ports d = ((s.component id).ports d).erase port
  /-- The other arrays of ports are as they were. -/
  others : ∀ j d', d'.Directed → ¬ (j = id ∧ d' = d) →
    (s'.component j).ports d' = (s.component j).ports d'
  /-- The abilities are gone. -/
  removed : ∀ cnt, (s.iface port).Entry d cnt → (s'.iface port).ability cnt = {}
  /-- The other entries of the ability arrays are as they were. -/
  kept : ∀ p cnt, ¬ (p = port ∧ (s.iface port).Entry d cnt) →
    (s'.iface p).ability cnt = (s.iface p).ability cnt

/-- No port of a component and no ability of a port changes. -/
structure Untouched (s s' : MngData) : Prop where
  ports : ∀ j d, d.Directed → (s'.component j).ports d = (s.component j).ports d
  ability : ∀ p cnt, (s'.iface p).ability cnt = (s.iface p).ability cnt

/-- What a `port del` may change: what the component holds of the port, and nothing if
it does not hold it. -/
def DeleteFrame (s s' : MngData) (id : ℕ) (port : PortRef) (d : PortRxtx) : Prop :=
  (port ∈ (s.component id).ports d → DetachesOnly s s' id port d) ∧
    (port ∉ (s.component id).ports d → Untouched s s')

end Statement

section Once

/-- No component holds a port twice in a direction. -/
def AttachedOnce (s : MngData) : Prop :=
  ∀ i d, ((s.component i).ports d).Nodup

/-- A slot may be replaced by one without repetitions. -/
theorem AttachedOnce.update (h : AttachedOnce s) {id : ℕ} {c : ComponentInfo}
    (hcomp : s'.component = Function.update s.component id c) (hc : ∀ d, (c.ports d).Nodup) :
    AttachedOnce s' := by
  intro i d
  rw [hcomp]
  by_cases hi : i = id
  · rw [hi, Function.update_self]
    exact hc d
  · rw [Function.update_of_ne hi]
    exact h i d

/-- One array of a slot may be replaced by one without repetitions. -/
theorem AttachedOnce.setPorts (h : AttachedOnce s) {id : ℕ} {d : PortRxtx} {ports : List PortRef}
    (hcomp : s'.component = Function.update s.component id ((s.component id).setPorts d ports))
    (hports : ports.Nodup) : AttachedOnce s' := by
  refine h.update hcomp fun d' => ?_
  rw [setPorts_ports]
  split
  · exact hports
  · exact h id d'

/-- A command attaches a port to a component only if it is not held there yet. -/
theorem AttachedOnce.updateCommand (h : AttachedOnce s) {command : SppCommand}
    (hupdate : updateCommand L s command = some (.ok s')) : AttachedOnce s' := by
  rcases updateCommand_cases hupdate with ⟨c, -, hc⟩ | ⟨c, -, hc⟩ | ⟨c, -, hc⟩
  · cases haction : c.action with
    | start =>
      obtain ⟨-, -, id, -, rfl⟩ := sppUpdateComponent_start c haction hc
      exact h.update rfl fun d => by simp [ComponentInfo.ports]
    | stop =>
      obtain ⟨-, rfl⟩ | ⟨id, -, rfl⟩ := sppUpdateComponent_stop c haction hc
      · exact h
      · exact h.update rfl fun d => by simp [ComponentInfo.ports]
    | none | add | del => simp [sppUpdateComponent, haction] at hc
  · obtain ⟨id, port, -, -, ⟨-, hadd⟩ | ⟨-, rfl⟩⟩ := sppUpdatePort_cases hc
    · obtain ⟨-, ⟨-, -, cnt, -, rfl⟩ | ⟨-, -, rfl⟩ | ⟨hnot, -, info, rfl, -⟩⟩ :=
        sppUpdatePortAdd_cases hadd
      · exact h
      · exact h
      · refine h.setPorts rfl ?_
        rw [List.nodup_append]
        exact ⟨h id c.rxtx, List.nodup_singleton _, fun a ha b hb hab =>
          hnot (by rwa [← List.mem_singleton.mp hb, ← hab])⟩
    · unfold sppUpdatePortDel
      dsimp only
      split
      · rename_i ports hports
        obtain ⟨k, -, rfl⟩ := Option.map_eq_some_iff.mp hports
        exact h.setPorts rfl ((h id c.rxtx).sublist (List.eraseIdx_sublist ..))
      · exact h
  · obtain ⟨port, classId, t, ht, hs⟩ := sppUpdateClassifierTable_cases hc
    have hcomp : s'.component = s.component := by
      rcases ht with rfl | rfl <;> rcases hs with rfl | ⟨id, -, -, rfl⟩ <;> rfl
    intro i d
    rw [hcomp]
    exact h i d

/-- In every state that requests lead to, no component holds a port twice in a
direction. -/
theorem attachedOnce_of_reaches {slave : ℕ → Bool} {numNic mainLcore : ℕ}
    (h : Reaches (serve L M) (fun _ _ => True)
      (startForwarding slave mainLcore (initMngData L slave numNic)) s) : AttachedOnce s := by
  refine h.invariant ?_ fun r u v hu _ hserve => ?_
  · intro i d
    simp [startForwarding, initMngData, ComponentInfo.ports]
  · obtain ⟨ret, hr⟩ := serve_eq_some.mp hserve
    obtain rfl | ⟨command, s₁, -, hupdate, hflush⟩ := processRequest_cases hr
    · exact hu
    · have hs₁ := hu.updateCommand hupdate
      intro i d
      rw [sppFlush_component hflush]
      exact hs₁ i d

end Once

section Delete

variable {id : ℕ} {port : PortRef} {d : PortRxtx}

/-- A deletion zeroes the entries of the port in the direction, and those only. -/
theorem iface_sppUpdatePortDel : (sppUpdatePortDel s id port d).iface =
    Function.update s.iface port ((s.iface port).clearAbility d) := by
  unfold sppUpdatePortDel
  dsimp only
  split <;> rfl

/-- An entry of the port in the direction is removed. -/
theorem sppUpdatePortDel_removed {cnt : Fin sppPortAbilityMax}
    (hentry : (s.iface port).Entry d cnt) :
    ((sppUpdatePortDel s id port d).iface port).ability cnt = {} := by
  rw [iface_sppUpdatePortDel, Function.update_self]
  exact if_pos hentry

/-- Any other entry is kept. -/
theorem sppUpdatePortDel_kept {p : PortRef} {cnt : Fin sppPortAbilityMax}
    (hne : ¬ (p = port ∧ (s.iface port).Entry d cnt)) :
    ((sppUpdatePortDel s id port d).iface p).ability cnt = (s.iface p).ability cnt := by
  rw [iface_sppUpdatePortDel]
  by_cases hp : p = port
  · subst hp
    rw [Function.update_self]
    exact if_neg fun hentry => hne ⟨rfl, hentry⟩
  · rw [Function.update_of_ne hp]

/-- The arrays of ports after a deletion. -/
theorem ports_sppUpdatePortDel (h : AttachedOnce s) (j : ℕ) (d' : PortRxtx) :
    ((sppUpdatePortDel s id port d).component j).ports d' =
      if j = id ∧ (d' = .rx ↔ d = .rx) then ((s.component id).ports d).erase port
      else (s.component j).ports d' := by
  unfold sppUpdatePortDel
  dsimp only
  split
  · rename_i ports hports
    obtain ⟨k, hk, rfl⟩ := Option.map_eq_some_iff.mp hports
    rw [eraseIdx_lastIdxOf?_of_nodup (h id d) hk]
    by_cases hj : j = id
    · subst hj
      simp [setPorts_ports]
    · simp [hj]
  · rename_i hnone
    have hnot : port ∉ (s.component id).ports d := by
      simpa [getDelPortElement, checkPortElement] using hnone
    rw [List.erase_of_not_mem hnot]
    split
    · rename_i hown
      rw [hown.1]
      exact ports_eq_of_iff _ hown.2
    · rfl

/-- Two directions of an attachment are told apart by the receive side. -/
theorem PortRxtx.Directed.eq_iff {d d' : PortRxtx} (h : d.Directed) (h' : d'.Directed) :
    (d' = .rx ↔ d = .rx) ↔ d' = d := by
  rcases h with rfl | rfl
  · rcases h' with rfl | rfl <;> simp
  · rcases h' with rfl | rfl <;> simp

/-- A deletion keeps its frame iff the component holds the port or no ability is stored
for the port in the direction. -/
theorem deleteFrame_sppUpdatePortDel (h : AttachedOnce s) (hd : d.Directed) :
    DeleteFrame s (sppUpdatePortDel s id port d) id port d ↔
      port ∈ (s.component id).ports d ∨ ∀ cnt, ¬ (s.iface port).Entry d cnt := by
  by_cases hheld : port ∈ (s.component id).ports d
  · refine iff_of_true ⟨fun _ => ⟨?_, ?_, ?_, ?_⟩, fun hnot => absurd hheld hnot⟩ (.inl hheld)
    · rw [ports_sppUpdatePortDel h, if_pos ⟨rfl, Iff.rfl⟩]
    · intro j d' hd' hne
      rw [ports_sppUpdatePortDel h, if_neg fun hown => hne ⟨hown.1, (hd.eq_iff hd').mp hown.2⟩]
    · exact fun cnt hentry => sppUpdatePortDel_removed hentry
    · exact fun p cnt hne => sppUpdatePortDel_kept hne
  · constructor
    · rintro ⟨-, huntouched⟩
      refine .inr fun cnt hentry => hentry.1 ?_
      rw [← (huntouched hheld).ability port cnt, sppUpdatePortDel_removed hentry]
    · intro hnone
      have hnone := hnone.resolve_left hheld
      refine ⟨fun hmem => absurd hmem hheld, fun _ => ⟨fun j d' hd' => ?_, fun p cnt => ?_⟩⟩
      · rw [ports_sppUpdatePortDel h, List.erase_of_not_mem hheld]
        split
        · rename_i hown
          rw [hown.1]
          exact (ports_eq_of_iff _ hown.2).symm
        · rfl
      · exact sppUpdatePortDel_kept fun hown => hnone cnt hown.2

/-- A flush touches no array of ports and no ability. -/
theorem DeleteFrame.flush_iff {s₁ : MngData} {dev : Devices} {ret : Ret}
    (hflush : sppFlush L M dev s₁ = (ret, s')) :
    DeleteFrame s s' id port d ↔ DeleteFrame s s₁ id port d := by
  have hability := sppFlush_ability hflush
  have hcomp := sppFlush_component hflush
  have hdetach : DetachesOnly s s' id port d ↔ DetachesOnly s s₁ id port d := by
    constructor <;> rintro ⟨hown, hothers, hremoved, hkept⟩
    · simp only [hcomp, hability] at hown hothers hremoved hkept
      exact ⟨hown, hothers, hremoved, hkept⟩
    · constructor <;> simp only [hcomp, hability]
      · exact hown
      · exact hothers
      · exact hremoved
      · exact hkept
  have huntouched : Untouched s s' ↔ Untouched s s₁ := by
    constructor <;> rintro ⟨hports, hsame⟩
    · simp only [hcomp, hability] at hports hsame
      exact ⟨hports, hsame⟩
    · constructor <;> simp only [hcomp, hability]
      · exact hports
      · exact hsame
  unfold DeleteFrame
  rw [hdetach, huntouched]

/-- The component that a decoded `port` request names is in the table. -/
theorem decodeRequest_port_named {text : CStr} {c : CommandPort}
    (h : sppCommandDecodeRequest L M s text = .ok (.port c)) :
    ∃ id, sppGetComponentId L s c.name = some id := by
  obtain ⟨args, -, hmin, -, h⟩ := decodeRequest_port h
  obtain ⟨a, p, k, n, rest, rfl⟩ : ∃ a p k n rest, args = a :: p :: k :: n :: rest := by
    match args, hmin with
    | a :: p :: k :: n :: rest, _ => exact ⟨a, p, k, n, rest, rfl⟩
  obtain ⟨c₁, -, h⟩ := decodeCommandParameter_cons_eq_ok.mp h
  obtain ⟨c₂, -, h⟩ := decodeCommandParameter_cons_eq_ok.mp h
  obtain ⟨c₃, -, h⟩ := decodeCommandParameter_cons_eq_ok.mp h
  obtain ⟨c₄, hname, h⟩ := decodeCommandParameter_cons_eq_ok.mp h
  have hkeeps : c.name = c₄.name := by
    refine decodeCommandParameter_keeps (P := fun c => c.name = c₄.name) ?_ h rfl
    rintro q hq b arg b' hfunc hb
    obtain ⟨ability, rfl⟩ := parameterListPort_ability
      (show q ∈ (parameterListPort L s (rest.length = 3)).drop 4 from hq) hfunc
    exact hb
  have hc₄ : c₄.name = n := by rw [decodePortNameValue_eq_ok hname]
  rw [hkeeps, hc₄]
  unfold decodePortNameValue at hname
  split at hname
  · cases hname
  · rename_i hsome
    exact Option.ne_none_iff_exists'.mp hsome

end Delete

/-- In every state that requests lead to, an accepted `port del` touches nothing else
iff the component that it names holds the port in the direction, or the port has no
ability there. -/
theorem portDelete_frame_iff {slave : ℕ → Bool} {numNic mainLcore : ℕ}
    (hreach : Reaches (serve L M) (fun _ _ => True)
      (startForwarding slave mainLcore (initMngData L slave numNic)) s)
    {r : Request} {c : CommandPort} (hdecode : sppCommandDecodeRequest L M s r.text = .ok (.port c))
    (hdel : c.action = .del) {ret : Ret} (h : processRequest L M r s = some (ret, s')) :
    ∃ id port, sppGetComponentId L s c.name = some id ∧
      ifaceEntry L c.port.ifaceType c.port.ifaceNo = .ok port ∧
      (DeleteFrame s s' id port c.rxtx ↔
        port ∈ (s.component id).ports c.rxtx ∨ ∀ cnt, ¬ (s.iface port).Entry c.rxtx cnt) := by
  obtain ⟨id, hid⟩ := decodeRequest_port_named hdecode
  obtain ⟨args, -, hmin, -, hparams⟩ := decodeRequest_port hdecode
  have hd : c.rxtx.Directed := (portRequest_of_decode hmin hparams).rxtx
  cases hport : ifaceEntry L c.port.ifaceType c.port.ifaceNo with
  | error e =>
    -- A number that no interface has is undefined behaviour.
    have hupdate : sppUpdatePort L s c = .error e := by
      simp [sppUpdatePort, hid, hport]
    cases e with
    | ng => exact absurd hport (ifaceEntry_ne_ng L c.port.ifaceType c.port.ifaceNo)
    | undef => simp [processRequest, hdecode, executeCommand, updateCommand, hupdate] at h
  | ok port =>
    have hupdate : sppUpdatePort L s c = .ok (sppUpdatePortDel s id port c.rxtx) := by
      simp [sppUpdatePort, hid, hport, hdel]
    have hflush : sppFlush L M r.dev (sppUpdatePortDel s id port c.rxtx) = (ret, s') := by
      simpa [processRequest, hdecode, executeCommand, updateCommand, hupdate] using h
    refine ⟨id, port, hid, rfl, ?_⟩
    rw [DeleteFrame.flush_iff hflush]
    exact deleteFrame_sppUpdatePortDel (attachedOnce_of_reaches hreach) hd

section Runs

/-- The request that takes phy:0 from a component on the receive side. -/
def deletePhyZero (name : String) : CommandPort :=
  { action := .del, port := ⟨.phy, 0⟩, rxtx := .rx, name := name.toList }

/-- The forwarder that holds a port gives it back. -/
theorem deleteFrame_ownPort :
    ∃ s s' id port, runAll (serve .default .vf) attachOne bootState = some s ∧
      processRequest .default .vf (.ofString "port del phy:0 rx f1") s = some (.ok, s') ∧
      DeleteFrame s s' id port .rx := by
  obtain ⟨s, hs, hdecode, hid, hports, hok⟩ : ∃ s,
      runAll (serve .default .vf) attachOne bootState = some s ∧
        sppCommandDecodeRequest .default .vf s "port del phy:0 rx f1".toList =
          .ok (.port (deletePhyZero "f1")) ∧
        sppGetComponentId .default s "f1".toList = some 0 ∧
        (s.component 0).rxPorts = [⟨.nic, 0⟩] ∧
        (processRequest .default .vf (.ofString "port del phy:0 rx f1") s).map Prod.fst =
          some .ok :=
    exists_of_runAll (by decide +kernel)
  obtain ⟨⟨ret, s'⟩, hserve, rfl⟩ := Option.map_eq_some_iff.mp hok
  obtain ⟨id, port, hid', hentry', hframe⟩ :=
    portDelete_frame_iff (reaches_of_runAll hs fun _ _ _ => trivial) hdecode rfl hserve
  obtain rfl := Option.some.inj (hid.symm.trans hid')
  obtain rfl : ⟨.nic, 0⟩ = port := Except.ok.inj hentry'
  refine ⟨s, s', 0, ⟨.nic, 0⟩, hs, hserve, hframe.mpr (.inl ?_)⟩
  simp [ComponentInfo.ports, deletePhyZero, hports]

/-- A forwarder holds phy:0 with a tag, beside a merger that does not hold it. -/
def tagBesideMerger : List Request :=
  [.ofString "component start f1 1 forward", .ofString "component start m1 1 merge",
    .ofString "port add phy:0 rx f1 add_vlantag 10 3"]

/-- Deleting the port from the merger takes the tag from the forwarder. -/
theorem not_deleteFrame_othersPort :
    ∃ s s' id port, Reaches (serve .default .vf) (fun _ _ => True) bootState s ∧
      sppCommandDecodeRequest .default .vf s "port del phy:0 rx m1".toList =
        .ok (.port (deletePhyZero "m1")) ∧
      sppGetComponentId .default s "m1".toList = some id ∧
      ifaceEntry .default .phy 0 = .ok port ∧
      processRequest .default .vf (.ofString "port del phy:0 rx m1") s = some (.ok, s') ∧
      ¬ DeleteFrame s s' id port .rx := by
  obtain ⟨s, hs, hdecode, hid, hports, hope, hok⟩ : ∃ s,
      runAll (serve .default .vf) tagBesideMerger bootState = some s ∧
        sppCommandDecodeRequest .default .vf s "port del phy:0 rx m1".toList =
          .ok (.port (deletePhyZero "m1")) ∧
        sppGetComponentId .default s "m1".toList = some 1 ∧ (s.component 1).rxPorts = [] ∧
        ((s.iface ⟨.nic, 0⟩).ability 0).ope = .addVlantag ∧
        ((processRequest .default .vf (.ofString "port del phy:0 rx m1") s).any fun p =>
          p.1 = .ok ∧ ((p.2.iface ⟨.nic, 0⟩).ability 0).ope = .none) = true :=
    exists_of_runAll (by decide +kernel)
  obtain ⟨⟨ret, s'⟩, hserve, hafter⟩ := (Option.any_eq_true ..).mp hok
  obtain ⟨rfl, hnone⟩ := of_decide_eq_true hafter
  refine ⟨s, s', 1, ⟨.nic, 0⟩, reaches_of_runAll hs fun _ _ _ => trivial, hdecode, hid, rfl,
    hserve, fun hframe => ?_⟩
  have huntouched := hframe.2 (by simp [ComponentInfo.ports, hports])
  rw [huntouched.ability ⟨.nic, 0⟩ 0, hope] at hnone
  cases hnone

end Runs

end Spp.Vf
