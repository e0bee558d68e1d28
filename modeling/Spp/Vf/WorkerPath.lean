import Spp.Vf.ComponentTable

/-!
# Workers and the paths they forward along

The worker of an lcore runs the components in the list of its core. It looks at
the type of a slot only to choose between `spp_classifier_mac_do` and
`spp_forward`, and `spp_forward` uses whatever path was last handed over for the
id. Here the manager executes a command store by store, list by list and path
by path, and the workers make their steps in between.
-/

namespace Spp.Vf

open CLib GuardedRun

section Forwardable

/-- The practice condition check of `spp_forward` for the path that is built
from a component. -/
def ComponentInfo.forwardable (c : ComponentInfo) : Bool :=
  if c.type = .merge then c.txPorts.length = 1 ∧ c.rxPorts.length ≥ 1
  else c.txPorts.length = 1 ∧ c.rxPorts.length = 1

/-- A path is run iff its component is forwardable, and then its entries are
ports of the component. -/
theorem runnable_of_sppForwardUpdate {iface : PortRef → PortInfo} {c : ComponentInfo}
    {path : DataPath} (h : sppForwardUpdate iface c = some path) :
    path.runnable = c.forwardable ∧
      (path.runnable = true → ∀ cnt < path.numRx,
        (∃ p ∈ c.rxPorts, (path.ports cnt).rx = iface p) ∧
          ∃ p ∈ c.txPorts, (path.ports cnt).tx = iface p) := by
  unfold sppForwardUpdate at h
  dsimp only at h
  split at h
  · cases h
  · split at h
    · cases h
    · obtain rfl := Option.some.inj h
      refine ⟨rfl, fun hrun cnt hcnt => ?_⟩
      have htx : c.txPorts.length = 1 := by
        unfold DataPath.runnable at hrun
        dsimp only at hrun
        split at hrun
        · exact (of_decide_eq_true hrun).1
        · exact (of_decide_eq_true hrun).1
      have hcopy : ∀ (array : List PortRef) (k : ℕ), k < array.length →
          ∃ p ∈ array, portCopy iface array k = iface p := by
        intro array k hk
        exact ⟨array[k], List.getElem_mem hk, by simp [portCopy, List.getElem?_eq_getElem hk]⟩
      obtain ⟨p, hp, heq⟩ := hcopy c.txPorts 0 (by omega)
      refine ⟨hcopy c.rxPorts cnt hcnt, p, hp, ?_⟩
      dsimp only at hcnt ⊢
      rw [htx, Nat.mul_one, ← heq]
      refine if_pos ?_
      split
      · exact hcnt
      · omega

/-- A forwardable component has a path, which is run from at least one port. -/
theorem sppForwardUpdate_of_forwardable {c : ComponentInfo} (h : c.forwardable = true)
    (iface : PortRef → PortInfo) :
    ∃ path, sppForwardUpdate iface c = some path ∧ path.runnable = true ∧ 0 < path.numRx := by
  have hcount : c.txPorts.length = 1 ∧ 0 < c.rxPorts.length ∧
      ¬(c.type = .forward ∧ c.rxPorts.length > 1) := by
    unfold ComponentInfo.forwardable at h
    split at h
    · rename_i hmerge
      obtain ⟨htx, hrx⟩ := of_decide_eq_true h
      exact ⟨htx, hrx, fun hforward => by simp [hmerge] at hforward⟩
    · obtain ⟨htx, hrx⟩ := of_decide_eq_true h
      exact ⟨htx, by omega, fun hforward => by omega⟩
  obtain ⟨htx, hrx, hforward⟩ := hcount
  cases hpath : sppForwardUpdate iface c with
  | none => simp [sppForwardUpdate, hforward, htx] at hpath
  | some path =>
    refine ⟨path, rfl, (runnable_of_sppForwardUpdate hpath).1.trans h, ?_⟩
    simp only [sppForwardUpdate, hforward, htx, if_false] at hpath
    obtain rfl := Option.some.inj hpath
    exact hrx

end Forwardable

section Model

/-- `struct forward_info`. A path is given by the component it is built from. -/
structure ForwardInfo where
  refIndex : Fin 2
  updIndex : Fin 2
  path : Fin 2 → ComponentInfo

/-- Where the worker of an lcore is in its pass, with the ids that are left. -/
inductive LcorePc
  /-- About to look for a new list. -/
  | top
  /-- About to read the type of the next component. -/
  | running (ids : List ℕ)
  /-- The type was not that of a classifier; about to call `spp_forward`. -/
  | calling (id : ℕ) (ids : List ℕ)
  /-- In `spp_forward`, with its pointer to an area. -/
  | forwarding (id : ℕ) (area : Fin 2) (ids : List ℕ)

/-- The stores to the fields of a slot in `component start`. -/
inductive SlotField
  | name | type | lcoreId | componentId

/-- The store to one field. -/
def SlotField.store (id : ℕ) (c : CommandComponent) (slot : ComponentInfo) :
    SlotField → ComponentInfo
  | .name => { slot with name := c.name }
  | .type => { slot with type := c.type }
  | .lcoreId => { slot with lcoreId := c.core }
  | .componentId => { slot with componentId := id }

/-- Where the manager is in a command. `stopped` is the component that the
command stops, if it is a `component stop`. -/
inductive CommandPc
  | idle
  /-- The fields of a zeroed slot that are left. -/
  | filling (id : ℕ) (c : CommandComponent) (fields : List SlotField)
  /-- The slot is zeroed; about to delete the id from the list of its lcore. -/
  | delisting (id lcoreId : ℕ)
  /-- About to call `flush_port`. -/
  | flushing (stopped : Option ℕ)
  /-- The lcores whose list is still to be handed over. -/
  | publishing (stopped : Option ℕ) (lcores : List ℕ)
  /-- The lcores that are still to be waited for. -/
  | awaiting (stopped : Option ℕ) (lcores : List ℕ)
  /-- The components that are still to be updated. -/
  | updating (stopped : Option ℕ) (ids : List ℕ)
  /-- The path of a component is stored; about to hand it over. -/
  | handing (stopped : Option ℕ) (id : ℕ) (ids : List ℕ)
  /-- Waiting for the worker to take the path. -/
  | waiting (stopped : Option ℕ) (id : ℕ) (ids : List ℕ)

/-- The tables, the paths, the workers and the manager. The last two fields are
history: the lcore a component was started on, until its stop is completed, and
the ports it has held in each direction since its start. -/
structure World where
  s : MngData
  forward : ℕ → ForwardInfo
  worker : ℕ → LcorePc
  manager : CommandPc
  home : ℕ → Option ℕ
  held : ℕ → PortRxtx → List PortRef

/-- The state in which the process begins to serve commands. -/
def World.initial (L : Limits) (slave : ℕ → Bool) (numNic mainLcore : ℕ) : World :=
  { s := startForwarding slave mainLcore (initMngData L slave numNic)
    forward := fun _ => ⟨0, 1, fun _ => {}⟩
    worker := fun _ => .top
    manager := .idle
    home := fun _ => none
    held := fun _ _ => [] }

/-- Replacement of the core information of one lcore. -/
def World.setCore (w : World) (l : ℕ) (core : CoreMngInfo) : World :=
  { w with s := { w.s with core := Function.update w.s.core l core } }

/-- Replacement of the forward information of one id. -/
def World.setForward (w : World) (id : ℕ) (info : ForwardInfo) : World :=
  { w with forward := Function.update w.forward id info }

/-- A command is completed; a component it has stopped is forgotten. -/
def World.finish (w : World) (stopped : Option ℕ) : World :=
  match stopped with
  | none => { w with manager := .idle }
  | some id =>
    { w with
      manager := .idle
      home := Function.update w.home id none
      held := Function.update w.held id fun _ => [] }

/-- A worker takes a path that was handed over. -/
def ForwardInfo.take (info : ForwardInfo) : ForwardInfo :=
  if info.refIndex = info.updIndex then { info with refIndex := info.updIndex + 1 } else info

/-- A step of the worker of an lcore; `none` if it does not run. -/
def lcoreStep (l : ℕ) (w : World) : Option World :=
  match w.worker l with
  | .top =>
    if (w.s.core l).status = .forward then
      let w := w.setCore l (w.s.core l).takeUpdate
      some { w with worker := Function.update w.worker l (.running (w.s.core l).refList) }
    else none
  | .running [] => some { w with worker := Function.update w.worker l .top }
  | .running (id :: ids) =>
    if (w.s.component id).type = .classifierMac then
      some { w with worker := Function.update w.worker l (.running ids) }
    else some { w with worker := Function.update w.worker l (.calling id ids) }
  | .calling id ids =>
    let info := (w.forward id).take
    some { w.setForward id info with
      worker := Function.update w.worker l (.forwarding id info.refIndex ids) }
  | .forwarding _ _ ids => some { w with worker := Function.update w.worker l (.running ids) }

variable (L : Limits)

/-- The first step of a command: a slot is zeroed, or the ports and the
interface table are updated, or nothing is done. -/
def beginCommand (command : SppCommand) (w : World) : Option World :=
  match command with
  | .component c =>
    match c.action with
    | .start =>
      if (w.s.core c.core).status = .unuse then some w
      else if (sppGetComponentId L w.s c.name).isSome then some w
      else
        match getFreeComponent L w.s with
        | none => some w
        | some id =>
          some { w with
            s := w.s.setComponent id {}
            held := Function.update w.held id fun _ => []
            manager := .filling id c [.name, .type, .lcoreId, .componentId] }
    | .stop =>
      match sppGetComponentId L w.s c.name with
      | none => some { w with manager := .flushing none }
      | some id =>
        some { w with
          s := w.s.setComponent id {}
          manager := .delisting id (w.s.component id).lcoreId }
    | _ => some w
  | command =>
    match updateCommand L w.s command with
    | some (.ok s) =>
      some { w with
        s := s
        held := fun id rxtx => w.held id rxtx ++ (s.component id).ports rxtx
        manager := .flushing none }
    | some (.error .undef) => none
    | _ => some w

/-- A step of the manager in a command; `none` if there is none. -/
def commandStep (dev : Devices) (w : World) : Option World :=
  match w.manager with
  | .idle => none
  | .filling id c (field :: fields) =>
    some { w with
      s := w.s.setComponent id (field.store id c (w.s.component id))
      manager := .filling id c fields }
  | .filling id c [] =>
    let s := w.s.setUpdList c.core ((w.s.core c.core).updList ++ [id])
    some { w with
      s := (s.setChangeComponent id true).setChangeCore c.core
      manager := .flushing none
      home := Function.update w.home id (some c.core) }
  | .delisting id l =>
    let ids := (w.s.core l).updList
    let s := w.s.setUpdList l ((delComponentInfo id ids).getD ids)
    some { w with
      s := (s.setChangeComponent id false).setChangeCore l
      manager := .flushing (some id) }
  | .flushing stopped =>
    match flushPort L dev w.s with
    | (.ng, s) => some ({ w with s := s }.finish stopped)
    | (.ok, s) =>
      some { w with s := s, manager := .publishing stopped ((List.range L.maxLcore).filter s.changeCore) }
  | .publishing stopped (l :: ls) =>
    some { w.setCore l (w.s.core l).publish with manager := .publishing stopped ls }
  | .publishing stopped [] =>
    some { w with manager := .awaiting stopped ((List.range L.maxLcore).filter w.s.changeCore) }
  | .awaiting stopped (l :: ls) =>
    if (w.s.core l).refIndex = (w.s.core l).updIndex then some w
    else some { w.setCore l (w.s.core l).copyBack with manager := .awaiting stopped ls }
  | .awaiting stopped [] =>
    some { w with
      manager := .updating stopped ((List.range L.maxLcore).filter w.s.changeComponent) }
  | .updating stopped (id :: ids) =>
    let component := w.s.component id
    if component.type = .classifierMac then
      match dev.classifierMacUpdate id with
      | .ok => some { w with manager := .updating stopped ids }
      | .ng => some ({ w with s := backupMngInfo L w.s }.finish stopped)
    else
      match sppForwardUpdate w.s.iface component with
      | none => some ({ w with s := backupMngInfo L w.s }.finish stopped)
      | some _ =>
        let info := w.forward component.componentId
        let path := Function.update info.path info.updIndex component
        some { w.setForward component.componentId { info with path := path } with
          manager := .handing stopped component.componentId ids }
  | .updating stopped [] => some ({ w with s := backupMngInfo L w.s }.finish stopped)
  | .handing stopped id ids =>
    let info := w.forward id
    some { w.setForward id { info with updIndex := info.refIndex } with
      manager := .waiting stopped id ids }
  | .waiting stopped id ids =>
    if (w.forward id).refIndex = (w.forward id).updIndex then some w
    else some { w with manager := .updating stopped ids }

/-- What happens next: a request is decoded, or the manager or a worker makes a step. -/
inductive WorldAct
  | request (text : CStr)
  | manager (dev : Devices)
  | worker (l : ℕ)

/-- One step of the process. -/
def worldStep : WorldAct → World → Option World
  | .request text, w =>
    match w.manager with
    | .idle =>
      match sppCommandDecodeRequest L .vf w.s text with
      | .error .undef => none
      | .error (.error _) => some w
      | .ok command => beginCommand L command w
    | _ => none
  | .manager dev, w => commandStep L dev w
  | .worker l, w => lcoreStep l w

end Model

section Stores

variable {L : Limits} {dev : Devices}

/-- The stores of a start, with no step of a worker in between, amount to
`spp_update_component`. -/
theorem commandStep_start (w : World) (id : ℕ) (c : CommandComponent) :
    runAll (fun dev => commandStep L dev) (List.replicate 5 dev)
      { w with
        s := w.s.setComponent id {}
        manager := .filling id c [.name, .type, .lcoreId, .componentId] } =
      some { w with
        s := startEdit w.s id c
        manager := .flushing none
        home := Function.update w.home id (some c.core) } := by
  simp [runAll, commandStep, startEdit, SlotField.store, MngData.setComponent]

/-- The stores of a stop. -/
theorem commandStep_stop (w : World) (id : ℕ) :
    commandStep L dev { w with
      s := w.s.setComponent id {}
      manager := .delisting id (w.s.component id).lcoreId } =
      some { w with s := stopEdit w.s id, manager := .flushing (some id) } :=
  rfl

end Stores

section Property

/-- Every worker in `spp_forward` uses only ports that the component of its id
has held since its start. While a component is being stopped it counts as the
component of its id. -/
def World.ForwardsOwnPorts (w : World) : Prop :=
  ∀ l id area ids, w.worker l = .forwarding id area ids →
    ∀ iface path, sppForwardUpdate iface ((w.forward id).path area) = some path →
      path.runnable = true → ∀ cnt < path.numRx,
        (∃ p ∈ w.held id .rx, (path.ports cnt).rx = iface p) ∧
          ∃ p ∈ w.held id .tx, (path.ports cnt).tx = iface p

/-- The ports of a path have been held by the component of its id, if the path
is run at all. -/
def World.PathHeld (w : World) (id : ℕ) (path : ComponentInfo) : Prop :=
  path.forwardable = true →
    (∀ p ∈ path.rxPorts, p ∈ w.held id .rx) ∧ ∀ p ∈ path.txPorts, p ∈ w.held id .tx

/-- The condition on a step. A start that is not refused takes a slot without a
name, and for a component that is no classifier a slot without a path that is
run. A classifier is stopped only if its slot has no such path, or one of its own
ports. And if `flush_port` fails in a stop, no worker has the component in its
list. -/
def PathsInOrder (L : Limits) (i : WorldAct) (w : World) : Prop :=
  match i with
  | .request text => ∀ c, sppCommandDecodeRequest L .vf w.s text = .ok (.component c) →
      (c.action = .start → (w.s.core c.core).status ≠ .unuse →
        ∀ id, getFreeComponent L w.s = some id → (w.s.component id).name = [] ∧
          (c.type ≠ .classifierMac →
            ((w.forward id).path (w.forward id).refIndex).forwardable = false)) ∧
      (c.action = .stop → ∀ id, sppGetComponentId L w.s c.name = some id →
        (w.s.component id).type = .classifierMac →
          w.PathHeld id ((w.forward id).path (w.forward id).refIndex))
  | .manager dev => ∀ id, w.manager = .flushing (some id) → (flushPort L dev w.s).1 = .ng →
      ∀ l, id ∉ (w.s.core l).refList
  | .worker _ => True

end Property

end Spp.Vf
