import Mathlib.Data.List.AList
import Mathlib.Data.Int.Notation
import Spp.Lib.GuardedRun

/-!
# The process table of spp-ctl

`accept_primary`, `accept_secondary` and the handlers of REST requests are green
threads over one dictionary `procs`. A thread runs alone until its next socket
operation or semaphore, so a step is what one thread does between two of them.
Waiting for a semaphore is a place of its own also where the semaphore is free.
-/

namespace Spp.Ctl

open GuardedRun

/-- The types of processes: `TYPE_PRIMARY` and so on. -/
inductive ProcType
  | primary
  | vf
  | nfv
  | mirror
  | pcap
  deriving DecidableEq, Repr

/-- `ID_PRIMARY`. -/
def idPrimary : ℤ := 0

/-- `_decode_client_id` of the classes that `_get_proc` tries. The reply is given by
its `process_type` and `client_id`, `none` where it has none. -/
def decodeClientId : Option (String × ℤ) → Option (ProcType × ℤ)
  | some ("vf", id) => some (.vf, id)
  | some ("nfv", id) => some (.nfv, id)
  | some ("mirror", id) => some (.mirror, id)
  | some ("pcap", id) => some (.pcap, id)
  | _ => none

/-- `SppProc`. `locked` tells whether `sem` is held. -/
structure SppProc where
  type : ProcType
  id : ℤ
  conn : ℕ
  locked : Bool
  deriving DecidableEq, Repr

/-- Where `accept_primary` is. -/
inductive PrimaryThread
  | accepting
  /-- At `with proc.sem`, with the new connection. -/
  | waiting (proc conn : ℕ)
  deriving DecidableEq, Repr

/-- Where `accept_secondary` is. -/
inductive SecondaryThread
  | accepting
  /-- In `_get_proc`. -/
  | asking (conn : ℕ)
  /-- At `with old_proc.sem`. -/
  | waiting (oldProc proc : ℕ)
  /-- Ended by an exception. -/
  | dead
  deriving DecidableEq, Repr

/-- Where the handler of a request is. `type` and `id` are those the command was
issued for. -/
inductive RequestThread
  | idle
  /-- At `with self.sem` of `exec_command`. -/
  | waiting (proc : ℕ) (type : ProcType) (id : ℤ)
  /-- In `_send_command`. -/
  | sending (proc : ℕ)
  deriving DecidableEq, Repr

/-- The controller and its threads. Connections and process objects are numbered in
the order in which they appear; `conns` and `objs` count them. `reported` is the type
and id of the process at the other end of a connection, as far as it has given them,
and `written` the commands with the connection each was written on. -/
structure Controller where
  conns : ℕ
  closed : ℕ → Bool
  reported : ℕ → Option (ProcType × ℤ)
  objs : ℕ
  obj : ℕ → SppProc
  procs : AList fun _ : ℤ => ℕ
  primary : PrimaryThread
  secondary : SecondaryThread
  request : ℕ → RequestThread
  written : List (ℕ × ProcType × ℤ)

/-- The controller when its threads start. -/
def Controller.start : Controller :=
  ⟨0, fun _ => false, fun _ => none, 0, fun _ => ⟨.primary, idPrimary, 0, false⟩, ∅, .accepting,
    .accepting, fun _ => .idle, []⟩

section Steps

variable (s : Controller)

/-- `conn.close()`. -/
def Controller.close (c : ℕ) : Controller := { s with closed := Function.update s.closed c true }

/-- A process object is created. -/
def Controller.create (type : ProcType) (id : ℤ) (c : ℕ) : Controller :=
  { s with
    objs := s.objs + 1
    obj := Function.update s.obj s.objs ⟨type, id, c, false⟩ }

/-- `self.procs[k] = proc`. -/
def Controller.setItem (k : ℤ) (p : ℕ) : Controller := { s with procs := s.procs.insert k p }

/-- `accept` returns a connection, and the other end is the process `who` if that is
known from the port. -/
def Controller.accept (who : Option (ProcType × ℤ)) : Controller :=
  { s with
    conns := s.conns + 1
    reported := Function.update s.reported s.conns who }

/-- The connection of an object is replaced. -/
def Controller.setConn (p c : ℕ) : Controller :=
  { s with obj := Function.update s.obj p { s.obj p with conn := c } }

/-- The semaphore of an object is taken or given back. -/
def Controller.setLocked (p : ℕ) (locked : Bool) : Controller :=
  { s with obj := Function.update s.obj p { s.obj p with locked := locked } }

/-- A request goes on to another place. -/
def Controller.setRequest (n : ℕ) (r : RequestThread) : Controller :=
  { s with request := Function.update s.request n r }

/-- `accept_primary` up to the semaphore, or to the next `accept`. -/
def acceptPrimary : Option Controller :=
  if s.primary = .accepting then
    match s.procs.lookup idPrimary with
    | some p => some { s.accept (some (.primary, idPrimary)) with primary := .waiting p s.conns }
    | none =>
      some (((s.accept (some (.primary, idPrimary))).create .primary idPrimary s.conns).setItem
        idPrimary s.objs)
  else none

/-- `accept_primary` gets the semaphore and gives it back. -/
def acquirePrimary : Option Controller :=
  match s.primary with
  | .waiting p c =>
    if (s.obj p).locked then none
    else some { (s.close (s.obj p).conn).setConn p c with primary := .accepting }
  | .accepting => none

/-- `accept_secondary` up to the command of `_get_proc`. -/
def acceptSecondary : Option Controller :=
  if s.secondary = .accepting then
    some { s.accept none with secondary := .asking s.conns }
  else none

/-- `accept_secondary` from the reply on. -/
def replySecondary (reply : Option (String × ℤ)) : Option Controller :=
  match s.secondary with
  | .asking c =>
    match decodeClientId reply with
    | none => some { s.close c with secondary := .accepting }
    | some (type, id) =>
      let t := { s.create type id c with
        reported := Function.update s.reported c (some (type, id)) }
      match s.procs.lookup id with
      | some old => some { t with secondary := .waiting old s.objs }
      | none => some { t.setItem id s.objs with secondary := .accepting }
  | _ => none

/-- An exception in `_get_proc` ends `accept_secondary`. -/
def failSecondary : Option Controller :=
  match s.secondary with
  | .asking _ => some { s with secondary := .dead }
  | _ => none

/-- `accept_secondary` gets the semaphore and gives it back. -/
def acquireSecondary : Option Controller :=
  match s.secondary with
  | .waiting old p =>
    if (s.obj old).locked then none
    else some { (s.close (s.obj old).conn).setItem (s.obj p).id p with secondary := .accepting }
  | _ => none

/-- `do_exit` of `Controller`. -/
def doExit (type : ProcType) (id : ℤ) : Controller :=
  match s.procs.entries.find? fun e => (s.obj e.2).type = type ∧ (s.obj e.2).id = id with
  | some e => { s with procs := s.procs.erase (s.obj e.2).id }
  | none => s

/-- A handler has found its process. An exit takes it out of the table before the
command is sent. -/
def dispatch (n p : ℕ) (exit : Bool) (type : ProcType) (id : ℤ) : Controller :=
  (if exit then doExit s (s.obj p).type (s.obj p).id else s).setRequest n (.waiting p type id)

/-- A request for a secondary, with `check_sec_id`. A request that is refused with 404
changes nothing. -/
def requestSecondary (n : ℕ) (type : ProcType) (id : ℤ) (exit : Bool) : Option Controller :=
  if s.request n = .idle ∧ type ≠ .primary then
    match s.procs.lookup id with
    | some p => some (if (s.obj p).type = type then dispatch s n p exit type id else s)
    | none => some s
  else none

/-- A request for the primary. `_get_proc` of `V1PrimaryHandler` does not look at the
type; the other objects have no method but `do_exit` that the handler calls. -/
def requestPrimary (n : ℕ) (exit : Bool) : Option Controller :=
  if s.request n = .idle then
    match s.procs.lookup idPrimary with
    | some p =>
      some (if exit ∨ (s.obj p).type = .primary then dispatch s n p exit .primary idPrimary else s)
    | none => some s
  else none

/-- `exec_command` gets the semaphore and writes the command. `built` tells whether the
command could be built; a closed connection raises. -/
def acquireRequest (n : ℕ) (built : Bool) : Option Controller :=
  match s.request n with
  | .waiting p type id =>
    if (s.obj p).locked then none
    else if built ∧ s.closed (s.obj p).conn = false then
      some { (s.setLocked p true).setRequest n (.sending p) with
        written := s.written ++ [((s.obj p).conn, type, id)] }
    else some (s.setRequest n .idle)
  | _ => none

/-- `exec_command` has its reply or fails, and gives the semaphore back. -/
def finishRequest (n : ℕ) : Option Controller :=
  match s.request n with
  | .sending p => some ((s.setLocked p false).setRequest n .idle)
  | _ => none

end Steps

/-- What one thread does next. -/
inductive Event
  | acceptPrimary
  | acquirePrimary
  | acceptSecondary
  | replySecondary (reply : Option (String × ℤ))
  | failSecondary
  | acquireSecondary
  | requestSecondary (n : ℕ) (type : ProcType) (id : ℤ) (exit : Bool)
  | requestPrimary (n : ℕ) (exit : Bool)
  | acquireRequest (n : ℕ) (built : Bool)
  | finishRequest (n : ℕ)
  deriving DecidableEq, Repr

/-- One step of the controller. -/
def step : Event → Controller → Option Controller
  | .acceptPrimary, s => acceptPrimary s
  | .acquirePrimary, s => acquirePrimary s
  | .acceptSecondary, s => acceptSecondary s
  | .replySecondary reply, s => replySecondary s reply
  | .failSecondary, s => failSecondary s
  | .acquireSecondary, s => acquireSecondary s
  | .requestSecondary n type id exit, s => requestSecondary s n type id exit
  | .requestPrimary n exit, s => requestPrimary s n exit
  | .acquireRequest n built, s => acquireRequest s n built
  | .finishRequest n, s => finishRequest s n

/-- The table is consistent: an entry has its key as id, the primary is under its id
and only there, no entry has a closed connection, and every command was written on the
connection of the process that gave the type and id it was issued for. -/
structure Consistent (s : Controller) : Prop where
  id_eq : ∀ k p, s.procs.lookup k = some p → (s.obj p).id = k
  primary_iff : ∀ k p, s.procs.lookup k = some p → ((s.obj p).type = .primary ↔ k = idPrimary)
  conn_open : ∀ k p, s.procs.lookup k = some p → s.closed (s.obj p).conn = false
  written_to : ∀ w ∈ s.written, s.reported w.1 = some w.2

/-- No secondary gives the id of the primary. -/
def Event.Meets (e : Event) (_ : Controller) : Prop :=
  ∀ reply, e = .replySecondary reply → ∀ type, decodeClientId reply ≠ some (type, idPrimary)

/-- A connection that belongs to no object yet. -/
def Controller.NewConn (s : Controller) (c : ℕ) : Prop :=
  c < s.conns ∧ s.closed c = false ∧ ∀ p < s.objs, (s.obj p).conn ≠ c

/-- What holds between any two steps of any threads. -/
structure Inv (s : Controller) : Prop where
  conn_lt : ∀ p < s.objs, (s.obj p).conn < s.conns
  conn_inj : ∀ p < s.objs, ∀ q < s.objs, (s.obj p).conn = (s.obj q).conn → p = q
  reported : ∀ p < s.objs, s.reported (s.obj p).conn = some ((s.obj p).type, (s.obj p).id)
  primary_iff : ∀ p < s.objs, (s.obj p).type = .primary ↔ (s.obj p).id = idPrimary
  entry : ∀ k p, s.procs.lookup k = some p →
    p < s.objs ∧ (s.obj p).id = k ∧ s.closed (s.obj p).conn = false
  unused : ∀ c, s.conns ≤ c → s.closed c = false ∧ s.reported c = none
  primary : ∀ p c, s.primary = .waiting p c →
    p < s.objs ∧ (s.obj p).type = .primary ∧ s.NewConn c ∧
      s.reported c = some (.primary, idPrimary)
  asking : ∀ c, s.secondary = .asking c → s.NewConn c ∧ s.reported c = none
  waiting : ∀ old p, s.secondary = .waiting old p →
    old < s.objs ∧ p < s.objs ∧ old ≠ p ∧ (s.obj old).id = (s.obj p).id ∧
      (s.obj p).type ≠ .primary ∧ s.closed (s.obj p).conn = false
  request : ∀ n p type id, s.request n = .waiting p type id →
    p < s.objs ∧ (s.obj p).type = type ∧ (s.obj p).id = id
  written : ∀ w ∈ s.written, s.reported w.1 = some w.2

/-- The invariant gives the consistency of the table. -/
theorem Inv.consistent {s : Controller} (hs : Inv s) : Consistent s where
  id_eq k p h := (hs.entry k p h).2.1
  primary_iff k p h := by
    obtain ⟨hp, hid, -⟩ := hs.entry k p h
    rw [hs.primary_iff p hp, hid]
  conn_open k p h := (hs.entry k p h).2.2
  written_to := hs.written

/-- The invariant holds before the first connection. -/
theorem inv_start : Inv .start where
  conn_lt p hp := absurd hp (Nat.not_lt_zero p)
  conn_inj p hp := absurd hp (Nat.not_lt_zero p)
  reported p hp := absurd hp (Nat.not_lt_zero p)
  primary_iff p hp := absurd hp (Nat.not_lt_zero p)
  entry k p h := by simp [Controller.start] at h
  unused c _ := ⟨rfl, rfl⟩
  primary p c h := by cases h
  asking c h := by cases h
  waiting old p h := by cases h
  request n p type id h := by cases h
  written w h := by cases h

section Preservation

variable {s : Controller}

/-- A new connection is not one that has been counted. -/
theorem Controller.NewConn.accept {c : ℕ} (h : s.NewConn c) (who : Option (ProcType × ℤ)) :
    (s.accept who).NewConn c ∧ (s.accept who).reported c = s.reported c := by
  obtain ⟨hlt, hopen, hne⟩ := h
  exact ⟨⟨Nat.lt_succ_of_lt hlt, hopen, hne⟩, Function.update_of_ne (Nat.ne_of_lt hlt) _ _⟩

/-- Accepting a connection keeps the invariant, and the connection belongs to nobody. -/
theorem Inv.accept (hs : Inv s) (who : Option (ProcType × ℤ)) :
    Inv (s.accept who) ∧ (s.accept who).NewConn s.conns ∧
      (s.accept who).reported s.conns = who := by
  have hreported : ∀ c < s.conns, (s.accept who).reported c = s.reported c :=
    fun c hc => Function.update_of_ne (Nat.ne_of_lt hc) _ _
  refine ⟨{ hs with
    conn_lt := fun p hp => Nat.lt_succ_of_lt (hs.conn_lt p hp)
    reported := fun p hp => (hreported _ (hs.conn_lt p hp)).trans (hs.reported p hp)
    unused := ?_, primary := ?_, asking := ?_, written := ?_ }, ⟨?_, ?_, ?_⟩, ?_⟩
  · intro c hc
    have hlt : s.conns < c := hc
    exact ⟨(hs.unused c (Nat.le_of_lt hlt)).1,
      (Function.update_of_ne (Nat.ne_of_gt hlt) _ _).trans (hs.unused c (Nat.le_of_lt hlt)).2⟩
  · intro p c h
    obtain ⟨hp, htype, hnew, hwho⟩ := hs.primary p c h
    exact ⟨hp, htype, (hnew.accept who).1, (hnew.accept who).2.trans hwho⟩
  · intro c h
    obtain ⟨hnew, hwho⟩ := hs.asking c h
    exact ⟨(hnew.accept who).1, (hnew.accept who).2.trans hwho⟩
  · intro w hw
    have hsome := hs.written w hw
    have hlt : w.1 < s.conns := by
      by_contra hge
      rw [(hs.unused w.1 (Nat.le_of_not_lt hge)).2] at hsome
      cases hsome
    exact (hreported _ hlt).trans hsome
  · exact Nat.lt_succ_self s.conns
  · exact (hs.unused s.conns (Nat.le_refl _)).1
  · exact fun p hp => Nat.ne_of_lt (hs.conn_lt p hp)
  · exact Function.update_self ..

/-- An object for a new connection, whose other end has given its type and id. -/
theorem Inv.create (hs : Inv s) (type : ProcType) (id : ℤ) {c : ℕ} (hc : s.NewConn c)
    (hreported : s.reported c = some (type, id)) (htype : type = .primary ↔ id = idPrimary)
    (hprimary : ∀ p d, s.primary = .waiting p d → d ≠ c) (hasking : s.secondary ≠ .asking c) :
    Inv (s.create type id c) := by
  obtain ⟨hlt, hopen, hnew⟩ := hc
  have hself : (s.create type id c).obj s.objs = ⟨type, id, c, false⟩ := Function.update_self ..
  have hold : ∀ p < s.objs, (s.create type id c).obj p = s.obj p :=
    fun p hp => Function.update_of_ne (Nat.ne_of_lt hp) _ _
  -- An object is the new one or an old one.
  have hcases : ∀ {P : ℕ → Prop}, P s.objs → (∀ p < s.objs, P p) →
      ∀ p < (s.create type id c).objs, P p := by
    intro P hP hrest p hp
    obtain hp' | rfl := Nat.lt_succ_iff_lt_or_eq.mp hp
    · exact hrest p hp'
    · exact hP
  have hkeeps : ∀ d, s.NewConn d → d ≠ c → (s.create type id c).NewConn d := by
    rintro d ⟨hd, hdopen, hdnew⟩ hne
    refine ⟨hd, hdopen, hcases ?_ ?_⟩
    · rw [hself]
      exact fun h => hne h.symm
    · intro p hp
      rw [hold p hp]
      exact hdnew p hp
  refine { hs with
    conn_lt := ?_, conn_inj := ?_, reported := ?_, primary_iff := ?_, entry := ?_, primary := ?_
    asking := ?_, waiting := ?_, request := ?_ }
  · refine hcases ?_ fun p hp => ?_
    · rw [hself]
      exact hlt
    · rw [hold p hp]
      exact hs.conn_lt p hp
  · refine hcases (hcases (fun _ => rfl) fun q hq h => ?_) fun p hp => hcases (fun h => ?_) ?_
    · rw [hself, hold q hq] at h
      exact absurd h.symm (hnew q hq)
    · rw [hself, hold p hp] at h
      exact absurd h (hnew p hp)
    · intro q hq h
      rw [hold p hp, hold q hq] at h
      exact hs.conn_inj p hp q hq h
  · refine hcases ?_ fun p hp => ?_
    · rw [hself]
      exact hreported
    · rw [hold p hp]
      exact hs.reported p hp
  · refine hcases ?_ fun p hp => ?_
    · rw [hself]
      exact htype
    · rw [hold p hp]
      exact hs.primary_iff p hp
  · intro k p h
    obtain ⟨hp, hentry⟩ := hs.entry k p h
    refine ⟨Nat.lt_succ_of_lt hp, ?_⟩
    rw [hold p hp]
    exact hentry
  · intro p d h
    obtain ⟨hp, hptype, hd, hdreported⟩ := hs.primary p d h
    refine ⟨Nat.lt_succ_of_lt hp, ?_, hkeeps d hd (hprimary p d h), hdreported⟩
    rw [hold p hp]
    exact hptype
  · intro d h
    obtain ⟨hd, hdreported⟩ := hs.asking d h
    refine ⟨hkeeps d hd ?_, hdreported⟩
    rintro rfl
    exact hasking h
  · intro old p h
    obtain ⟨hold', hp, hrest⟩ := hs.waiting old p h
    refine ⟨Nat.lt_succ_of_lt hold', Nat.lt_succ_of_lt hp, ?_⟩
    rw [hold old hold', hold p hp]
    exact hrest
  · intro n p t k h
    obtain ⟨hp, hrest⟩ := hs.request n p t k h
    refine ⟨Nat.lt_succ_of_lt hp, ?_⟩
    rw [hold p hp]
    exact hrest

/-- An object with an open connection is stored under its id. -/
theorem Inv.setItem {p : ℕ} (hs : Inv s) (hp : p < s.objs)
    (hopen : s.closed (s.obj p).conn = false) : Inv (s.setItem (s.obj p).id p) := by
  refine { hs with entry := fun k q h => ?_ }
  by_cases hk : k = (s.obj p).id
  · subst hk
    rw [Controller.setItem, AList.lookup_insert] at h
    cases h
    exact ⟨hp, rfl, hopen⟩
  · rw [Controller.setItem, AList.lookup_insert_ne hk] at h
    exact hs.entry k q h

/-- The other end of a connection that belongs to nobody gives its type and id. -/
theorem Inv.report {c : ℕ} (hs : Inv s) (hasking : s.secondary = .asking c)
    (who : ProcType × ℤ) :
    Inv { s with
      secondary := .accepting
      reported := Function.update s.reported c (some who) } := by
  obtain ⟨⟨hlt, -, hnew⟩, hnone⟩ := hs.asking c hasking
  have hsome : ∀ d x, s.reported d = some x →
      Function.update s.reported c (some who) d = some x := by
    intro d x hd
    have hne : d ≠ c := by
      rintro rfl
      rw [hnone] at hd
      cases hd
    rw [Function.update_of_ne hne, hd]
  refine { hs with
    reported := fun p hp => hsome _ _ (hs.reported p hp)
    unused := ?_, primary := ?_
    asking := fun d h => by cases h
    waiting := fun old p h => by cases h
    written := fun w hw => hsome _ _ (hs.written w hw) }
  · intro d hd
    refine ⟨(hs.unused d hd).1, ?_⟩
    have hne : d ≠ c := Nat.ne_of_gt (Nat.lt_of_lt_of_le hlt hd)
    exact (Function.update_of_ne hne _ _).trans (hs.unused d hd).2
  · intro p d h
    obtain ⟨hp, htype, hd, hreported⟩ := hs.primary p d h
    exact ⟨hp, htype, hd, hsome _ _ hreported⟩

/-- Removing an entry keeps the invariant. -/
theorem Inv.doExit (hs : Inv s) (type : ProcType) (id : ℤ) : Inv (doExit s type id) := by
  unfold Ctl.doExit
  split
  · rename_i e _
    refine { hs with entry := fun k p h => ?_ }
    by_cases hk : k = (s.obj e.2).id
    · subst hk
      rw [AList.lookup_erase] at h
      cases h
    · rw [AList.lookup_erase_ne hk] at h
      exact hs.entry k p h
  · exact hs

/-- A change of a semaphore keeps the invariant. -/
theorem Inv.setLocked (hs : Inv s) (p : ℕ) (locked : Bool) : Inv (s.setLocked p locked) := by
  have hobj : ∀ q, ((s.setLocked p locked).obj q).type = (s.obj q).type ∧
      ((s.setLocked p locked).obj q).id = (s.obj q).id ∧
      ((s.setLocked p locked).obj q).conn = (s.obj q).conn := by
    intro q
    by_cases hq : q = p
    · subst hq
      simp [Controller.setLocked]
    · simp [Controller.setLocked, Function.update_of_ne hq]
  exact {
    conn_lt := fun q hq => (hobj q).2.2 ▸ hs.conn_lt q hq
    conn_inj := fun q hq r hr h => hs.conn_inj q hq r hr
      ((hobj q).2.2.symm.trans (h.trans (hobj r).2.2))
    reported := fun q hq => by
      rw [(hobj q).1, (hobj q).2.1, (hobj q).2.2]
      exact hs.reported q hq
    primary_iff := fun q hq => by
      rw [(hobj q).1, (hobj q).2.1]
      exact hs.primary_iff q hq
    entry := fun k q h => by
      rw [(hobj q).2.1, (hobj q).2.2]
      exact hs.entry k q h
    unused := hs.unused
    primary := fun q c h => by
      obtain ⟨hq, htype, ⟨hlt, hopen, hnew⟩, hreported⟩ := hs.primary q c h
      exact ⟨hq, (hobj q).1.trans htype, ⟨hlt, hopen, fun r hr => (hobj r).2.2 ▸ hnew r hr⟩,
        hreported⟩
    asking := fun c h => by
      obtain ⟨⟨hlt, hopen, hnew⟩, hnone⟩ := hs.asking c h
      exact ⟨⟨hlt, hopen, fun r hr => (hobj r).2.2 ▸ hnew r hr⟩, hnone⟩
    waiting := fun old q h => by
      rw [(hobj old).2.1, (hobj q).1, (hobj q).2.1, (hobj q).2.2]
      exact hs.waiting old q h
    request := fun n q type id h => by
      rw [(hobj q).1, (hobj q).2.1]
      exact hs.request n q type id h
    written := hs.written }

/-- A request may go to any place where it does not wait for an object, or wait for an
object of its type and id. -/
theorem Inv.setRequest {r : RequestThread} (hs : Inv s) (n : ℕ)
    (hr : ∀ p type id, r = .waiting p type id →
      p < s.objs ∧ (s.obj p).type = type ∧ (s.obj p).id = id) : Inv (s.setRequest n r) := by
  refine { hs with request := fun m p type id h => ?_ }
  have hupdate : Function.update s.request n r m = .waiting p type id := h
  by_cases hm : m = n
  · subst hm
    rw [Function.update_self] at hupdate
    exact hr p type id hupdate
  · rw [Function.update_of_ne hm] at hupdate
    exact hs.request m p type id hupdate

/-- The objects are not touched by `do_exit`. -/
theorem doExit_obj (s : Controller) (type : ProcType) (id : ℤ) :
    (doExit s type id).obj = s.obj ∧ (doExit s type id).objs = s.objs := by
  unfold doExit
  split
  · exact ⟨rfl, rfl⟩
  · exact ⟨rfl, rfl⟩

/-- A command is issued for the type and id of the object that was found. -/
theorem Inv.dispatch {p : ℕ} (hs : Inv s) (n : ℕ) (exit : Bool) (hp : p < s.objs) :
    Inv (dispatch s n p exit (s.obj p).type (s.obj p).id) := by
  unfold Ctl.dispatch
  cases exit with
  | false =>
    apply hs.setRequest
    intro q type id h
    cases h
    exact ⟨hp, rfl, rfl⟩
  | true =>
    obtain ⟨hobj, hobjs⟩ := doExit_obj s (s.obj p).type (s.obj p).id
    apply (hs.doExit _ _).setRequest
    intro q type id h
    cases h
    rw [hobj, hobjs]
    exact ⟨hp, rfl, rfl⟩

/-- `accept_primary` up to the semaphore keeps the invariant. -/
theorem inv_acceptPrimary {t : Controller} (hs : Inv s) (h : acceptPrimary s = some t) :
    Inv t := by
  unfold acceptPrimary at h
  split at h
  · rename_i haccepting
    obtain ⟨haccept, hnew, hwho⟩ := hs.accept (some (.primary, idPrimary))
    split at h
    · rename_i p hlookup
      cases h
      obtain ⟨hp, hid, -⟩ := hs.entry idPrimary p hlookup
      refine { haccept with primary := fun q c h => ?_ }
      cases h
      exact ⟨hp, (hs.primary_iff p hp).mpr hid, hnew, hwho⟩
    · cases h
      have hcreate := haccept.create .primary idPrimary hnew hwho
        (iff_of_true rfl rfl)
        (fun p d hprimary => by
          rw [show (s.accept _).primary = s.primary from rfl, haccepting] at hprimary
          cases hprimary)
        (fun hasking => absurd rfl (Nat.ne_of_lt (hs.asking s.conns hasking).1.1))
      have hself : ((s.accept (some (.primary, idPrimary))).create .primary idPrimary s.conns).obj
          s.objs = ⟨.primary, idPrimary, s.conns, false⟩ := Function.update_self ..
      have hset := hcreate.setItem (p := s.objs) (Nat.lt_succ_self s.objs) (by
        rw [hself]
        exact hnew.2.1)
      rw [hself] at hset
      exact hset
  · cases h

/-- A connection can be closed when no entry and no thread will use it. -/
theorem Inv.close {c : ℕ} (hs : Inv s) (hlt : c < s.conns)
    (hentry : ∀ k p, s.procs.lookup k = some p → (s.obj p).conn ≠ c)
    (hprimary : ∀ p d, s.primary = .waiting p d → d ≠ c) (hasking : s.secondary ≠ .asking c)
    (hwaiting : ∀ old p, s.secondary = .waiting old p → (s.obj p).conn ≠ c) :
    Inv (s.close c) := by
  have hclosed : ∀ d, d ≠ c → (s.close c).closed d = s.closed d :=
    fun d hd => Function.update_of_ne hd _ _
  have hkeeps : ∀ d, s.NewConn d → d ≠ c → (s.close c).NewConn d :=
    fun d hd hne => ⟨hd.1, (hclosed d hne).trans hd.2.1, hd.2.2⟩
  refine { hs with
    entry := ?_, unused := ?_, primary := ?_, asking := ?_, waiting := ?_ }
  · intro k p h
    obtain ⟨hp, hid, hopen⟩ := hs.entry k p h
    exact ⟨hp, hid, (hclosed _ (hentry k p h)).trans hopen⟩
  · intro d hd
    have hne : d ≠ c := Nat.ne_of_gt (Nat.lt_of_lt_of_le hlt hd)
    exact ⟨(hclosed d hne).trans (hs.unused d hd).1, (hs.unused d hd).2⟩
  · intro p d h
    obtain ⟨hp, htype, hd, hreported⟩ := hs.primary p d h
    exact ⟨hp, htype, hkeeps d hd (hprimary p d h), hreported⟩
  · intro d h
    obtain ⟨hd, hnone⟩ := hs.asking d h
    refine ⟨hkeeps d hd ?_, hnone⟩
    rintro rfl
    exact hasking h
  · intro old p h
    obtain ⟨hold, hp, hne, hid, htype, hopen⟩ := hs.waiting old p h
    exact ⟨hold, hp, hne, hid, htype, (hclosed _ (hwaiting old p h)).trans hopen⟩

/-- The object of the primary takes over the new connection. -/
theorem Inv.setConn {p c : ℕ} (hs : Inv s) (hwaiting : s.primary = .waiting p c) :
    Inv { s.setConn p c with primary := .accepting } := by
  obtain ⟨hp, htype, ⟨hlt, hopen, hnew⟩, hreported⟩ := hs.primary p c hwaiting
  have hid : (s.obj p).id = idPrimary := (hs.primary_iff p hp).mp htype
  have hself : (s.setConn p c).obj p = { s.obj p with conn := c } := Function.update_self ..
  have hother : ∀ q, q ≠ p → (s.setConn p c).obj q = s.obj q :=
    fun q hq => Function.update_of_ne hq _ _
  have htypes : ∀ q, ((s.setConn p c).obj q).type = (s.obj q).type ∧
      ((s.setConn p c).obj q).id = (s.obj q).id := by
    intro q
    by_cases hq : q = p
    · rw [hq, hself]
      exact ⟨rfl, rfl⟩
    · rw [hother q hq]
      exact ⟨rfl, rfl⟩
  have hconn : ∀ q, q = p ∧ ((s.setConn p c).obj q).conn = c ∨
      q ≠ p ∧ ((s.setConn p c).obj q).conn = (s.obj q).conn := by
    intro q
    by_cases hq : q = p
    · rw [hq, hself]
      exact .inl ⟨rfl, rfl⟩
    · rw [hother q hq]
      exact .inr ⟨hq, rfl⟩
  refine { hs with
    conn_lt := fun q hq => ?_, conn_inj := fun q hq r hr h => ?_, reported := fun q hq => ?_
    primary_iff := fun q hq => ?_, entry := fun k q h => ?_
    primary := fun q d h => by cases h
    asking := fun d h => ?_, waiting := fun old q h => ?_, request := fun n q type id h => ?_ }
  · show ((s.setConn p c).obj q).conn < s.conns
    obtain ⟨-, hq'⟩ | ⟨-, hq'⟩ := hconn q
    · rw [hq']
      exact hlt
    · rw [hq']
      exact hs.conn_lt q hq
  · have h' : ((s.setConn p c).obj q).conn = ((s.setConn p c).obj r).conn := h
    obtain ⟨hqp, hq'⟩ | ⟨hqp, hq'⟩ := hconn q
    · obtain ⟨hrp, -⟩ | ⟨-, hr'⟩ := hconn r
      · exact hqp.trans hrp.symm
      · rw [hq', hr'] at h'
        exact absurd h'.symm (hnew r hr)
    · obtain ⟨-, hr'⟩ | ⟨-, hr'⟩ := hconn r
      · rw [hq', hr'] at h'
        exact absurd h' (hnew q hq)
      · rw [hq', hr'] at h'
        exact hs.conn_inj q hq r hr h'
  · show s.reported ((s.setConn p c).obj q).conn = _
    rw [(htypes q).1, (htypes q).2]
    obtain ⟨hqp, hq'⟩ | ⟨-, hq'⟩ := hconn q
    · rw [hq', hqp, htype, hid]
      exact hreported
    · rw [hq']
      exact hs.reported q hq
  · show ((s.setConn p c).obj q).type = _ ↔ ((s.setConn p c).obj q).id = _
    rw [(htypes q).1, (htypes q).2]
    exact hs.primary_iff q hq
  · show q < s.objs ∧ ((s.setConn p c).obj q).id = k ∧
      s.closed ((s.setConn p c).obj q).conn = false
    obtain ⟨hq, hqid, hqopen⟩ := hs.entry k q h
    rw [(htypes q).2]
    refine ⟨hq, hqid, ?_⟩
    obtain ⟨-, hq'⟩ | ⟨-, hq'⟩ := hconn q
    · rw [hq']
      exact hopen
    · rw [hq']
      exact hqopen
  · obtain ⟨⟨hdlt, hdopen, hdnew⟩, hnone⟩ := hs.asking d h
    refine ⟨⟨hdlt, hdopen, fun q hq => ?_⟩, hnone⟩
    show ((s.setConn p c).obj q).conn ≠ d
    obtain ⟨-, hq'⟩ | ⟨-, hq'⟩ := hconn q
    · rw [hq']
      rintro rfl
      rw [hreported] at hnone
      cases hnone
    · rw [hq']
      exact hdnew q hq
  · obtain ⟨hold, hq, hne, hids, hqtype, hqopen⟩ := hs.waiting old q h
    have hqp : q ≠ p := by
      rintro rfl
      exact hqtype htype
    show old < s.objs ∧ q < s.objs ∧ old ≠ q ∧
      ((s.setConn p c).obj old).id = ((s.setConn p c).obj q).id ∧
      ((s.setConn p c).obj q).type ≠ .primary ∧ s.closed ((s.setConn p c).obj q).conn = false
    rw [(htypes old).2, hother q hqp]
    exact ⟨hold, hq, hne, hids, hqtype, hqopen⟩
  · show q < s.objs ∧ ((s.setConn p c).obj q).type = type ∧ ((s.setConn p c).obj q).id = id
    rw [(htypes q).1, (htypes q).2]
    exact hs.request n q type id h

/-- The reconnection of the primary keeps the invariant. -/
theorem inv_acquirePrimary {t : Controller} (hs : Inv s) (h : acquirePrimary s = some t) :
    Inv t := by
  unfold acquirePrimary at h
  split at h
  · rename_i p c hwaiting
    split at h
    · cases h
    · cases h
      obtain ⟨hp, htype, ⟨-, -, hnew⟩, -⟩ := hs.primary p c hwaiting
      have hself : ((s.setConn p c).obj p).conn = c := by simp [Controller.setConn]
      have hother : ∀ q < s.objs, ((s.setConn p c).obj q).conn ≠ (s.obj p).conn := by
        intro q hq h
        by_cases hqp : q = p
        · rw [hqp, hself] at h
          exact hnew p hp h.symm
        · have hq' : (s.setConn p c).obj q = s.obj q := Function.update_of_ne hqp _ _
          rw [hq'] at h
          exact hqp (hs.conn_inj q hq p hp h)
      apply (hs.setConn hwaiting).close (c := (s.obj p).conn) (hs.conn_lt p hp)
      · exact fun k q hlookup => hother q (hs.entry k q hlookup).1
      · intro q d h
        cases h
      · intro h
        exact (hs.asking _ h).1.2.2 p hp rfl
      · exact fun old q h => hother q (hs.waiting old q h).2.1
  · cases h

/-- `accept_secondary` up to its command keeps the invariant. -/
theorem inv_acceptSecondary {t : Controller} (hs : Inv s) (h : acceptSecondary s = some t) :
    Inv t := by
  unfold acceptSecondary at h
  split at h
  · cases h
    obtain ⟨haccept, hnew, hnone⟩ := hs.accept none
    exact { haccept with
      asking := fun c h => by
        cases h
        exact ⟨hnew, hnone⟩
      waiting := fun old p h => by cases h }
  · cases h

/-- What a reply decodes to is no primary. -/
theorem decodeClientId_ne_primary {reply : Option (String × ℤ)} {type : ProcType} {id : ℤ}
    (h : decodeClientId reply = some (type, id)) : type ≠ .primary := by
  unfold decodeClientId at h
  split at h <;> cases h <;> decide

/-- `accept_secondary` from the reply on keeps the invariant, unless the reply gives the
id of the primary. -/
theorem inv_replySecondary {t : Controller} {reply : Option (String × ℤ)} (hs : Inv s)
    (hreply : ∀ type, decodeClientId reply ≠ some (type, idPrimary))
    (h : replySecondary s reply = some t) : Inv t := by
  unfold replySecondary at h
  split at h
  · rename_i c hasking
    obtain ⟨hnew, hnone⟩ := hs.asking c hasking
    have hpending : ∀ p d, s.primary = .waiting p d → d ≠ c := by
      rintro p d hwaiting rfl
      rw [(hs.primary p d hwaiting).2.2.2] at hnone
      cases hnone
    split at h
    · cases h
      have hidle : Inv { s with secondary := .accepting } :=
        { hs with
          asking := fun d h => by cases h
          waiting := fun old p h => by cases h }
      apply hidle.close hnew.1
      · exact fun k p hlookup => hnew.2.2 p (hs.entry k p hlookup).1
      · exact hpending
      · intro h
        cases h
      · intro old p h
        cases h
    · rename_i type id hdecode
      have htype := decodeClientId_ne_primary hdecode
      have hid : id ≠ idPrimary := by
        rintro rfl
        exact hreply type hdecode
      have hreport := hs.report hasking (type, id)
      have hcreate := hreport.create type id hnew
        (Function.update_self ..) (iff_of_false htype hid) hpending (by
          intro h
          cases h)
      simp only at h
      split at h
      · rename_i old hlookup
        cases h
        obtain ⟨hold, holdid, -⟩ := hs.entry id old hlookup
        have hself : Function.update s.obj s.objs ⟨type, id, c, false⟩ s.objs =
            ⟨type, id, c, false⟩ := Function.update_self ..
        have hobj : Function.update s.obj s.objs ⟨type, id, c, false⟩ old = s.obj old :=
          Function.update_of_ne (Nat.ne_of_lt hold) _ _
        refine { hcreate with
          asking := fun d h => by cases h
          waiting := fun q p h => ?_ }
        cases h
        refine ⟨Nat.lt_succ_of_lt hold, Nat.lt_succ_self _, Nat.ne_of_lt hold, ?_, ?_, ?_⟩
        · show (Function.update s.obj s.objs _ old).id = (Function.update s.obj s.objs _ s.objs).id
          rw [hself, hobj]
          exact holdid
        · show (Function.update s.obj s.objs _ s.objs).type ≠ .primary
          rw [hself]
          exact htype
        · show s.closed (Function.update s.obj s.objs _ s.objs).conn = false
          rw [hself]
          exact hnew.2.1
      · cases h
        have hself : (Controller.create { s with
            secondary := .accepting
            reported := Function.update s.reported c (some (type, id)) } type id c).obj s.objs =
            ⟨type, id, c, false⟩ := Function.update_self ..
        have hset := hcreate.setItem (p := s.objs) (Nat.lt_succ_self _) (by
          rw [hself]
          exact hnew.2.1)
        rw [hself] at hset
        exact hset
  · cases h

/-- An end of `accept_secondary` keeps the invariant. -/
theorem inv_failSecondary {t : Controller} (hs : Inv s) (h : failSecondary s = some t) :
    Inv t := by
  unfold failSecondary at h
  split at h
  · cases h
    exact { hs with
      asking := fun c h => by cases h
      waiting := fun old p h => by cases h }
  · cases h

/-- The reconnection of a secondary keeps the invariant. -/
theorem inv_acquireSecondary {t : Controller} (hs : Inv s) (h : acquireSecondary s = some t) :
    Inv t := by
  unfold acquireSecondary at h
  split at h
  · rename_i old p hwaiting
    obtain ⟨hold, hp, hne, hid, htype, hopen⟩ := hs.waiting old p hwaiting
    split at h
    · cases h
    · cases h
      have hidle : Inv { s with secondary := .accepting } :=
        { hs with
          asking := fun c h => by cases h
          waiting := fun q r h => by cases h }
      apply (hidle.setItem hp hopen).close (c := (s.obj old).conn) (hs.conn_lt old hold)
      · -- Only the old object has this connection, and its key now leads to the new one.
        intro k q hlookup hconn
        by_cases hk : k = (s.obj p).id
        · rw [hk] at hlookup
          have hq : some p = some q := (AList.lookup_insert s.procs).symm.trans hlookup
          cases hq
          exact hne (hs.conn_inj old hold p hp hconn.symm)
        · have hlookup' : s.procs.lookup k = some q :=
            (AList.lookup_insert_ne hk).symm.trans hlookup
          obtain ⟨hq, hqid, -⟩ := hs.entry k q hlookup'
          rw [hs.conn_inj q hq old hold hconn, hid] at hqid
          exact hk hqid.symm
      · rintro q d hprimary rfl
        exact (hs.primary q _ hprimary).2.2.1.2.2 old hold rfl
      · intro h
        cases h
      · intro q r h
        cases h
  · cases h

/-- A request for a secondary keeps the invariant. -/
theorem inv_requestSecondary {t : Controller} {n : ℕ} {type : ProcType} {id : ℤ} {exit : Bool}
    (hs : Inv s) (h : requestSecondary s n type id exit = some t) : Inv t := by
  unfold requestSecondary at h
  split at h
  · split at h
    · rename_i p hlookup
      cases h
      obtain ⟨hp, rfl, -⟩ := hs.entry id p hlookup
      split
      · rename_i htype
        rw [← htype]
        exact hs.dispatch n exit hp
      · exact hs
    · cases h
      exact hs
  · cases h

/-- A request for the primary keeps the invariant. -/
theorem inv_requestPrimary {t : Controller} {n : ℕ} {exit : Bool} (hs : Inv s)
    (h : requestPrimary s n exit = some t) : Inv t := by
  unfold requestPrimary at h
  split at h
  · split at h
    · rename_i p hlookup
      cases h
      obtain ⟨hp, hid, -⟩ := hs.entry idPrimary p hlookup
      have htype := (hs.primary_iff p hp).mpr hid
      split
      · have hdispatch := hs.dispatch n exit hp
        rw [htype, hid] at hdispatch
        exact hdispatch
      · exact hs
    · cases h
      exact hs
  · cases h

/-- A command is written on the connection of the process it was issued for. -/
theorem inv_acquireRequest {t : Controller} {n : ℕ} {built : Bool} (hs : Inv s)
    (h : acquireRequest s n built = some t) : Inv t := by
  unfold acquireRequest at h
  split at h
  · rename_i p type id hrequest
    obtain ⟨hp, rfl, rfl⟩ := hs.request n p type id hrequest
    split at h
    · cases h
    · split at h
      · cases h
        have hlocked := (hs.setLocked p true).setRequest (r := .sending p) n
          fun q type id h => by cases h
        refine { hlocked with written := fun w hw => ?_ }
        obtain hw | hw := List.mem_append.mp hw
        · exact hs.written w hw
        · rw [List.mem_singleton.mp hw]
          exact hs.reported p hp
      · cases h
        exact hs.setRequest n fun q type id h => by cases h
  · cases h

/-- The end of a request keeps the invariant. -/
theorem inv_finishRequest {t : Controller} {n : ℕ} (hs : Inv s)
    (h : finishRequest s n = some t) : Inv t := by
  unfold finishRequest at h
  split at h
  · rename_i p _
    cases h
    exact (hs.setLocked p false).setRequest n fun q type id h => by cases h
  · cases h

end Preservation

/-- No step leaves the invariant while no secondary gives the id of the primary. -/
theorem inv_step {e : Event} {s t : Controller} (hs : Inv s) (hmeets : e.Meets s)
    (h : step e s = some t) : Inv t := by
  cases e with
  | acceptPrimary => exact inv_acceptPrimary hs h
  | acquirePrimary => exact inv_acquirePrimary hs h
  | acceptSecondary => exact inv_acceptSecondary hs h
  | replySecondary reply => exact inv_replySecondary hs (hmeets reply rfl) h
  | failSecondary => exact inv_failSecondary hs h
  | acquireSecondary => exact inv_acquireSecondary hs h
  | requestSecondary n type id exit => exact inv_requestSecondary hs h
  | requestPrimary n exit => exact inv_requestPrimary hs h
  | acquireRequest n built => exact inv_acquireRequest hs h
  | finishRequest n => exact inv_finishRequest hs h

/-- The table is consistent in every state that is reached while no secondary gives the
id of the primary. -/
theorem consistent_of_reaches {s : Controller} (h : Reaches step Event.Meets .start s) :
    Consistent s :=
  (h.invariant inv_start fun _ _ _ hu hmeets hstep => inv_step hu hmeets hstep).consistent

/-- A run: the primary connects and reconnects, `spp_nfv` 1 connects twice, and a command
for it is written. -/
def reconnectRun : List Event :=
  [.acceptPrimary, .acceptPrimary, .acquirePrimary, .acceptSecondary,
    .replySecondary (some ("nfv", 1)), .acceptSecondary, .replySecondary (some ("nfv", 1)),
    .acquireSecondary, .requestSecondary 0 .nfv 1 false, .acquireRequest 0 true]

/-- The table after `reconnectRun`. -/
theorem consistent_reconnect : ∃ s, Consistent s ∧ s.written = [(3, .nfv, 1)] := by
  have hrun : ∃ s, runAll step reconnectRun .start = some s ∧ s.written = [(3, .nfv, 1)] :=
    exists_of_runAll (by decide +kernel)
  obtain ⟨s, hs, hwritten⟩ := hrun
  refine ⟨s, consistent_of_reaches (reaches_of_runAll hs ?_), hwritten⟩
  rintro e he _ reply rfl type hdecode
  have hreply : reply = some ("nfv", 1) := by simpa [reconnectRun] using he
  subst hreply
  cases hdecode

/-- A run: the primary connects, and `spp_vf` connects as client 0; then an exit of the
primary is requested. -/
def clientZeroRun : List Event :=
  [.acceptPrimary, .acceptSecondary, .replySecondary (some ("vf", 0)), .acquireSecondary,
    .requestPrimary 0 true, .acquireRequest 0 true]

/-- In `clientZeroRun` the client takes the place of the primary, and is sent the exit that
was issued for the primary. -/
theorem client_zero_replaces_primary :
    (∃ s, runAll step (clientZeroRun.take 4) .start = some s ∧ ¬ Consistent s) ∧
      ∃ s, runAll step clientZeroRun .start = some s ∧ ¬ Consistent s := by
  have htable : ∃ s, runAll step (clientZeroRun.take 4) .start = some s ∧
      s.procs.lookup idPrimary = some 1 ∧ (s.obj 1).type = .vf :=
    exists_of_runAll (by decide +kernel)
  have hcommand : ∃ s, runAll step clientZeroRun .start = some s ∧
      (1, .primary, idPrimary) ∈ s.written ∧ s.reported 1 = some (.vf, 0) :=
    exists_of_runAll (by decide +kernel)
  constructor
  · obtain ⟨s, hs, hlookup, htype⟩ := htable
    refine ⟨s, hs, fun h => ?_⟩
    have hprimary := (h.primary_iff idPrimary 1 hlookup).mpr rfl
    rw [htype] at hprimary
    cases hprimary
  · obtain ⟨s, hs, hwritten, hreported⟩ := hcommand
    refine ⟨s, hs, fun h => ?_⟩
    have hprimary := h.written_to _ hwritten
    rw [hreported] at hprimary
    cases hprimary

end Spp.Ctl
