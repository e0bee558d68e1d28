import Mathlib.Data.Int.Bitwise
import Mathlib.Data.List.Perm.Subperm
import Mathlib.Data.List.Sort
import Mathlib.Data.Nat.Bitwise
import Spp.Lib.TokenList
import Spp.Nfv.Rejected
import Spp.Nfv.Statistics

/-!
# The options of spp_primary

`parse_app_args` collects the ports of the masks and the number of rings. The loops that
report statistics index the arrays of `struct port_info` with what it leaves. Nothing
checks that a port is named once, nor that the number of rings fits its sixteen bits and
the array of the clients.
-/

namespace Spp.Primary

open CLib
open Nfv (Build Fault StatsPtr Stats decimal phyStat ringStat)

section Source

/-- What `parse_app_args` fills in: `ports->id` of length `ports->num_ports`, `num_rings`,
`server_ip` and `server_port`. -/
structure AppArgs where
  ids : List ℕ
  numRings : ℕ
  serverIp : CStr
  serverPort : ℤ
  deriving DecidableEq

/-- The zeroed memory zone and the globals at the start. -/
def AppArgs.initial : AppArgs := ⟨[], 0, [], 0⟩

variable (b : Build) (maxPorts : ℕ)

/-- `ports->id[ports->num_ports++] = count`. -/
def storeId (ids : List ℕ) (count : ℕ) : Except Fault (List ℕ) :=
  if ids.length < b.maxEthports then .ok (ids ++ [count]) else .error .outOfBounds

/-- The loop through the bits of a mask. A mask has 64 bits, so that `count` stays small. -/
def maskLoop (pm count : ℕ) (ids : List ℕ) : Except Fault (List ℕ) :=
  if pm = 0 then .ok ids
  else if pm % 2 = 1 ∧ count < maxPorts then do
    maskLoop (pm / 2) (count + 1) (← storeId b ids count)
  else maskLoop (pm / 2) (count + 1) ids
termination_by pm

/-- `parse_portmask`; `none` is its error. -/
def parsePortmask (ids : List ℕ) (portmask : CStr) : Except Fault (Option (List ℕ)) :=
  if portmask = [] then .ok none
  else
    match strtoul 16 portmask with
    | some (pm, []) => if pm = 0 then .ok none else some <$> maskLoop b maxPorts pm 0 ids
    | _ => .ok none

/-- `parse_num_clients`; the value is cut down to `uint16_t`. -/
def parseNumClients (clients : CStr) : Option ℕ :=
  if clients = [] then none
  else
    match strtoul 10 clients with
    | some (temp, []) => if temp = 0 then none else some (temp % 2 ^ 16)
    | _ => none

/-- `atoi`. -/
def atoi (s : CStr) : ℤ := toInt ((strtol 10 s).elim 0 Prod.fst)

/-- `parse_server`. -/
def parseServer (serverAddr : CStr) : Option (CStr × ℤ) :=
  match strtok ':' serverAddr with
  | ip :: token :: _ => some (ip, atoi token)
  | _ => none

/-- The options that successive calls of `getopt_long` find for `"n:p:s:"` without long
options. Other arguments are passed over; `none` is the answer `'?'`, after which there are
no more calls. -/
def getoptLong : List CStr → List (Option (Char × CStr))
  | [] => []
  | ('-' :: '-' :: name) :: _ => if name = [] then [] else [none]
  | ['-', c] :: rest =>
    if c ∈ ['n', 'p', 's'] then
      match rest with
      | [] => [none]
      | value :: rest => some (c, value) :: getoptLong rest
    else [none]
  | ('-' :: c :: value) :: rest =>
    if c ∈ ['n', 'p', 's'] then some (c, value) :: getoptLong rest else [none]
  | _ :: rest => getoptLong rest

/-- The body of the loop over the options. -/
def parseOption (a : AppArgs) : Option (Char × CStr) → Except Fault (Option AppArgs)
  | some ('p', value) => do
    return (← parsePortmask b maxPorts a.ids value).map fun ids => { a with ids := ids }
  | some ('n', value) =>
    .ok ((parseNumClients value).map fun n => { a with numRings := n })
  | some ('s', value) =>
    .ok ((parseServer value).map fun s => { a with serverIp := s.1, serverPort := s.2 })
  | _ => .ok none

/-- The loop over the options. -/
def optionLoop (a : AppArgs) : List (Option (Char × CStr)) → Except Fault (Option AppArgs)
  | [] => .ok (some a)
  | opt :: opts => do
    match ← parseOption b maxPorts a opt with
    | none => return none
    | some a => optionLoop a opts

/-- `parse_app_args` on the arguments after the program name; `none` is its error. -/
def parseAppArgs (args : List CStr) : Except Fault (Option AppArgs) := do
  match ← optionLoop b maxPorts .initial (getoptLong args) with
  | none => return none
  | some a => return if a.ids = [] ∨ a.numRings = 0 then none else some a

/-- The elements of the arrays that a pass of a loop over the ports reads. -/
def phyReads (i : ℕ) : List StatsPtr := [.portStats i, .clientStats i]

/-- The elements of the arrays that a pass of a loop over the rings reads. -/
def ringReads (i : ℕ) : List StatsPtr := [.clientStats i]

/-- What `do_stats_display` reads. -/
def doStatsDisplayReads (a : AppArgs) : List StatsPtr :=
  (List.range a.ids.length).flatMap phyReads ++ (List.range a.numRings).flatMap ringReads

/-- What `get_status_json` reads, when the loop over the ports ends after `k` passes and the
one over the rings after `m`. -/
def getStatusJsonReads (k m : ℕ) : List StatsPtr :=
  (List.range k).flatMap phyReads ++ (List.range m).flatMap ringReads

variable {counters counters' : StatsPtr → Stats} {i id : ℕ}

/-- A pass over the ports reads these elements only. -/
theorem phyStat_congr (h : ∀ p ∈ phyReads i, counters p = counters' p) :
    phyStat counters i id = phyStat counters' i id := by
  have hport := h (.portStats i) (by simp [phyReads])
  have hclient := h (.clientStats i) (by simp [phyReads])
  rw [phyStat, phyStat, hport, hclient]

/-- A pass over the rings reads this element only. -/
theorem ringStat_congr (h : ∀ p ∈ ringReads i, counters p = counters' p) :
    ringStat counters i = ringStat counters' i := by
  have hclient := h (.clientStats i) (by simp [ringReads])
  rw [ringStat, ringStat, hclient]

end Source

section Statement

/-- The values of an option among options that are found. -/
def valuesIn (c : Char) (opts : List (Option (Char × CStr))) : List CStr :=
  opts.filterMap fun opt => opt.bind fun o => if o.1 = c then some o.2 else none

/-- The values of an option, in the order of the arguments. -/
def valuesOf (c : Char) (args : List CStr) : List CStr := valuesIn c (getoptLong args)

/-- The integer that a string denotes as a whole in base sixteen, whatever its size. -/
def hexadecimal (s : CStr) : Option ℤ :=
  match scanNumber 16 s with
  | some (negative, magnitude, []) => some (if negative then -(magnitude : ℤ) else magnitude)
  | _ => none

/-- The masks as they are written. -/
def writtenMasks (args : List CStr) : List ℤ := (valuesOf 'p' args).filterMap hexadecimal

/-- The number that the last `-n` denotes. -/
def lastRings (args : List CStr) : Option ℤ := (valuesOf 'n' args).getLast?.bind decimal

variable (b : Build) (maxPorts : ℕ)

/-- The ports are the set bits of the masks below `max_ports` in ascending order, the number of
rings is the one that is written, and what the reports read is inside the arrays. -/
structure AppArgs.InRange (args : List CStr) (a : AppArgs) : Prop where
  numPorts : a.ids.length ≤ b.maxEthports
  distinct : a.ids.Nodup
  below : ∀ id ∈ a.ids, id < maxPorts
  ports : a.ids = (List.range maxPorts).filter fun i =>
    decide (∃ m ∈ writtenMasks args, m.testBit i = true)
  rings : lastRings args = some (a.numRings : ℤ)
  displayed : ∀ p ∈ doStatsDisplayReads a, p.InArray b
  replied : ∀ k ≤ a.ids.length, ∀ m ≤ a.numRings, ∀ p ∈ getStatusJsonReads k m, p.InArray b

/-- What `strtoul` makes of a whole string. -/
def readWhole (base : ℕ) (s : CStr) : Option ℕ :=
  match strtoul base s with
  | some (v, []) => some v
  | _ => none

/-- The masks as `strtoul` reads them, clamped to 64 bits. -/
def readMasks (args : List CStr) : List ℕ := (valuesOf 'p' args).filterMap (readWhole 16)

/-- The ports of a mask: its set bits below `max_ports`, in ascending order. -/
def maskPorts (pm : ℕ) : List ℕ := (List.range maxPorts).filter pm.testBit

/-- Arguments that keep the tables in range: the masks, one after another, name the ports in
ascending order and none twice; none of these is due to the clamping to 64 bits or lost by
it; and the last `-n` is from 1 to 99. -/
structure InRangeArgs (args : List CStr) : Prop where
  ascending : ((readMasks args).flatMap (maskPorts maxPorts)).Pairwise (· < ·)
  written : ∀ i < maxPorts, (∃ pm ∈ readMasks args, pm.testBit i = true) ↔
    ∃ m ∈ writtenMasks args, m.testBit i = true
  rings : ∃ z, lastRings args = some z ∧ 1 ≤ z ∧ z ≤ 99

end Statement

section Masks

variable {b : Build} {maxPorts : ℕ}

/-- A number that `strtoul` reads fits 64 bits. -/
theorem lt_of_readWhole {base v : ℕ} {s : CStr} (h : readWhole base s = some v) : v < 2 ^ 64 := by
  unfold readWhole at h
  split at h
  · rename_i hscan
    obtain ⟨⟨negative, magnitude, rest⟩, -, hv⟩ := Option.map_eq_some_iff.mp hscan
    dsimp only at hv
    obtain ⟨hval, -⟩ := Prod.mk.inj hv
    obtain rfl := Option.some.inj h
    split at hval
    · omega
    · split at hval <;> omega
  · cases h

/-- The ports of a mask are below its 64 bits. -/
theorem lt_of_mem_maskPorts {pm i : ℕ} (hpm : pm < 2 ^ 64) (hi : i ∈ maskPorts maxPorts pm) :
    i < maxPorts ∧ i < 64 := by
  obtain ⟨hlt, hbit⟩ := List.mem_filter.mp hi
  refine ⟨List.mem_range.mp hlt, ?_⟩
  by_contra hge
  have hfalse := Nat.testBit_lt_two_pow (hpm.trans_le (Nat.pow_le_pow_right (by decide)
    (Nat.not_lt.mp hge)))
  rw [hfalse] at hbit
  cases hbit

/-- Storing ports, one after another, stores all of them if there is room. -/
theorem foldlM_storeId {l ids : List ℕ} (h : ids.length + l.length ≤ b.maxEthports) :
    l.foldlM (storeId b) ids = .ok (ids ++ l) := by
  induction l generalizing ids with
  | nil => simp [pure, Except.pure]
  | cons i l ih =>
    rw [List.length_cons] at h
    have hstore : storeId b ids i = .ok (ids ++ [i]) := if_pos (by omega)
    have hroom : (ids ++ [i]).length + l.length ≤ b.maxEthports := by
      rw [List.length_append, List.length_singleton]
      omega
    rw [List.foldlM_cons, hstore]
    change l.foldlM (storeId b) (ids ++ [i]) = _
    rw [ih hroom, List.append_assoc, List.singleton_append]

/-- What is stored is appended. -/
theorem eq_append_of_foldlM_storeId {l ids r : List ℕ} (h : l.foldlM (storeId b) ids = .ok r) :
    r = ids ++ l := by
  induction l generalizing ids with
  | nil => simpa [pure, Except.pure] using h.symm
  | cons i l ih =>
    rw [List.foldlM_cons] at h
    obtain ⟨ids', hstore, hrest⟩ := bind_eq_ok.mp h
    unfold storeId at hstore
    split_ifs at hstore
    obtain rfl := Except.ok.inj hstore
    rw [ih hrest, List.append_assoc, List.singleton_append]

/-- The bits from `count` on are those of a mask that was shifted so far. -/
theorem filter_range'_succ {pm count n : ℕ} :
    (List.range' (count + 1) n).filter (fun i => pm.testBit (i - count)) =
      (List.range' (count + 1) n).filter fun i => (pm / 2).testBit (i - (count + 1)) := by
  refine List.filter_congr fun i hi => ?_
  have hle : count + 1 ≤ i := (List.mem_range'_1.mp hi).1
  have hsub : i - count = i - (count + 1) + 1 := by omega
  rw [hsub, Nat.testBit_succ]

/-- The loop through the bits of a mask stores its ports. -/
theorem maskLoop_eq (pm count : ℕ) (ids : List ℕ) :
    maskLoop b maxPorts pm count ids =
      ((List.range' count (maxPorts - count)).filter fun i => pm.testBit (i - count)).foldlM
        (storeId b) ids := by
  fun_induction maskLoop b maxPorts pm count ids with
  | case1 count ids => simp [pure, Except.pure]
  | case2 pm count ids hne hbit ih =>
    obtain ⟨hodd, hlt⟩ := hbit
    have hlen : maxPorts - count = maxPorts - (count + 1) + 1 := by omega
    have hset : pm.testBit (count - count) = true := by
      rw [Nat.sub_self, Nat.testBit_zero, hodd]
      rfl
    rw [hlen, List.range'_succ, List.filter_cons_of_pos (p := fun i => pm.testBit (i - count)) hset,
      List.foldlM_cons, filter_range'_succ]
    exact bind_congr ih
  | case3 pm count ids hne hbit ih =>
    rw [ih]
    by_cases hlt : count < maxPorts
    · have hlen : maxPorts - count = maxPorts - (count + 1) + 1 := by omega
      have heven : pm % 2 = 0 := by
        by_contra hodd
        exact hbit ⟨by omega, hlt⟩
      have hclear : ¬ pm.testBit (count - count) = true := by
        rw [Nat.sub_self, Nat.testBit_zero, heven]
        decide
      rw [hlen, List.range'_succ,
        List.filter_cons_of_neg (p := fun i => pm.testBit (i - count)) hclear, filter_range'_succ]
    -- the rest of the bits is beyond the ports
    · have hnone : maxPorts - count = 0 ∧ maxPorts - (count + 1) = 0 := by omega
      rw [hnone.1, hnone.2, List.range'_zero, List.range'_zero, List.filter_nil, List.filter_nil]

/-- `parse_portmask` stores the ports of the mask that it reads. -/
theorem parsePortmask_eq (ids : List ℕ) (portmask : CStr) :
    parsePortmask b maxPorts ids portmask =
      match readWhole 16 portmask with
      | some pm => if pm = 0 then .ok none
        else some <$> (maskPorts maxPorts pm).foldlM (storeId b) ids
      | none => .ok none := by
  unfold parsePortmask
  by_cases hnil : portmask = []
  · subst hnil
    have hread : readWhole 16 [] = none := by decide
    rw [if_pos rfl, hread]
  · rw [if_neg hnil]
    unfold readWhole
    rcases strtoul 16 portmask with _ | ⟨pm, _ | ⟨c, rest⟩⟩
    · rfl
    · simp only [maskLoop_eq, maskPorts, Nat.sub_zero, List.range_eq_range']
    · rfl

/-- `parse_num_clients` cuts down the number that it reads. -/
theorem parseNumClients_eq (clients : CStr) :
    parseNumClients clients =
      (readWhole 10 clients).bind fun v => if v = 0 then none else some (v % 2 ^ 16) := by
  unfold parseNumClients
  by_cases hnil : clients = []
  · subst hnil
    have hread : readWhole 10 [] = none := by decide
    rw [if_pos rfl, hread, Option.bind_none]
  · rw [if_neg hnil]
    unfold readWhole
    rcases strtoul 10 clients with _ | ⟨v, _ | ⟨c, rest⟩⟩
    · rfl
    · rfl
    · rfl

/-- The number of rings is the one that is written iff that fits sixteen bits. -/
theorem mod_readWhole_eq {s : CStr} {v : ℕ} (h : readWhole 10 s = some v) (hv : v ≠ 0) :
    ∃ z, decimal s = some z ∧ (((v % 2 ^ 16 : ℕ) : ℤ) = z ↔ 0 ≤ z ∧ z < 2 ^ 16) := by
  unfold readWhole at h
  split at h
  · rename_i hread
    obtain rfl := Option.some.inj h
    obtain ⟨⟨negative, magnitude, rest⟩, hscan, hpair⟩ := Option.map_eq_some_iff.mp hread
    dsimp only at hpair
    obtain ⟨hval, rfl⟩ := Prod.mk.inj hpair
    clear hpair
    refine ⟨if negative then -(magnitude : ℤ) else magnitude, by simp only [decimal, hscan], ?_⟩
    cases negative
    · simp only [Bool.false_eq_true, if_false] at hval ⊢
      split at hval <;> omega
    · simp only [if_true] at hval ⊢
      split at hval <;> omega
  · cases h

end Masks

section Options

variable {b : Build} {maxPorts : ℕ}

/-- The ports that the masks among options name, one after another. -/
def namedPorts (maxPorts : ℕ) (opts : List (Option (Char × CStr))) : List ℕ :=
  ((valuesIn 'p' opts).filterMap (readWhole 16)).flatMap (maskPorts maxPorts)

/-- The number of rings after some options. -/
def ringsAfter (n : ℕ) (opts : List (Option (Char × CStr))) : ℕ :=
  ((valuesIn 'n' opts).getLast?.bind (readWhole 10)).elim n (· % 2 ^ 16)

/-- The ports that an option and further options name. -/
theorem namedPorts_cons (opt : Option (Char × CStr)) (opts : List (Option (Char × CStr))) :
    namedPorts maxPorts (opt :: opts) = namedPorts maxPorts [opt] ++ namedPorts maxPorts opts := by
  rw [← List.singleton_append]
  simp only [namedPorts, valuesIn, List.filterMap_append, List.flatMap_append]

/-- The values of an option and of further options. -/
theorem valuesIn_cons (c : Char) (opt : Option (Char × CStr)) (opts : List (Option (Char × CStr))) :
    valuesIn c (opt :: opts) = valuesIn c [opt] ++ valuesIn c opts := by
  rw [← List.singleton_append]
  simp only [valuesIn, List.filterMap_append]

/-- The number of rings after an option and further options. -/
theorem ringsAfter_cons (n : ℕ) (opt : Option (Char × CStr)) {opts : List (Option (Char × CStr))}
    (h : ∀ v ∈ valuesIn 'n' opts, ∃ n, readWhole 10 v = some n ∧ n ≠ 0) :
    ringsAfter n (opt :: opts) = ringsAfter (ringsAfter n [opt]) opts := by
  unfold ringsAfter
  rw [valuesIn_cons]
  cases hlast : (valuesIn 'n' opts).getLast? with
  | none =>
    rw [List.getLast?_eq_none_iff.mp hlast, List.append_nil]
    rfl
  | some v =>
    obtain ⟨r, hread, -⟩ := h v (List.mem_of_getLast? hlast)
    rw [List.getLast?_append, hlast, Option.some_or, Option.bind_some, hread]
    rfl

/-- A step of the loop over the options that goes on. -/
theorem parseOption_ok {a a' : AppArgs} {opt : Option (Char × CStr)}
    (h : parseOption b maxPorts a opt = .ok (some a')) :
    a'.ids = a.ids ++ namedPorts maxPorts [opt] ∧
      a'.numRings = ringsAfter a.numRings [opt] ∧
      ∀ v ∈ valuesIn 'n' [opt], ∃ n, readWhole 10 v = some n ∧ n ≠ 0 := by
  unfold parseOption at h
  split at h
  · rename_i value
    obtain ⟨r, hparse, hr⟩ := bind_eq_ok.mp h
    obtain ⟨ids, rfl, rfl⟩ := Option.map_eq_some_iff.mp (Except.ok.inj hr)
    rw [parsePortmask_eq] at hparse
    cases hread : readWhole 16 value with
    | none =>
      rw [hread] at hparse
      cases hparse
    | some pm =>
      rw [hread] at hparse
      dsimp only at hparse
      split_ifs at hparse with hzero
      · cases hparse
      · obtain ⟨ids', hfold, hids⟩ := bind_eq_ok.mp ((map_eq_pure_bind _ _).symm.trans hparse)
        obtain rfl := Option.some.inj (Except.ok.inj hids)
        refine ⟨?_, by simp [ringsAfter, valuesIn], by simp [valuesIn]⟩
        rw [eq_append_of_foldlM_storeId hfold]
        simp [namedPorts, valuesIn, hread]
  · rename_i value
    obtain ⟨n, hnum, rfl⟩ := Option.map_eq_some_iff.mp (Except.ok.inj h)
    rw [parseNumClients_eq] at hnum
    obtain ⟨v, hread, hv⟩ := Option.bind_eq_some_iff.mp hnum
    split_ifs at hv with hzero
    obtain rfl := Option.some.inj hv
    refine ⟨by simp [namedPorts, valuesIn], by simp [ringsAfter, valuesIn, hread], ?_⟩
    simpa [valuesIn] using ⟨v, hread, hzero⟩
  · obtain ⟨s, -, rfl⟩ := Option.map_eq_some_iff.mp (Except.ok.inj h)
    exact ⟨by simp [namedPorts, valuesIn], by simp [ringsAfter, valuesIn], by simp [valuesIn]⟩
  · cases h

/-- A step of the loop over the options fails only for want of room. -/
theorem parseOption_ne_error {a : AppArgs} {opt : Option (Char × CStr)} {e : Fault}
    (h : a.ids.length + (namedPorts maxPorts [opt]).length ≤ b.maxEthports) :
    parseOption b maxPorts a opt ≠ .error e := by
  unfold parseOption
  split
  · rename_i value
    rw [parsePortmask_eq]
    cases hread : readWhole 16 value with
    | none => exact nofun
    | some pm =>
      have hports : namedPorts maxPorts [some ('p', value)] = maskPorts maxPorts pm := by
        simp [namedPorts, valuesIn, hread]
      rw [hports] at h
      dsimp only
      split_ifs with hzero
      · exact nofun
      · rw [foldlM_storeId h]
        exact nofun
  · exact nofun
  · exact nofun
  · exact nofun

/-- What the loop over the options leaves. -/
theorem optionLoop_ok {opts : List (Option (Char × CStr))} {a a' : AppArgs}
    (h : optionLoop b maxPorts a opts = .ok (some a')) :
    a'.ids = a.ids ++ namedPorts maxPorts opts ∧
      a'.numRings = ringsAfter a.numRings opts ∧
      ∀ v ∈ valuesIn 'n' opts, ∃ n, readWhole 10 v = some n ∧ n ≠ 0 := by
  induction opts generalizing a with
  | nil =>
    obtain rfl := Option.some.inj (Except.ok.inj h)
    simp [namedPorts, ringsAfter, valuesIn]
  | cons opt opts ih =>
    obtain ⟨r, hstep, hrest⟩ := bind_eq_ok.mp h
    cases r with
    | none => cases hrest
    | some a₁ =>
      obtain ⟨hids₁, hrings₁, hread₁⟩ := parseOption_ok hstep
      obtain ⟨hids, hrings, hread⟩ := ih hrest
      refine ⟨?_, ?_, ?_⟩
      · rw [hids, hids₁, namedPorts_cons opt opts, List.append_assoc]
      · rw [hrings, hrings₁, ringsAfter_cons _ _ hread]
      · intro v hv
        rw [valuesIn_cons, List.mem_append] at hv
        exact hv.elim (hread₁ v) (hread v)

/-- The loop over the options fails only for want of room. -/
theorem optionLoop_ne_error {opts : List (Option (Char × CStr))} {a : AppArgs} {e : Fault}
    (h : a.ids.length + (namedPorts maxPorts opts).length ≤ b.maxEthports) :
    optionLoop b maxPorts a opts ≠ .error e := by
  induction opts generalizing a with
  | nil => exact nofun
  | cons opt opts ih =>
    rw [namedPorts_cons, List.length_append] at h
    rw [optionLoop]
    cases hstep : parseOption b maxPorts a opt with
    | error e' => exact absurd hstep (parseOption_ne_error (by omega))
    | ok r =>
      cases r with
      | none => exact nofun
      | some a₁ =>
        have hlen : a₁.ids.length = a.ids.length + (namedPorts maxPorts [opt]).length := by
          rw [(parseOption_ok hstep).1, List.length_append]
        exact ih (by omega)

end Options

section Results

variable {b : Build} {maxPorts : ℕ} {args : List CStr}

/-- The masks that are read have 64 bits. -/
theorem lt_of_mem_readMasks {pm : ℕ} (h : pm ∈ readMasks args) : pm < 2 ^ 64 := by
  obtain ⟨v, -, hread⟩ := List.mem_filterMap.mp h
  exact lt_of_readWhole hread

/-- The ports that the masks name. -/
theorem mem_namedPorts {i : ℕ} :
    i ∈ namedPorts maxPorts (getoptLong args) ↔
      i < maxPorts ∧ ∃ pm ∈ readMasks args, pm.testBit i = true := by
  have hmasks : namedPorts maxPorts (getoptLong args) =
      (readMasks args).flatMap (maskPorts maxPorts) := rfl
  rw [hmasks, List.mem_flatMap]
  constructor
  · rintro ⟨pm, hpm, hi⟩
    obtain ⟨hlt, hbit⟩ := List.mem_filter.mp hi
    exact ⟨List.mem_range.mp hlt, pm, hpm, hbit⟩
  · rintro ⟨hlt, pm, hpm, hbit⟩
    exact ⟨pm, hpm, List.mem_filter.mpr ⟨List.mem_range.mpr hlt, hbit⟩⟩

/-- Ports that are named in ascending order are few: they fit both arrays. -/
theorem length_namedPorts (hports : maxPorts ≤ b.maxEthports)
    (h : (namedPorts maxPorts (getoptLong args)).Pairwise (· < ·)) :
    (namedPorts maxPorts (getoptLong args)).length ≤ b.maxEthports ∧
      (namedPorts maxPorts (getoptLong args)).length ≤ 64 := by
  have hnodup : (namedPorts maxPorts (getoptLong args)).Nodup := h.imp Nat.ne_of_lt
  have hle : ∀ n, (∀ i ∈ namedPorts maxPorts (getoptLong args), i < n) →
      (namedPorts maxPorts (getoptLong args)).length ≤ n := by
    intro n hn
    have hsub := hnodup.subperm fun i hi => List.mem_range.mpr (hn i hi)
    simpa using hsub.length_le
  refine ⟨(hle maxPorts fun i hi => (mem_namedPorts.mp hi).1).trans hports, hle 64 fun i hi => ?_⟩
  obtain ⟨hlt, pm, hpm, hbit⟩ := mem_namedPorts.mp hi
  exact (lt_of_mem_maskPorts (lt_of_mem_readMasks hpm)
    (List.mem_filter.mpr ⟨List.mem_range.mpr hlt, hbit⟩)).2

/-- The reads of the reports are in the arrays iff the rings fit the array of the clients. -/
theorem getStatusJsonReads_inArray {k m : ℕ} (hk : k ≤ b.maxEthports) (hclients : k ≤ 64) :
    (∀ p ∈ getStatusJsonReads k m, p.InArray b) ↔ m ≤ 99 := by
  constructor
  · intro h
    by_contra hm
    have hread : StatsPtr.clientStats ((99 : ℕ) : ℤ) ∈ getStatusJsonReads k m := by
      refine List.mem_append_right _ (List.mem_flatMap.mpr ⟨99, ?_, List.mem_singleton_self _⟩)
      rw [List.mem_range]
      omega
    have hlt : ((99 : ℕ) : ℤ) < 99 := (h _ hread).2
    omega
  · intro hm p hp
    have hclient : ∀ i : ℕ, i < 99 → (StatsPtr.clientStats i).InArray b := fun i hi =>
      ⟨Int.natCast_nonneg i, by
        change (i : ℤ) < 99
        omega⟩
    obtain hphy | hring := List.mem_append.mp hp
    · obtain ⟨i, hi, hread⟩ := List.mem_flatMap.mp hphy
      rw [List.mem_range] at hi
      rw [phyReads, List.mem_cons, List.mem_singleton] at hread
      obtain rfl | rfl := hread
      · exact hi.trans_le hk
      · exact hclient i (by omega)
    · obtain ⟨i, hi, hread⟩ := List.mem_flatMap.mp hring
      rw [List.mem_range] at hi
      rw [ringReads, List.mem_singleton] at hread
      obtain rfl := hread
      exact hclient i (by omega)

/-- What accepted arguments leave. -/
theorem parseAppArgs_ok {a : AppArgs} (h : parseAppArgs b maxPorts args = .ok (some a)) :
    a.ids = namedPorts maxPorts (getoptLong args) ∧
      ∃ z, lastRings args = some z ∧ ((a.numRings : ℤ) = z ↔ 0 ≤ z ∧ z < 2 ^ 16) ∧
        a.numRings ≠ 0 := by
  obtain ⟨r, hloop, hr⟩ := bind_eq_ok.mp h
  cases r with
  | none => cases hr
  | some a' =>
    obtain hchecked := Except.ok.inj hr
    split_ifs at hchecked with hreject
    obtain rfl := Option.some.inj hchecked
    obtain ⟨hids, hrings, hread⟩ := optionLoop_ok hloop
    refine ⟨by rw [hids]; rfl, ?_⟩
    have hne : a'.numRings ≠ 0 := fun hzero => hreject (.inr hzero)
    cases hlast : (valuesIn 'n' (getoptLong args)).getLast? with
    | none =>
      rw [ringsAfter, hlast] at hrings
      exact absurd hrings hne
    | some v =>
      obtain ⟨n, hv, hzero⟩ := hread v (List.mem_of_getLast? hlast)
      obtain ⟨z, hz, hfits⟩ := mod_readWhole_eq hv hzero
      rw [ringsAfter, hlast, Option.bind_some, hv] at hrings
      refine ⟨z, by rw [lastRings, valuesOf, hlast, Option.bind_some, hz], ?_, hne⟩
      rw [hrings]
      exact hfits

/-- Arguments fail only for want of room. -/
theorem parseAppArgs_ne_error {e : Fault}
    (h : (namedPorts maxPorts (getoptLong args)).length ≤ b.maxEthports) :
    parseAppArgs b maxPorts args ≠ .error e := by
  have hroom : AppArgs.initial.ids.length + (namedPorts maxPorts (getoptLong args)).length ≤
      b.maxEthports := by
    simpa [AppArgs.initial] using h
  unfold parseAppArgs
  cases hloop : optionLoop b maxPorts .initial (getoptLong args) with
  | error e' => exact absurd hloop (optionLoop_ne_error hroom)
  | ok r =>
    cases r with
    | none => exact nofun
    | some a => exact nofun

/-- Accepted arguments keep the tables in range iff their masks name the ports in ascending
order, as they are written, and the number of rings fits the array of the clients. -/
theorem argsInRange_iff (hports : maxPorts ≤ b.maxEthports)
    (haccept : parseAppArgs b maxPorts args ≠ .ok none) :
    (∃ a, parseAppArgs b maxPorts args = .ok (some a) ∧ a.InRange b maxPorts args) ↔
      InRangeArgs maxPorts args := by
  constructor
  · rintro ⟨a, hparse, hin⟩
    obtain ⟨hids, z, hlast, hfits, hne⟩ := parseAppArgs_ok hparse
    have hascending : a.ids.Pairwise (· < ·) := by
      rw [hin.ports]
      exact List.pairwise_lt_range.filter _
    rw [hids] at hascending
    have hlen := length_namedPorts hports hascending
    rw [← hids] at hlen
    have hclients := (getStatusJsonReads_inArray hlen.1 hlen.2).mp
      (hin.replied _ le_rfl _ le_rfl)
    refine ⟨hascending, fun i hi => ?_, a.numRings, hin.rings, by omega, by omega⟩
    have hmem : i ∈ a.ids ↔ ∃ m ∈ writtenMasks args, m.testBit i = true := by
      rw [hin.ports, List.mem_filter, List.mem_range, decide_eq_true_iff]
      exact and_iff_right hi
    rw [← hmem, hids, mem_namedPorts]
    exact (and_iff_right hi).symm
  · intro h
    have hlen := length_namedPorts hports h.ascending
    obtain ⟨a, hparse⟩ : ∃ a, parseAppArgs b maxPorts args = .ok (some a) := by
      cases hresult : parseAppArgs b maxPorts args with
      | error e => exact absurd hresult (parseAppArgs_ne_error hlen.1)
      | ok r =>
        cases r with
        | none => exact absurd hresult haccept
        | some a => exact ⟨a, rfl⟩
    obtain ⟨hids, z, hlast, hfits, hne⟩ := parseAppArgs_ok hparse
    obtain ⟨z', hlast', hpos, hle⟩ := h.rings
    obtain rfl := Option.some.inj (hlast.symm.trans hlast')
    have hrings : (a.numRings : ℤ) = z := hfits.mpr (by omega)
    have hreads : ∀ k ≤ a.ids.length, ∀ m ≤ a.numRings,
        ∀ p ∈ getStatusJsonReads k m, p.InArray b := by
      intro k hk m hm
      rw [hids] at hk
      exact (getStatusJsonReads_inArray (hk.trans hlen.1) (hk.trans hlen.2)).mpr (by omega)
    have hbelow : ∀ i, i ∈ a.ids ↔ i < maxPorts ∧ ∃ m ∈ writtenMasks args, m.testBit i = true := by
      intro i
      rw [hids, mem_namedPorts]
      exact and_congr_right (h.written i)
    refine ⟨a, hparse, ?_⟩
    constructor
    · exact hids ▸ hlen.1
    · exact hids ▸ h.ascending.imp Nat.ne_of_lt
    · exact fun i hi => ((hbelow i).mp hi).1
    · rw [hids]
      refine List.Pairwise.eq_of_mem_iff h.ascending (List.pairwise_lt_range.filter _) fun i => ?_
      rw [List.mem_filter, List.mem_range, decide_eq_true_iff, ← hbelow, hids]
    · rw [hlast, hrings]
    · exact hreads _ le_rfl _ le_rfl
    · exact hreads

/-- Two ports, given by two masks, and ten rings. -/
def twoMasks : List CStr := ["-p".toList, "1".toList, "-p2".toList, "-n".toList, "10".toList]

/-- They leave the tables in range. -/
theorem argsInRange_twoMasks : ∃ a, parseAppArgs .default 2 twoMasks = .ok (some a) ∧
    a.InRange .default 2 twoMasks := by
  refine (argsInRange_iff (by decide) (by decide +kernel)).mpr ⟨by decide +kernel, ?_, 10, ?_⟩
  · decide +kernel
  · decide +kernel

/-- The same port, given by two masks, and ten rings. -/
def repeatedPort : List CStr :=
  ["-p".toList, "1".toList, "-p".toList, "1".toList, "-n".toList, "10".toList]

/-- A port that is given twice is stored twice. -/
theorem not_argsInRange_repeatedPort : ∃ a, parseAppArgs .default 2 repeatedPort = .ok (some a) ∧
    a.ids = [0, 0] ∧ ¬ a.InRange .default 2 repeatedPort := by
  refine ⟨⟨[0, 0], 10, [], 0⟩, by decide +kernel, rfl, fun h => ?_⟩
  exact absurd h.distinct (by decide)

end Results

end Spp.Primary
