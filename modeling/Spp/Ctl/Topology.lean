import Mathlib.Data.List.Dedup
import Spp.Ctl.VfShell
import Spp.Lib.PyText
import Spp.Lib.TokenList

/-!
# The topology drawing

`SppTopo.to_dot` writes the graph of the ports and patches of all `spp_nfv` processes. A
table of ten colours is indexed by client-id, and the port that decides the bottom of the
drawing is taken from variables that are unbound when there is no port to draw.
-/

namespace Spp.Ctl.Topology

open Python
open CLib (bind_eq_ok)

section Source

/-- A patch of a status object. -/
structure Patch where
  src : Str
  dst : Str
  deriving DecidableEq, Repr

/-- A status object of `spp_nfv`, as far as the drawing reads it. -/
structure Sec where
  clientId : ℕ
  status : Str
  ports : List Str
  patches : List Patch
  deriving DecidableEq, Repr

/-- `SEC_COLORS`. -/
def secColors : List Str :=
  [lit "blue", lit "green", lit "orange", lit "chocolate", lit "black",
    lit "cyan3", lit "green3", lit "indianred", lit "lawngreen", lit "limegreen"]

/-- The lists that the drawing is put together from, and the variables that keep their values
between the loops; `none` stands for an unbound one. -/
structure Locals where
  phys : List Str
  rings : List Str
  vhosts : List Str
  links : List Str
  rType : Option Str
  rId : Option Str
  src : Option (Str × Str)
  dst : Option (Str × Str)
  deriving DecidableEq, Repr

/-- The variables before the first process. -/
def Locals.start : Locals := ⟨[], [], [], [], none, none, none, none⟩

/-- `_is_valid_port`. -/
def isValidPort (port : Str) : Bool := 58 ∈ port && (port.splitOn 58).length = 2

/-- `a, b = l`. -/
def unpack : List Str → Except CliExc (Str × Str)
  | [a, b] => .ok (a, b)
  | _ => .error .valueError

/-- `node_template`. -/
def nodeTemplate (rType rId : Str) : Str := rType ++ lit "_" ++ rId

/-- The loop body over the ports of a process. -/
def parsePort (s : Locals) (port : Str) : Except CliExc Locals :=
  if isValidPort port then
    let rType := (port.splitOn 58).headD []
    let s := { s with rType := some rType }
    if rType = lit "phy" then .ok { s with phys := s.phys ++ [port] }
    else if rType = lit "ring" then .ok { s with rings := s.rings ++ [port] }
    else if rType = lit "vhost" then .ok { s with vhosts := s.vhosts ++ [port] }
    else if rType = lit "pcap" then .ok s
    else if rType = lit "nullpmd" then .ok s
    else .error .valueError
  else .ok s

/-- One end of a patch, which stays as it was for a port that is not valid. -/
def readEnd (port : Str) (old : Option (Str × Str)) : Except CliExc (Option (Str × Str)) :=
  if isValidPort port then (unpack (port.splitOn 58)).map some else .ok old

/-- `LINE_STYLE` of a status. -/
def lineStyle (status : Str) : Str :=
  if status = lit "running" then lit "solid" else lit "dashed"

/-- The attributes of a link. -/
def linkAttrs (clientId : ℕ) (color lStyle : Str) : Str :=
  lit "[label=\"" ++ (lit "sec" ++ intText clientId) ++ lit "\", color=\"" ++ color ++
    lit "\", style=\"" ++ lStyle ++ lit "\"]"

/-- `link_style`. -/
def linkStyle (src dst : Str × Str) (attrs : Str) : Str :=
  nodeTemplate src.1 src.2 ++ lit " -> " ++ nodeTemplate dst.1 dst.2 ++ attrs ++ lit ";"

/-- The loop body over the patches of a process. -/
def parsePatch (sec : Sec) (s : Locals) (patch : Patch) : Except CliExc Locals :=
  match secColors[sec.clientId]? with
  | none => .error .indexError
  | some color => do
    let attrs := linkAttrs sec.clientId color (lineStyle sec.status)
    let src ← readEnd patch.src s.src
    let dst ← readEnd patch.dst s.dst
    match src, dst with
    | some a, some b => .ok { s with
        links := s.links ++ [linkStyle a b attrs]
        src := src
        dst := dst }
    | _, _ => .error .unboundLocalError

/-- The loop body over the processes. -/
def parseSec (s : Locals) : Option Sec → Except CliExc Locals
  | none => .ok s
  | some sec => do
    let s ← sec.ports.foldlM parsePort s
    sec.patches.foldlM (parsePatch sec) s

/-- The loop that collects the nodes of a type of ports, and leaves `r_type` and `r_id`. -/
def collectNodes : List Str → Locals → Except CliExc (Locals × List Str)
  | [], s => .ok (s, [])
  | node :: nodes, s => do
    let (rType, rId) ← unpack (node.splitOn 58)
    let (s, names) ← collectNodes nodes { s with rType := some rType, rId := some rId }
    return (s, nodeTemplate rType rId :: names)

/-- `re.sub('_', ':', node)`. -/
def nodeLabel (node : Str) : Str := node.map fun c => if c = 95 then 58 else c

/-- The declaration of a node. -/
def nodeLine (color node : Str) : Str :=
  node ++ lit "[label=\"" ++ nodeLabel node ++ lit "\", fillcolor=\"" ++ color ++ lit "\"];"

/-- A line that aligns nodes. -/
def rankLine (nodes : List Str) : Str :=
  lit "\x7brank=same; " ++ (lit "; ").intercalate nodes ++ lit "\x7d"

/-- The bottom of the drawing: the first `phy` or else `vhost` port, and otherwise what the
loops have left. -/
def bottomLine (s : Locals) : Except CliExc Str := do
  let (rType, rId) ← match s.phys, s.vhosts with
    | node :: _, _ => (unpack (node.splitOn 58)).map fun r => (some r.1, some r.2)
    | [], node :: _ => (unpack (node.splitOn 58)).map fun r => (some r.1, some r.2)
    | [], [] => .ok (s.rType, s.rId)
  match rType, rId with
  | some rType, some rId => .ok (lit "\x7brank=max; " ++ nodeTemplate rType rId ++ lit "\x7d")
  | _, _ => .error .unboundLocalError

/-- A subgraph. -/
def subgraphText (clusterId label ports : Str) : Str :=
  lit "subgraph " ++ clusterId ++ lit " \x7blabel=\"" ++ label ++ lit "\" " ++ ports ++ lit "\x7d"

/-- The subgraphs that the user has given, numbered from `cnt` on. -/
def userSubgraphs : ℕ → List (Str × Str) → List Str
  | _, [] => []
  | cnt, (label, val) :: subgraphs =>
    subgraphText (lit "cluster" ++ intText cnt) label (val.map fun c => if c = 58 then 95 else c) ::
      userSubgraphs (cnt + 1) subgraphs

/-- The subgraph of the host, with those of the user in it. -/
def hostSubgraph (subgraphs : List (Str × Str)) (nodes : List Str) : Str :=
  let sgPorts := (lit "; ").intercalate nodes
  let ssgs := userSubgraphs 1 subgraphs
  if ssgs = [] then subgraphText (lit "cluster0") (lit "Host") sgPorts
  else lit "subgraph cluster0 \x7b" ++
    (lit "; ").intercalate ((lit "label=\"Host\" " ++ sgPorts) :: ssgs) ++ lit "\x7d"

variable (setList : List Str → List Str) (subgraphs : List (Str × Str))

/-- The lines that `to_dot` puts together from the nodes, the bottom line and the links. -/
def outputLines (phyNodes ringNodes vhostNodes : List Str) (bottom : Str) (links : List Str) :
    List Str :=
  [lit "digraph spp\x7b", lit "newrank=true;",
    lit "node[shape=\"rectangle\", style=\"filled\"];"] ++
  phyNodes.map (nodeLine (lit "white")) ++ ringNodes.map (nodeLine (lit "yellow")) ++
  vhostNodes.map (nodeLine (lit "limegreen")) ++
  [rankLine ringNodes, rankLine vhostNodes, bottom] ++
  (if phyNodes = [] then [] else [rankLine phyNodes]) ++
  [hostSubgraph subgraphs (phyNodes ++ ringNodes)] ++ links ++ [lit "\x7d"]

/-- `SppTopo.to_dot`, up to the lines that it writes; `setList l` is `list(set(l))`. -/
def toDot (secList : List (Option Sec)) : Except CliExc (List Str) := do
  let s ← secList.foldlM parseSec Locals.start
  let (s, phyNodes) ← collectNodes s.phys s
  let (s, ringNodes) ← collectNodes s.rings s
  let (s, vhostNodes) ← collectNodes s.vhosts s
  let bottom ← bottomLine s
  return outputLines subgraphs (setList phyNodes) (setList ringNodes) (setList vhostNodes) bottom
    s.links

end Source

section Statement

/-- The types of ports. -/
inductive PortType
  | phy
  | ring
  | vhost
  | pcap
  | nullpmd
  deriving DecidableEq, Repr

/-- The name of a type. -/
def PortType.name : PortType → Str
  | .phy => lit "phy"
  | .ring => lit "ring"
  | .vhost => lit "vhost"
  | .pcap => lit "pcap"
  | .nullpmd => lit "nullpmd"

/-- Whether ports of a type are drawn as nodes. -/
def PortType.isDrawn : PortType → Bool
  | .phy | .ring | .vhost => true
  | .pcap | .nullpmd => false

/-- A port of a process. -/
structure ResUid where
  type : PortType
  id : ℕ
  deriving DecidableEq, Repr

/-- A port as it is written, such as `phy:0`. -/
def ResUid.text (p : ResUid) : Str := p.type.name ++ 58 :: intText p.id

/-- The name of its node, such as `phy_0`. -/
def ResUid.node (p : ResUid) : Str := nodeTemplate p.type.name (intText p.id)

/-- A process of `spp_nfv`. -/
structure NfvProcess where
  clientId : ℕ
  running : Bool
  ports : List ResUid
  patches : List (ResUid × ResUid)

/-- The status object of a process. -/
def NfvProcess.status (p : NfvProcess) : Sec where
  clientId := p.clientId
  status := if p.running then lit "running" else lit "idling"
  ports := p.ports.map ResUid.text
  patches := p.patches.map fun patch => ⟨patch.1.text, patch.2.text⟩

/-- The ports to draw, with repetitions. -/
def drawnPorts (procs : List NfvProcess) : List ResUid :=
  (procs.flatMap NfvProcess.ports).filter fun p => p.type.isDrawn

/-- An edge of a graph. -/
structure Edge where
  src : Str
  dst : Str
  label : Str
  style : Str
  deriving DecidableEq, Repr

/-- The edges of a process. -/
def NfvProcess.edges (p : NfvProcess) : List Edge :=
  p.patches.map fun patch =>
    ⟨patch.1.node, patch.2.node, lit "sec" ++ intText p.clientId,
      if p.running then lit "solid" else lit "dashed"⟩

/-- A letter, a digit or an underscore. -/
def isNameChar (c : ℕ) : Bool :=
  isDigit c || (65 ≤ c && c ≤ 90) || (97 ≤ c && c ≤ 122) || c = 95

/-- The node that a line declares: it starts with the name and the attributes follow.
`node` is the keyword for the attributes of all nodes. -/
def declaredNode (line : Str) : Option Str :=
  let name := line.takeWhile isNameChar
  if (lit "[").isPrefixOf (line.dropWhile isNameChar) && name != lit "node" then some name else none

/-- The edge that a line draws: two names with an arrow between them, and the attributes in
quotation marks. -/
def drawnEdge (line : Str) : Option Edge :=
  let rest := line.dropWhile isNameChar
  if (lit " -> ").isPrefixOf rest then
    match ((rest.drop 4).dropWhile isNameChar).splitOn 34 with
    | [_, label, _, _, _, style, _] =>
      some ⟨line.takeWhile isNameChar, (rest.drop 4).takeWhile isNameChar, label, style⟩
    | _ => none
  else none

/-- A drawing of processes: one declaration of each distinct port that is drawn, one edge of
each patch, and no arrow anywhere else unless the user has given one in a subgraph. -/
structure DrawsFaithfully (subgraphs : List (Str × Str)) (procs : List NfvProcess)
    (lines : List Str) : Prop where
  nodes : (lines.filterMap declaredNode).Perm ((drawnPorts procs).dedup.map ResUid.node)
  edges : lines.filterMap drawnEdge = procs.flatMap NfvProcess.edges
  others : ∀ line ∈ lines, drawnEdge line = none → 62 ∈ line →
    ∃ subgraph ∈ subgraphs, 62 ∈ subgraph.1 ∨ 62 ∈ subgraph.2

end Statement

section Ports

variable {p : ResUid} {c : ℕ}

/-- The id of a port is written in digits. -/
theorem isDigit_of_mem_id {n : ℕ} (hc : c ∈ intText n) : isDigit c = true := by
  rw [intText_eq, if_pos (Int.natCast_nonneg n), Int.toNat_natCast] at hc
  exact isDigit_toDigits hc

/-- The name of a type is written in letters. -/
theorem isLetter_of_mem_name {t : PortType} (hc : c ∈ t.name) : 97 ≤ c ∧ c ≤ 122 := by
  have hall : ∀ c ∈ t.name, 97 ≤ c ∧ c ≤ 122 := by cases t <;> decide
  exact hall c hc

/-- A character of a node is one of a name. -/
theorem isNameChar_of_mem_node (hc : c ∈ p.node) : isNameChar c = true := by
  unfold isNameChar
  rcases List.mem_append.mp hc with hc | hc
  · rcases List.mem_append.mp hc with hc | hc
    · obtain ⟨hle, hlt⟩ := isLetter_of_mem_name hc
      simp [hle, hlt]
    · have hunderscore : c = 95 := List.mem_singleton.mp hc
      simp [hunderscore]
  · simp [isDigit_of_mem_id hc]

/-- A character that is not one of a name is in no node. -/
theorem notMem_node (h : isNameChar c = false) : c ∉ p.node := fun hc =>
  Bool.false_ne_true (h.symm.trans (isNameChar_of_mem_node hc))

/-- A port is written in two parts. -/
theorem splitOn_text : p.text.splitOn 58 = [p.type.name, intText p.id] := by
  have hname : 58 ∉ p.type.name := fun hc => absurd (isLetter_of_mem_name hc).1 (by decide)
  have hid : 58 ∉ intText p.id := fun hc => absurd (isDigit_of_mem_id hc) (by decide)
  rw [ResUid.text, List.splitOn_append_cons_self_of_not_mem hname,
    List.splitOn_eq_singleton hid]

/-- A port is valid as it is written. -/
theorem isValidPort_text : isValidPort p.text = true := by
  have hcolon : 58 ∈ p.text := List.mem_append_right _ List.mem_cons_self
  simp [isValidPort, splitOn_text, hcolon]

/-- An end of a patch is read as a port. -/
theorem readEnd_text (old : Option (Str × Str)) :
    readEnd p.text old = .ok (some (p.type.name, intText p.id)) := by
  rw [readEnd, if_pos isValidPort_text, splitOn_text]
  rfl

/-- The label of a node is the port as it is written. -/
theorem nodeLabel_node : nodeLabel p.node = p.text := by
  have hname : (p.type.name.map fun c => if c = 95 then 58 else c) = p.type.name := by
    refine (List.map_congr_left fun c hc => ?_).trans (List.map_id _)
    have hle := isLetter_of_mem_name hc
    exact if_neg (by omega)
  have hid : ((intText p.id).map fun c => if c = 95 then 58 else c) = intText p.id := by
    refine (List.map_congr_left fun c hc => ?_).trans (List.map_id _)
    exact if_neg fun heq => absurd (heq ▸ isDigit_of_mem_id hc) (by decide)
  rw [nodeLabel, ResUid.node, nodeTemplate, List.map_append, List.map_append, hname, hid,
    List.append_assoc]
  rfl

/-- A node stands for one port. -/
theorem node_injective : Function.Injective ResUid.node := by
  intro p q h
  have htext : p.text = q.text := by rw [← nodeLabel_node, ← nodeLabel_node, h]
  have hsplit := congrArg (List.splitOn 58) htext
  rw [splitOn_text, splitOn_text] at hsplit
  obtain ⟨hname, hid⟩ : p.type.name = q.type.name ∧ intText p.id = intText q.id := by
    simpa using hsplit
  have htype : ∀ t u : PortType, t.name = u.name → t = u := by
    intro t u
    cases t <;> cases u <;> decide
  have hnum := congrArg (intOfStr Interpreter.ascii) hid
  rw [intOfStr_intText, intOfStr_intText, Option.some_inj, Int.natCast_inj] at hnum
  obtain ⟨type, id⟩ := p
  exact congrArg₂ ResUid.mk (htype _ _ hname) hnum

end Ports

section Collect

variable {s s' : Locals} {p : NfvProcess} {procs done : List NfvProcess} {ports : List ResUid}

/-- The ports of a type. -/
def portsOf (type : PortType) (ports : List ResUid) : List ResUid :=
  ports.filter fun p => p.type = type

/-- The line of a patch. -/
def NfvProcess.linkLine (p : NfvProcess) (patch : ResUid × ResUid) : Str :=
  linkStyle (patch.1.type.name, intText patch.1.id) (patch.2.type.name, intText patch.2.id)
    (linkAttrs p.clientId (secColors.getD p.clientId []) (lineStyle p.status.status))

/-- A process whose patches, if it has any, have a colour. -/
def NfvProcess.Colored (p : NfvProcess) : Prop := p.patches ≠ [] → p.clientId < 10

/-- A port joins the list of its type. -/
theorem parsePort_text (q : ResUid) : parsePort s q.text = .ok { s with
    rType := some q.type.name
    phys := s.phys ++ (portsOf .phy [q]).map ResUid.text
    rings := s.rings ++ (portsOf .ring [q]).map ResUid.text
    vhosts := s.vhosts ++ (portsOf .vhost [q]).map ResUid.text } := by
  unfold parsePort
  rw [if_pos isValidPort_text, splitOn_text]
  obtain ⟨type, id⟩ := q
  cases type <;> simp [PortType.name, portsOf, lit]

/-- The ports of a process join the lists of their types. -/
theorem foldlM_parsePort : ∃ r, (ports.map ResUid.text).foldlM parsePort s = .ok { s with
    rType := r
    phys := s.phys ++ (portsOf .phy ports).map ResUid.text
    rings := s.rings ++ (portsOf .ring ports).map ResUid.text
    vhosts := s.vhosts ++ (portsOf .vhost ports).map ResUid.text } := by
  induction ports generalizing s with
  | nil => exact ⟨s.rType, by simp [portsOf, pure, Except.pure]⟩
  | cons q ports ih =>
    have hcons (type : PortType) : (portsOf type (q :: ports)).map ResUid.text =
        (portsOf type [q]).map ResUid.text ++ (portsOf type ports).map ResUid.text := by
      rw [← List.map_append, portsOf, portsOf, portsOf, ← List.filter_append]
      rfl
    obtain ⟨r, hr⟩ := @ih { s with
      rType := some q.type.name
      phys := s.phys ++ (portsOf .phy [q]).map ResUid.text
      rings := s.rings ++ (portsOf .ring [q]).map ResUid.text
      vhosts := s.vhosts ++ (portsOf .vhost [q]).map ResUid.text }
    refine ⟨r, ?_⟩
    rw [List.map_cons, List.foldlM_cons, parsePort_text]
    simp only [hcons, ← List.append_assoc]
    exact hr

/-- A patch of a process with a colour adds its line. -/
theorem parsePatch_text (hcolor : p.clientId < 10) (patch : ResUid × ResUid) :
    parsePatch p.status s ⟨patch.1.text, patch.2.text⟩ = .ok { s with
      links := s.links ++ [p.linkLine patch]
      src := some (patch.1.type.name, intText patch.1.id)
      dst := some (patch.2.type.name, intText patch.2.id) } := by
  have hlen : p.status.clientId < secColors.length := hcolor
  have hget := List.getElem?_eq_getElem hlen
  have hgetD : secColors.getD p.clientId [] = secColors[p.status.clientId] := by
    rw [List.getD_eq_getElem?_getD]
    exact congrArg (Option.getD · []) hget
  unfold parsePatch NfvProcess.linkLine
  rw [hget, hgetD]
  dsimp only
  rw [readEnd_text, readEnd_text]
  rfl

/-- A patch of another process raises an exception. -/
theorem parsePatch_indexError (hcolor : ¬ p.clientId < 10) (patch : Patch) :
    parsePatch p.status s patch = .error .indexError := by
  have hnone : secColors[p.status.clientId]? = none :=
    List.getElem?_eq_none (Nat.le_of_not_lt hcolor)
  rw [parsePatch, hnone]

/-- The patches of a process with a colour add their lines. -/
theorem foldlM_parsePatch (hcolor : p.clientId < 10) (patches : List (ResUid × ResUid)) :
    ∃ a b, (patches.map fun patch => Patch.mk patch.1.text patch.2.text).foldlM
      (parsePatch p.status) s =
        .ok { s with links := s.links ++ patches.map p.linkLine, src := a, dst := b } := by
  induction patches generalizing s with
  | nil => exact ⟨s.src, s.dst, by simp [pure, Except.pure]⟩
  | cons patch patches ih =>
    obtain ⟨a, b, hab⟩ := @ih { s with
      links := s.links ++ [p.linkLine patch]
      src := some (patch.1.type.name, intText patch.1.id)
      dst := some (patch.2.type.name, intText patch.2.id) }
    refine ⟨a, b, ?_⟩
    rw [List.map_cons, List.foldlM_cons, parsePatch_text hcolor, List.map_cons,
      List.append_cons s.links _ (patches.map p.linkLine)]
    exact hab

/-- What the loop over the processes has collected. -/
structure Collected (procs : List NfvProcess) (s : Locals) : Prop where
  phys : s.phys = (portsOf .phy (procs.flatMap NfvProcess.ports)).map ResUid.text
  rings : s.rings = (portsOf .ring (procs.flatMap NfvProcess.ports)).map ResUid.text
  vhosts : s.vhosts = (portsOf .vhost (procs.flatMap NfvProcess.ports)).map ResUid.text
  links : s.links = procs.flatMap fun p => p.patches.map p.linkLine
  rId : s.rId = none

/-- A process whose patches have a colour is collected. -/
theorem Collected.parseSec (h : Collected done s) (hcolor : p.Colored) :
    ∃ s', parseSec s (some p.status) = .ok s' ∧ Collected (done ++ [p]) s' := by
  obtain ⟨r, hports⟩ := @foldlM_parsePort s p.ports
  have hparse : ∃ a b, (p.patches.map fun patch => Patch.mk patch.1.text patch.2.text).foldlM
      (parsePatch p.status) { s with
        rType := r
        phys := s.phys ++ (portsOf .phy p.ports).map ResUid.text
        rings := s.rings ++ (portsOf .ring p.ports).map ResUid.text
        vhosts := s.vhosts ++ (portsOf .vhost p.ports).map ResUid.text } =
      .ok { s with
        rType := r
        phys := s.phys ++ (portsOf .phy p.ports).map ResUid.text
        rings := s.rings ++ (portsOf .ring p.ports).map ResUid.text
        vhosts := s.vhosts ++ (portsOf .vhost p.ports).map ResUid.text
        links := s.links ++ p.patches.map p.linkLine
        src := a
        dst := b } := by
    by_cases hpatches : p.patches = []
    · rw [hpatches]
      exact ⟨s.src, s.dst, by simp [pure, Except.pure]⟩
    · exact foldlM_parsePatch (hcolor hpatches) p.patches
  obtain ⟨a, b, hpatches⟩ := hparse
  refine ⟨_, bind_eq_ok.mpr ⟨_, hports, hpatches⟩, ?_⟩
  have hflat (type : PortType) : (portsOf type ((done ++ [p]).flatMap NfvProcess.ports)).map
      ResUid.text = (portsOf type (done.flatMap NfvProcess.ports)).map ResUid.text ++
        (portsOf type p.ports).map ResUid.text := by
    rw [List.flatMap_append, List.flatMap_singleton, portsOf, List.filter_append, List.map_append]
    rfl
  constructor
  · rw [hflat, ← h.phys]
  · rw [hflat, ← h.rings]
  · rw [hflat, ← h.vhosts]
  · rw [List.flatMap_append, List.flatMap_singleton, ← h.links]
  · exact h.rId

/-- A process that is parsed has a colour for its patches. -/
theorem colored_of_parseSec (h : parseSec s (some p.status) = .ok s') : p.Colored := by
  obtain ⟨s₁, -, hpatches⟩ := bind_eq_ok.mp h
  intro hne
  by_contra hcolor
  obtain ⟨patch, patches, hcons⟩ := List.exists_cons_of_ne_nil hne
  have hstatus : p.status.patches = ⟨patch.1.text, patch.2.text⟩ ::
      patches.map fun patch => Patch.mk patch.1.text patch.2.text := by
    rw [NfvProcess.status, hcons, List.map_cons]
  rw [hstatus, List.foldlM_cons, parsePatch_indexError hcolor] at hpatches
  cases hpatches

/-- Processes whose patches have colours are collected. -/
theorem Collected.foldlM (h : Collected done s) (hcolor : ∀ p ∈ procs, p.Colored) :
    ∃ s', (procs.map fun p => some p.status).foldlM Topology.parseSec s = .ok s' ∧
      Collected (done ++ procs) s' := by
  induction procs generalizing done s with
  | nil => exact ⟨s, rfl, by rwa [List.append_nil]⟩
  | cons p procs ih =>
    obtain ⟨s₁, hparse, hs₁⟩ := h.parseSec (hcolor p List.mem_cons_self)
    obtain ⟨s₂, hfold, hs₂⟩ := ih hs₁ fun q hq => hcolor q (List.mem_cons_of_mem p hq)
    refine ⟨s₂, bind_eq_ok.mpr ⟨s₁, hparse, hfold⟩, ?_⟩
    rwa [List.append_assoc] at hs₂

/-- If the processes are parsed, then their patches have colours. -/
theorem colored_of_foldlM (h : (procs.map fun p => some p.status).foldlM parseSec s = .ok s') :
    ∀ p ∈ procs, p.Colored := by
  induction procs generalizing s with
  | nil => exact fun p hp => absurd hp List.not_mem_nil
  | cons p procs ih =>
    obtain ⟨s₁, hparse, hfold⟩ := bind_eq_ok.mp h
    exact List.forall_mem_cons.mpr ⟨colored_of_parseSec hparse, ih hfold⟩

end Collect

section Lines

variable {c d : ℕ} {name rest line label ports : Str} {nodes : List Str}
  {subgraphs : List (Str × Str)}

/-- A name in front of a character that is not one of a name. -/
theorem scan_name (hname : ∀ c ∈ name, isNameChar c = true) (hc : isNameChar c = false) :
    (name ++ c :: rest).takeWhile isNameChar = name ∧
      (name ++ c :: rest).dropWhile isNameChar = c :: rest := by
  rw [List.takeWhile_append_of_pos hname, List.dropWhile_append_of_pos hname,
    List.takeWhile_cons_of_neg (by simp [hc]), List.dropWhile_cons_of_neg (by simp [hc]),
    List.append_nil]
  exact ⟨rfl, rfl⟩

/-- A line that neither declares a node nor draws an edge. -/
def Silent (line : Str) : Prop := declaredNode line = none ∧ drawnEdge line = none

/-- A name that neither an attribute nor an arrow follows. -/
theorem silent_of_name (hname : ∀ c ∈ name, isNameChar c = true) (hc : isNameChar c = false)
    (hattr : c ≠ 91) (harrow : c ≠ 32 ∨ d ≠ 45) : Silent (name ++ c :: d :: rest) := by
  obtain ⟨-, hdrop⟩ := @scan_name c name (d :: rest) hname hc
  have hbracket : lit "[" = [91] := by decide
  have hlink : lit " -> " = [32, 45, 62, 32] := by decide
  refine ⟨?_, ?_⟩
  · simp [declaredNode, hdrop, hbracket, Ne.symm hattr]
  · unfold drawnEdge
    rw [hdrop, hlink]
    refine if_neg ?_
    simp only [List.isPrefixOf, Bool.and_eq_true, beq_iff_eq, not_and]
    rintro rfl rfl
    exact absurd harrow (by simp)

/-- A line in braces. -/
theorem silent_brace (line : Str) : Silent (lit "\x7brank=" ++ line) :=
  @silent_of_name 123 114 [] _ (by simp) (by decide) (by decide) (.inl (by decide))

/-- A subgraph. -/
theorem silent_subgraph (line : Str) : Silent (lit "subgraph " ++ 99 :: line) :=
  @silent_of_name 32 99 (lit "subgraph") _ (by decide) (by decide) (by decide) (.inr (by decide))

/-- The subgraph of the host. -/
theorem silent_hostSubgraph : Silent (hostSubgraph subgraphs nodes) := by
  unfold hostSubgraph
  dsimp only
  split
  · exact silent_subgraph _
  · exact silent_subgraph _

/-- The declaration of a node starts with the name of the node. -/
theorem scan_nodeLine (p : ResUid) (color : Str) :
    ∃ rest, (nodeLine color p.node).takeWhile isNameChar = p.node ∧
      (nodeLine color p.node).dropWhile isNameChar = 91 :: rest := by
  have hbracket : lit "[label=\"" = 91 :: lit "label=\"" := by decide
  have hline : nodeLine color p.node = p.node ++ 91 :: (lit "label=\"" ++ nodeLabel p.node ++
      lit "\", fillcolor=\"" ++ color ++ lit "\"];") := by
    simp only [nodeLine, hbracket, List.append_assoc, List.cons_append]
  rw [hline]
  exact ⟨_, scan_name (fun c hc => isNameChar_of_mem_node hc) (by decide)⟩

/-- The declaration of a node declares it, and draws no edge. -/
theorem nodeLine_spec (p : ResUid) (color : Str) :
    declaredNode (nodeLine color p.node) = some p.node ∧
      drawnEdge (nodeLine color p.node) = none := by
  obtain ⟨rest, htake, hdrop⟩ := scan_nodeLine p color
  have hkeyword : p.node ≠ lit "node" := by
    intro heq
    have hunderscore : 95 ∈ p.node :=
      List.mem_append_left _ (List.mem_append_right _ (by decide))
    exact absurd (heq ▸ hunderscore) (by decide)
  unfold declaredNode drawnEdge
  rw [htake, hdrop]
  refine ⟨if_pos ?_, rfl⟩
  rw [Bool.and_eq_true, bne_iff_ne]
  exact ⟨rfl, hkeyword⟩

/-- Parts of a text with quotation marks around every other one. -/
theorem splitOn_attrs {label color style : Str} (hlabel : 34 ∉ label) (hcolor : 34 ∉ color)
    (hstyle : 34 ∉ style) :
    (91 :: (lit "label=" ++ 34 :: (label ++ 34 :: (lit ", color=" ++ 34 ::
      (color ++ 34 :: (lit ", style=" ++ 34 :: (style ++ 34 :: lit "];"))))))).splitOn 34 =
      [lit "[label=", label, lit ", color=", color, lit ", style=", style, lit "];"] := by
  have h₁ : 34 ∉ lit "[label=" := by decide
  have h₂ : 34 ∉ lit ", color=" := by decide
  have h₃ : 34 ∉ lit ", style=" := by decide
  have h₄ : 34 ∉ lit "];" := by decide
  have hhead (rest : Str) : 91 :: (lit "label=" ++ rest) = lit "[label=" ++ rest := rfl
  rw [hhead, List.splitOn_append_cons_self_of_not_mem h₁,
    List.splitOn_append_cons_self_of_not_mem hlabel, List.splitOn_append_cons_self_of_not_mem h₂,
    List.splitOn_append_cons_self_of_not_mem hcolor, List.splitOn_append_cons_self_of_not_mem h₃,
    List.splitOn_append_cons_self_of_not_mem hstyle, List.splitOn_eq_singleton h₄]

/-- The style of the links of a process. -/
theorem lineStyle_status (p : NfvProcess) :
    lineStyle p.status.status = if p.running then lit "solid" else lit "dashed" := by
  have hstatus : p.status.status = if p.running then lit "running" else lit "idling" := rfl
  rw [hstatus, lineStyle]
  cases p.running <;> decide

/-- The line of a patch draws its edge, and declares no node. -/
theorem linkLine_spec {p : NfvProcess} (hcolor : p.clientId < 10) (patch : ResUid × ResUid) :
    declaredNode (p.linkLine patch) = none ∧
      drawnEdge (p.linkLine patch) = some ⟨patch.1.node, patch.2.node,
        lit "sec" ++ intText p.clientId, if p.running then lit "solid" else lit "dashed"⟩ := by
  have hlabel : 34 ∉ lit "sec" ++ intText p.clientId := by
    rw [List.mem_append]
    exact not_or.mpr ⟨by decide, fun hc => absurd (isDigit_of_mem_id hc) (by decide)⟩
  have hname : 34 ∉ secColors.getD p.clientId [] := by
    have hall : ∀ color ∈ secColors, 34 ∉ color := by decide
    have hlen : p.clientId < secColors.length := hcolor
    rw [List.getD_eq_getElem?_getD, List.getElem?_eq_getElem hlen]
    exact hall _ (List.getElem_mem hlen)
  have hstyle : 34 ∉ if p.running then lit "solid" else lit "dashed" := by
    cases p.running <;> decide
  -- the line, cut behind the names
  have hline : p.linkLine patch = patch.1.node ++ 32 :: 45 :: 62 :: 32 :: (patch.2.node ++
      (91 :: (lit "label=" ++ 34 :: ((lit "sec" ++ intText p.clientId) ++ 34 ::
        (lit ", color=" ++ 34 :: (secColors.getD p.clientId [] ++ 34 :: (lit ", style=" ++ 34 ::
          ((if p.running then lit "solid" else lit "dashed") ++ 34 :: lit "];")))))))) := by
    have h₁ : lit " -> " = [32, 45, 62, 32] := by decide
    have h₂ : lit "[label=\"" = 91 :: (lit "label=" ++ [34]) := by decide
    have h₃ : lit "\", color=\"" = 34 :: (lit ", color=" ++ [34]) := by decide
    have h₄ : lit "\", style=\"" = 34 :: (lit ", style=" ++ [34]) := by decide
    have h₅ : lit "];" = [93] ++ lit ";" := by decide
    have h₆ : lit "\"]" = [34, 93] := by decide
    simp only [NfvProcess.linkLine, linkStyle, linkAttrs, lineStyle_status, ResUid.node, h₁, h₂,
      h₃, h₄, h₅, h₆, List.append_assoc, List.cons_append, List.nil_append]
  obtain ⟨htake, hdrop⟩ := @scan_name 32 patch.1.node _
    (fun c hc => isNameChar_of_mem_node hc) (by decide)
  obtain ⟨htake', hdrop'⟩ := @scan_name 91 patch.2.node _
    (fun c hc => isNameChar_of_mem_node hc) (by decide)
  unfold declaredNode drawnEdge
  rw [hline, htake, hdrop]
  refine ⟨rfl, ?_⟩
  have harrow (rest : Str) : (lit " -> ").isPrefixOf (32 :: 45 :: 62 :: 32 :: rest) = true := rfl
  have hcut (rest : Str) : (32 :: 45 :: 62 :: 32 :: rest).drop 4 = rest := rfl
  dsimp only
  rw [if_pos (harrow _), hcut, htake', hdrop', splitOn_attrs hlabel hname hstyle]

/-- The lines of processes whose patches have colours. -/
theorem links_spec {procs : List NfvProcess} (hcolor : ∀ p ∈ procs, p.Colored) :
    (procs.flatMap fun p => p.patches.map p.linkLine).filterMap declaredNode = [] ∧
      (procs.flatMap fun p => p.patches.map p.linkLine).filterMap drawnEdge =
        procs.flatMap NfvProcess.edges := by
  have hlink : ∀ p ∈ procs, ∀ patch ∈ p.patches, declaredNode (p.linkLine patch) = none ∧
      drawnEdge (p.linkLine patch) = some ⟨patch.1.node, patch.2.node,
        lit "sec" ++ intText p.clientId, if p.running then lit "solid" else lit "dashed"⟩ :=
    fun p hp patch hpatch =>
      linkLine_spec (hcolor p hp (List.ne_nil_of_mem hpatch)) patch
  constructor
  · refine List.filterMap_eq_nil_iff.mpr fun line hline => ?_
    obtain ⟨p, hp, hline⟩ := List.mem_flatMap.mp hline
    obtain ⟨patch, hpatch, rfl⟩ := List.mem_map.mp hline
    exact (hlink p hp patch hpatch).1
  · rw [List.filterMap_flatMap]
    refine List.flatMap_congr fun p hp => ?_
    rw [List.filterMap_map, NfvProcess.edges, ← List.filterMap_eq_map]
    exact List.filterMap_congr fun patch hpatch => (hlink p hp patch hpatch).2

end Lines

section Arrows

variable {nodes : List Str} {subgraphs : List (Str × Str)}

/-- A character of a joined text is one of the joint or of a part. -/
theorem mem_intercalate {c : ℕ} {sep : Str} {parts : List Str} (h : c ∈ sep.intercalate parts) :
    c ∈ sep ∨ ∃ part ∈ parts, c ∈ part := by
  induction parts with
  | nil => exact absurd h List.not_mem_nil
  | cons part parts ih =>
    by_cases hnil : parts = []
    · rw [hnil, List.intercalate_singleton] at h
      exact .inr ⟨part, List.mem_cons_self, h⟩
    · rw [List.intercalate_cons_of_ne_nil hnil, List.mem_append, List.mem_append] at h
      rcases h with (h | h) | h
      · exact .inr ⟨part, List.mem_cons_self, h⟩
      · exact .inl h
      · exact (ih h).imp_right fun ⟨q, hq, hc⟩ => ⟨q, List.mem_cons_of_mem part hq, hc⟩

/-- Nodes in a row have no arrow in them. -/
theorem arrow_notMem_intercalate (hnodes : ∀ node ∈ nodes, 62 ∉ node) :
    62 ∉ (lit "; ").intercalate nodes := by
  intro h
  rcases mem_intercalate h with hsep | ⟨node, hnode, hmem⟩
  · exact absurd hsep (by decide)
  · exact hnodes node hnode hmem

/-- A line that aligns nodes has no arrow in it. -/
theorem arrow_notMem_rankLine (hnodes : ∀ node ∈ nodes, 62 ∉ node) : 62 ∉ rankLine nodes := by
  have h₁ : 62 ∉ lit "\x7brank=same; " := by decide
  have h₂ : 62 ∉ lit "\x7d" := by decide
  simp only [rankLine, List.mem_append, not_or]
  exact ⟨⟨h₁, arrow_notMem_intercalate hnodes⟩, h₂⟩

/-- A declaration of a port has no arrow in it. -/
theorem arrow_notMem_nodeLine (p : ResUid) {color : Str} (hcolor : 62 ∉ color) :
    62 ∉ nodeLine color p.node := by
  have h₁ : 62 ∉ lit "[label=\"" := by decide
  have h₂ : 62 ∉ lit "\", fillcolor=\"" := by decide
  have h₃ : 62 ∉ lit "\"];" := by decide
  have hnode : 62 ∉ p.node := notMem_node (by decide)
  have htext : 62 ∉ nodeLabel p.node := by
    intro h
    obtain ⟨c, hc, heq⟩ := List.mem_map.mp h
    split at heq
    · omega
    · exact hnode (heq ▸ hc)
  simp only [nodeLine, List.mem_append, not_or]
  exact ⟨⟨⟨⟨⟨hnode, h₁⟩, htext⟩, h₂⟩, hcolor⟩, h₃⟩

/-- An arrow in a subgraph is in its label or in its ports. -/
theorem arrow_mem_subgraphText {clusterId label ports : Str} (hid : 62 ∉ clusterId)
    (h : 62 ∈ subgraphText clusterId label ports) : 62 ∈ label ∨ 62 ∈ ports := by
  have h₁ : 62 ∉ lit "subgraph " := by decide
  have h₂ : 62 ∉ lit " \x7blabel=\"" := by decide
  have h₃ : 62 ∉ lit "\" " := by decide
  have h₄ : 62 ∉ lit "\x7d" := by decide
  simpa only [subgraphText, List.mem_append, h₁, h₂, h₃, h₄, hid, false_or, or_false] using h

/-- An arrow in a subgraph of the user is one that the user has given. -/
theorem arrow_mem_userSubgraphs {cnt : ℕ} {text : Str} (htext : text ∈ userSubgraphs cnt subgraphs)
    (h : 62 ∈ text) : ∃ subgraph ∈ subgraphs, 62 ∈ subgraph.1 ∨ 62 ∈ subgraph.2 := by
  induction subgraphs generalizing cnt with
  | nil => exact absurd htext List.not_mem_nil
  | cons subgraph subgraphs ih =>
    obtain ⟨label, val⟩ := subgraph
    rcases List.mem_cons.mp htext with rfl | htext
    · refine ⟨(label, val), List.mem_cons_self, ?_⟩
      have hid : 62 ∉ lit "cluster" ++ intText cnt := by
        rw [List.mem_append]
        exact not_or.mpr ⟨by decide, fun hc => absurd (isDigit_of_mem_id hc) (by decide)⟩
      refine (arrow_mem_subgraphText hid h).imp_right fun hports => ?_
      obtain ⟨c, hc, heq⟩ := List.mem_map.mp hports
      split at heq
      · omega
      · exact heq ▸ hc
    · obtain ⟨q, hq, hmem⟩ := ih htext
      exact ⟨q, List.mem_cons_of_mem (label, val) hq, hmem⟩

/-- So is an arrow in the subgraph of the host. -/
theorem arrow_mem_hostSubgraph (hnodes : ∀ node ∈ nodes, 62 ∉ node)
    (h : 62 ∈ hostSubgraph subgraphs nodes) :
    ∃ subgraph ∈ subgraphs, 62 ∈ subgraph.1 ∨ 62 ∈ subgraph.2 := by
  have hports := arrow_notMem_intercalate hnodes
  unfold hostSubgraph at h
  dsimp only at h
  split at h
  · rcases arrow_mem_subgraphText (by decide) h with hlabel | hmem
    · exact absurd hlabel (by decide)
    · exact absurd hmem hports
  · have h₁ : 62 ∉ lit "subgraph cluster0 \x7b" := by decide
    have h₂ : 62 ∉ lit "\x7d" := by decide
    have h₃ : 62 ∉ lit "label=\"Host\" " := by decide
    simp only [List.mem_append, h₁, h₂, false_or, or_false] at h
    rcases mem_intercalate h with hsep | ⟨part, hpart, hmem⟩
    · exact absurd hsep (by decide)
    · rcases List.mem_cons.mp hpart with rfl | hpart
      · simp only [List.mem_append, h₃, hports, or_self] at hmem
      · exact arrow_mem_userSubgraphs hpart hmem

end Arrows

section Nodes

variable {s s' : Locals} {ports phys vhosts : List ResUid}

/-- `r_type` and `r_id` are those of a port. -/
def Locals.Bound (s : Locals) : Prop :=
  ∃ q : ResUid, s.rType = some q.type.name ∧ s.rId = some (intText q.id)

/-- The nodes of ports. The variables are those of the last one. -/
theorem collectNodes_text : ∃ s', collectNodes (ports.map ResUid.text) s =
      .ok (s', ports.map ResUid.node) ∧
    s' = { s with rType := s'.rType, rId := s'.rId } ∧ (s'.Bound ∨ ports = [] ∧ s' = s) := by
  induction ports generalizing s with
  | nil => exact ⟨s, rfl, rfl, .inr ⟨rfl, rfl⟩⟩
  | cons q ports ih =>
    obtain ⟨s', hcollect, hsame, hbound⟩ :=
      @ih { s with rType := some q.type.name, rId := some (intText q.id) }
    refine ⟨s', ?_, hsame, .inl ?_⟩
    · rw [List.map_cons, collectNodes, splitOn_text]
      exact bind_eq_ok.mpr ⟨_, rfl, bind_eq_ok.mpr ⟨_, hcollect, rfl⟩⟩
    · rcases hbound with hbound | ⟨-, rfl⟩
      · exact hbound
      · exact ⟨q, rfl, rfl⟩

/-- The bottom of the drawing is a port. -/
theorem bottomLine_text (hphys : s.phys = phys.map ResUid.text)
    (hvhosts : s.vhosts = vhosts.map ResUid.text) (h : phys ≠ [] ∨ vhosts ≠ [] ∨ s.Bound) :
    ∃ q : ResUid, bottomLine s = .ok (lit "\x7brank=max; " ++ q.node ++ lit "\x7d") := by
  cases phys with
  | cons q phys =>
    refine ⟨q, ?_⟩
    rw [bottomLine, hphys, List.map_cons]
    dsimp only
    rw [splitOn_text]
    rfl
  | nil =>
    cases vhosts with
    | cons q vhosts =>
      refine ⟨q, ?_⟩
      rw [bottomLine, hphys, hvhosts, List.map_cons, List.map_nil]
      dsimp only
      rw [splitOn_text]
      rfl
    | nil =>
      obtain ⟨q, htype, hid⟩ := (h.resolve_left (by simp)).resolve_left (by simp)
      refine ⟨q, ?_⟩
      rw [bottomLine, hphys, hvhosts, htype, hid]
      rfl

/-- There is no bottom without a port. -/
theorem bottomLine_unbound (hphys : s.phys = []) (hvhosts : s.vhosts = []) (hid : s.rId = none) :
    bottomLine s = .error .unboundLocalError := by
  rw [bottomLine, hphys, hvhosts, hid]
  cases s.rType <;> rfl

end Nodes

section Drawing

variable {setList : List Str → List Str} {subgraphs : List (Str × Str)} {procs : List NfvProcess}
  {phyNodes ringNodes vhostNodes links : List Str} {bottom : ResUid}

/-- Nodes that are those of some ports. -/
def AreNodes (nodes : List Str) : Prop := ∀ node ∈ nodes, ∃ q : ResUid, node = q.node

/-- What the declarations of nodes declare and draw. -/
theorem AreNodes.nodeLines (h : AreNodes phyNodes) (color : Str) :
    (phyNodes.map (nodeLine color)).filterMap declaredNode = phyNodes ∧
      (phyNodes.map (nodeLine color)).filterMap drawnEdge = [] := by
  constructor
  · rw [List.filterMap_map]
    refine (List.filterMap_congr fun node hnode => ?_).trans List.filterMap_some
    obtain ⟨q, rfl⟩ := h node hnode
    exact (nodeLine_spec q color).1
  · refine List.filterMap_eq_nil_iff.mpr fun line hline => ?_
    obtain ⟨node, hnode, rfl⟩ := List.mem_map.mp hline
    obtain ⟨q, rfl⟩ := h node hnode
    exact (nodeLine_spec q color).2

/-- A line of a rank. -/
theorem silent_rankLine (nodes : List Str) : Silent (rankLine nodes) := silent_brace _

/-- What the lines of a drawing declare and draw. -/
theorem outputLines_read (hphy : AreNodes phyNodes) (hring : AreNodes ringNodes)
    (hvhost : AreNodes vhostNodes) (hlinks : links.filterMap declaredNode = []) {line : Str}
    (hline : Silent line) :
    (outputLines subgraphs phyNodes ringNodes vhostNodes line links).filterMap declaredNode =
        phyNodes ++ ringNodes ++ vhostNodes ∧
      (outputLines subgraphs phyNodes ringNodes vhostNodes line links).filterMap drawnEdge =
        links.filterMap drawnEdge := by
  have hrank := silent_rankLine
  have hhost := @silent_hostSubgraph (phyNodes ++ ringNodes) subgraphs
  have hlast : Silent (lit "\x7d") := by
    constructor <;> decide
  constructor
  · have hhead : [lit "digraph spp\x7b", lit "newrank=true;",
        lit "node[shape=\"rectangle\", style=\"filled\"];"].filterMap declaredNode = [] := by decide
    have hranks : [rankLine ringNodes, rankLine vhostNodes, line].filterMap declaredNode = [] := by
      simp [(hrank ringNodes).1, (hrank vhostNodes).1, hline.1]
    have hphyRank : (if phyNodes = [] then [] else [rankLine phyNodes]).filterMap declaredNode =
        [] := by
      split <;> simp [(hrank phyNodes).1]
    simp only [outputLines, List.filterMap_append, hhead, hranks, hphyRank, hlinks,
      (hphy.nodeLines _).1, (hring.nodeLines _).1, (hvhost.nodeLines _).1,
      List.filterMap_cons_none hhost.1, List.filterMap_cons_none hlast.1, List.filterMap_nil,
      List.append_nil, List.nil_append]
  · have hhead : [lit "digraph spp\x7b", lit "newrank=true;",
        lit "node[shape=\"rectangle\", style=\"filled\"];"].filterMap drawnEdge = [] := by decide
    have hranks : [rankLine ringNodes, rankLine vhostNodes, line].filterMap drawnEdge = [] := by
      simp [(hrank ringNodes).2, (hrank vhostNodes).2, hline.2]
    have hphyRank : (if phyNodes = [] then [] else [rankLine phyNodes]).filterMap drawnEdge =
        [] := by
      split <;> simp [(hrank phyNodes).2]
    simp only [outputLines, List.filterMap_append, hhead, hranks, hphyRank,
      (hphy.nodeLines _).2, (hring.nodeLines _).2, (hvhost.nodeLines _).2,
      List.filterMap_cons_none hhost.2, List.filterMap_cons_none hlast.2, List.filterMap_nil,
      List.append_nil, List.nil_append]

/-- An arrow in a drawing is in a link, or one that the user has given. -/
theorem arrow_mem_outputLines (hphy : AreNodes phyNodes) (hring : AreNodes ringNodes)
    (hvhost : AreNodes vhostNodes) {bottom line : Str} (hbottom : 62 ∉ bottom)
    (hline : line ∈ outputLines subgraphs phyNodes ringNodes vhostNodes bottom links)
    (harrow : 62 ∈ line) :
    line ∈ links ∨ ∃ subgraph ∈ subgraphs, 62 ∈ subgraph.1 ∨ 62 ∈ subgraph.2 := by
  have hnode {nodes : List Str} (h : AreNodes nodes) : ∀ node ∈ nodes, 62 ∉ node := by
    intro node hmem
    obtain ⟨q, rfl⟩ := h node hmem
    exact notMem_node (by decide)
  have hdecl {nodes : List Str} (h : AreNodes nodes) {color : Str} (hcolor : 62 ∉ color)
      (hmem : line ∈ nodes.map (nodeLine color)) : False := by
    obtain ⟨node, hnode', rfl⟩ := List.mem_map.mp hmem
    obtain ⟨q, rfl⟩ := h node hnode'
    exact arrow_notMem_nodeLine q hcolor harrow
  have hrank {nodes : List Str} (h : AreNodes nodes) (heq : line = rankLine nodes) : False :=
    arrow_notMem_rankLine (hnode h) (heq ▸ harrow)
  have hhead : ∀ l ∈ [lit "digraph spp\x7b", lit "newrank=true;",
      lit "node[shape=\"rectangle\", style=\"filled\"];"], 62 ∉ l := by decide
  have hlast : 62 ∉ lit "\x7d" := by decide
  unfold outputLines at hline
  simp only [List.mem_append] at hline
  obtain ((((((((hline | hline) | hline) | hline) | hline) | hline) | hline) | hline) | hline) :=
    hline
  · exact absurd harrow (hhead line hline)
  · exact (hdecl hphy (by decide) hline).elim
  · exact (hdecl hring (by decide) hline).elim
  · exact (hdecl hvhost (by decide) hline).elim
  · simp only [List.mem_cons, List.not_mem_nil, or_false] at hline
    rcases hline with hrings | hvhosts | hlow
    · exact (hrank hring hrings).elim
    · exact (hrank hvhost hvhosts).elim
    · exact absurd (hlow ▸ harrow) hbottom
  · split at hline
    · exact absurd hline List.not_mem_nil
    · exact (hrank hphy (List.mem_singleton.mp hline)).elim
  · rw [List.mem_singleton.mp hline] at harrow
    refine .inr (arrow_mem_hostSubgraph (fun node hmem => ?_) harrow)
    exact (List.mem_append.mp hmem).elim (hnode hphy node) (hnode hring node)
  · exact .inl hline
  · exact absurd (List.mem_singleton.mp hline ▸ harrow) hlast

/-- The nodes of each type together are those of the ports to draw. -/
theorem perm_drawnPorts (procs : List NfvProcess) :
    ((portsOf .phy (procs.flatMap NfvProcess.ports)).dedup ++
      (portsOf .ring (procs.flatMap NfvProcess.ports)).dedup ++
      (portsOf .vhost (procs.flatMap NfvProcess.ports)).dedup).Perm (drawnPorts procs).dedup := by
  refine (List.perm_ext_iff_of_nodup ?_ (List.nodup_dedup _)).mpr fun q => ?_
  · have hdisj {t u : PortType} (hne : t ≠ u) {l : List ResUid} :
        ∀ a ∈ (portsOf t l).dedup, ∀ b ∈ (portsOf u l).dedup, a ≠ b := by
      intro a ha b hb heq
      simp only [List.mem_dedup, portsOf, List.mem_filter, decide_eq_true_eq] at ha hb
      exact hne (ha.2.symm.trans ((congrArg ResUid.type heq).trans hb.2))
    rw [List.nodup_append, List.nodup_append]
    refine ⟨⟨List.nodup_dedup _, List.nodup_dedup _, hdisj (by decide)⟩, List.nodup_dedup _, ?_⟩
    intro a ha b hb
    rcases List.mem_append.mp ha with ha | ha
    · exact hdisj (by decide) a ha b hb
    · exact hdisj (by decide) a ha b hb
  · simp only [List.mem_append, List.mem_dedup, portsOf, drawnPorts, List.mem_filter,
      decide_eq_true_eq]
    obtain ⟨type, id⟩ := q
    cases type <;> simp [PortType.isDrawn]

/-- The nodes of ports, with each of them once. -/
theorem perm_setList (hset : ∀ l, (setList l).Perm l.dedup) (ports : List ResUid) :
    (setList (ports.map ResUid.node)).Perm (ports.dedup.map ResUid.node) := by
  refine (hset _).trans (.of_eq ?_)
  exact List.dedup_map_of_injective node_injective ports

/-- They are nodes. -/
theorem areNodes_setList (hset : ∀ l, (setList l).Perm l.dedup) (ports : List ResUid) :
    AreNodes (setList (ports.map ResUid.node)) := by
  intro node hmem
  obtain ⟨q, -, rfl⟩ := List.mem_map.mp ((perm_setList hset ports).mem_iff.mp hmem)
  exact ⟨q, rfl⟩

/-- The drawing of processes whose patches have colours, with a port for its bottom. -/
theorem drawsFaithfully_outputLines (hset : ∀ l, (setList l).Perm l.dedup)
    (hcolor : ∀ p ∈ procs, p.Colored) :
    DrawsFaithfully subgraphs procs (outputLines subgraphs
      (setList ((portsOf .phy (procs.flatMap NfvProcess.ports)).map ResUid.node))
      (setList ((portsOf .ring (procs.flatMap NfvProcess.ports)).map ResUid.node))
      (setList ((portsOf .vhost (procs.flatMap NfvProcess.ports)).map ResUid.node))
      (lit "\x7brank=max; " ++ bottom.node ++ lit "\x7d")
      (procs.flatMap fun p => p.patches.map p.linkLine)) := by
  have hnodes := areNodes_setList hset
  have hbottom : Silent (lit "\x7brank=max; " ++ bottom.node ++ lit "\x7d") := silent_brace _
  obtain ⟨hdeclared, hdrawn⟩ := links_spec hcolor
  obtain ⟨hread, hedges⟩ := @outputLines_read subgraphs _ _ _ _ (hnodes _) (hnodes _) (hnodes _)
    hdeclared _ hbottom
  constructor
  · rw [hread]
    refine (((perm_setList hset _).append (perm_setList hset _)).append
      (perm_setList hset _)).trans ?_
    rw [← List.map_append, ← List.map_append]
    exact (perm_drawnPorts procs).map _
  · rw [hedges, hdrawn]
  · intro line hline hnone harrow
    have hlow : 62 ∉ lit "\x7brank=max; " ++ bottom.node ++ lit "\x7d" := by
      have h₁ : 62 ∉ lit "\x7brank=max; " := by decide
      have h₂ : 62 ∉ lit "\x7d" := by decide
      have h₃ : 62 ∉ bottom.node := notMem_node (by decide)
      simp only [List.mem_append, not_or]
      exact ⟨⟨h₁, h₃⟩, h₂⟩
    refine (arrow_mem_outputLines (hnodes _) (hnodes _) (hnodes _) hlow hline
      harrow).resolve_left fun hlink => ?_
    -- a link draws an edge
    obtain ⟨p, hp, hlink⟩ := List.mem_flatMap.mp hlink
    obtain ⟨patch, hpatch, rfl⟩ := List.mem_map.mp hlink
    have hspec := (linkLine_spec (hcolor p hp (List.ne_nil_of_mem hpatch)) patch).2
    exact absurd (hspec.symm.trans hnone) (by simp)

end Drawing

section Whole

variable {setList : List Str → List Str} {subgraphs : List (Str × Str)} {procs : List NfvProcess}
  {s : Locals}

/-- Whether some process has a port to draw. -/
def HasDrawnPort (procs : List NfvProcess) : Prop :=
  ∃ p ∈ procs, ∃ port ∈ p.ports, port.type.isDrawn = true

/-- Without a port to draw, no list of ports of a drawn type has one. -/
theorem portsOf_eq_nil (h : ¬ HasDrawnPort procs) {type : PortType} (htype : type.isDrawn = true) :
    portsOf type (procs.flatMap NfvProcess.ports) = [] := by
  refine List.filter_eq_nil_iff.mpr fun q hq heq => h ?_
  obtain ⟨p, hp, hport⟩ := List.mem_flatMap.mp hq
  exact ⟨p, hp, q, hport, of_decide_eq_true heq ▸ htype⟩

/-- With one, some list has. -/
theorem exists_portsOf_ne_nil (h : HasDrawnPort procs) :
    portsOf .phy (procs.flatMap NfvProcess.ports) ≠ [] ∨
      portsOf .ring (procs.flatMap NfvProcess.ports) ≠ [] ∨
      portsOf .vhost (procs.flatMap NfvProcess.ports) ≠ [] := by
  obtain ⟨p, hp, q, hq, hdrawn⟩ := h
  have hmem : q ∈ portsOf q.type (procs.flatMap NfvProcess.ports) :=
    List.mem_filter.mpr ⟨List.mem_flatMap.mpr ⟨p, hp, hq⟩, decide_eq_true rfl⟩
  have hne := List.ne_nil_of_mem hmem
  revert hdrawn hne
  cases q.type with
  | phy => exact fun _ hne => .inl hne
  | ring => exact fun _ hne => .inr (.inl hne)
  | vhost => exact fun _ hne => .inr (.inr hne)
  | pcap => exact fun hdrawn => absurd hdrawn (by decide)
  | nullpmd => exact fun hdrawn => absurd hdrawn (by decide)

/-- With a port to draw, collected processes are put together. -/
theorem toDot_of_collected (h : Collected procs s) (hdrawn : HasDrawnPort procs)
    (hfold : (procs.map fun p => some p.status).foldlM parseSec Locals.start = .ok s) :
    ∃ bottom : ResUid, toDot setList subgraphs (procs.map fun p => some p.status) =
      .ok (outputLines subgraphs
        (setList ((portsOf .phy (procs.flatMap NfvProcess.ports)).map ResUid.node))
        (setList ((portsOf .ring (procs.flatMap NfvProcess.ports)).map ResUid.node))
        (setList ((portsOf .vhost (procs.flatMap NfvProcess.ports)).map ResUid.node))
        (lit "\x7brank=max; " ++ bottom.node ++ lit "\x7d")
        (procs.flatMap fun p => p.patches.map p.linkLine)) := by
  obtain ⟨s₁, hphy, hsame₁, hbound₁⟩ :=
    @collectNodes_text s (portsOf .phy (procs.flatMap NfvProcess.ports))
  obtain ⟨s₂, hring, hsame₂, hbound₂⟩ :=
    @collectNodes_text s₁ (portsOf .ring (procs.flatMap NfvProcess.ports))
  obtain ⟨s₃, hvhost, hsame₃, hbound₃⟩ :=
    @collectNodes_text s₂ (portsOf .vhost (procs.flatMap NfvProcess.ports))
  rw [← h.phys] at hphy
  rw [← h.rings, ← show s₁.rings = s.rings from by rw [hsame₁]] at hring
  rw [← h.vhosts, ← show s₂.vhosts = s.vhosts from by rw [hsame₂, hsame₁]] at hvhost
  have hphys : s₃.phys = s.phys := by rw [hsame₃, hsame₂, hsame₁]
  have hvhosts : s₃.vhosts = s.vhosts := by rw [hsame₃, hsame₂, hsame₁]
  have hlinks : s₃.links = s.links := by rw [hsame₃, hsame₂, hsame₁]
  have hlow : portsOf .phy (procs.flatMap NfvProcess.ports) ≠ [] ∨
      portsOf .vhost (procs.flatMap NfvProcess.ports) ≠ [] ∨ s₃.Bound := by
    rcases exists_portsOf_ne_nil hdrawn with hne | hne | hne
    · exact .inl hne
    · -- the variables are those of the last ring, or of the last `vhost` port after it
      refine .inr (.inr (hbound₃.elim id ?_))
      rintro ⟨-, rfl⟩
      exact hbound₂.resolve_right fun hnil => hne hnil.1
    · exact .inr (.inl hne)
  obtain ⟨bottom, hbottom⟩ := bottomLine_text (hphys.trans h.phys) (hvhosts.trans h.vhosts) hlow
  refine ⟨bottom, ?_⟩
  rw [← h.links, ← hlinks]
  exact bind_eq_ok.mpr ⟨s, hfold, bind_eq_ok.mpr ⟨_, hphy, bind_eq_ok.mpr ⟨_, hring,
    bind_eq_ok.mpr ⟨_, hvhost, bind_eq_ok.mpr ⟨_, hbottom, rfl⟩⟩⟩⟩⟩

/-- Without one, they are not. -/
theorem toDot_unbound (h : Collected procs s) (hdrawn : ¬ HasDrawnPort procs)
    (hfold : (procs.map fun p => some p.status).foldlM parseSec Locals.start = .ok s)
    (lines : List Str) :
    toDot setList subgraphs (procs.map fun p => some p.status) ≠ .ok lines := by
  intro hdot
  have hphys : s.phys = [] := by rw [h.phys, portsOf_eq_nil hdrawn rfl, List.map_nil]
  have hrings : s.rings = [] := by rw [h.rings, portsOf_eq_nil hdrawn rfl, List.map_nil]
  have hvhosts : s.vhosts = [] := by rw [h.vhosts, portsOf_eq_nil hdrawn rfl, List.map_nil]
  unfold toDot at hdot
  rw [hfold] at hdot
  simp only [bind, Except.bind, hphys, hrings, hvhosts, collectNodes,
    bottomLine_unbound hphys hvhosts h.rId, reduceCtorEq] at hdot

/-- The drawing succeeds and is faithful if and only if there is a port to draw and every
process with a patch has one of the ten colours. -/
theorem drawsFaithfully_toDot_iff (hset : ∀ l, (setList l).Perm l.dedup)
    (subgraphs : List (Str × Str)) (procs : List NfvProcess) :
    (∃ lines, toDot setList subgraphs (procs.map fun p => some p.status) = .ok lines ∧
      DrawsFaithfully subgraphs procs lines) ↔
      (∀ p ∈ procs, p.patches ≠ [] → p.clientId < 10) ∧
        ∃ p ∈ procs, ∃ port ∈ p.ports, port.type.isDrawn = true := by
  have hstart : Collected [] Locals.start := ⟨rfl, rfl, rfl, rfl, rfl⟩
  constructor
  · rintro ⟨lines, hdot, -⟩
    obtain ⟨s, hfold, -⟩ := bind_eq_ok.mp hdot
    have hcolor := colored_of_foldlM hfold
    refine ⟨hcolor, ?_⟩
    by_contra hdrawn
    obtain ⟨s', hfold', hs'⟩ := hstart.foldlM hcolor
    exact toDot_unbound hs' hdrawn hfold' lines hdot
  · rintro ⟨hcolor, hdrawn⟩
    obtain ⟨s, hfold, hs⟩ := hstart.foldlM hcolor
    obtain ⟨bottom, hdot⟩ := toDot_of_collected hs hdrawn hfold
    exact ⟨_, hdot, drawsFaithfully_outputLines hset hcolor⟩

/-- One process with a patch between a physical port and a ring. -/
theorem drawsFaithfully_toDot_phyRing :
    ∃ lines, toDot List.dedup []
        ([⟨1, true, [⟨.phy, 0⟩, ⟨.ring, 0⟩], [(⟨.phy, 0⟩, ⟨.ring, 0⟩)]⟩].map
          fun p => some (NfvProcess.status p)) = .ok lines ∧
      DrawsFaithfully [] [⟨1, true, [⟨.phy, 0⟩, ⟨.ring, 0⟩], [(⟨.phy, 0⟩, ⟨.ring, 0⟩)]⟩] lines :=
  (drawsFaithfully_toDot_iff (fun l => List.Perm.refl _) [] _).mpr
    ⟨by simp, ⟨_, List.mem_singleton_self _, ⟨.phy, 0⟩, List.mem_cons_self, rfl⟩⟩

/-- A process with client-id 10 raises an exception as soon as it has a patch. -/
theorem not_drawsFaithfully_toDot_clientIdTen :
    ¬ ∃ lines, toDot List.dedup []
        ([⟨10, true, [⟨.phy, 0⟩, ⟨.ring, 0⟩], [(⟨.phy, 0⟩, ⟨.ring, 0⟩)]⟩].map
          fun p => some (NfvProcess.status p)) = .ok lines ∧
      DrawsFaithfully [] [⟨10, true, [⟨.phy, 0⟩, ⟨.ring, 0⟩], [(⟨.phy, 0⟩, ⟨.ring, 0⟩)]⟩]
        lines := by
  rintro ⟨lines, hdot, -⟩
  obtain ⟨s, hfold, -⟩ := bind_eq_ok.mp hdot
  exact absurd (colored_of_foldlM hfold _ (List.mem_singleton_self _) (by simp)) (by decide)

end Whole

end Spp.Ctl.Topology
