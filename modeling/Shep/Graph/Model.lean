import Mathlib.Data.List.Lex
import Mathlib.Data.String.Basic
import Shep.Common.Listing
import Shep.Common.Table

/-!
# Graph — the boot plan

`shep-core`'s `config/graph.rs`: names and edges in, stages out. A
`BTreeSet` is a `Finset`, read in order through `listing`; a
`BTreeMap` is an extensional tree map. The loops that have no structural
measure of their own run on fuel, each given as much as it can use, and
the results never speak of fuel.
-/

namespace Shep

namespace Graph

/-- `NodeKind`: what a node is, which decides its default position. -/
inductive NodeKind where
  | sheep
  | dog (bootFirst : Bool)
  deriving Repr, DecidableEq

/-- `BootNode`: one node of the boot graph. -/
structure BootNode where
  name : String
  dependsOn : List String
  kind : NodeKind
  deriving Repr, DecidableEq

/-- `Unresolved`: an edge that pointed at a name the flock does not have. -/
structure Unresolved where
  dependent : String
  missing : String
  deriving Repr, DecidableEq

/-- `BootPlan`: the order to start a flock in, and what was wrong with the
graph. -/
structure BootPlan where
  stages : List (List String)
  unresolved : List Unresolved
  cycles : List (List String)
  knots : List (Finset String)
  deriving DecidableEq

/-- Who waits for whom: every name of the flock, with the names it waits
for. -/
abbrev Edges := Std.ExtTreeMap String (Finset String)

/-- What `name` waits for; nothing, for a name the table does not have. -/
def Edges.deps (edges : Edges) (name : String) : Finset String := edges[name]?.getD ∅

/-- Every name the table mentions. -/
def Edges.mentioned (edges : Edges) : Finset String :=
  edges.toList.foldr (fun e names => insert e.1 (e.2 ∪ names)) ∅

/-! ## Edges -/

/-- One node of the edge table: what it waits for that the flock has, and
the edges dropped because nothing answers to the name. -/
def addNode (names : Finset String) (table : List Unresolved × Edges) (node : BootNode) :
    List Unresolved × Edges :=
  (table.1 ++ (node.dependsOn.filter fun target => target ∉ names).map fun target =>
      ⟨node.name, target⟩,
    table.2.insert node.name
      (table.2.deps node.name ∪ (node.dependsOn.filter fun target => target ∈ names).toFinset))

/-- The names of the flock. -/
def namesOf (nodes : List BootNode) : Finset String := (nodes.map BootNode.name).toFinset

/-- The edge table, and the edges dropped on the way. -/
def edgesOf (nodes : List BootNode) : List Unresolved × Edges :=
  nodes.foldl (addNode (namesOf nodes)) ([], ∅)

/-! ## Knots -/

/-- `Tarjan`: the visit number each node was reached at, the lowest number
it can reach, and the nodes whose component is still open, the latest
first. -/
structure Tarjan where
  index : Std.ExtTreeMap String ℕ := ∅
  low : Std.ExtTreeMap String ℕ := ∅
  stack : List String := []
  onStack : Finset String := ∅
  next : ℕ := 0
  components : List (Finset String) := []

namespace Tarjan

/-- `name` is reached. -/
def visit (name : String) (t : Tarjan) : Tarjan :=
  { t with
    index := t.index.insert name t.next
    low := t.low.insert name t.next
    next := t.next + 1
    stack := name :: t.stack
    onStack := insert name t.onStack }

/-- `name` can reach the number `reachable`. -/
def lower (name : String) (reachable : ℕ) (t : Tarjan) : Tarjan :=
  { t with low := t.low.insert name (min (t.low.getD name reachable) reachable) }

/-- Pops the stack down to `name`: what is left of it, what is left of
`on_stack`, and the members popped. -/
def popTo (name : String) : List String → Finset String → Finset String →
    List String × Finset String × Finset String
  | [], onStack, members => ([], onStack, members)
  | member :: stack, onStack, members =>
    if member = name then (stack, onStack.erase member, insert member members)
    else popTo name stack (onStack.erase member) (insert member members)

/-- Closes the component of `name`, when `name` is the first of it to have
been reached. -/
def close (name : String) (t : Tarjan) : Tarjan :=
  if t.low[name]? = t.index[name]? then
    let popped := popTo name t.stack t.onStack ∅
    { t with
      stack := popped.1
      onStack := popped.2.1
      components := t.components ++ [popped.2.2] }
  else t

/-- One edge of `connect`'s loop. An edge into a closed component says
nothing about this one, so only a node still on the stack counts. -/
def follow (connect : String → Tarjan → Tarjan) (name : String) (t : Tarjan) (dep : String) :
    Tarjan :=
  if t.index.contains dep then
    if dep ∈ t.onStack then
      match t.index[dep]? with
      | some reachable => t.lower name reachable
      | none => t
    else t
  else
    let t := connect dep t
    match t.low[dep]? with
    | some reachable => t.lower name reachable
    | none => t

/-- `connect`. -/
def connect (edges : Edges) : ℕ → String → Tarjan → Tarjan
  | 0, _, t => t
  | fuel + 1, name, t =>
    ((listing (edges.deps name)).foldl (follow (connect edges fuel) name) (t.visit name)).close name

/-- Every node of the table is connected. -/
def connectAll (edges : Edges) : Tarjan :=
  edges.keys.foldl
    (fun t name =>
      if t.index.contains name then t else connect edges edges.mentioned.card name t) {}

end Tarjan

/-- Whether a component holds a cycle: two or more nodes, or a lone node
that depends on itself. -/
def isKnot (edges : Edges) (members : Finset String) : Bool :=
  1 < members.card || (listing members).head?.any fun only => only ∈ edges.deps only

/-- `knots`: the components that hold a cycle, in order. -/
def knots (edges : Edges) : List (Finset String) :=
  ((Tarjan.connectAll edges).components.filter (isKnot edges)).insertionSort
    fun a b => listing a ≤ listing b

/-! ## The cycle a knot is shown by -/

/-- `close_on`: walks from `at`, inside `members` only, until it finds an
edge back to `start`. The path is the cycle when this answers `true`. -/
def closeOn (edges : Edges) (members : Finset String) (start : String) :
    ℕ → String → List String → Finset String → Bool × List String × Finset String
  | 0, _, path, seen => (false, path, seen)
  | fuel + 1, node, path, seen =>
    ((listing (edges.deps node)).filter fun dep => dep ∈ members).foldl
      (fun walk dep =>
        if walk.1 then walk
        else if dep = start then (true, walk.2)
        else if dep ∈ walk.2.2 then walk
        else
          let deeper := closeOn edges members start fuel dep (walk.2.1 ++ [dep])
            (insert dep walk.2.2)
          if deeper.1 then deeper else (false, deeper.2.1.dropLast, deeper.2.2))
      (false, path, seen)

/-- The walk `representative_cycle` makes from `start`. -/
def closingWalk (edges : Edges) (members : Finset String) (start : String) :
    Bool × List String × Finset String :=
  closeOn edges members start members.card start [start] {start}

/-- `representative_cycle`: one cycle through `members`, as the path a walk
closed on; the first member alone when none closes. -/
def representativeCycle (edges : Edges) (members : Finset String) : List String :=
  match (listing members).head? with
  | none => []
  | some start =>
    let walk := closingWalk edges members start
    if walk.1 then walk.2.1 else [start]

/-! ## Stages -/

/-- One round of `depends_on_a_cycle`: the nodes that wait for a cycle or
for something already found to. -/
def grown (edges : Edges) (inACycle found : Finset String) : Finset String :=
  ((edges.toList.filter fun e => e.1 ∉ inACycle ∧ e.1 ∉ found ∧
    ∃ dep ∈ e.2, dep ∈ inACycle ∨ dep ∈ found).map Prod.fst).toFinset

/-- The rounds of `depends_on_a_cycle`. -/
def growFrom (edges : Edges) (inACycle : Finset String) : ℕ → Finset String → Finset String
  | 0, found => found
  | fuel + 1, found =>
    let more := grown edges inACycle found
    if more = ∅ then found else growFrom edges inACycle fuel (found ∪ more)

/-- `depends_on_a_cycle`: every node outside the cycles with a path to one
of them. -/
def dependsOnACycle (edges : Edges) (inACycle : Finset String) : Finset String :=
  growFrom edges inACycle (edges.mentioned.card + 1) ∅

/-- The nodes of `left` whose edges are met: what they wait for is placed,
or is not among `left`. -/
def readyAmong (edges : Edges) (placed left : Finset String) : Finset String :=
  left.filter fun name => ∀ dep ∈ edges.deps name, dep ∈ placed ∨ dep ∉ left

/-- The rounds of `kahn`: the stages, and what a stall would leave out. -/
def kahnFrom (edges : Edges) : ℕ → Finset String → Finset String →
    List (List String) × Finset String
  | 0, _, left => ([], left)
  | fuel + 1, placed, left =>
    if left = ∅ then ([], left)
    else
      let ready := readyAmong edges placed left
      -- cycles were lifted out before this ran, so a stall is impossible
      if ready = ∅ then ([], left)
      else
        let later := kahnFrom edges fuel (placed ∪ ready) (left \ ready)
        (listing ready :: later.1, later.2)

/-- `kahn`: the stages of `ordered`, and the nodes a stall would have kept
out of them. -/
def kahn (ordered : Finset String) (edges : Edges) (already : Finset String) :
    List (List String) × Finset String :=
  kahnFrom edges ordered.card already ordered

/-- What the plan sorts the nodes into. -/
structure Split where
  edges : Edges
  knots : List (Finset String)
  inACycle : Finset String
  afterCycle : Finset String
  first : List String
  ordered : Finset String
  last : List String

/-- The names of `nodes`, in order. -/
def sortedNames (nodes : List BootNode) : List String :=
  (nodes.map BootNode.name).insertionSort (· ≤ ·)

/-- Outside the cycles and what hangs off them: boot-first dogs, the dogs
nobody depends on, and the rest. -/
def split (nodes : List BootNode) : Split :=
  let edges := (edgesOf nodes).2
  let knots := knots edges
  let inACycle := knots.foldr (· ∪ ·) ∅
  let afterCycle := dependsOnACycle edges inACycle
  let dependedOn := edges.toList.foldr (fun e names => e.2 ∪ names) ∅
  let free := nodes.filter fun node => node.name ∉ inACycle ∧ node.name ∉ afterCycle
  let first := free.filter fun node => node.kind = .dog true
  let last := free.filter fun node => node.kind = .dog false ∧ node.name ∉ dependedOn
  let ordered := free.filter fun node =>
    node.kind ≠ .dog true ∧ ¬ (node.kind = .dog false ∧ node.name ∉ dependedOn)
  { edges := edges
    knots := knots
    inACycle := inACycle
    afterCycle := afterCycle
    first := sortedNames first
    ordered := namesOf ordered
    last := sortedNames last }

/-- Some names as a stage, unless there are none. -/
def stageOf (names : List String) : List (List String) := if names.isEmpty then [] else [names]

/-- The stages of a split flock: boot-first dogs, what its edges order,
every cyclic node in one stage, whatever hangs off a knot, and the dogs
nobody depends on. -/
def Split.stages (s : Split) : List (List String) :=
  stageOf s.first ++ (kahn s.ordered s.edges s.first.toFinset).1 ++ stageOf (listing s.inACycle) ++
    (kahn s.afterCycle s.edges ∅).1 ++ stageOf s.last

/-- `plan`: sorts `nodes` into stages. -/
def plan (nodes : List BootNode) : BootPlan :=
  let s := split nodes
  { stages := s.stages
    unresolved := (edgesOf nodes).1
    cycles := s.knots.map (representativeCycle s.edges)
    knots := s.knots }

end Graph

end Shep
