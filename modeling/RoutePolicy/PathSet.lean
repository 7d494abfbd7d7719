import RoutePolicy.StepGraph

set_option autoImplicit false

/-! # Maximal paths

Formulas are evaluated on paths through the initial net, along the arcs at transitions that fire
somewhere in the step graph. A path has no repeated node, except that its last node may be an
earlier one: then it is cyclic. It is maximal when it is cyclic or its last node has no used
successor.

The search grows all open paths by one node at a time, so paths are found in the order of their
length. The limit counts every path that is met, maximal or not. -/

namespace RoutePolicy

/-- A sequence of nodes, each the used successor of the one before. -/
structure Path where
  nodes : List Node
  /-- The last node is one of the earlier ones. -/
  cyclic : Bool
  deriving DecidableEq

/-- The identifiers of the nodes of a path, joined by arrows. -/
def Path.text (p : Path) (net : Net) : Except Failure String :=
  return String.intercalate " -> " (← p.nodes.mapM net.nodeName)

/-! ## Used arcs -/

/-- Values gathered under their keys: the keys in the order in which they first occur, the values
of each in order. -/
def gather {α β : Type} [DecidableEq α] (l : List (α × β)) : List (α × List β) :=
  (l.map (·.1)).eraseDups.map fun a => (a, (l.filter fun x => x.1 = a).map (·.2))

/-- The values gathered under a key. -/
def gathered {α β : Type} [DecidableEq α] (g : List (α × List β)) (a : α) : List β :=
  match g.find? fun x => x.1 = a with
  | some x => x.2
  | none => []

/-- Nodes with the nodes that their used arcs lead to. -/
abbrev Successors := List (Node × List Node)

/-- The arc is at one of the transitions. -/
def Arc.isAtOneOf (a : Arc) (fired : List TransitionId) : Bool :=
  [a.source, a.target].any fun n => n.transition?.any (fired.contains ·)

/-- The arcs at transitions that fire in the step graph. -/
def StepGraph.usedArcs (g : StepGraph) : List Arc :=
  let fired := g.fired
  g.net.arcs.toList.filter (·.isAtOneOf fired)

/-- The used arcs, gathered by the node they leave. -/
def StepGraph.successors (g : StepGraph) : Successors :=
  gather (g.usedArcs.map fun a => (a.source, a.target))

/-! ## Enumeration -/

/-- A path under construction, the last node first. -/
structure Trail where
  last : Node
  earlier : List Node

/-- The nodes in the order of the path. -/
def Trail.nodes (t : Trail) : List Node := (t.last :: t.earlier).reverse

/-- The path with one more node. -/
def Trail.snoc (t : Trail) (n : Node) : Trail := ⟨n, t.last :: t.earlier⟩

/-- The node is on the path. -/
def Trail.visits (t : Trail) (n : Node) : Bool := n == t.last || t.earlier.contains n

namespace Successors

/-- The used successors of a node, one for each arc. -/
def of (s : Successors) (n : Node) : List Node := gathered s n

/-- The paths of one arc. -/
def firstTrails (s : Successors) : List Trail :=
  s.flatMap fun (source, targets) => targets.map fun target => ⟨target, [source]⟩

/-- The paths that go one node further without repeating one. -/
def growths (s : Successors) (t : Trail) : List Trail :=
  ((s.of t.last).filter fun n => !t.visits n).map t.snoc

/-- The paths that go one node further and close there. -/
def closings (s : Successors) (t : Trail) : List Trail :=
  ((s.of t.last).filter fun n => t.visits n).map t.snoc

/-- The last node has no used successor. -/
def isEnd (s : Successors) (t : Trail) : Bool := (s.of t.last).isEmpty

/-- More nodes than a path can have without repeating one. -/
def rounds (s : Successors) : Nat := 2 * (s.length + (s.flatMap (·.2)).length) + 2

/-- The maximal paths that the open paths grow into: those that end, then those that close.
`met` paths were met before this round, and `limit` is how many may be met. -/
def complete (s : Successors) (limit : Option Nat) :
    Nat → Nat → List Trail → Except Failure (List Trail × List Trail)
  | 0, _, _ => .ok ([], [])
  | _, _, [] => .ok ([], [])
  | fuel + 1, met, openTrails => do
    let closed := openTrails.flatMap s.closings
    let grown := openTrails.flatMap s.growths
    let met := met + openTrails.length + closed.length
    match limit with
    | some limit => if limit < met + grown.length then throw (.tooManyPaths limit)
    | none => pure ()
    let (laterEnds, laterClosed) ← s.complete limit fuel met grown
    return (openTrails.filter s.isEnd ++ laterEnds, closed ++ laterClosed)

/-- All maximal paths: those that end, by length, then the cyclic ones, by length. -/
def maximalPaths (s : Successors) (limit : Option Nat) : Except Failure (List Path) := do
  let (ends, closed) ← s.complete limit s.rounds 0 s.firstTrails
  return ends.map (fun t => ⟨t.nodes, false⟩) ++ closed.map (fun t => ⟨t.nodes, true⟩)

end Successors

/-! ## Path sets -/

/-- The maximal paths of a net, with the used arcs they follow. -/
structure PathSet where
  net : Net
  successors : Successors
  paths : List Path
  /-- The paths gathered by their first node. -/
  byStart : List (Node × List Path)

/-- The maximal paths of the net of a step graph. -/
def StepGraph.pathSet (g : StepGraph) (limit : Option Nat) : Except Failure PathSet := do
  let successors := g.successors
  let paths ← successors.maximalPaths limit
  let starts := paths.filterMap fun p => p.nodes.head?.map (·, p)
  return ⟨g.net, successors, paths, gather starts⟩

namespace PathSet

/-- The number of paths. -/
def size (s : PathSet) : Nat := s.paths.length

/-- The paths whose first node is `n`. -/
def startingAt (s : PathSet) (n : Node) : List Path := gathered s.byStart n

/-- The used successors of a node that are of kind `k`, one for each arc. -/
def next {j : Kind} (s : PathSet) (k : Kind) (h : Handle j) : List (Handle k) :=
  (s.successors.of h.node).filterMap (Node.handle? k)

end PathSet

end RoutePolicy
