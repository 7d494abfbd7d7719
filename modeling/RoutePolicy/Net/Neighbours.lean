import RoutePolicy.Net.Basic

set_option autoImplicit false

/-! # Following arcs

The nodes that a node's listed arcs lead to and come from. In a net that was made by adding
nodes and arcs every listed arc exists; a document may list arcs that do not, and to follow such
an arc fails. -/

namespace RoutePolicy

namespace Net

/-- The arcs listed as entering a node of the net. -/
def incoming (net : Net) (n : Node) : Except Failure (List ArcId) :=
  match net.incoming? n with
  | some as => .ok as
  | none => .error .outside

/-- The arcs listed as leaving a node of the net. -/
def outgoing (net : Net) (n : Node) : Except Failure (List ArcId) :=
  match net.outgoing? n with
  | some as => .ok as
  | none => .error .outside

/-- The identifier of a node of the net. -/
def nodeName (net : Net) (n : Node) : Except Failure String :=
  match net.nodeName? n with
  | some id => .ok id
  | none => .error .outside

/-- The nodes that the arcs leaving a node lead to, one for each arc. -/
def successors (net : Net) (n : Node) : Except Failure (List Node) := do
  (← net.outgoing n).mapM fun a => return (← net.arcs.require a).target

/-- The nodes that the arcs entering a node come from, one for each arc. -/
def predecessors (net : Net) (n : Node) : Except Failure (List Node) := do
  (← net.incoming n).mapM fun a => return (← net.arcs.require a).source

/-- The input places of a transition, one for each arc. -/
def preset (net : Net) (t : TransitionId) : Except Failure (List PlaceId) := do
  return (← net.predecessors t.node).filterMap Node.place?

/-- The output places of a transition, one for each arc. -/
def postset (net : Net) (t : TransitionId) : Except Failure (List PlaceId) := do
  return (← net.successors t.node).filterMap Node.place?

end Net

end RoutePolicy
