import RoutePolicy.Net.Neighbours

set_option autoImplicit false

/-! # Where data come from

What a transition reads is what the transitions two arcs before it write. One pass over the net
sets the read sets from the write sets: a processing step erases what it reads and does not
write again, a structural step writes what it reads.

The pass takes the transitions breadth first from an origin, and then the ones that the origin
does not lead to, by number. Arcs that are not in the net are not followed; `lineageKnown`
says that there are none. -/

namespace RoutePolicy

namespace Net

/-- The nodes that the listed arcs of a node lead to. -/
def nodesAfter (net : Net) (n : Node) : List Node :=
  ((net.outgoing? n).getD []).filterMap fun a => (net.arcs.get? a).map (·.target)

/-- The nodes that the listed arcs of a node come from. -/
def nodesBefore (net : Net) (n : Node) : List Node :=
  ((net.incoming? n).getD []).filterMap fun a => (net.arcs.get? a).map (·.source)

/-! ## The order of the pass -/

/-- The nodes that are not seen yet, each once. -/
def unseen (seen : List Node) : List Node → List Node
  | [] => []
  | n :: ns => if n ∈ seen then unseen seen ns else n :: unseen (n :: seen) ns

/-- A breadth-first search: `done` nodes have been left, the nodes of `waiting` are next. At most
`fuel` nodes are left. -/
def reach (net : Net) : Nat → List Node → List Node → List Node
  | 0, done, waiting => done ++ waiting
  | _, done, [] => done
  | fuel + 1, done, n :: waiting =>
    net.reach fuel (done ++ [n])
      (waiting ++ unseen (done ++ n :: waiting) (net.nodesAfter n))

/-- The number of nodes that an origin and the ends of arcs can make up. -/
def reachBound (net : Net) : Nat := 1 + net.arcs.size

/-- The nodes that a node leads to, itself first, in breadth-first order. -/
def reachedFrom (net : Net) (n : Node) : List Node := net.reach net.reachBound [] [n]

/-- The transitions in the order of the pass. -/
def propagationOrder (net : Net) (origin : PlaceId) : List TransitionId :=
  let reached := (net.reachedFrom origin.node).filterMap Node.transition?
  reached ++ net.transitions.indices.filter fun t => !reached.contains t

/-! ## The pass -/

/-- The transitions two arcs before a transition, one for each way. -/
def suppliers (net : Net) (t : TransitionId) : List TransitionId :=
  let inputs := (net.nodesBefore t.node).filterMap Node.place?
  (inputs.flatMap fun p => net.nodesBefore p.node).filterMap Node.transition?

/-- What the transitions two arcs before a transition write. -/
def inherited (net : Net) (t : TransitionId) : NameSet :=
  ((net.suppliers t).filterMap fun u => (net.transitions.get? u).bind (·.context)).foldl
    (fun s c => s.union c.write) ∅

end Net

/-- The context of a transition whose inherited resources are `read`. -/
def Context.withRead (c : Context) (read : NameSet) : Context :=
  match c.role with
  | .app => { c with read, erase := read.diff c.write }
  | .control => { c with read, write := read }

namespace Net

/-- The net with one transition passed. -/
def passTransition (net : Net) (t : TransitionId) : Net :=
  let read := net.inherited t
  net.modifyContext t fun c => some ((c.getD default).withRead read)

/-- The net after the pass from an origin. -/
def propagate (net : Net) (origin : PlaceId) : Net :=
  (net.propagationOrder origin).foldl passTransition net

/-! ## Nets with missing arcs -/

/-- The node and all arcs listed as leaving it are in the net. -/
def knowsAfter (net : Net) (n : Node) : Bool := (net.outgoing? n).any (·.all net.arcs.contains)

/-- The node and all arcs listed as entering it are in the net. -/
def knowsBefore (net : Net) (n : Node) : Bool := (net.incoming? n).any (·.all net.arcs.contains)

/-- Every node and arc that the pass comes across is in the net. -/
def lineageKnown (net : Net) (origin : PlaceId) : Bool :=
  (net.reachedFrom origin.node).all net.knowsAfter
    && (net.propagationOrder origin).all fun t => net.knowsBefore t.node
      && ((net.nodesBefore t.node).filterMap Node.place?).all fun p => net.knowsBefore p.node
        && ((net.nodesBefore p.node).filterMap Node.transition?).all net.transitions.contains

/-- The net after the pass from an origin, if the pass comes across nothing missing. -/
def propagate? (net : Net) (origin : PlaceId) : Except Failure Net :=
  if net.lineageKnown origin then .ok (net.propagate origin) else .error .outside

end Net

end RoutePolicy
