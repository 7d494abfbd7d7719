import RoutePolicy.Net.Context
import RoutePolicy.Net.Failure

set_option autoImplicit false

/-! # Nets of places, transitions and arcs

A net keeps its places, transitions and arcs in arenas. An arc is listed with the node it leaves
and with the node it enters. Two tables find nodes by identifier: a later node hides an earlier
one of the same identifier, and a node that is renamed in place keeps its old entry until the
tables are rebuilt (`Net.reindex`). -/

namespace RoutePolicy

/-- Where a place comes from. -/
inductive PlaceKind where
  | plain
  /-- Made by unfolding: a marker in it says that the transition `origin` is at work. -/
  | inner (origin : String)
  deriving DecidableEq, Repr

/-- A place, its markers, and the arcs at it. -/
structure Place where
  id : String
  markers : Nat
  kind : PlaceKind
  incoming : List ArcId
  outgoing : List ArcId
  deriving DecidableEq

namespace Place

/-- A plain place without arcs. -/
def plain (id : String) (markers : Nat) : Place := ⟨id, markers, .plain, [], []⟩

/-- The place that stands for the transition `origin` being at work; no arcs, no markers. -/
def inner (id origin : String) : Place := ⟨id, 0, .inner origin, [], []⟩

/-- The transition whose work the place stands for. -/
def origin? (p : Place) : Option String :=
  match p.kind with
  | .plain => none
  | .inner origin => some origin

/-- The place stands for a transition at work. -/
def isInner (p : Place) : Bool := p.origin?.isSome

end Place

/-- A transition, what it does with data, and the arcs at it. -/
structure Transition where
  id : String
  context : Option Context
  incoming : List ArcId
  outgoing : List ArcId
  deriving DecidableEq

namespace Transition

/-- A transition without arcs. -/
def bare (id : String) (context : Option Context) : Transition := ⟨id, context, [], []⟩

/-- The role of the transition; without a context it is a processing step. -/
def role (t : Transition) : Role := (t.context.map (·.role)).getD default

/-- The transition has a context that satisfies `p`. -/
def hasContext (t : Transition) (p : Context → Bool) : Bool := t.context.any p

end Transition

/-- A directed arc. -/
structure Arc where
  source : Node
  target : Node
  deriving DecidableEq, Repr

/-- The written form, such as `p0 -> t0`. -/
def Arc.label (a : Arc) : String := a.source.label ++ " -> " ++ a.target.label

/-- Identifiers with the numbers they were given to, the latest first. -/
abbrev NameTable (ι : Type) := List (String × ι)

/-- The table of entries under the identifiers that `name` gives. -/
def NameTable.ofArena {ι α : Type} [Index ι] (name : α → String) (a : Arena ι α) : NameTable ι :=
  (a.toPairs.map fun (i, x) => (name x, i)).reverse

/-- A net. -/
structure Net where
  id : String
  places : Arena PlaceId Place
  transitions : Arena TransitionId Transition
  arcs : Arena ArcId Arc
  placeNames : NameTable PlaceId
  transitionNames : NameTable TransitionId

namespace Net

/-- The net without nodes. -/
def empty (id : String) : Net := ⟨id, ∅, ∅, ∅, [], []⟩

instance : Inhabited Net := ⟨empty ""⟩

/-! ## Look-up -/

/-- The place that the table gives for an identifier. -/
def placeById (net : Net) (id : String) : Option PlaceId := net.placeNames.lookup id

/-- The transition that the table gives for an identifier. -/
def transitionById (net : Net) (id : String) : Option TransitionId := net.transitionNames.lookup id

/-- The node is one of the net. -/
def contains (net : Net) (n : Node) : Bool :=
  match n.kind with
  | .place => net.places.contains ⟨n.index⟩
  | .transition => net.transitions.contains ⟨n.index⟩

/-- The identifier of a node. -/
def nodeName? (net : Net) (n : Node) : Option String :=
  match n.kind with
  | .place => (net.places.get? ⟨n.index⟩).map (·.id)
  | .transition => (net.transitions.get? ⟨n.index⟩).map (·.id)

/-- The arcs listed as entering a node. -/
def incoming? (net : Net) (n : Node) : Option (List ArcId) :=
  match n.kind with
  | .place => (net.places.get? ⟨n.index⟩).map (·.incoming)
  | .transition => (net.transitions.get? ⟨n.index⟩).map (·.incoming)

/-- The arcs listed as leaving a node. -/
def outgoing? (net : Net) (n : Node) : Option (List ArcId) :=
  match n.kind with
  | .place => (net.places.get? ⟨n.index⟩).map (·.outgoing)
  | .transition => (net.transitions.get? ⟨n.index⟩).map (·.outgoing)

/-- All nodes: the places, then the transitions. -/
def nodes (net : Net) : List Node :=
  net.places.indices.map Handle.node ++ net.transitions.indices.map Handle.node

/-! ## Growth -/

/-- The net with one more place, which gets the next number and starts without arcs. -/
def addPlace (net : Net) (p : Place) : Net :=
  { net with
    places := net.places.push { p with incoming := [], outgoing := [] }
    placeNames := (p.id, net.places.next) :: net.placeNames }

/-- The net with one more transition, which gets the next number and starts without arcs. -/
def addTransition (net : Net) (t : Transition) : Net :=
  { net with
    transitions := net.transitions.push { t with incoming := [], outgoing := [] }
    transitionNames := (t.id, net.transitions.next) :: net.transitionNames }

/-- The net with the list of arcs that enter a node changed. -/
def modifyIncoming (net : Net) (n : Node) (f : List ArcId → List ArcId) : Net :=
  match n.kind with
  | .place =>
    { net with places := net.places.modify ⟨n.index⟩ fun p => { p with incoming := f p.incoming } }
  | .transition =>
    { net with
      transitions := net.transitions.modify ⟨n.index⟩ fun t => { t with incoming := f t.incoming } }

/-- The net with the list of arcs that leave a node changed. -/
def modifyOutgoing (net : Net) (n : Node) (f : List ArcId → List ArcId) : Net :=
  match n.kind with
  | .place =>
    { net with places := net.places.modify ⟨n.index⟩ fun p => { p with outgoing := f p.outgoing } }
  | .transition =>
    { net with
      transitions := net.transitions.modify ⟨n.index⟩ fun t => { t with outgoing := f t.outgoing } }

/-- The net with the arc listed at both its ends. -/
def enlist (net : Net) (a : ArcId) (arc : Arc) : Net :=
  (net.modifyOutgoing arc.source (· ++ [a])).modifyIncoming arc.target (· ++ [a])

/-- The net with the arc taken off the lists at both its ends. -/
def delist (net : Net) (a : ArcId) (arc : Arc) : Net :=
  (net.modifyOutgoing arc.source (·.filter (· ≠ a))).modifyIncoming arc.target (·.filter (· ≠ a))

/-- The net with one more arc, which gets the next number. The ends are not checked. -/
def join (net : Net) (arc : Arc) : Net :=
  { net with arcs := net.arcs.push arc }.enlist net.arcs.next arc

/-- The net with one more arc, unless there is one between these nodes. -/
def joinOnce (net : Net) (arc : Arc) : Net := if arc ∈ net.arcs.toList then net else net.join arc

/-- The net with the context of a transition changed. -/
def modifyContext (net : Net) (t : TransitionId) (f : Option Context → Option Context) : Net :=
  { net with transitions := net.transitions.modify t fun x => { x with context := f x.context } }

/-- The tables as they follow from the nodes. -/
def reindex (net : Net) : Net :=
  { net with
    placeNames := .ofArena (·.id) net.places
    transitionNames := .ofArena (·.id) net.transitions }

/-- The net of these nodes and arcs, with the tables that follow from them. -/
def ofParts (id : String) (places : Arena PlaceId Place)
    (transitions : Arena TransitionId Transition) (arcs : Arena ArcId Arc) : Net :=
  reindex ⟨id, places, transitions, arcs, [], []⟩

end Net

end RoutePolicy
