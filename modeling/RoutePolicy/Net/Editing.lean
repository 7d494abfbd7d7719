import RoutePolicy.Net.Basic

set_option autoImplicit false

/-! # Changing arcs

An arc joins a place and a transition of the net. Every change of an arc checks this first, so a
refused change leaves the net as it was. -/

namespace RoutePolicy

namespace Net

/-- The arc may be in the net: both ends are nodes of it, of different kinds. -/
def checkArc (net : Net) (arc : Arc) : Except Failure Unit :=
  match net.nodeName? arc.source, net.nodeName? arc.target with
  | none, _ => .error (.unknownNode arc.source)
  | some _, none => .error (.unknownNode arc.target)
  | some source, some target =>
    if arc.source.sameKind arc.target then .error (.sameKind source target) else .ok ()

/-- The net with one more arc, which gets the next number. -/
def addArc (net : Net) (arc : Arc) : Except Failure Net := do
  net.checkArc arc
  return net.join arc

/-- The first of the listed arcs that leads to `target`. -/
def firstArcTo (net : Net) (target : Node) : List ArcId → Except Failure (Option ArcId)
  | [] => .ok none
  | a :: as => do
    let arc ← net.arcs.require a
    if arc.target = target then return some a else net.firstArcTo target as

/-- The first arc listed from one node to another. -/
def findArc (net : Net) (arc : Arc) : Except Failure (Option ArcId) :=
  match net.outgoing? arc.source with
  | none => .ok none
  | some as => net.firstArcTo arc.target as

/-- The net with an arc between these nodes, and the number of the arc. An arc that is there
already is kept. -/
def addArcOnce (net : Net) (arc : Arc) : Except Failure (Net × ArcId) := do
  match ← net.findArc arc with
  | some a => return (net, a)
  | none => return (← net.addArc arc, net.arcs.next)

/-- The net with the arc of number `a` moved from `old` to `new`. It goes to the end of the lists
at both its ends, also of the end that stays. -/
def repoint (net : Net) (a : ArcId) (old new : Arc) : Except Failure Net := do
  net.checkArc new
  if net.contains old.source && net.contains old.target then
    let net := net.delist a old
    return { net with arcs := net.arcs.set a new }.enlist a new
  else
    throw .outside

/-- The net with the arc of number `a` leaving another node. -/
def setSource (net : Net) (a : ArcId) (source : Node) : Except Failure Net :=
  match net.arcs.get? a with
  | none => .error (.unknownArc a)
  | some arc => net.repoint a arc { arc with source }

/-- The net with the arc of number `a` entering another node. -/
def setTarget (net : Net) (a : ArcId) (target : Node) : Except Failure Net :=
  match net.arcs.get? a with
  | none => .error (.unknownArc a)
  | some arc => net.repoint a arc { arc with target }

/-- The net with another number of markers in a place. -/
def setMarkers (net : Net) (p : PlaceId) (markers : Nat) : Net :=
  { net with places := net.places.modify p fun x => { x with markers } }

/-- The net with a place under another identifier. The table keeps the old one. -/
def renamePlace (net : Net) (p : PlaceId) (id : String) : Net :=
  { net with places := net.places.modify p fun x => { x with id } }

/-- The net with a transition under another identifier. The table keeps the old one. -/
def renameTransition (net : Net) (t : TransitionId) (id : String) : Net :=
  { net with transitions := net.transitions.modify t fun x => { x with id } }

end Net

end RoutePolicy
