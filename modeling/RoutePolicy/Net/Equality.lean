import RoutePolicy.Net.Neighbours

set_option autoImplicit false

/-! # Nets that agree

Two nets agree when they have the same identifier, the same nodes and arcs between the same
nodes, in whatever order. Nodes are matched by identifier, through the tables of the second net.
Agreement up to markers leaves out the identifiers of the nets and the markers. -/

namespace RoutePolicy

/-- The same identifier and markers. -/
def Place.agrees (p q : Place) : Bool := p.id = q.id && p.markers = q.markers

/-- The same identifier, and the same origin or both plain. -/
def Place.agreesUpToMarkers (p q : Place) : Bool := p.id = q.id && p.kind = q.kind

/-- The same identifier and context. -/
def Transition.agrees (s t : Transition) : Bool := s.id = t.id && s.context = t.context

/-- The lists have the same elements. -/
def sameElements {α : Type} [DecidableEq α] (l m : List α) : Bool :=
  l.all (m.contains ·) && m.all (l.contains ·)

theorem sameElements_iff {α : Type} [DecidableEq α] {l m : List α} :
    sameElements l m = true ↔ ∀ a, a ∈ l ↔ a ∈ m := by
  simp only [sameElements, Bool.and_eq_true, List.all_eq_true, List.contains_iff_mem]
  exact ⟨fun h a => ⟨h.1 a, h.2 a⟩, fun h => ⟨fun a => (h a).mp, fun a => (h a).mpr⟩⟩

namespace Net

/-- As many places, each matched by one of `other` that satisfies `p`. -/
def matchesPlaces (net other : Net) (p : Place → Place → Bool) : Bool :=
  net.places.size = other.places.size
    && net.places.toList.all fun x => ((other.placeById x.id).bind other.places.get?).any (p x)

/-- As many transitions, each matched by one of `other` that agrees with it. -/
def matchesTransitions (net other : Net) : Bool :=
  net.transitions.size = other.transitions.size
    && net.transitions.toList.all fun x =>
      ((other.transitionById x.id).bind other.transitions.get?).any x.agrees

/-- What identifies an arc by identifiers: whether it leaves a place, and the names of its ends. -/
def arcKeys (net : Net) : Except Failure (List (Bool × String × String)) :=
  net.arcs.toList.mapM fun arc =>
    return (arc.source.kind = .place, ← net.nodeName arc.source, ← net.nodeName arc.target)

/-- Arcs between the same nodes. -/
def matchesArcs (net other : Net) : Except Failure Bool :=
  return sameElements (← net.arcKeys) (← other.arcKeys)

/-- The nets have the same nodes and arcs, whatever their markers. -/
def agreesUpToMarkers (net other : Net) : Except Failure Bool :=
  if net.matchesPlaces other Place.agreesUpToMarkers && net.matchesTransitions other then
    net.matchesArcs other
  else
    .ok false

/-- The nets have the same identifier, nodes, markers and arcs. -/
def agrees (net other : Net) : Except Failure Bool :=
  if net.id = other.id && net.matchesPlaces other Place.agrees && net.matchesTransitions other then
    net.matchesArcs other
  else
    .ok false

end Net

end RoutePolicy
