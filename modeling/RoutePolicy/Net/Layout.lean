import RoutePolicy.Net.Firing
import RoutePolicy.Text.Layout
import RoutePolicy.Text.Quoted

set_option autoImplicit false

/-! # Nets and their parts shown as text -/

namespace RoutePolicy

open Text

/-- The entries of an arena under their numbers. -/
def Arena.layout {ι α : Type} [Index ι] (f : α → Layout) (a : Arena ι α) : Layout :=
  .map (a.toPairs.map fun (i, x) => (Index.label i, f x))

/-- The identifier, the markers and, for an inner place, its origin. -/
def Place.layout (p : Place) : Layout :=
  let origin := match p.origin? with
    | some origin => [("origin", Layout.atom (quote origin))]
    | none => []
  .record "Place" ([("id", .atom (quote p.id)), ("markers", .atom (toString p.markers))] ++ origin)
    false

/-- The identifier. -/
def Transition.layout (t : Transition) : Layout := .tuple "Transition" [.atom (quote t.id)]

/-- The identifier, the nodes and the arcs. -/
def Net.layout (net : Net) : Layout :=
  .record "PetriNet" [
    ("id", .atom (quote net.id)),
    ("places", net.places.layout Place.layout),
    ("transitions", net.transitions.layout Transition.layout),
    ("arcs", net.arcs.layout fun arc => .atom arc.label)] false

/-- The marked places with their counts. -/
def Marking.layout (m : Marking) : Layout :=
  .map (m.marked.map fun (p, tokens) => (p.label, .atom (toString tokens)))

end RoutePolicy
