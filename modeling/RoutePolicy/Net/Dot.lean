import RoutePolicy.Net.Basic
import RoutePolicy.Text.DotLabel

set_option autoImplicit false

/-! # The graph description of a net

One line for each place, then for each transition, then for each arc, between an opening of two
lines and a closing one. Identifiers are escaped, so none can end its label or its line. -/

namespace RoutePolicy

open Text

/-- The name of a node in the description. -/
def Node.dotName (n : Node) : String :=
  match n.kind with
  | .place => "place_" ++ toString n.index
  | .transition => "trans_" ++ toString n.index

/-- The line of a place. -/
def Place.dotLine (p : Place) (i : PlaceId) : String :=
  let origin := match p.origin? with
    | some origin => "\\ninner of " ++ escapeLabel origin
    | none => ""
  "    " ++ i.node.dotName ++ " [label=\"" ++ escapeLabel p.id ++ "\\nmarkers: "
    ++ toString p.markers ++ origin ++ "\", shape=circle];\n"

/-- The line of a transition. -/
def Transition.dotLine (t : Transition) (i : TransitionId) : String :=
  let context := match t.context with
    | some context => escapeLabel context.text
    | none => "no context"
  "    " ++ i.node.dotName ++ " [label=\"" ++ escapeLabel t.id ++ "\\n" ++ context
    ++ "\", shape=box];\n"

/-- The line of an arc. -/
def Arc.dotLine (a : Arc) : String :=
  "    " ++ a.source.dotName ++ " -> " ++ a.target.dotName ++ ";\n"

namespace Net

/-- The lines of the description. -/
def dotLines (net : Net) : List String :=
  ["digraph \"" ++ escapeLabel net.id ++ "\" \x7b\n", "    rankdir=LR;\n"]
    ++ net.places.toPairs.map (fun (i, p) => p.dotLine i)
    ++ net.transitions.toPairs.map (fun (i, t) => t.dotLine i)
    ++ net.arcs.toList.map Arc.dotLine
    ++ ["\x7d\n"]

/-- The graph description of the net. -/
def dot (net : Net) : String := String.join net.dotLines

end Net

end RoutePolicy
