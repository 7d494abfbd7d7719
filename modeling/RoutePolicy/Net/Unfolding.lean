import RoutePolicy.Net.Neighbours

set_option autoImplicit false

/-! # Unfolding

A net is unfolded by splitting each processing step `t` into `t#start`, a place `t#inner` and
`t#end`. The start takes the arcs into `t`, the end the arcs out of it, and a marker in the inner
place says that `t` is at work. Structural steps and all places stay as they are. -/

namespace RoutePolicy

/-- A net being unfolded: its transitions so far, and for each transition of the net it comes
from, the one that takes its arcs in and the one that takes its arcs out. -/
structure Unfolded where
  net : Net
  ends : Array (TransitionId × TransitionId)

namespace Unfolded

/-- The places of a net, without arcs. -/
def start (net : Net) : Unfolded :=
  ⟨net.places.toList.foldl Net.addPlace (.empty (net.id ++ "#unfolded")), #[]⟩

/-- One more transition, split if it is a processing step. -/
def addTransition (u : Unfolded) (t : Transition) : Unfolded :=
  let first := u.net.transitions.next
  match t.role with
  | .control => ⟨u.net.addTransition t, u.ends.push (first, first)⟩
  | .app =>
    let inner := u.net.places.next
    let last : TransitionId := ⟨first.index + 1⟩
    let net := u.net.addTransition (.bare (t.id ++ "#start") t.context)
      |>.addPlace (.inner (t.id ++ "#inner") t.id)
      |>.addTransition (.bare (t.id ++ "#end") t.context)
      |>.join ⟨first, inner⟩
      |>.join ⟨inner, last⟩
    ⟨net, u.ends.push (first, last)⟩

/-- Where an arc of the net goes. -/
def arcFor (u : Unfolded) (net : Net) (arc : Arc) : Except Failure Arc :=
  if arc.source.sameKind arc.target then do
    throw (.sameKind (← net.nodeName arc.source) (← net.nodeName arc.target))
  else if net.contains arc.source && net.contains arc.target then
    let source := match arc.source.transition? with
      | some t => (u.ends[t.index]?.map (·.2.node)).getD arc.source
      | none => arc.source
    let target := match arc.target.transition? with
      | some t => (u.ends[t.index]?.map (·.1.node)).getD arc.target
      | none => arc.target
    .ok ⟨source, target⟩
  else
    .error .outside

end Unfolded

/-- The net with every processing step split. -/
def Net.unfold (net : Net) : Except Failure Net := do
  let u := net.transitions.toList.foldl Unfolded.addTransition (.start net)
  let arcs ← net.arcs.toList.mapM (u.arcFor net)
  return arcs.foldl Net.join u.net

end RoutePolicy
