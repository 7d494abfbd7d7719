import RoutePolicy.Net.Unfolding
import RoutePolicy.StepGraph

set_option autoImplicit false

/-! # Transitions that run at once

Transitions can run at once when a step of the unfolded net has a marker in the inner place of
each of them. -/

namespace RoutePolicy

/-- The transitions at work at a marking of an unfolded net. -/
def Net.atWork (unfolded : Net) (m : Marking) : NameSet :=
  .ofList (m.marked.filterMap fun (p, _) => (unfolded.places.get? p).bind Place.origin?)

/-- The sets of at least two transitions that can run at once, in ascending order. The steps of
the unfolded net may be at most `limit`. -/
def Net.parallelSets (net : Net) (limit : Option Nat) : Except Failure (List (List String)) := do
  let unfolded ← net.unfold
  let g ← unfolded.stepGraph limit
  let sets := (g.steps.toList.map fun s => unfolded.atWork s.marking).filter fun s => 2 ≤ s.size
  return (SortedSet.ofList (sets.map (·.toList))).toList

end RoutePolicy
