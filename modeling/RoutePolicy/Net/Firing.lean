import RoutePolicy.Net.Neighbours

set_option autoImplicit false

/-! # The firing rule

A transition is enabled when every place with an arc to it holds a marker. Fired on its own it
takes one marker along each arc into it and puts one along each arc out of it. In a batched step
all enabled transitions fire together; where they compete for markers the count stops at zero.

Counts are kept in 64 bits. A single firing fails rather than wrap around. A batched step adds in
signed 64-bit numbers, so it reads a count of `2 ^ 63` or more as a negative one. -/

namespace RoutePolicy

/-- The number of markers in each place. -/
abbrev Marking := Arena PlaceId Nat

namespace Marking

/-- The marking with one marker less in `p`, if there is any. -/
def take (m : Marking) (p : PlaceId) : Except Failure Marking := do
  let tokens ← m.require p
  return m.set p (tokens - 1)

/-- The marking with one marker more in `p`. -/
def put (m : Marking) (p : PlaceId) : Except Failure Marking := do
  let tokens ← m.require p
  if tokens + 1 < countRange then return m.set p (tokens + 1) else throw .overflow

/-- The number of markers in all places. -/
def total (m : Marking) : Except Failure Nat :=
  let sum := m.toList.foldl (· + ·) 0
  if sum < countRange then .ok sum else .error .overflow

/-- The places that hold a marker, with their counts. -/
def marked (m : Marking) : List (PlaceId × Nat) := m.toPairs.filter fun (_, tokens) => 0 < tokens

end Marking

namespace Net

/-- The markers of the places. -/
def marking (net : Net) : Marking := ⟨net.places.entries.map (·.markers)⟩

/-- The net with other markers in its places. -/
def withMarking (net : Net) (m : Marking) : Net :=
  let places := net.places.entries.zipWith (fun p markers => { p with markers }) m.entries
  { net with places := ⟨places⟩ }

/-- The net with other markers in its places, of which there must be as many as places. -/
def applyMarking (net : Net) (m : Marking) : Except Failure Net :=
  if m.size = net.places.size then .ok (net.withMarking m) else .error .wrongLength

/-! ## Enabled transitions -/

/-- Every place that the listed arcs come from holds a marker. The list is followed up to the
first place without one. -/
def allMarked (net : Net) (m : Marking) : List ArcId → Except Failure Bool
  | [] => .ok true
  | a :: as => do
    match (← net.arcs.require a).source.place? with
    | none => net.allMarked m as
    | some p => if (← m.require p) = 0 then return false else net.allMarked m as

/-- The transition is enabled at the marking. -/
def isEnabledAt (net : Net) (m : Marking) (t : TransitionId) : Except Failure Bool := do
  net.allMarked m (← net.incoming t.node)

/-- The transitions that are enabled at the marking, by number. -/
def enabledAt (net : Net) (m : Marking) : Except Failure (List TransitionId) :=
  net.transitions.indices.filterM (net.isEnabledAt m)

/-- The transitions that are enabled. -/
def enabled (net : Net) : Except Failure (List TransitionId) := net.enabledAt net.marking

/-! ## One transition -/

/-- The marking after an enabled transition has fired. -/
def fireAt (net : Net) (m : Marking) (t : TransitionId) : Except Failure Marking := do
  if ← net.isEnabledAt m t then
    let inputs ← net.preset t
    let outputs ← net.postset t
    outputs.foldlM Marking.put (← inputs.foldlM Marking.take m)
  else
    throw (.notEnabled t)

/-- The net after an enabled transition has fired. -/
def fireTransition (net : Net) (t : TransitionId) : Except Failure Net := do
  return net.withMarking (← net.fireAt net.marking t)

/-! ## All enabled transitions together -/

/-- A count of 64 bits read as a signed number. -/
def signedCount (n : Nat) : Int := (n : Int).bmod countRange

/-- What a batched step adds to the count of each place: one for each arc from a firing transition
and minus one for each arc to one. -/
def batchChange (net : Net) (fired : List TransitionId) : Except Failure (PlaceId → Int) := do
  let inputs := (← fired.mapM net.preset).flatten
  let outputs := (← fired.mapM net.postset).flatten
  if (inputs ++ outputs).all net.places.contains then
    return fun p => (outputs.count p : Int) - inputs.count p
  else
    throw .outside

/-- The count of a place after a change, which stops at zero. -/
def changedCount (tokens : Nat) (change : Int) : Except Failure Nat :=
  let after := signedCount tokens + change
  if -(signedRange : Int) ≤ after ∧ after < signedRange then .ok after.toNat else .error .overflow

/-- The marking after all enabled transitions have fired together, and these transitions. -/
def fireAllAt (net : Net) (m : Marking) : Except Failure (Marking × List TransitionId) := do
  let fired ← net.enabledAt m
  let change ← net.batchChange fired
  let counts ← m.toPairs.mapM fun (p, tokens) => changedCount tokens (change p)
  return (.ofList counts, fired)

/-- The net after all enabled transitions have fired together, and these transitions. -/
def fireAll (net : Net) : Except Failure (Net × List TransitionId) := do
  let (m, fired) ← net.fireAllAt net.marking
  return (net.withMarking m, fired)

end Net

end RoutePolicy
