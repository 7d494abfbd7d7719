import Std.Data.HashMap
import RoutePolicy.Net.Firing
import RoutePolicy.Text.DotLabel

set_option autoImplicit false

/-! # The step graph

The markings that a net reaches by firing one transition at a time, numbered in the order of a
breadth-first search, with one move for each enabled transition of each step.

The search takes the steps in the order of their numbers, so the steps that wait are those from
`steps.size` on. A limit is met when a new marking turns up while there are that many steps
already. Counts are kept in 64 bits, so there are only so many markings of a net; without a
limit that number takes its place and is never met. -/

namespace RoutePolicy

open Text

/-- A reached marking with its number, and the transitions that are enabled at it. -/
structure Step where
  index : Nat
  marking : Marking
  enabled : List TransitionId
  deriving DecidableEq

/-- One firing: between two steps by their numbers, with the identifier of the transition. -/
structure Move where
  source : Nat
  target : Nat
  transition : TransitionId
  label : String
  deriving DecidableEq

/-- The explored steps of a net; the first is its own marking. The table finds a step by its
marking. -/
structure StepGraph where
  net : Net
  steps : Array Step
  moves : Array Move
  numbers : Std.HashMap Marking Nat

/-! ## Exploration -/

/-- What the search has found: all markings met, in order, with their numbers; the steps taken
so far and their moves. -/
structure Discovery where
  markings : Array Marking
  numbers : Std.HashMap Marking Nat
  steps : Array Step
  moves : Array Move

namespace Discovery

/-- Only the first marking is known. -/
def start (m : Marking) : Discovery := ⟨#[m], (∅ : Std.HashMap Marking Nat).insert m 0, #[], #[]⟩

/-- The number of a marking, which is a new one if the marking was not met before. -/
def visit (cap : Nat) (d : Discovery) (m : Marking) : Except Failure (Discovery × Nat) :=
  match d.numbers[m]? with
  | some i => .ok (d, i)
  | none =>
    let n := d.markings.size
    if cap ≤ n then .error (.tooManySteps cap n)
    else .ok ({ d with markings := d.markings.push m, numbers := d.numbers.insert m n }, n)

end Discovery

namespace Net

/-- The moves of the step `source`, whose marking is `m`, by the given transitions. -/
def expand (net : Net) (cap source : Nat) (m : Marking) :
    List TransitionId → Discovery → Except Failure Discovery
  | [], d => .ok d
  | t :: ts, d => do
    let next ← net.fireAt m t
    let (d, target) ← d.visit cap next
    let label ← net.nodeName t
    net.expand cap source m ts { d with moves := d.moves.push ⟨source, target, t, label⟩ }

/-- At most `fuel` waiting steps, one after the other. -/
def explore (net : Net) (cap : Nat) : Nat → Discovery → Except Failure Discovery
  | 0, d => .ok d
  | fuel + 1, d =>
    match d.markings[d.steps.size]? with
    | none => .ok d
    | some m => do
      let enabled ← net.enabledAt m
      let d ← net.expand cap d.steps.size m enabled d
      net.explore cap fuel { d with steps := d.steps.push ⟨d.steps.size, m, enabled⟩ }

/-- The number of markings that can be written with the counts of the net's places. -/
def markingCount (net : Net) : Nat := Nat.pow countRange net.places.size

/-- The step graph of the net, with at most `limit` steps. -/
def stepGraph (net : Net) (limit : Option Nat) : Except Failure StepGraph := do
  let cap := limit.getD net.markingCount
  let d ← net.explore cap (max cap 1) (.start net.marking)
  return ⟨net, d.steps, d.moves, d.numbers⟩

end Net

/-! ## What a step graph tells -/

namespace StepGraph

/-- The number of steps. -/
def stepCount (g : StepGraph) : Nat := g.steps.size

/-- The number of moves. -/
def moveCount (g : StepGraph) : Nat := g.moves.size

/-- The marking is one of a step. -/
def containsMarking (g : StepGraph) (m : Marking) : Bool := g.numbers.contains m

/-- The steps without an enabled transition, by number. -/
def terminal (g : StepGraph) : List Nat :=
  (g.steps.toList.zipIdx.filter fun (s, _) => s.enabled.isEmpty).map (·.2)

/-- The transitions that fire somewhere, in the order in which they first do. -/
def fired (g : StepGraph) : List TransitionId := (g.moves.toList.map (·.transition)).eraseDups

/-- The net with the markers of a step. -/
def stepNet (g : StepGraph) (i : Nat) : Except Failure Net :=
  match g.steps[i]? with
  | some s => g.net.applyMarking s.marking
  | none => .error .outside

/-- The marked places of a step, such as `a:1, b:2`. -/
def stepLabel (g : StepGraph) (s : Step) : String :=
  String.intercalate ", " (s.marking.marked.map fun (p, tokens) =>
    (g.net.nodeName? p.node).getD "" ++ ":" ++ toString tokens)

/-- The graph description: a line for each step, then one for each move. -/
def dot (g : StepGraph) : String :=
  let stepLine (i : Nat) (s : Step) :=
    "    " ++ toString i ++ " [ label=\"s" ++ toString s.index ++ "\\n"
      ++ escapeRawLabel (g.stepLabel s) ++ "\"]\n"
  let moveLine (m : Move) :=
    "    " ++ toString m.source ++ " -> " ++ toString m.target ++ " [ label=\""
      ++ escapeRawLabel m.label ++ "\"]\n"
  String.join (["digraph \x7b\n"] ++ g.steps.toList.zipIdx.map (fun (s, i) => stepLine i s)
    ++ g.moves.toList.map moveLine ++ ["\x7d\n"])

end StepGraph

end RoutePolicy
