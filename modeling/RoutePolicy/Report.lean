import RoutePolicy.Policy.Pattern

set_option autoImplicit false

/-! # Reports of a verification -/

namespace RoutePolicy

/-- What was found out about a rule. -/
inductive Outcome where
  | satisfied
  | violated (message : Option String)
  /-- Exploration met a limit before there was an answer. -/
  | inconclusive (reason : String)
  /-- The rule has no formula. -/
  | skipped (reason : String)
  deriving DecidableEq, Repr

namespace Outcome

/-- The rule is violated. -/
def isViolation : Outcome → Bool
  | .violated _ => true
  | _ => false

/-- The outcome in words. -/
def text : Outcome → String
  | .satisfied => "satisfied"
  | .violated (some message) => "violated (" ++ message ++ ")"
  | .violated none => "violated"
  | .inconclusive reason => "inconclusive: " ++ reason
  | .skipped reason => "skipped: " ++ reason

end Outcome

/-- What was found out about one rule that protects one resource. -/
structure RuleVerdict where
  resource : String
  rule : String
  pattern : Option Pattern
  /-- The text of the formula that was evaluated. -/
  formula : Option String
  outcome : Outcome
  deriving DecidableEq, Repr

/-- The size of a route's net, and of its state space if it was explored to the end. -/
structure NetStatistics where
  places : Nat
  transitions : Nat
  arcs : Nat
  steps : Option Nat
  paths : Option Nat
  deriving DecidableEq, Repr

structure Report where
  route : String
  net : NetStatistics
  /-- The sets of transitions that can run at once. -/
  parallelSets : List (List String)
  verdicts : List RuleVerdict
  deriving DecidableEq, Repr

namespace Report

/-- The verdicts of violated rules. -/
def violations (r : Report) : List RuleVerdict := r.verdicts.filter (·.outcome.isViolation)

/-- No rule is violated. -/
def isCompliant (r : Report) : Bool := !r.verdicts.any (·.outcome.isViolation)

/-- The first verdict on a rule that protects a resource. -/
def verdict? (r : Report) (resource rule : String) : Option RuleVerdict :=
  r.verdicts.find? fun v => v.resource = resource && v.rule = rule

/-- A count, or a dash. -/
def shownCount : Option Nat → String
  | some n => toString n
  | none => "-"

/-- The report in words: a heading, the size of the net, a line for each set of transitions that
can run at once, and a line for each verdict. -/
def text (r : Report) : String :=
  let heading := "Route Verification Report: " ++ r.route ++ "\n"
  let size := "net: " ++ toString r.net.places ++ " places, " ++ toString r.net.transitions
    ++ " transitions, " ++ toString r.net.arcs ++ " arcs; " ++ shownCount r.net.steps ++ " steps, "
    ++ shownCount r.net.paths ++ " paths\n"
  let parallelLine (set : List String) :=
    "parallel: \x7b" ++ String.intercalate ", " set ++ "\x7d\n"
  let verdictLine (v : RuleVerdict) :=
    "[" ++ v.resource ++ "] " ++ v.rule ++ " " ++ ((v.pattern.map Pattern.name).getD "UNCLASSIFIED")
      ++ ": " ++ v.outcome.text ++ "\n"
  heading ++ size ++ String.join (r.parallelSets.map parallelLine)
    ++ String.join (r.verdicts.map verdictLine)

end Report

end RoutePolicy
