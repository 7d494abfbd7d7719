import RoutePolicy.Formula.Basic
import RoutePolicy.Number.Numeral
import RoutePolicy.Policy.Pattern
import RoutePolicy.Text.Blank
import RoutePolicy.Text.Quoted

set_option autoImplicit false

/-! # The formula of a rule

Each pattern has a formula about the resource a rule protects, to be evaluated at the source place
of a route. A bound on the number of uses becomes that many nested reads, so it may not be too
large. When the net is known, the bound is cut down to the number of transitions that read the
resource at all. -/

namespace RoutePolicy

open Text

/-- Why a rule has no formula. -/
inductive PolicyError where
  | missingConstraint (rule : String) (operand : LeftOperand)
  | invalidBound (rule value : String)
  | boundTooDeep (rule : String) (bound : Nat)
  deriving DecidableEq, Repr

/-- The greatest number of nested reads. -/
def maxNestedBound : Nat := 256

/-- The name of an operand in messages. -/
def LeftOperand.title : LeftOperand → String
  | .count => "Count"
  | .elapsedTime => "ElapsedTime"
  | .system => "System"
  | .policyEvaluationTime => "PolicyEvaluationTime"
  | .purpose => "Purpose"
  | .unknown => "Unknown"

/-- The reason in words. -/
def PolicyError.message : PolicyError → String
  | .missingConstraint rule operand =>
    "rule " ++ rule ++ " has no " ++ operand.title ++ " constraint"
  | .invalidBound rule value => "rule " ++ rule ++ ": " ++ quote value ++ " is not a usage bound"
  | .boundTooDeep rule bound =>
    "rule " ++ rule ++ ": bound " ++ toString bound ++ " nests deeper than "
      ++ toString maxNestedBound ++ " reads"

/-- The tags that discharge the duties of logging and of notification. -/
structure DutyTags where
  logging : String
  notification : String
  deriving DecidableEq, Repr

/-- The usual names of the tags. -/
def DutyTags.standard : DutyTags := ⟨"logging", "notification"⟩

instance : Inhabited DutyTags := ⟨.standard⟩

/-! ## Usage bounds -/

/-- The number of uses that a text allows: a whole number of 64 bits, or else a binary64 number
that is whole and not negative, cut to 64 bits. -/
def readUsageBound? (text : String) : Option Nat :=
  match readCount? countRange text with
  | some n => some n
  | none =>
    match (readBinary64? text).bind Binary64.whole? with
    | some w => if w.isNonnegative then some (min w.magnitude (countRange - 1)) else none
    | none => none

/-- The number of uses that a rule allows. -/
def Rule.usageBound (r : Rule) : Except PolicyError Nat :=
  match r.constraintOn .count with
  | none => .error (.missingConstraint r.id .count)
  | some c =>
    let value := trim c.rightOperand
    match readUsageBound? value with
    | some n => .ok n
    | none => .error (.invalidBound r.id value)

/-! ## Templates -/

namespace Formula

/-- The transition reads the resource. -/
def reads (target : String) : TransitionFormula := .leaf (.reads target)

/-- The transition erases the resource. -/
def erases (target : String) : TransitionFormula := .leaf (.erases target)

/-- The transition carries the tag. -/
def tagged (tag : String) : TransitionFormula := .leaf (.tagged tag)

/-- No place that can be reached leads to a transition that satisfies `step`. -/
def neverReachable (step : TransitionFormula) : StateFormula := .inv (.not (.modal step))

/-- Every read that can be reached is followed by `goal` on every path. -/
def everyReadFollowedBy (target : String) (goal : TransitionFormula) : StateFormula :=
  neverReachable (.and (reads target) (.not (.ev goal)))

/-- Some path reads the resource more than `bound` times. -/
def readsMoreThan (target : String) : Nat → StateFormula
  | 0 => .pos (.modal (reads target))
  | bound + 1 => .pos (.modal (.and (reads target) (.modal (readsMoreThan target bound))))

/-- No path reads the resource more than `bound` times. -/
def atMost (bound : Nat) (target : String) : StateFormula := .not (readsMoreThan target bound)

/-- Every read that can be reached is followed by an erasure, and no erasure by a read. -/
def erasedForGood (target : String) : StateFormula :=
  .and (everyReadFollowedBy target (erases target))
    (neverReachable (.and (erases target) (.modal (.pos (.modal (reads target))))))

end Formula

/-- The formula of a bound on the number of uses. With `readers`, the number of transitions that
read the resource, the bound counts only up to it. -/
def Rule.usageFormula (r : Rule) (target : String) (readers : Option Nat) :
    Except PolicyError StateFormula := do
  let bound ← r.usageBound
  let nested := match readers with
    | some readers => min bound readers
    | none => bound
  if maxNestedBound < nested then throw (.boundTooDeep r.id bound)
  return .atMost nested target

/-- The formula of a rule with a pattern. -/
def Rule.instantiate (r : Rule) (p : Pattern) (target : String) (tags : DutyTags)
    (readers : Option Nat) : Except PolicyError StateFormula :=
  match p with
  | .provideAccess => .ok .top
  | .prohibitAccess => .ok (.neverReachable (.reads target))
  | .nTimesUsage => r.usageFormula target readers
  | .durationUsage | .usageDuringInterval => .ok (.everyReadFollowedBy target (.erases target))
  | .usageUntilDeletion => .ok (.erasedForGood target)
  | .usageLogging => .ok (.everyReadFollowedBy target (.tagged tags.logging))
  | .usageNotification => .ok (.everyReadFollowedBy target (.tagged tags.notification))
  | .connectorRestrictedUsage =>
    match r.constraintOn .system with
    | none => .error (.missingConstraint r.id .system)
    | some c =>
      .ok (.neverReachable (.and (.reads target) (.not (.tagged (trim c.rightOperand)))))

/-- The formula of a rule for a route that is not known. -/
def Rule.formula (r : Rule) (p : Pattern) (target : String) (tags : DutyTags) :
    Except PolicyError StateFormula := r.instantiate p target tags none

/-- The number of transitions that read a resource. -/
def Net.readerCount (net : Net) (target : String) : Nat :=
  net.transitions.toList.countP fun t => t.hasContext (·.reads target)

/-- The formula of a rule for a net. -/
def Rule.formulaFor (r : Rule) (net : Net) (p : Pattern) (target : String) (tags : DutyTags) :
    Except PolicyError StateFormula := r.instantiate p target tags (some (net.readerCount target))

end RoutePolicy
