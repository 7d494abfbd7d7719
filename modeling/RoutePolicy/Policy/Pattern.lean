import RoutePolicy.Policy.Basic

set_option autoImplicit false

/-! # Patterns of rules

A rule is recognised by its shape: its kind, the number of its constraints, what a single
constraint is about, and its duties. -/

namespace RoutePolicy

/-- The shapes of rules for which there is a formula. -/
inductive Pattern where
  | provideAccess
  | prohibitAccess
  | nTimesUsage
  | durationUsage
  | usageDuringInterval
  | usageUntilDeletion
  | usageLogging
  | usageNotification
  | connectorRestrictedUsage
  deriving DecidableEq, Repr

/-- The name of a pattern in reports. -/
def Pattern.name : Pattern → String
  | .provideAccess => "PROVIDE_ACCESS"
  | .prohibitAccess => "PROHIBIT_ACCESS"
  | .nTimesUsage => "N_TIMES_USAGE"
  | .durationUsage => "DURATION_USAGE"
  | .usageDuringInterval => "USAGE_DURING_INTERVAL"
  | .usageUntilDeletion => "USAGE_UNTIL_DELETION"
  | .usageLogging => "USAGE_LOGGING"
  | .usageNotification => "USAGE_NOTIFICATION"
  | .connectorRestrictedUsage => "CONNECTOR_RESTRICTED_USAGE"

namespace Rule

/-- The pattern of a permission. -/
def permissionPattern (r : Rule) : Option Pattern :=
  match r.constraints with
  | [] =>
    if r.hasDuty .notify then some .usageNotification
    else if r.hasDuty .log then some .usageLogging
    else if r.postDuties.isEmpty then some .provideAccess
    else none
  | [c] =>
    match c.leftOperand with
    | .count => some .nTimesUsage
    | .elapsedTime => some .durationUsage
    | .system =>
      if c.comparison = .eq ∨ c.comparison = .sameAs then some .connectorRestrictedUsage else none
    | _ => none
  | [_, _] => if r.postDuties.isEmpty then some .usageDuringInterval else some .usageUntilDeletion
  | _ => none

/-- The pattern of a rule. -/
def pattern (r : Rule) : Option Pattern :=
  match r.kind with
  | .permission => r.permissionPattern
  | .prohibition => some .prohibitAccess
  | .obligation => none

end Rule

end RoutePolicy
