import RoutePolicy.Policy.Template

set_option autoImplicit false

/-! # Settings of a verification -/

namespace RoutePolicy

structure Config where
  /-- The greatest number of steps of a route's net that are explored. -/
  stateLimit : Option Nat
  /-- The greatest number of paths that are met. -/
  pathLimit : Option Nat
  loggingTag : String
  notificationTag : String
  /-- A bound on the number of uses also counts reads at the same time. -/
  checkParallelReads : Bool
  deriving DecidableEq, Repr

namespace Config

/-- The settings that hold where nothing else is said. -/
def standard : Config := ⟨some 10000, some 100000, "logging", "notification", true⟩

instance : Inhabited Config := ⟨standard⟩

/-- The tags that discharge duties. -/
def dutyTags (c : Config) : DutyTags := ⟨c.loggingTag, c.notificationTag⟩

end Config

end RoutePolicy
