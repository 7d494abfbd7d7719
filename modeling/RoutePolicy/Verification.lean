import RoutePolicy.Concurrency
import RoutePolicy.Config
import RoutePolicy.Formula.Evaluation
import RoutePolicy.Report
import RoutePolicy.Route.RouteNet

set_option autoImplicit false

/-! # Verification of routes

The net of a route is explored once. Each rule of each resource is then classified, made into a
formula and evaluated at the source place. A bound on the number of uses has to hold also for reads
at the same time. Where exploration met a limit nothing is said about a rule. -/

namespace RoutePolicy

/-- A route and the resources whose rules it has to keep. -/
structure Request where
  route : Route
  resources : List Resource

/-- What a route gives rise to. -/
structure Analysis where
  route : RouteNet
  /-- The steps and paths of the net, or the limit that was met. -/
  stateSpace : Except Failure (StepGraph × PathSet)

/-- The sets of transitions that can run at once, if they are asked for. -/
abbrev ParallelSets := Option (Except Failure (List (List String)))

/-- The net of a route, explored. -/
def Config.analyse (c : Config) (route : Route) : Analysis :=
  let built := RouteNet.ofRoute route
  { route := built
    stateSpace := do
      let steps ← built.net.stepGraph c.stateLimit
      let paths ← steps.pathSet c.pathLimit
      return (steps, paths) }

/-- The size of the net and of its state space. -/
def Analysis.statistics (a : Analysis) : NetStatistics :=
  let net := a.route.net
  let size := a.stateSpace.toOption.map fun (steps, paths) => (steps.stepCount, paths.size)
  ⟨net.places.size, net.transitions.size, net.arcs.size, size.map (·.1), size.map (·.2)⟩

/-- The number of uses at the same time that a rule allows. -/
def Rule.concurrencyBound? (r : Rule) : Option Whole := do
  let c ← r.constraintOn .count
  (← readBinary64? (Text.trim c.rightOperand)).whole?

/-- The number of transitions in a set that read a resource. -/
def Net.readersIn (net : Net) (target : String) (set : List String) : Nat :=
  set.countP fun id =>
    ((net.transitionById id).bind net.transitions.get?).any (·.hasContext (·.reads target))

/-- The greatest number of transitions in one of the sets that read a resource. -/
def Net.readersAtOnce (net : Net) (target : String) (sets : List (List String)) : Nat :=
  (sets.map (net.readersIn target)).foldl max 0

/-- The outcome for a rule on the number of uses that holds along every path. -/
def Net.parallelOutcome (net : Net) (sets : ParallelSets) (target : String) (rule : Rule) :
    Outcome :=
  match sets with
  | none => .satisfied
  | some (.error failure) => .inconclusive failure.message
  | some (.ok sets) =>
    match rule.concurrencyBound? with
    | none => .satisfied
    | some bound =>
      let readers := net.readersAtOnce target sets
      if bound.magnitude < readers then
        .violated (some (toString readers ++ " concurrent reads of " ++ target ++ " exceed bound "
          ++ bound.text))
      else .satisfied

/-- The outcome for a rule with a formula. -/
def Analysis.outcome (a : Analysis) (sets : ParallelSets) (target : String) (rule : Rule)
    (pattern : Pattern) (formula : StateFormula) : Outcome :=
  match a.stateSpace with
  | .error failure => .inconclusive failure.message
  | .ok (_, paths) =>
    match formula.verdict paths a.route.source with
    | .error failure => .inconclusive failure.message
    | .ok verdict =>
      if !verdict.satisfied then .violated verdict.message
      else if pattern = .nTimesUsage then a.route.net.parallelOutcome sets target rule
      else .satisfied

/-- The verdict on a rule that protects a resource. -/
def Analysis.verifyRule (a : Analysis) (tags : DutyTags) (sets : ParallelSets) (target : String)
    (rule : Rule) : RuleVerdict :=
  match rule.pattern with
  | none => ⟨target, rule.id, none, none, .skipped "rule shape not recognised"⟩
  | some pattern =>
    match rule.formulaFor a.route.net pattern target tags with
    | .error error => ⟨target, rule.id, some pattern, none, .skipped error.message⟩
    | .ok formula =>
      ⟨target, rule.id, some pattern, some formula.text, a.outcome sets target rule pattern formula⟩

/-- The sets of transitions that can run at once, if the settings and a rule ask for them. -/
def Analysis.parallelSets (a : Analysis) (c : Config) (resources : List Resource) : ParallelSets :=
  if c.checkParallelReads
      && (resources.flatMap Resource.rules).any fun r => r.pattern = some .nTimesUsage then
    some (a.route.net.parallelSets c.stateLimit)
  else none

/-- The report on resources for an analysed route. -/
def Analysis.report (a : Analysis) (c : Config) (resources : List Resource) : Report :=
  let sets := a.parallelSets c resources
  { route := a.route.net.id
    net := a.statistics
    parallelSets := match sets with
      | some (.ok sets) => sets
      | _ => []
    verdicts := resources.flatMap fun resource =>
      resource.rules.map (a.verifyRule c.dutyTags sets resource.id) }

/-- The report on a request. -/
def Config.verify (c : Config) (request : Request) : Report :=
  (c.analyse request.route).report c request.resources

end RoutePolicy
