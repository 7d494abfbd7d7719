import RoutePolicy.Document.Policy
import RoutePolicy.Document.Route
import RoutePolicy.Verification

set_option autoImplicit false

/-! # Documents of requests, settings and reports -/

namespace RoutePolicy

instance : Documented Request where
  document r := .record [("route", document r.route), ("resources", document r.resources)]
  read? v := do
    let fields ← Source.record? "VerificationRequest" ["route", "resources"] v
    return { route := ← fields.required "route" read?
             resources := ← fields.withDefault "resources" [] read? }

/-- Every setting may be left out. -/
instance : Documented Config where
  document c :=
    .record [("state_limit", document c.stateLimit), ("path_limit", document c.pathLimit),
      ("logging_tag", document c.loggingTag), ("notification_tag", document c.notificationTag),
      ("check_parallel_reads", document c.checkParallelReads)]
  read? v := do
    let fields ← Source.record? "VerifierConfig"
      ["state_limit", "path_limit", "logging_tag", "notification_tag", "check_parallel_reads"] v
    let standard := Config.standard
    return { stateLimit := ← fields.withDefault "state_limit" standard.stateLimit read?
             pathLimit := ← fields.withDefault "path_limit" standard.pathLimit read?
             loggingTag := ← fields.withDefault "logging_tag" standard.loggingTag read?
             notificationTag :=
               ← fields.withDefault "notification_tag" standard.notificationTag read?
             checkParallelReads :=
               ← fields.withDefault "check_parallel_reads" standard.checkParallelReads read? }

/-- The fields of an outcome with the given tag. -/
def Outcome.fieldNames : String → Option (List String)
  | "SATISFIED" => some []
  | "VIOLATED" => some ["message"]
  | "INCONCLUSIVE" => some ["reason"]
  | "SKIPPED" => some ["reason"]
  | _ => none

/-- An outcome is a record whose field `outcome` says which one it is. -/
instance : Documented Outcome where
  document
    | .satisfied => .record [("outcome", .text "SATISFIED")]
    | .violated message => .record [("outcome", .text "VIOLATED"), ("message", document message)]
    | .inconclusive reason =>
      .record [("outcome", .text "INCONCLUSIVE"), ("reason", document reason)]
    | .skipped reason => .record [("outcome", .text "SKIPPED"), ("reason", document reason)]
  read? v := do
    let (tag, fields) ← Source.tagged? "outcome" Outcome.fieldNames v
    match tag with
    | "SATISFIED" => return .satisfied
    | "VIOLATED" => return .violated (← fields.optional "message" read?)
    | "INCONCLUSIVE" => return .inconclusive (← fields.required "reason" read?)
    | "SKIPPED" => return .skipped (← fields.required "reason" read?)
    | _ => none

instance : Documented RuleVerdict where
  document v :=
    .record [("resource", document v.resource), ("rule", document v.rule),
      ("pattern", document v.pattern), ("formula", document v.formula),
      ("outcome", document v.outcome)]
  read? v := do
    let fields ←
      Source.record? "RuleVerdict" ["resource", "rule", "pattern", "formula", "outcome"] v
    return { resource := ← fields.required "resource" read?
             rule := ← fields.required "rule" read?
             pattern := ← fields.optional "pattern" read?
             formula := ← fields.optional "formula" read?
             outcome := ← fields.required "outcome" read? }

instance : Documented NetStatistics where
  document s :=
    .record [("places", document s.places), ("transitions", document s.transitions),
      ("arcs", document s.arcs), ("steps", document s.steps), ("paths", document s.paths)]
  read? v := do
    let fields ←
      Source.record? "NetStatistics" ["places", "transitions", "arcs", "steps", "paths"] v
    return { places := ← fields.required "places" read?
             transitions := ← fields.required "transitions" read?
             arcs := ← fields.required "arcs" read?
             steps := ← fields.optional "steps" read?
             paths := ← fields.optional "paths" read? }

instance : Documented Report where
  document r :=
    .record [("route", document r.route), ("net", document r.net),
      ("parallel_sets", document r.parallelSets), ("verdicts", document r.verdicts)]
  read? v := do
    let fields ← Source.record? "VerificationReport" ["route", "net", "parallel_sets", "verdicts"] v
    return { route := ← fields.required "route" read?
             net := ← fields.required "net" read?
             parallelSets := ← fields.required "parallel_sets" read?
             verdicts := ← fields.required "verdicts" read? }

end RoutePolicy
