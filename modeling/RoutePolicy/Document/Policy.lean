import RoutePolicy.Document.Documented
import RoutePolicy.Policy.Pattern

set_option autoImplicit false

/-! # Documents of policies -/

namespace RoutePolicy

/-! ## The vocabulary -/

/-- The word for a kind of rule. -/
def RuleKind.word : RuleKind → String
  | .permission => "PERMISSION"
  | .prohibition => "PROHIBITION"
  | .obligation => "OBLIGATION"

instance : Documented RuleKind where
  document k := .word k.word
  read? := readWord? ([.permission, .prohibition, .obligation].map fun k => (RuleKind.word k, k))

/-- The word for an operand. -/
def LeftOperand.word : LeftOperand → String
  | .count => "COUNT"
  | .elapsedTime => "ELAPSED_TIME"
  | .system => "SYSTEM"
  | .policyEvaluationTime => "POLICY_EVALUATION_TIME"
  | .purpose => "PURPOSE"
  | .unknown => "UNKNOWN"

instance : Documented LeftOperand where
  document o := .word o.word
  read? := readWordOr? .unknown
    ([.count, .elapsedTime, .system, .policyEvaluationTime, .purpose].map fun o =>
      (LeftOperand.word o, o))

/-- The word for a comparison. -/
def Comparison.word : Comparison → String
  | .eq => "EQ"
  | .lteq => "LTEQ"
  | .gteq => "GTEQ"
  | .shorter => "SHORTER"
  | .shorterEq => "SHORTER_EQ"
  | .after => "AFTER"
  | .before => "BEFORE"
  | .sameAs => "SAME_AS"
  | .unknown => "UNKNOWN"

instance : Documented Comparison where
  document c := .word c.word
  read? := readWordOr? .unknown
    ([.eq, .lteq, .gteq, .shorter, .shorterEq, .after, .before, .sameAs].map fun c =>
      (Comparison.word c, c))

/-- The word for an action. -/
def Action.word : Action → String
  | .use => "USE"
  | .log => "LOG"
  | .notify => "NOTIFY"
  | .delete => "DELETE"
  | .unknown => "UNKNOWN"

instance : Documented Action where
  document a := .word a.word
  read? := readWordOr? .unknown
    ([.use, .log, .notify, .delete].map fun a => (Action.word a, a))

instance : Documented Pattern where
  document p := .word p.name
  read? := readWord?
    ([.provideAccess, .prohibitAccess, .nTimesUsage, .durationUsage, .usageDuringInterval,
      .usageUntilDeletion, .usageLogging, .usageNotification, .connectorRestrictedUsage].map
        fun p => (Pattern.name p, p))

/-! ## Rules, offers and resources -/

instance : Documented Constraint where
  document c :=
    .record [("leftOperand", document c.leftOperand), ("operator", document c.comparison),
      ("rightOperand", document c.rightOperand)]
  read? v := do
    let fields ← Source.record? "Constraint" ["leftOperand", "operator", "rightOperand"] v
    return { leftOperand := ← fields.required "leftOperand" read?
             comparison := ← fields.required "operator" read?
             rightOperand := ← fields.required "rightOperand" read? }

instance : Documented Duty where
  document d := .record [("actions", document d.actions), ("constraints", document d.constraints)]
  read? v := do
    let fields ← Source.record? "Duty" ["actions", "constraints"] v
    return { actions := ← fields.withDefault "actions" [] read?
             constraints := ← fields.withDefault "constraints" [] read? }

instance : Documented Rule where
  document r :=
    .record [("id", document r.id), ("kind", document r.kind),
      ("constraints", document r.constraints), ("postDuties", document r.postDuties)]
  read? v := do
    let fields ← Source.record? "Rule" ["id", "kind", "constraints", "postDuties"] v
    return { id := ← fields.required "id" read?
             kind := ← fields.withDefault "kind" .permission read?
             constraints := ← fields.withDefault "constraints" [] read?
             postDuties := ← fields.withDefault "postDuties" [] read? }

instance : Documented ContractOffer where
  document o :=
    .record [("permissions", document o.permissions), ("prohibitions", document o.prohibitions),
      ("obligations", document o.obligations)]
  read? v := do
    let fields ← Source.record? "ContractOffer" ["permissions", "prohibitions", "obligations"] v
    return { permissions := ← fields.withDefault "permissions" [] read?
             prohibitions := ← fields.withDefault "prohibitions" [] read?
             obligations := ← fields.withDefault "obligations" [] read? }

instance : Documented Resource where
  document r := .record [("id", document r.id), ("contractOffers", document r.contractOffers)]
  read? v := do
    let fields ← Source.record? "Resource" ["id", "contractOffers"] v
    return { id := ← fields.required "id" read?
             contractOffers := ← fields.withDefault "contractOffers" [] read? }

end RoutePolicy
