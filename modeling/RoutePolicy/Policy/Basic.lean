set_option autoImplicit false

/-! # Usage policies

A resource comes with contract offers, each with lists of rules. A rule has constraints and
duties; the list in which it stands decides whether it is a permission, a prohibition or an
obligation. Words of the vocabulary that are not known are kept as `unknown`. -/

namespace RoutePolicy

inductive RuleKind where
  | permission
  | prohibition
  | obligation
  deriving DecidableEq, Repr, Inhabited

/-- What a constraint is about. -/
inductive LeftOperand where
  | count
  | elapsedTime
  | system
  | policyEvaluationTime
  | purpose
  | unknown
  deriving DecidableEq, Repr

/-- How a constraint compares. -/
inductive Comparison where
  | eq
  | lteq
  | gteq
  | shorter
  | shorterEq
  | after
  | before
  | sameAs
  | unknown
  deriving DecidableEq, Repr

/-- What a duty asks for. -/
inductive Action where
  | use
  | log
  | notify
  | delete
  | unknown
  deriving DecidableEq, Repr

structure Constraint where
  leftOperand : LeftOperand
  comparison : Comparison
  rightOperand : String
  deriving DecidableEq, Repr

structure Duty where
  actions : List Action
  constraints : List Constraint
  deriving DecidableEq, Repr

/-- The duty of one action. -/
def Duty.ofAction (a : Action) : Duty := ⟨[a], []⟩

structure Rule where
  id : String
  kind : RuleKind
  constraints : List Constraint
  postDuties : List Duty
  deriving DecidableEq, Repr

namespace Rule

/-- A permission without constraints and duties. -/
def permission (id : String) : Rule := ⟨id, .permission, [], []⟩

/-- A prohibition without constraints and duties. -/
def prohibition (id : String) : Rule := ⟨id, .prohibition, [], []⟩

/-- The rule with one more constraint. -/
def addConstraint (r : Rule) (c : Constraint) : Rule :=
  { r with constraints := r.constraints ++ [c] }

/-- The rule with one more duty. -/
def addDuty (r : Rule) (d : Duty) : Rule := { r with postDuties := r.postDuties ++ [d] }

/-- The first constraint about an operand. -/
def constraintOn (r : Rule) (operand : LeftOperand) : Option Constraint :=
  r.constraints.find? fun c => c.leftOperand = operand

/-- Some duty asks for the action. -/
def hasDuty (r : Rule) (a : Action) : Bool := r.postDuties.any fun d => d.actions.contains a

end Rule

structure ContractOffer where
  permissions : List Rule
  prohibitions : List Rule
  obligations : List Rule
  deriving DecidableEq, Repr

/-- The rules of an offer, each of the kind of its list. -/
def ContractOffer.rules (o : ContractOffer) : List Rule :=
  let ofKind (kind : RuleKind) (l : List Rule) : List Rule := l.map fun r => { r with kind }
  ofKind .permission o.permissions ++ ofKind .prohibition o.prohibitions
    ++ ofKind .obligation o.obligations

structure Resource where
  id : String
  contractOffers : List ContractOffer
  deriving DecidableEq, Repr

/-- The rules of a resource, offer by offer. -/
def Resource.rules (r : Resource) : List Rule := r.contractOffers.flatMap ContractOffer.rules

end RoutePolicy
