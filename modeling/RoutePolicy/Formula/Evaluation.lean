import RoutePolicy.Formula.Basic
import RoutePolicy.PathSet

set_option autoImplicit false

/-! # Evaluation with reasons

Evaluating a formula at a node gives its truth value and the facts that decided it: the message of
a leaf that holds, the negation of one that does not. Operands are evaluated from left to right and
only as far as the value is open, so the facts are those of the operands that settle it.

The path operators look at the maximal paths that start at the node. A node at which no path
starts is a path by itself. -/

namespace RoutePolicy

/-- A truth value and the facts that decided it, each once. -/
structure Evaluation where
  holds : Bool
  facts : List String
  deriving DecidableEq

/-- A truth value as it is reported: with the facts, if there are any and the value is false. -/
structure Verdict where
  satisfied : Bool
  message : Option String
  deriving DecidableEq

namespace Evaluation

/-- A value that needs no fact. -/
def constant (holds : Bool) : Evaluation := ⟨holds, []⟩

/-- A value that rests on one fact. -/
def ofFact (holds : Bool) (fact : String) : Evaluation := ⟨holds, [fact]⟩

/-- The opposite value for the same reasons. -/
def negate (e : Evaluation) : Evaluation := { e with holds := !e.holds }

/-- A fact added at the end, unless it is there. -/
def addFact (facts : List String) (fact : String) : List String :=
  if fact ∈ facts then facts else facts ++ [fact]

/-- The value with the facts of another one added. -/
def absorb (e other : Evaluation) : Evaluation :=
  { e with facts := other.facts.foldl addFact e.facts }

/-- The value as it is reported. -/
def verdict (e : Evaluation) : Verdict :=
  ⟨e.holds, if !e.holds && !e.facts.isEmpty then some (String.intercalate "; " e.facts) else none⟩

/-- Conjunction: a false operand decides alone, two true ones together. -/
def and (e : Evaluation) (other : Unit → Except Failure Evaluation) :
    Except Failure Evaluation := do
  if !e.holds then return e
  let e' ← other ()
  return if !e'.holds then e' else e.absorb e'

/-- Disjunction: a true operand decides alone, two false ones together. -/
def or (e : Evaluation) (other : Unit → Except Failure Evaluation) :
    Except Failure Evaluation := do
  if e.holds then return e
  let e' ← other ()
  return if e'.holds then e' else e.absorb e'

/-- The first true one of the values, or false for the reasons of all of them and of `failed`. -/
def anyFrom {α : Type} (f : α → Except Failure Evaluation) (failed : Evaluation) :
    List α → Except Failure Evaluation
  | [] => .ok failed
  | x :: xs => do
    let e ← f x
    if e.holds then return e else anyFrom f (failed.absorb e) xs

/-- The first true one of the values, or false for the reasons of all of them. -/
def any {α : Type} (f : α → Except Failure Evaluation) (l : List α) : Except Failure Evaluation :=
  anyFrom f (constant false) l

/-- The first false one of the values, or true for the reasons of all of them and of `held`. -/
def allFrom {α : Type} (f : α → Except Failure Evaluation) (held : Evaluation) :
    List α → Except Failure Evaluation
  | [] => .ok held
  | x :: xs => do
    let e ← f x
    if !e.holds then return e else allFrom f (held.absorb e) xs

/-- The first false one of the values, or true for the reasons of all of them. -/
def all {α : Type} (f : α → Except Failure Evaluation) (l : List α) : Except Failure Evaluation :=
  allFrom f (constant true) l

/-- True at the first position at which `reach` holds, unless `hold` fails at an earlier one. If
`reach` holds nowhere, the reasons are why it does not. -/
def scanFrom {α : Type} (hold reach : α → Except Failure Evaluation) (missed : Evaluation) :
    List α → Except Failure Evaluation
  | [] => .ok missed
  | x :: xs => do
    let reached ← reach x
    if reached.holds then return reached
    let held ← hold x
    if !held.holds then return held
    scanFrom hold reach (missed.absorb reached) xs

/-- The value of an until operator on one path. -/
def scan {α : Type} (hold reach : α → Except Failure Evaluation) (l : List α) :
    Except Failure Evaluation :=
  scanFrom hold reach (constant false) l

end Evaluation

/-- On which of the paths an operator has to be satisfied. -/
inductive Quantifier where
  | someOf
  | allOf

/-- The value for paths with the given positions. -/
def Quantifier.over {α : Type} (q : Quantifier) (f : α → Except Failure Evaluation) (l : List α) :
    Except Failure Evaluation :=
  match q with
  | .someOf => Evaluation.any f l
  | .allOf => Evaluation.all f l

/-- The evaluation that is true everywhere. -/
def always {α : Type} (_ : α) : Except Failure Evaluation := .ok (.constant true)

namespace PathSet

/-- What a node of the net holds. -/
def content? (s : PathSet) : (k : Kind) → Handle k → Option k.Content
  | .place, p => s.net.places.get? p
  | .transition, t => s.net.transitions.get? t

/-- The nodes of kind `k` on the paths from a node of that kind, path by path. A node at which no
path starts is a path by itself. -/
def runsFrom {k : Kind} (s : PathSet) (h : Handle k) : List (List (Handle k)) :=
  match s.startingAt h.node with
  | [] => [[h]]
  | paths => paths.map fun p => p.nodes.filterMap (Node.handle? k)

/-- The value of an until operator at a node. -/
def untilAt {k : Kind} (s : PathSet) (q : Quantifier)
    (hold reach : Handle k → Except Failure Evaluation) (h : Handle k) :
    Except Failure Evaluation :=
  q.over (Evaluation.scan hold reach) (s.runsFrom h)

end PathSet

namespace Leaf

/-- The value of a leaf at a node, and the fact it states of the node. -/
def explain {k : Kind} (p : Leaf k) (x : k.Content) : Evaluation :=
  if p.test x then .ofFact true p.message else .ofFact false p.negation

end Leaf

namespace Formula

/-- The value of a formula at a node, with reasons. It fails if a leaf is evaluated at a node that
is not in the net. -/
def explain (s : PathSet) : {k : Kind} → Formula k → Handle k → Except Failure Evaluation
  | _, .top, _ => .ok (.constant true)
  | _, .bottom, _ => .ok (.constant false)
  | k, .leaf p, h =>
    match s.content? k h with
    | some x => .ok (p.explain x)
    | none => .error .outside
  | _, .and f g, h => do (← f.explain s h).and fun _ => g.explain s h
  | _, .or f g, h => do (← f.explain s h).or fun _ => g.explain s h
  | _, .not f, h => return (← f.explain s h).negate
  | k, .modal f, h => Evaluation.any (f.explain s) (s.next k.other h)
  | k, .existNext f, h => Evaluation.any (f.explain s) (s.next k.other h)
  | k, .forallNext f, h => do
    return (← Evaluation.any (fun n => return (← f.explain s n).negate) (s.next k.other h)).negate
  | k, .existModal next between, h =>
    Evaluation.any (fun n => do
      (← between.explain s n).and fun _ => Evaluation.any (next.explain s) (s.next k n))
      (s.next k.other h)
  | k, .forallModal next between, h =>
    Evaluation.all (fun n => do
      (← between.explain s n).and fun _ => Evaluation.all (next.explain s) (s.next k n))
      (s.next k.other h)
  | _, .existUntil hold reach, h => s.untilAt .someOf (hold.explain s) (reach.explain s) h
  | _, .forallUntil hold reach, h => s.untilAt .allOf (hold.explain s) (reach.explain s) h
  | _, .ev f, h => s.untilAt .allOf always (f.explain s) h
  | _, .pos f, h => s.untilAt .someOf always (f.explain s) h
  | _, .inv f, h => do
    return (← s.untilAt .someOf always (fun n => return (← f.explain s n).negate) h).negate

/-- The truth value of a formula at a node. -/
def evaluate {k : Kind} (s : PathSet) (f : Formula k) (h : Handle k) : Except Failure Bool :=
  return (← f.explain s h).holds

/-- The reported value of a formula at a node. -/
def verdict {k : Kind} (s : PathSet) (f : Formula k) (h : Handle k) : Except Failure Verdict :=
  return (← f.explain s h).verdict

end Formula

end RoutePolicy
