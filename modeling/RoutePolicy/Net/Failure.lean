import RoutePolicy.Net.Arena

set_option autoImplicit false

/-! # How an operation on nets fails

Every operation that can fail says why with one of these causes. The last three are no answer to
a request: they arise when a document names nodes or arcs that it does not hold, or when a count
leaves the 64 bits in which counts are kept. -/

namespace RoutePolicy

/-- The number of values that a count can have: counts are kept in 64 bits, so it is
`2 ^ 64`. -/
def countRange : Nat := 18446744073709551616

/-- Half of them: the number of values of a signed count that are not negative. -/
def signedRange : Nat := 9223372036854775808

/-- The cause of a failed operation. -/
inductive Failure where
  /-- An arc between two nodes of one kind, named by their identifiers. -/
  | sameKind (source target : String)
  | unknownNode (node : Node)
  | unknownArc (arc : ArcId)
  | notEnabled (transition : TransitionId)
  /-- Exploration met its limit on the number of steps. -/
  | tooManySteps (limit explored : Nat)
  /-- Enumeration met its limit on the number of paths. -/
  | tooManyPaths (limit : Nat)
  /-- A node or arc that is not in the net was followed. -/
  | outside
  /-- A count does not fit into 64 bits. -/
  | overflow
  /-- A marking has not one count for each place. -/
  | wrongLength
  deriving DecidableEq, Repr

/-- The cause in words. -/
def Failure.message : Failure → String
  | .sameKind source target =>
    "arc " ++ source ++ " -> " ++ target ++ " joins two nodes of the same kind"
  | .unknownNode node => "node " ++ node.label ++ " does not belong to this net"
  | .unknownArc arc => "arc " ++ arc.label ++ " does not belong to this net"
  | .notEnabled transition =>
    "transition " ++ transition.label ++ " is not enabled under the current marking"
  | .tooManySteps limit explored =>
    "state space exceeds " ++ toString limit ++ " steps (" ++ toString explored ++ " explored)"
  | .tooManyPaths limit => "path enumeration exceeds " ++ toString limit ++ " paths"
  | .outside => "a node or arc outside the net was followed"
  | .overflow => "a count left the range of 64 bits"
  | .wrongLength => "a marking needs one count for each place"

/-- The failure is no answer to a request, but the end of a computation. -/
def Failure.isFatal : Failure → Bool
  | .outside | .overflow | .wrongLength => true
  | _ => false

/-- The entry with number `i`, which a reference promised to be there. -/
def Arena.require {ι α : Type} [Index ι] (a : Arena ι α) (i : ι) : Except Failure α :=
  match a.get? i with
  | some x => .ok x
  | none => .error .outside

theorem Arena.require_eq_ok_iff {ι α : Type} [Index ι] {a : Arena ι α} {i : ι} {x : α} :
    a.require i = .ok x ↔ a.get? i = some x := by
  unfold require
  split <;> simp_all

end RoutePolicy
