import RoutePolicy.Document.Source
import RoutePolicy.Json.Basic
import RoutePolicy.Number.Binary64

set_option autoImplicit false

/-! # Reading data from JSON

Lists and objects may be nested only so deeply where data are read from them; what is not read may
be nested without end. A record is an object, or a list of its fields in order. -/

namespace RoutePolicy

namespace Json

/-- A value, and the number of lists and objects that may still be entered, less one. -/
structure Located where
  value : Json
  depth : Nat

namespace Located

/-- The number of levels that a whole document has. -/
def maxDepth : Nat := 128

/-- The value of a whole document. -/
def root (j : Json) : Located := ⟨j, maxDepth⟩

/-- The depth of the parts of a list or an object, if it may be entered. -/
def enter? (v : Located) : Option Nat := if v.depth ≤ 1 then none else some (v.depth - 1)

/-- The items of a list. -/
def items? (v : Located) : Option (List Located) := do
  let .list items := v.value | none
  let depth ← v.enter?
  return items.map (⟨·, depth⟩)

/-- The members of an object, whose keys have to be readable. -/
def members? (v : Located) : Option (List (String × Located)) := do
  let .object members := v.value | none
  let depth ← v.enter?
  members.mapM fun (key, value) => return (← key, ⟨value, depth⟩)

/-- The fields of a record. -/
def record? (names : List String) (v : Located) : Option (Fields Located) :=
  match v.value with
  | .list _ => do Fields.ofListed names (← v.items?)
  | _ => do Fields.ofNamed names (← v.members?)

/-- The name and the part of a case: an object with one member. -/
def case? (v : Located) : Option (String × Located) := do
  let [single] ← v.members? | none
  return single

/-- The name of a case without parts: a text, or a case whose part is null. -/
def word? (v : Located) : Option String :=
  match v.value with
  | .text s => s
  | _ => do
    let (name, ⟨.null, _⟩) ← v.case? | none
    return name

/-- The leading digits of a number that are below the bound, and how many digits follow them. -/
def leadingDigits (bound n : Nat) : Nat × Nat :=
  if n < bound ∨ n = 0 then (n, 0)
  else
    let (leading, dropped) := leadingDigits bound (n / 10)
    (leading, dropped + 1)
termination_by n
decreasing_by omega

/-- The number `digits * 10 ^ exponent` is in the range of binary64, where it is read as a product:
the leading digits that 64 bits hold are rounded, a power of ten is, and so is their product. -/
def isInRange (digits : Nat) (exponent : Int) : Bool :=
  let (leading, dropped) := leadingDigits (Nat.pow 2 64) digits
  let power := exponent + dropped
  leading = 0 || power ≤ 0 ||
    power ≤ 308 && (Binary64.mul (.ofDecimal false leading 0) (.ofDecimal false 1 power)).isFinite

mutual

/-- Everything in the value can be read: texts have no unpaired surrogates, numbers are in the
range of binary64, and no more than so many levels are nested. -/
def isReadable (depth : Nat) : Json → Bool
  | .text s => s.isSome
  | .integer _ n => isInRange n 0
  | .decimal _ digits e => isInRange digits e
  | .list items => 1 < depth && areReadable (depth - 1) items
  | .object members => 1 < depth && membersAreReadable (depth - 1) members
  | _ => true

def areReadable (depth : Nat) : List Json → Bool
  | [] => true
  | j :: js => isReadable depth j && areReadable depth js

def membersAreReadable (depth : Nat) : List (Option String × Json) → Bool
  | [] => true
  | (key, j) :: members => key.isSome && isReadable depth j && membersAreReadable depth members

end

/-- A record that says which fields it has. All of it is read before the fields are. -/
def tagged? (tag : String) (fieldNames : String → Option (List String)) (v : Located) :
    Option (String × Fields Located) := do
  let isReadable (part : Located) := Located.isReadable part.depth part.value
  match v.value with
  | .list _ =>
    let first :: rest ← v.items? | none
    let .text (some word) := first.value | none
    if !rest.all isReadable then none
    return (word, ← Fields.ofListed (← fieldNames word) rest)
  | _ =>
    let (tags, rest) := (← v.members?).partition (·.1 = tag)
    let [(_, ⟨.text (some word), _⟩)] := tags | none
    if !rest.all fun (_, part) => isReadable part then none
    return (word, ← Fields.ofNamed (← fieldNames word) rest)

instance : Source Located where
  text? v := match v.value with
    | .text s => s
    | _ => none
  count? bits v := match v.value with
    | .integer false n => if n < Nat.pow 2 bits then some n else none
    | _ => none
  flag? v := match v.value with
    | .bool b => some b
    | _ => none
  option? v := match v.value with
    | .null => some none
    | _ => some (some v)
  items? := items?
  record? _ := record?
  wrapped? _ := some
  word? := word?
  case? name v := do
    let (found, part) ← v.case?
    if found = name then some part else none
  recordCase? name names v := do
    let (found, part) ← v.case?
    if found = name then part.record? names else none
  tagged? := tagged?

end Located

end Json

end RoutePolicy
