import RoutePolicy.Json.Basic

set_option autoImplicit false

/-! # Documents

What is written of a value, before a notation is chosen. JSON knows texts, numbers, lists and
objects only; the other notation tells apart records, options, wrapped values and cases, so a
document does too. -/

namespace RoutePolicy

/-- The parts of a value that are written. -/
inductive Document where
  | text (s : String)
  | count (n : Nat)
  | flag (b : Bool)
  /-- No value where there may be one. -/
  | absent
  /-- A value where there may be one. -/
  | present (value : Document)
  | list (items : List Document)
  | record (fields : List (String × Document))
  /-- The only part of a value that has a type of its own. -/
  | wrapped (value : Document)
  /-- A case without parts. -/
  | word (name : String)
  /-- A case with one part. -/
  | case (name : String) (value : Document)
  /-- A case with fields. -/
  | recordCase (name : String) (fields : List (String × Document))

namespace Document

instance : Inhabited Document := ⟨.absent⟩

mutual

/-- The document as a JSON value. Options and wrapped values show only what they hold, a case with
parts is an object with one member. -/
def toJson : Document → Json
  | .text s => .ofText s
  | .count n => .ofNat n
  | .flag b => .bool b
  | .absent => .null
  | .present value => toJson value
  | .list items => .list (toJsonItems items)
  | .record fields => .object (toJsonMembers fields)
  | .wrapped value => toJson value
  | .word name => .ofText name
  | .case name value => .object [(some name, toJson value)]
  | .recordCase name fields => .object [(some name, .object (toJsonMembers fields))]

def toJsonItems : List Document → List Json
  | [] => []
  | item :: items => toJson item :: toJsonItems items

def toJsonMembers : List (String × Document) → List (Option String × Json)
  | [] => []
  | (key, value) :: fields => (some key, toJson value) :: toJsonMembers fields

end

end Document

end RoutePolicy
