import RoutePolicy.Document.Source
import RoutePolicy.Ron.Readable
import RoutePolicy.Ron.Literal

set_option autoImplicit false

/-! # Reading data from the object notation -/

namespace RoutePolicy

namespace Ron

/-- The name and the fields of a record, which may be none. -/
def record? : Ron → Option (Option Name × List (String × Ron))
  | .record name fields => some (name, fields)
  | .group name [] => some (name, [])
  | .unit => some (none, [])
  | _ => none

/-- The name of a case with parts. -/
def caseName? : Ron → Option String
  | .record (some name) _ => some name.text
  | .group (some name) _ => some name.text
  | _ => none

/-- The text that a value stands for where it is held until it is known to be one: a text, or bytes
that encode one. -/
def heldText? : Ron → Option String
  | .text s => some s
  | .bytes b => decode? b
  | _ => none

/-- The value stands for nothing where it is held until it is known what it is. -/
def isHeldUnit : Ron → Bool
  | .unit => true
  | .word name => !name.isReserved
  | _ => false

/-- The place among the fields of a record that a number stands for as a key, if it has one of the
types that places are given in: 8 bits, or 64 bits. A number without a type has the first type
without a sign that it fits. -/
def place? (value : Whole) : Option WholeType → Option Nat
  | some type => if type = ⟨false, 8⟩ ∨ type = ⟨false, 64⟩ then some value.magnitude else none
  | none =>
    let fits (bits : Nat) := WholeType.contains ⟨false, bits⟩ value
    if !value.negative && (fits 8 || !fits 32 && fits 64) then some value.magnitude else none

/-- The field that a held key stands for, if it is one of those with the given names: a text is its
name, a number its place. Some keys cannot stand for a field. -/
def field? (names : List String) : Ron → Option (Option String)
  | .text s => some (names.find? (· = s))
  | .bytes b => some ((decode? b).bind fun s => names.find? (· = s))
  | .whole value _ type => (place? value type).map (names[·]?)
  | _ => none

/-- A value, and how it is read. -/
structure Located where
  value : Ron
  extensions : Extensions
  /-- The levels that may still be entered. -/
  depth : Nat
  /-- The parentheses around the value are those of an option or a case, and its own as well. -/
  opened : Bool
  /-- The value was read before it was known what it is. -/
  held : Bool

namespace Located

/-- The value of a whole text. -/
def root (extensions : Extensions) (value : Ron) : Located :=
  ⟨value, extensions, maxDepth, false, false⟩

/-- A part that lies so many levels below the value. -/
def part? (v : Located) (levels : Nat) (value : Ron) : Option Located :=
  if levels ≤ v.depth then
    some { v with value := value, depth := v.depth - levels, opened := false }
  else none

/-- What stands in the parentheses of an option or a case. -/
def content? (v : Located) (levels : Nat) : Option Located := do
  if v.extensions.unwrapVariantNewtypes then
    match v.value with
    | .someOf _ items => return { ← v.part? levels (.group none items) with opened := true }
    | .group _ items => return { ← v.part? levels (.group none items) with opened := true }
    | .record _ fields => return { ← v.part? levels (.record none fields) with opened := true }
    | _ => none
  else
    match v.value with
    | .someOf _ [value] => v.part? levels value
    | .group _ [value] => v.part? levels value
    | _ => none

/-- The value as one that has no parentheses of its own. -/
def bare? (v : Located) : Option Located :=
  if v.opened then
    match v.value with
    | .group _ [value] => v.part? 0 value
    | _ => none
  else some v

/-- The value can be read without a type. -/
def isReadable (v : Located) : Bool :=
  Ron.isReadable v.extensions.unwrapVariantNewtypes v.depth v.value

/-- The name in front of a value fits its type. -/
def acceptsName (v : Located) (typeName : String) : Option Name → Bool
  | none => !v.extensions.explicitStructNames
  | some name => name.text = typeName

/-- The fields of a record, all under their names. Those that are none of the given names have to
be readable without a type. -/
def fields? (names : List String) (v : Located) (fields : List (String × Ron)) :
    Option (Fields Located) := do
  if v.depth = 0 then none
  let parts ← fields.mapM fun (key, value) => return (key, ← v.part? 2 value)
  if parts.all fun (key, part) => key ∈ names || part.isReadable then Fields.ofNamed names parts
  else none

/-- A value that may be absent. -/
def option? (v : Located) : Option (Option Located) := do
  let v ← v.bare?
  match v.value with
  | .word ⟨"None", false⟩ => return none
  | .word ⟨"Some", false⟩ => failure
  | .someOf _ _ => return some (← v.content? 1)
  | .record (some ⟨"Some", false⟩) _ => return some (← v.content? 1)
  | .bareSome value => return some (← v.part? 1 value)
  | value =>
    if v.held then return if value.isHeldUnit then none else some v
    else if v.extensions.implicitSome then return some (← v.part? 1 value)
    else failure

/-- A part of a record of which it is not yet known what it is. -/
def hold? (v : Located) (value : Ron) : Option Located := do
  let part ← v.part? 2 value
  if part.isReadable then return { part with held := true } else none

/-- A record that says in its first item which ones follow. -/
def taggedItems? (fieldNames : String → Option (List String)) (v : Located) (items : List Ron) :
    Option (String × Fields Located) := do
  let .word kind :: rest := items | none
  return (kind.text, ← Fields.ofListed (← fieldNames kind.text) (← rest.mapM v.hold?))

/-- A record that says in the field `tag` which ones there are further. Given are its values under
their keys; where there are no further fields, it does not matter what the keys are. -/
def taggedEntries? (tag : String) (fieldNames : String → Option (List String)) (v : Located)
    (entries : List (Ron × Ron)) : Option (String × Fields Located) := do
  let (tags, rest) := entries.partition (·.1.heldText? = some tag)
  let [(_, .word kind)] := tags | none
  let names ← fieldNames kind.text
  let parts ← rest.mapM fun (key, value) => do
    let _ ← v.hold? key
    return (key, ← v.hold? value)
  if names.isEmpty then return (kind.text, ⟨[], true⟩)
  let fields ← parts.mapM fun (key, part) => return (← key.field? names).map (·, part)
  return (kind.text, ← Fields.ofNamed names (fields.filterMap id))

/-- A record that says which fields it has: a record with any name, a group, a list or a map. -/
def tagged? (tag : String) (fieldNames : String → Option (List String)) (v : Located) :
    Option (String × Fields Located) := do
  let v ← v.bare?
  if v.depth < 2 then none
  match v.value with
  | .record name fields =>
    if name.any Name.isReserved then none
    else v.taggedEntries? tag fieldNames (fields.map fun (key, value) => (.text key, value))
  | .map entries => v.taggedEntries? tag fieldNames entries
  | .group name items =>
    if name.any Name.isReserved then none else v.taggedItems? fieldNames items
  | .list items => v.taggedItems? fieldNames items
  | _ => none

instance : Source Located where
  text? v := do
    let v ← v.bare?
    if v.held then v.value.heldText?
    else match v.value with
      | .text s => return s
      | _ => none
  count? bits v := do
    let .whole value _ type := (← v.bare?).value | none
    let wanted : WholeType := ⟨false, bits⟩
    if type.all (· = wanted) && wanted.contains value then return value.magnitude else none
  flag? v := do
    match (← v.bare?).value with
    | .word ⟨"true", false⟩ => return true
    | .word ⟨"false", false⟩ => return false
    | _ => none
  option? := option?
  items? v := do
    let v ← v.bare?
    let .list items := v.value | none
    if v.depth = 0 then none else items.mapM (v.part? 2)
  record? typeName names v := do
    let (name, fields) ← v.value.record?
    if v.opened || v.acceptsName typeName name then v.fields? names fields else none
  wrapped? typeName v := do
    if v.opened || v.extensions.unwrapNewtypes then
      let v ← v.bare?
      v.part? 1 v.value
    else
      let .group name [value] := v.value | none
      if v.acceptsName typeName name then v.part? 1 value else none
  word? v := do
    let v ← v.bare?
    let .word name := v.value | none
    if 2 ≤ v.depth then return name.text else none
  case? name v := do
    let v ← v.bare?
    if v.value.caseName? = some name then v.content? 2 else none
  recordCase? name names v := do
    let v ← v.bare?
    let (some found, fields) ← v.value.record? | none
    if found.text = name then (← v.part? 1 v.value).fields? names fields else none
  tagged? := tagged?

end Located

end Ron

end RoutePolicy
