import RoutePolicy.Ron.Basic

set_option autoImplicit false

/-! # Values that are read without a type

A value that is skipped, or held until it is known what it is, is read all the same: its numbers
have to fit the types they name, the reserved words have to be used as what they mean, and only so
many levels may be nested. A list, a map, a group or a record takes one level, and each part of it
another one; what an option holds takes one. -/

namespace RoutePolicy

namespace Ron

/-- The levels that a whole text has. -/
def maxDepth : Nat := 128

/-- The levels are enough for a list or the like with so many parts. -/
def hasRoom (depth parts : Nat) : Bool := if parts = 0 then 1 ≤ depth else 2 ≤ depth

/-- A whole number fits the type it names. One without a type fits 64 bits, or is written in base
ten and read as a decimal number. -/
def wholeFits (value : Whole) (inBaseTen : Bool) : Option WholeType → Bool
  | some type => type.contains value
  | none => inBaseTen || WholeType.contains ⟨value.negative, 64⟩ value

mutual

/-- The value can be read without a type within so many levels. Told is whether the parentheses of
an option are those of the value in it, which then may be nothing, fields or several values. -/
def isReadable (unwraps : Bool) (depth : Nat) : Ron → Bool
  | .whole value inBaseTen type => wholeFits value inBaseTen type
  | .word name => !name.isWord "Some"
  | .bareSome value => 1 ≤ depth && isReadable unwraps (depth - 1) value
  | .someOf outlook items =>
    1 ≤ depth
      && if !unwraps then items.length = 1 && areReadable unwraps (depth - 1) items
        else match items, outlook with
          | [], _ => true
          | _, .one => items.length = 1 && areReadable unwraps (depth - 1) items
          | _, .several =>
            hasRoom (depth - 1) items.length && areReadable unwraps (depth - 3) items
          | _, .unclear => false
  | .group name items =>
    !name.any Name.isReserved && hasRoom depth items.length && areReadable unwraps (depth - 2) items
  | .record name fields =>
    if name.any (·.isWord "Some") then
      unwraps && 1 ≤ depth && hasRoom (depth - 1) fields.length
        && fieldsAreReadable unwraps (depth - 3) fields
    else
      !name.any Name.isReserved && hasRoom depth fields.length
        && fieldsAreReadable unwraps (depth - 2) fields
  | .list items => hasRoom depth items.length && areReadable unwraps (depth - 2) items
  | .map entries => hasRoom depth entries.length && entriesAreReadable unwraps (depth - 2) entries
  | _ => true

def areReadable (unwraps : Bool) (depth : Nat) : List Ron → Bool
  | [] => true
  | value :: values => isReadable unwraps depth value && areReadable unwraps depth values

def fieldsAreReadable (unwraps : Bool) (depth : Nat) : List (String × Ron) → Bool
  | [] => true
  | (_, value) :: fields => isReadable unwraps depth value && fieldsAreReadable unwraps depth fields

def entriesAreReadable (unwraps : Bool) (depth : Nat) : List (Ron × Ron) → Bool
  | [] => true
  | (key, value) :: entries =>
    isReadable unwraps depth key && isReadable unwraps depth value
      && entriesAreReadable unwraps depth entries

end

end Ron

end RoutePolicy
