import RoutePolicy.Document.Basic
import RoutePolicy.Text.Quoted

set_option autoImplicit false

/-! # Writing the object notation

Each item and each field stands on a line of its own with a comma after it, four spaces deeper than
what holds it. Records are written without their names. -/

namespace RoutePolicy

namespace Ron

/-- The white space of a line at a depth. -/
def margin (depth : Nat) : String := String.ofList (List.replicate (4 * depth) ' ')

mutual

/-- The text of a document that starts on a line at the depth. -/
def print (depth : Nat) : Document → String
  | .text s => Text.quoteWith ['"', '\''] s
  | .count n => toString n
  | .flag b => if b then "true" else "false"
  | .absent => "None"
  | .present value => "Some(" ++ print depth value ++ ")"
  | .list [] => "[]"
  | .list items => "[\n" ++ printItems (depth + 1) items ++ margin depth ++ "]"
  | .record fields => "(\n" ++ printFields (depth + 1) fields ++ margin depth ++ ")"
  | .wrapped value => "(" ++ print depth value ++ ")"
  | .word name => name
  | .case name value => name ++ "(" ++ print depth value ++ ")"
  | .recordCase name fields =>
    name ++ "(\n" ++ printFields (depth + 1) fields ++ margin depth ++ ")"

def printItems (depth : Nat) : List Document → String
  | [] => ""
  | item :: items => margin depth ++ print depth item ++ ",\n" ++ printItems depth items

def printFields (depth : Nat) : List (String × Document) → String
  | [] => ""
  | (key, value) :: fields =>
    margin depth ++ key ++ ": " ++ print depth value ++ ",\n" ++ printFields depth fields

end

theorem toList_print_nil (depth : Nat) : (print depth (.list [])).toList = ['[', ']'] := by
  simp [print]

end Ron

end RoutePolicy
