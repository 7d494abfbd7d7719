set_option autoImplicit false

/-! # Values laid out as text

A value is shown on one line, or indented over several with a comma after each part. -/

namespace RoutePolicy.Text

/-- The parts of a value to be shown. -/
inductive Layout where
  /-- A text that is not divided. -/
  | atom (text : String)
  /-- Named parts. With `more` the text says that there are others. -/
  | record (name : String) (fields : List (String × Layout)) (more : Bool)
  /-- Parts without names. -/
  | tuple (name : String) (parts : List Layout)
  /-- Entries under keys. -/
  | map (entries : List (String × Layout))

namespace Layout

mutual

/-- The value on one line. -/
def line : Layout → String
  | .atom text => text
  | .record name fields more =>
    let parts := lineFields fields ++ (if more then [".."] else [])
    if parts.isEmpty then name
    else name ++ " \x7b " ++ String.intercalate ", " parts ++ " \x7d"
  | .tuple name parts => name ++ "(" ++ String.intercalate ", " (lineParts parts) ++ ")"
  | .map entries => "\x7b" ++ String.intercalate ", " (lineFields entries) ++ "\x7d"

def lineFields : List (String × Layout) → List String
  | [] => []
  | (key, value) :: rest => (key ++ ": " ++ line value) :: lineFields rest

def lineParts : List Layout → List String
  | [] => []
  | value :: rest => line value :: lineParts rest

end

/-- The white space before a line at a depth. -/
def margin (depth : Nat) : String := String.ofList (List.replicate (4 * depth) ' ')

mutual

/-- The value over several lines, of which the first continues a line at the depth. -/
def indented (depth : Nat) : Layout → String
  | .atom text => text
  | .record name fields more =>
    if fields.isEmpty && !more then name
    else
      name ++ " \x7b\n" ++ indentedFields (depth + 1) fields
        ++ (if more then margin (depth + 1) ++ "..\n" else "") ++ margin depth ++ "\x7d"
  | .tuple name parts => name ++ "(\n" ++ indentedParts (depth + 1) parts ++ margin depth ++ ")"
  | .map entries =>
    if entries.isEmpty then "\x7b\x7d"
    else "\x7b\n" ++ indentedFields (depth + 1) entries ++ margin depth ++ "\x7d"

def indentedFields (depth : Nat) : List (String × Layout) → String
  | [] => ""
  | (key, value) :: rest =>
    margin depth ++ key ++ ": " ++ indented depth value ++ ",\n" ++ indentedFields depth rest

def indentedParts (depth : Nat) : List Layout → String
  | [] => ""
  | value :: rest => margin depth ++ indented depth value ++ ",\n" ++ indentedParts depth rest

end

end Layout

end RoutePolicy.Text
