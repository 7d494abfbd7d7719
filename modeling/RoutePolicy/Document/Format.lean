import RoutePolicy.Document.Documented
import RoutePolicy.Json.Printer
import RoutePolicy.Json.Reader
import RoutePolicy.Json.Source
import RoutePolicy.Ron.Printer
import RoutePolicy.Ron.Reader
import RoutePolicy.Ron.Source

set_option autoImplicit false

/-! # Notations of documents -/

namespace RoutePolicy

/-- A value as JSON text. -/
def toJsonText {α : Type} [Documented α] (a : α) : String := (document a).toJson.pretty

/-- The value that a JSON value is the document of. -/
def ofJson? {α : Type} [Documented α] (j : Json) : Option α := read? (Json.Located.root j)

/-- The value that a JSON text is the document of. -/
def ofJsonText? {α : Type} [Documented α] (s : String) : Option α := do ofJson? (← Json.parse s)

/-- A value as text of the object notation. -/
def toRonText {α : Type} [Documented α] (a : α) : String := Ron.print 0 (document a)

/-- The value that a text of the object notation is the document of. -/
def ofRonText? {α : Type} [Documented α] (s : String) : Option α := do
  let (extensions, value) ← Ron.parse s
  read? (Ron.Located.root extensions value)

/-- The notations that documents are written in. -/
inductive Format where
  | json
  | ron
  deriving DecidableEq, Repr

namespace Format

/-- The part of a file name after its last point. A point at the start counts as part of a name. -/
def extension? (name : String) : Option String :=
  let cs := name.toList
  let stem := (cs.reverse.dropWhile (· ≠ '.')).reverse
  if stem.length ≤ 1 || name = ".." then none else some (String.ofList (cs.drop stem.length))

/-- The last name on a path. Points that stand for the folder itself do not count. -/
def fileName (path : String) : String :=
  ((path.splitOn "/").filter fun name => name ≠ "" && name ≠ ".").getLastD ""

/-- The notation of a file: the object notation if its name says so, else JSON. -/
def ofPath (path : String) : Format :=
  match extension? (fileName path) with
  | some e => if e.toLower = "ron" then .ron else .json
  | none => .json

/-- The value that a text is the document of. -/
def read? {α : Type} [Documented α] (f : Format) (s : String) : Option α :=
  match f with
  | .json => ofJsonText? s
  | .ron => ofRonText? s

/-- The text of a value. -/
def write {α : Type} [Documented α] (f : Format) (a : α) : String :=
  match f with
  | .json => toJsonText a
  | .ron => toRonText a

end Format

end RoutePolicy
