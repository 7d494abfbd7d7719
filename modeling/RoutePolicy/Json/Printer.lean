import RoutePolicy.Json.Basic

set_option autoImplicit false

/-! # Writing JSON

Each item and each member stands on a line of its own, two spaces deeper than what holds it. -/

namespace RoutePolicy

namespace Json

/-- Four hexadecimal digits. -/
def hexDigits (n : Nat) : List Char :=
  let digits := Nat.toDigits 16 n
  List.replicate (4 - digits.length) '0' ++ digits

/-- A character of a text. Quotes, backslashes and control characters are escaped. -/
def printChar (c : Char) : List Char :=
  if c = '"' then ['\\', '"']
  else if c = '\\' then ['\\', '\\']
  else if c = '\x08' then ['\\', 'b']
  else if c = '\t' then ['\\', 't']
  else if c = '\n' then ['\\', 'n']
  else if c = '\x0c' then ['\\', 'f']
  else if c = '\r' then ['\\', 'r']
  else if c.toNat < 0x20 then '\\' :: 'u' :: hexDigits c.toNat
  else [c]

/-- A text between quotes. -/
def printText (s : String) : List Char := '"' :: (s.toList.flatMap printChar ++ ['"'])

/-- The digits of a number. -/
def printNat (n : Nat) : List Char := (toString n).toList

/-- A number with a sign. -/
def printInteger (negative : Bool) (n : Nat) : List Char :=
  if negative then '-' :: printNat n else printNat n

/-- A line break and the white space of a line at a depth. -/
def newLine (depth : Nat) : List Char := '\n' :: List.replicate (2 * depth) ' '

mutual

/-- The text of a value that starts on a line at the depth. -/
def print (depth : Nat) : Json → List Char
  | .null => ['n', 'u', 'l', 'l']
  | .bool true => ['t', 'r', 'u', 'e']
  | .bool false => ['f', 'a', 'l', 's', 'e']
  | .integer negative n => printInteger negative n
  | .decimal negative digits (.ofNat e) => printInteger negative digits ++ 'e' :: printNat e
  | .decimal negative digits (.negSucc e) =>
    printInteger negative digits ++ 'e' :: '-' :: printNat (e + 1)
  | .text s => printText (s.getD "")
  | .list [] => ['[', ']']
  | .list (item :: items) =>
    '[' :: (newLine (depth + 1) ++ print (depth + 1) item ++ printItems (depth + 1) items
      ++ newLine depth ++ [']'])
  | .object [] => ['\x7b', '\x7d']
  | .object ((key, value) :: members) =>
    '\x7b' :: (newLine (depth + 1) ++ printText (key.getD "")
      ++ ':' :: ' ' :: print (depth + 1) value
      ++ printMembers (depth + 1) members ++ newLine depth ++ ['\x7d'])

/-- Further items, each after a comma. -/
def printItems (depth : Nat) : List Json → List Char
  | [] => []
  | item :: items => ',' :: (newLine depth ++ print depth item ++ printItems depth items)

/-- Further members, each after a comma. -/
def printMembers (depth : Nat) : List (Option String × Json) → List Char
  | [] => []
  | (key, value) :: members =>
    ',' :: (newLine depth ++ printText (key.getD "") ++ ':' :: ' ' :: print depth value
      ++ printMembers depth members)

end

/-- The text of a value. -/
def pretty (j : Json) : String := String.ofList (print 0 j)

end Json

end RoutePolicy
