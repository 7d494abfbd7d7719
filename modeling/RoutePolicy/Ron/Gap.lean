import RoutePolicy.Ron.Literal

set_option autoImplicit false

/-! # White space and comments of the object notation

Comments may stand wherever white space may. -/

namespace RoutePolicy

namespace Ron

/-- White space between tokens: the characters with the property `Pattern_White_Space`. -/
def isBlank (c : Char) : Bool :=
  let n := c.toNat
  (0x09 ≤ n && n ≤ 0x0d) || n == 0x20 || n == 0x85 || n == 0x200e || n == 0x200f || n == 0x2028
    || n == 0x2029

/-- Where a reader is between two tokens. -/
inductive Gap where
  | blank
  /-- In a comment that ends with the line. -/
  | line
  /-- In a comment that may hold others, of which so many are open besides the first. -/
  | block (inner : Nat)

/-- What follows white space and comments. A comment that is not closed is an error. -/
def skipGap : Gap → List Char → Option (List Char)
  | .blank, '/' :: '/' :: cs => skipGap .line cs
  | .blank, '/' :: '*' :: cs => skipGap (.block 0) cs
  | .blank, '/' :: _ => none
  | .blank, c :: cs => if isBlank c then skipGap .blank cs else some (c :: cs)
  | .blank, [] => some []
  | .line, '\n' :: cs => skipGap .blank cs
  | .line, _ :: cs => skipGap .line cs
  | .line, [] => some []
  | .block n, '/' :: '*' :: cs => skipGap (.block (n + 1)) cs
  | .block 0, '*' :: '/' :: cs => skipGap .blank cs
  | .block (n + 1), '*' :: '/' :: cs => skipGap (.block n) cs
  | .block n, _ :: cs => skipGap (.block n) cs
  | .block _, [] => none

/-- What follows white space and comments. -/
def skipBlank (cs : List Char) : Option (List Char) := skipGap .blank cs

/-- What follows a character and blanks before it. -/
def expectToken (c : Char) (cs : List Char) : Option (List Char) := do expect c (← skipBlank cs)

/-- What follows a comma, if there is one. -/
def skipComma (cs : List Char) : Option (Bool × List Char) := do
  match ← skipBlank cs with
  | ',' :: rest => return (true, ← skipBlank rest)
  | rest => return (false, rest)

end Ron

end RoutePolicy
