import RoutePolicy.Text.Blank

set_option autoImplicit false

/-! # Words of a command

A text is split into words at blanks. Between single quotes every character stands for itself.
Between double quotes a backslash takes the meaning from a dollar sign, a grave accent, a double
quote and a backslash, and otherwise stands for itself; elsewhere it takes the meaning from any
character but a line break. -/

namespace RoutePolicy.Text

/-- Where a splitter is. -/
inductive Quoting where
  /-- Outside of quotes, perhaps with a word begun. -/
  | outside (begun : Bool)
  | single
  | double

/-- The characters that a backslash between double quotes takes the meaning from. -/
def isMeaningful (c : Char) : Bool := c = '$' || c = '\x60' || c = '"' || c = '\\'

/-- The words of a text, the first of which starts with the characters of `word` in reverse order.
There are none if a quote is not closed. -/
def splitFrom : Quoting → List Char → List Char → Option (List String)
  | .outside begun, word, [] => some (if begun then [String.ofList word.reverse] else [])
  | .outside _, word, '\'' :: cs => splitFrom .single word cs
  | .outside _, word, '"' :: cs => splitFrom .double word cs
  | .outside _, word, '\\' :: c :: cs =>
    if c = '\n' then do
      return String.ofList (('\\' :: word).reverse) :: (← splitFrom (.outside false) [] cs)
    else splitFrom (.outside true) (c :: word) cs
  | .outside begun, word, c :: cs =>
    if isBlank c then do
      let words ← splitFrom (.outside false) [] cs
      return if begun then String.ofList word.reverse :: words else words
    else splitFrom (.outside true) (c :: word) cs
  | .single, _, [] => none
  | .single, word, c :: cs =>
    if c = '\'' then splitFrom (.outside true) word cs else splitFrom .single (c :: word) cs
  | .double, _, [] => none
  | .double, word, '"' :: cs => splitFrom (.outside true) word cs
  | .double, word, '\\' :: c :: cs =>
    if c = '\n' then none
    else if isMeaningful c then splitFrom .double (c :: word) cs
    else splitFrom .double (c :: '\\' :: word) cs
  | .double, word, c :: cs => splitFrom .double (c :: word) cs

/-- The words of a text. There are none if a quote is not closed. -/
def words (s : String) : Option (List String) := splitFrom (.outside false) [] s.toList

end RoutePolicy.Text
