set_option autoImplicit false

/-! # Labels in graph descriptions

A label stands between double quotes. A backslash gives the next character a meaning of its own,
so a quote or a backslash of the text is written with one in front. -/

namespace RoutePolicy.Text

/-- A character of a label that may hold line breaks; a line break is written `\n`. -/
def labelChar (c : Char) : List Char :=
  if c = '"' ∨ c = '\\' then ['\\', c] else if c = '\n' then ['\\', 'n'] else [c]

/-- A text as part of a label on one line. -/
def escapeLabel (s : String) : String := String.ofList (s.toList.flatMap labelChar)

/-- A character of a label whose line breaks are kept as they are. -/
def rawLabelChar (c : Char) : List Char := if c = '"' ∨ c = '\\' then ['\\', c] else [c]

/-- A text as part of a label, line breaks kept. -/
def escapeRawLabel (s : String) : String := String.ofList (s.toList.flatMap rawLabelChar)

/-- Reading a label up to the quote that ends it: the text, and what follows the quote. A
backslash before `n` stands for a line break, before any other character for that character. -/
def readLabel : List Char → Option (List Char × List Char)
  | [] => none
  | '"' :: rest => some ([], rest)
  | ['\\'] => none
  | '\\' :: c :: rest =>
    (readLabel rest).map fun (cs, rest) => ((if c = 'n' then '\n' else c) :: cs, rest)
  | c :: rest => (readLabel rest).map fun (cs, rest) => (c :: cs, rest)

end RoutePolicy.Text
