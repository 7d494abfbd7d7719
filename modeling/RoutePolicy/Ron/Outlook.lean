import RoutePolicy.Ron.Gap

set_option autoImplicit false

/-! # Looking ahead in parentheses

Where the parentheses of an option are also those of the value in it, a comma tells whether they
hold one value or several. It is looked for before the values are read, and so without knowing what
they are: brackets are counted, and characters, texts and bytes are skipped, as brackets and commas
in them do not count. White space and comments are skipped in front of each character that is
counted, except for the one that comes right after something skipped: a comment there is not
known for one. -/

namespace RoutePolicy

namespace Ron

/-- What follows a value, or everything if there is no such value. -/
def skipValue (read : List Char → Option (Ron × List Char)) (cs : List Char) : List Char :=
  (read cs).elim cs Prod.snd

/-- A character with its quotes. -/
def readQuotedChar : List Char → Option (Ron × List Char)
  | '\'' :: cs => readChar cs
  | _ => none

/-- A text with what it starts with. -/
def readAnyText : List Char → Option (Ron × List Char)
  | '"' :: cs => readText (cs.length + 1) cs
  | 'r' :: cs => readRawText cs
  | _ => none

/-- Bytes with what they start with. -/
def readAnyBytes : List Char → Option (Ron × List Char)
  | 'b' :: '"' :: cs => readBytes (cs.length + 1) cs
  | 'b' :: 'r' :: cs => readRawBytes cs
  | _ => none

/-- Looks for a comma that is followed by a value, in front of the parenthesis that closes so many
others. Every character takes one unit of fuel. -/
def findComma : Nat → Nat → List Char → Outlook
  | 0, _, _ => .unclear
  | fuel + 1, inner, cs =>
    match skipBlank cs with
    | none => .unclear
    | some cs =>
      match skipValue readAnyBytes (skipValue readAnyText (skipValue readQuotedChar cs)) with
      | [] => .unclear
      | c :: rest =>
        if c = '(' ∨ c = '[' ∨ c = '\x7b' then findComma fuel (inner + 1) rest
        else if c = ')' ∨ c = ']' ∨ c = '\x7d' then
          if inner = 0 then .one else findComma fuel (inner - 1) rest
        else if c = ',' ∧ inner = 0 then
          match skipBlank rest with
          | none => .unclear
          | some (')' :: _) => .one
          | some _ => .several
        else findComma fuel inner rest

/-- What follows a name, or everything if there is none. The letters in front of a text, of bytes
or of a number are no name. -/
def skipName : List Char → List Char
  | 'r' :: '"' :: cs => 'r' :: '"' :: cs
  | 'b' :: '"' :: cs => 'b' :: '"' :: cs
  | 'b' :: '\'' :: cs => 'b' :: '\'' :: cs
  | 'b' :: 'r' :: '"' :: cs => 'b' :: 'r' :: '"' :: cs
  | 'b' :: 'r' :: '#' :: cs => 'b' :: 'r' :: '#' :: cs
  | cs => (readName cs).elim cs Prod.snd

/-- What looking ahead shows after an opening parenthesis. A name at the start is skipped. -/
def outlook (cs : List Char) : Outlook := findComma (cs.length + 1) 0 (skipName cs)

end Ron

end RoutePolicy
