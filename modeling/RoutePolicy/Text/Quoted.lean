import RoutePolicy.Text.Printable

set_option autoImplicit false

/-! # Quoted text

A text between double quotes on one line, in which every character that would not show, or that
would end the quotation, is written as an escape. -/

namespace RoutePolicy.Text

/-- The escape `\u{…}` with the code point in lower-case hexadecimal digits. -/
def codePointEscape (c : Char) : List Char :=
  '\\' :: 'u' :: '\x7b' :: (Nat.toDigits 16 c.toNat ++ ['\x7d'])

/-- A character inside quotes. The characters of `quotes` are escaped with a backslash. -/
def escapeChar (quotes : List Char) (c : Char) : List Char :=
  if c = '\x00' then ['\\', '0']
  else if c = '\t' then ['\\', 't']
  else if c = '\r' then ['\\', 'r']
  else if c = '\n' then ['\\', 'n']
  else if c = '\\' ∨ c ∈ quotes then ['\\', c]
  else if isExtending c then codePointEscape c
  else if isPrintable c then [c]
  else codePointEscape c

/-- The text between double quotes, the characters of `quotes` escaped. -/
def quoteWith (quotes : List Char) (s : String) : String :=
  String.ofList ('"' :: (s.toList.flatMap (escapeChar quotes) ++ ['"']))

/-- The text between double quotes, with only the double quote itself escaped. -/
def quote (s : String) : String := quoteWith ['"'] s

end RoutePolicy.Text
