import RoutePolicy.Number.Numeral
import RoutePolicy.Ron.Basic
import RoutePolicy.Text.Identifier

set_option autoImplicit false

/-! # Names, texts and numbers of the object notation

What has no parts is read here. Each function takes the characters that are left and says what it
found and what follows. -/

namespace RoutePolicy

namespace Ron

/-- What follows a character that has to come next. -/
def expect (c : Char) : List Char → Option (List Char)
  | d :: cs => if d = c then some cs else none
  | [] => none

/-! ## Names -/

/-- A character of a raw name. -/
def isRawNameChar (c : Char) : Bool :=
  Text.isIdentifierContinue c || c = '.' || c = '+' || c = '-'

/-- A name: an identifier, or other letters after a mark that makes them one. -/
def readName : List Char → Option (Name × List Char)
  | 'r' :: '#' :: cs =>
    let name := cs.takeWhile isRawNameChar
    if name.isEmpty then none
    else some (⟨String.ofList name, true⟩, cs.dropWhile isRawNameChar)
  | c :: cs =>
    if Text.isIdentifierStart c then
      some (⟨String.ofList (c :: cs.takeWhile Text.isIdentifierContinue), false⟩,
        cs.dropWhile Text.isIdentifierContinue)
    else none
  | [] => none

/-! ## Escapes -/

/-- The value of a digit in a base up to 16. -/
def digitValue? (base : Nat) (c : Char) : Option Nat :=
  let value :=
    if '0' ≤ c ∧ c ≤ '9' then c.toNat - '0'.toNat
    else if 'a' ≤ c ∧ c ≤ 'f' then c.toNat - 'a'.toNat + 10
    else if 'A' ≤ c ∧ c ≤ 'F' then c.toNat - 'A'.toNat + 10
    else base
  if value < base then some value else none

/-- The value of digits in a base. -/
def digitsValue? (base : Nat) (cs : List Char) : Option Nat :=
  cs.foldlM (fun n c => return base * n + (← digitValue? base c)) 0

/-- What a backslash and the characters after it stand for. -/
inductive Escape where
  | char (c : Char)
  /-- A byte in two digits. -/
  | byte (b : UInt8)
  /-- The character with a code point in up to six digits. -/
  | codePoint (c : Char)

/-- What a letter after a backslash stands for. -/
def shortEscape? : Char → Option Char
  | '\'' => some '\''
  | '"' => some '"'
  | '\\' => some '\\'
  | 'n' => some '\n'
  | 'r' => some '\r'
  | 't' => some '\t'
  | '0' => some '\x00'
  | _ => none

/-- What the characters after a backslash stand for. -/
def readEscape : List Char → Option (Escape × List Char)
  | 'x' :: a :: b :: cs => do return (.byte (UInt8.ofNat (← digitsValue? 16 [a, b])), cs)
  | 'u' :: '\x7b' :: cs => do
    let digits := cs.takeWhile (· ≠ '\x7d')
    if digits.isEmpty || 6 < digits.length then none
    let rest ← expect '\x7d' (cs.drop digits.length)
    let n ← digitsValue? 16 digits
    if n.isValidChar then return (.codePoint (Char.ofNat n), rest) else none
  | c :: cs => do return (.char (← shortEscape? c), cs)
  | [] => none

/-! ## Texts and bytes -/

/-- What stands before a closing quote: what each character stands for, and what each escape does
together with what follows it. Every character takes one unit of fuel. -/
def readQuoted {α : Type} (plain : Char → List α)
    (escaped : Escape → List Char → Option (List α × List Char)) :
    Nat → List Char → Option (List α × List Char)
  | 0, _ => none
  | _ + 1, [] => none
  | _ + 1, '"' :: rest => some ([], rest)
  | fuel + 1, '\\' :: cs => do
    let (escape, rest) ← readEscape cs
    let (found, rest) ← escaped escape rest
    let (more, rest) ← readQuoted plain escaped fuel rest
    return (found ++ more, rest)
  | fuel + 1, c :: cs => do
    let (more, rest) ← readQuoted plain escaped fuel cs
    return (plain c ++ more, rest)

/-- The bytes of a character that follow its first one. -/
def followers (first : UInt8) : Nat :=
  if first < 0x80 then 0 else if first < 0xe0 then 1 else if first < 0xf0 then 2 else 3

/-- So many further bytes, each of them escaped. -/
def readFollowers : Nat → List Char → Option (List UInt8 × List Char)
  | 0, cs => some ([], cs)
  | n + 1, '\\' :: 'x' :: a :: b :: cs => do
    let byte ← digitsValue? 16 [a, b]
    let (more, rest) ← readFollowers n cs
    return (UInt8.ofNat byte :: more, rest)
  | _ + 1, _ => none

/-- The text that bytes encode. -/
def decode? (bytes : List UInt8) : Option String := String.fromUTF8? ⟨bytes.toArray⟩

/-- What an escape stands for in a text: bytes have to make up a character. -/
def escapeInText : Escape → List Char → Option (List Char × List Char)
  | .char c, rest => some ([c], rest)
  | .codePoint c, rest => some ([c], rest)
  | .byte b, rest => do
    let (more, rest) ← readFollowers (followers b) rest
    return ((← decode? (b :: more)).toList, rest)

/-- What an escape stands for among bytes. -/
def escapeInBytes : Escape → List Char → Option (List UInt8 × List Char)
  | .char c, rest => some (String.utf8EncodeChar c, rest)
  | .codePoint c, rest => some (String.utf8EncodeChar c, rest)
  | .byte b, rest => some ([b], rest)

/-- The characters of a raw text up to a quote with so many marks after it. -/
def readRaw (marks : Nat) : List Char → Option (List Char × List Char)
  | [] => none
  | c :: cs =>
    if c = '"' ∧ (cs.take marks).countP (· = '#') = marks then some ([], cs.drop marks)
    else (readRaw marks cs).map fun (s, rest) => (c :: s, rest)

/-- The characters of a text after what says that it is raw: marks, and a quote. -/
def readRawQuoted (cs : List Char) : Option (List Char × List Char) := do
  let marks := (cs.takeWhile (· = '#')).length
  readRaw marks (← expect '"' (cs.drop marks))

/-- A text after its opening quote. -/
def readText (fuel : Nat) (cs : List Char) : Option (Ron × List Char) := do
  let (s, rest) ← readQuoted ([·]) escapeInText fuel cs
  return (.text (String.ofList s), rest)

/-- A raw text after its letter. -/
def readRawText (cs : List Char) : Option (Ron × List Char) := do
  let (s, rest) ← readRawQuoted cs
  return (.text (String.ofList s), rest)

/-- Bytes after their opening quote. A character stands for the bytes that encode it. -/
def readBytes (fuel : Nat) (cs : List Char) : Option (Ron × List Char) := do
  let (b, rest) ← readQuoted String.utf8EncodeChar escapeInBytes fuel cs
  return (.bytes b, rest)

/-- Raw bytes after their letters. -/
def readRawBytes (cs : List Char) : Option (Ron × List Char) := do
  let (s, rest) ← readRawQuoted cs
  return (.bytes (s.flatMap String.utf8EncodeChar), rest)

/-- A character after its opening quote. -/
def readChar : List Char → Option (Ron × List Char)
  | '\\' :: cs => do
    let (escape, rest) ← readEscape cs
    let rest ← expect '\'' rest
    match escape with
    | .char c => return (.char c, rest)
    | .codePoint c => return (.char c, rest)
    | .byte b => if b < 0x80 then return (.char (Char.ofNat b.toNat), rest) else none
  | c :: cs => return (.char c, ← expect '\'' cs)
  | [] => none

/-- A whole number of eight bits. -/
def byteValue (n : Nat) : Ron := .whole ⟨false, n⟩ true (some ⟨false, 8⟩)

/-- A number that is written as a character, after its opening quote. -/
def readByte : List Char → Option (Ron × List Char)
  | '\\' :: cs => do
    let (escape, rest) ← readEscape cs
    let rest ← expect '\'' rest
    match escape with
    | .char c => return (byteValue c.toNat, rest)
    | .byte b => return (byteValue b.toNat, rest)
    | .codePoint _ => none
  | c :: cs => do if c.toNat < 0x80 then return (byteValue c.toNat, ← expect '\'' cs) else none
  | [] => none

/-! ## Numbers -/

/-- A character of a whole number. -/
def isWholePart (c : Char) : Bool := (digitValue? 16 c).isSome || c = '_'

/-- A character of a decimal number. -/
def isRealPart (c : Char) : Bool := c.isDigit || c ∈ ['_', '.', 'e', 'E', '+', '-']

/-- The digits of a whole number in a base, and what follows them. Underscores may stand behind
them. -/
def readDigits (base : Nat) (cs : List Char) : Option (Nat × List Char) := do
  let digits := cs.takeWhile isWholePart
  if digits.head?.all (· = '_') then none
  return (← digitsValue? base (digits.filter (· ≠ '_')), cs.dropWhile isWholePart)

/-- The letters and digits that come next, and what follows them. -/
def spanName (cs : List Char) : String × List Char :=
  (String.ofList (cs.takeWhile Text.isIdentifierContinue),
    cs.dropWhile Text.isIdentifierContinue)

/-- A whole number after its sign and the mark of its base. The name of a type may follow it. -/
def readTypedWhole (negative : Bool) (base : Nat) (cs : List Char) : Option (Ron × List Char) := do
  let (n, rest) ← readDigits base cs
  match spanName rest with
  | ("", rest) => return (.whole ⟨negative, n⟩ (base = 10) none, rest)
  | (name, rest) => return (.whole ⟨negative, n⟩ (base = 10) (← WholeType.ofName? name), rest)

/-- A whole number after its sign and the mark of its base, which no name of a type follows. -/
def readUntypedWhole (negative : Bool) (base : Nat) (cs : List Char) :
    Option (Ron × List Char) := do
  let (n, rest) ← readDigits base cs
  return (.whole ⟨negative, n⟩ false none, rest)

/-- Each underscore of a decimal number comes after a digit or the mark of an exponent, and not
right after the point. Given is whether the first character may be one. -/
def underscoresFit : Bool → List Char → Bool
  | _, [] => true
  | allowed, '_' :: cs => allowed && underscoresFit allowed cs
  | _, '.' :: cs => underscoresFit false cs
  | allowed, c :: cs => underscoresFit (allowed || c.isDigit || c = 'e' || c = 'E') cs

/-- What follows the name of a type of decimal numbers, if there is one. -/
def skipRealType (cs : List Char) : Option (List Char) :=
  let (name, rest) := spanName cs
  if name ∈ ["", "f32", "f64"] then some rest else none

/-- A decimal number. -/
def readReal (cs : List Char) : Option (Ron × List Char) := do
  let part := cs.takeWhile isRealPart
  if !underscoresFit false part then none
  let _ ← readDecimal? ((splitSign part).2.filter (· ≠ '_'))
  return (.real, ← skipRealType (cs.dropWhile isRealPart))

/-- A number that starts with a sign, a digit or a point. It is a decimal one if characters of
decimal numbers reach farther than those of whole ones, or if it cannot be a whole one. -/
def readNumber (cs : List Char) : Option (Ron × List Char) :=
  let (negative, magnitude) := splitSign cs
  match magnitude with
  | 'i' :: 'n' :: 'f' :: rest => (skipRealType rest).map (.real, ·)
  | 'N' :: 'a' :: 'N' :: rest => (skipRealType rest).map (.real, ·)
  | _ =>
    if (magnitude.takeWhile isWholePart).length < (magnitude.takeWhile isRealPart).length then
      readReal cs
    else match magnitude with
      | '0' :: 'x' :: digits => readUntypedWhole negative 16 digits
      | '0' :: 'o' :: digits => readUntypedWhole negative 8 digits
      | '0' :: 'b' :: digits => readTypedWhole negative 2 digits
      | digits => readTypedWhole negative 10 digits <|> readReal cs

end Ron

end RoutePolicy
