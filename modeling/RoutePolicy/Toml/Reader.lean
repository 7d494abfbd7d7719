import RoutePolicy.Toml.Scalar

set_option autoImplicit false

/-! # Reading TOML

A document is a sequence of lines: headings of tables, and keys with their values. -/

namespace RoutePolicy

namespace Toml

/-! ## Blanks and comments -/

/-- White space within a line. -/
def isBlank (c : Char) : Bool := c = ' ' || c = '\t'

/-- What follows white space within a line. -/
def skipBlank (cs : List Char) : List Char := cs.dropWhile isBlank

/-- A character that may stand in a comment or a text as it is. -/
def isPlain (c : Char) : Bool := c = '\t' || (0x20 ≤ c.toNat && c.toNat ≠ 0x7f)

/-- What follows a comment, if there is one. -/
def skipComment : List Char → List Char
  | '#' :: cs => cs.dropWhile isPlain
  | cs => cs

/-- What follows the end of a line. -/
def skipLineBreak : List Char → Option (List Char)
  | '\n' :: cs => some cs
  | '\r' :: '\n' :: cs => some cs
  | _ => none

/-- What follows the rest of a line that holds nothing more. -/
def endLine (cs : List Char) : Option (List Char) :=
  match skipComment (skipBlank cs) with
  | [] => some []
  | cs => skipLineBreak cs

/-- What follows white space, comments and line breaks. -/
def skipLines : Nat → List Char → List Char
  | 0, cs => cs
  | fuel + 1, cs =>
    let cs := skipComment (skipBlank cs)
    match skipLineBreak cs with
    | some rest => skipLines fuel rest
    | none => cs

/-! ## Texts -/

/-- The character whose code point so many hexadecimal digits are, and what follows them. -/
def readCodePoint (width : Nat) (cs : List Char) : Option (Char × List Char) :=
  let digits := cs.take width
  let n := digits.foldl (fun n c => 16 * n + digitValue c) 0
  if digits.length = width && digits.all (digitValue · < 16) && n.isValidChar then
    some (Char.ofNat n, cs.drop width)
  else none

/-- A character written with a backslash, of which what follows the backslash is given. -/
def readEscape : List Char → Option (Char × List Char)
  | 'b' :: cs => some ('\x08', cs)
  | 't' :: cs => some ('\t', cs)
  | 'n' :: cs => some ('\n', cs)
  | 'f' :: cs => some ('\x0c', cs)
  | 'r' :: cs => some ('\r', cs)
  | 'e' :: cs => some ('\x1b', cs)
  | '"' :: cs => some ('"', cs)
  | '\\' :: cs => some ('\\', cs)
  | 'x' :: cs => readCodePoint 2 cs
  | 'u' :: cs => readCodePoint 4 cs
  | 'U' :: cs => readCodePoint 8 cs
  | _ => none

/-- A text on one line in which backslashes have a meaning, up to its quote. Every character takes
one unit of fuel. -/
def readBasic : Nat → List Char → Option (List Char × List Char)
  | 0, _ => none
  | _ + 1, [] => none
  | _ + 1, '"' :: rest => some ([], rest)
  | fuel + 1, '\\' :: cs => do
    let (c, rest) ← readEscape cs
    let (s, rest) ← readBasic fuel rest
    return (c :: s, rest)
  | fuel + 1, c :: cs => do
    if !isPlain c then none
    let (s, rest) ← readBasic fuel cs
    return (c :: s, rest)

/-- A text on one line in which every character stands for itself, up to its quote. -/
def readLiteral : List Char → Option (List Char × List Char)
  | [] => none
  | '\'' :: rest => some ([], rest)
  | c :: cs => if isPlain c then (readLiteral cs).map fun (s, rest) => (c :: s, rest) else none

/-- What closes a text over several lines: three quotes. One or two quotes before them belong to
the text. -/
def closing? (quote : Char) (cs : List Char) : Option (List Char × List Char) :=
  let quotes := cs.takeWhile (· = quote)
  if quotes.length < 3 then none
  else
    let inside := min (quotes.length - 3) 2
    some (List.replicate inside quote, cs.drop (inside + 3))

/-- What follows white space and line breaks. -/
def skipSpace : List Char → List Char
  | '\r' :: '\n' :: cs => skipSpace cs
  | c :: cs => if isBlank c || c = '\n' then skipSpace cs else c :: cs
  | [] => []

/-- What follows a backslash at the end of a line: the next character that shows. -/
def afterContinuation? (cs : List Char) : Option (List Char) :=
  (skipLineBreak (skipBlank cs)).map skipSpace

/-- A character of a text over several lines that stands for itself, or a line break, and what
follows it. A line break of two characters keeps both of them. -/
def readSelf : List Char → Option (List Char × List Char)
  | '\r' :: '\n' :: rest => some (['\r', '\n'], rest)
  | c :: rest => if c = '\n' || isPlain c then some ([c], rest) else none
  | [] => none

/-- A text over several lines in which backslashes have a meaning. -/
def readLongBasic : Nat → List Char → Option (List Char × List Char)
  | 0, _ => none
  | fuel + 1, cs =>
    match closing? '"' cs with
    | some closed => some closed
    | none =>
      match cs with
      | '\\' :: cs =>
        match afterContinuation? cs with
        | some rest => readLongBasic fuel rest
        | none => do
          let (c, rest) ← readEscape cs
          let (s, rest) ← readLongBasic fuel rest
          return (c :: s, rest)
      | cs => do
        let (own, rest) ← readSelf cs
        let (s, rest) ← readLongBasic fuel rest
        return (own ++ s, rest)

/-- A text over several lines in which every character stands for itself. -/
def readLongLiteral : Nat → List Char → Option (List Char × List Char)
  | 0, _ => none
  | fuel + 1, cs =>
    match closing? '\'' cs with
    | some closed => some closed
    | none => do
      let (own, rest) ← readSelf cs
      let (s, rest) ← readLongLiteral fuel rest
      return (own ++ s, rest)

/-- What follows a line break right after the opening quotes of a text over several lines. -/
def skipFirstBreak (cs : List Char) : List Char := (skipLineBreak cs).getD cs

/-- A text on one line. -/
def readShortText : List Char → Option (String × List Char)
  | '"' :: cs => (readBasic (cs.length + 1) cs).map fun (s, rest) => (String.ofList s, rest)
  | '\'' :: cs => (readLiteral cs).map fun (s, rest) => (String.ofList s, rest)
  | _ => none

/-- A text. -/
def readText : List Char → Option (String × List Char)
  | '"' :: '"' :: '"' :: cs =>
    (readLongBasic (cs.length + 1) (skipFirstBreak cs)).map fun (s, rest) => (String.ofList s, rest)
  | '\'' :: '\'' :: '\'' :: cs =>
    (readLongLiteral (cs.length + 1) (skipFirstBreak cs)).map fun (s, rest) =>
      (String.ofList s, rest)
  | cs => readShortText cs

/-! ## Keys -/

/-- A character of a key without quotes. -/
def isKeyChar (c : Char) : Bool := c.isAlphanum || c = '_' || c = '-'

/-- One part of a key. -/
def readKeyPart (cs : List Char) : Option (String × List Char) :=
  let part := cs.takeWhile isKeyChar
  if part.isEmpty then readShortText cs else some (String.ofList part, cs.dropWhile isKeyChar)

/-- The lists and tables that may be nested, and the parts that a key may have. -/
def maxDepth : Nat := 80

/-- A key of at most so many parts: the parts before the last one, the last one, and what follows
with white space skipped. -/
def readParts : Nat → List Char → Option (List String × String × List Char)
  | 0, _ => none
  | parts + 1, cs => do
    let (part, rest) ← readKeyPart (skipBlank cs)
    match skipBlank rest with
    | '.' :: rest =>
      let (path, key, rest) ← readParts parts rest
      return (part :: path, key, rest)
    | rest => return ([], part, rest)

/-- A key. -/
def readKey (cs : List Char) : Option (List String × String × List Char) := readParts maxDepth cs

/-! ## Values -/

mutual

/-- A value, in which so many lists and tables may be nested. Every value, item and entry takes one
unit of fuel. -/
def readValue : Nat → Nat → List Char → Option (Toml × List Char)
  | 0, _, _ => none
  | fuel + 1, depth, cs =>
    match cs with
    | '"' :: _ => (readText cs).map fun (s, rest) => (.text s, rest)
    | '\'' :: _ => (readText cs).map fun (s, rest) => (.text s, rest)
    | '[' :: rest => do
      if depth = 0 then none
      let (items, rest) ← readItems fuel (depth - 1) (skipLines fuel rest)
      return (.list items, rest)
    | '\x7b' :: rest => do
      if depth = 0 then none
      let (entries, rest) ← readEntries fuel (depth - 1) [] (skipLines fuel rest)
      return (.table .inlined entries, rest)
    | cs => readScalar cs

/-- Items up to a bracket, and what follows it. -/
def readItems : Nat → Nat → List Char → Option (List Toml × List Char)
  | 0, _, _ => none
  | _ + 1, _, ']' :: rest => some ([], rest)
  | fuel + 1, depth, cs => do
    let (item, rest) ← readValue fuel depth cs
    match skipLines fuel rest with
    | ',' :: rest =>
      let (items, rest) ← readItems fuel depth (skipLines fuel rest)
      return (item :: items, rest)
    | ']' :: rest => return ([item], rest)
    | _ => none

/-- Entries up to a brace, put to the ones given, and what follows it. -/
def readEntries : Nat → Nat → Entries → List Char → Option (Entries × List Char)
  | 0, _, _, _ => none
  | _ + 1, _, entries, '\x7d' :: rest => some (entries, rest)
  | fuel + 1, depth, entries, cs => do
    let (path, key, rest) ← readKey cs
    let '=' :: rest := skipLines fuel rest | none
    let (value, rest) ← readValue fuel depth (skipLines fuel rest)
    let entries ← insert entries path key value
    match skipLines fuel rest with
    | ',' :: rest => readEntries fuel depth entries (skipLines fuel rest)
    | '\x7d' :: rest => return (entries, rest)
    | _ => none

end

/-! ## Documents -/

/-- A document while it is read: what there is so far, and the last heading. -/
structure Draft where
  root : Entries
  heading : List String

/-- A heading after its first bracket, and the rest of its line. -/
def readHeading (draft : Draft) : List Char → Option (Draft × List Char)
  | '[' :: cs => do
    let (path, key, rest) ← readKey cs
    let ']' :: ']' :: rest := rest | none
    return (⟨← openRow draft.root path key, path ++ [key]⟩, ← endLine rest)
  | cs => do
    let (path, key, rest) ← readKey cs
    let ']' :: rest := rest | none
    return (⟨← openTable draft.root path key, path ++ [key]⟩, ← endLine rest)

/-- A key with its value, and the rest of its line. -/
def readEntry (fuel : Nat) (draft : Draft) (cs : List Char) : Option (Draft × List Char) := do
  let (path, key, rest) ← readKey cs
  let '=' :: rest := rest | none
  let (value, rest) ← readValue fuel maxDepth (skipBlank rest)
  let root ← insertUnder draft.root draft.heading path key value
  return ({ draft with root }, ← endLine rest)

/-- The lines of a document. Every line takes one unit of fuel. -/
def readLines : Nat → Draft → List Char → Option Draft
  | 0, _, _ => none
  | fuel + 1, draft, cs =>
    match skipLines fuel cs with
    | [] => some draft
    | '[' :: rest => do
      let (draft, rest) ← readHeading draft rest
      readLines fuel draft rest
    | cs => do
      let (draft, rest) ← readEntry fuel draft cs
      readLines fuel draft rest

/-- The table that a text is the text of. A mark of the byte order at its start is skipped. -/
def parse (s : String) : Option Toml := do
  let cs := match s.toList with
    | c :: cs => if c.toNat = 0xfeff then cs else c :: cs
    | [] => []
  let draft ← readLines (2 * cs.length + 2) ⟨[], []⟩ cs
  return .table .heading draft.root

end Toml

end RoutePolicy
