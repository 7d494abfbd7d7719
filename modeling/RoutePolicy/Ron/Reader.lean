import RoutePolicy.Ron.Outlook

set_option autoImplicit false

/-! # Reading the object notation

A comma may follow the last item of a list. -/

namespace RoutePolicy

namespace Ron

/-! ## Values -/

/-- The brackets that may be nested in a text, which are far more than any value needs. -/
def maxNesting : Nat := 1024

/-- The name and the colon that a field starts with. -/
def readKey (cs : List Char) : Option (String × List Char) := do
  let (name, rest) ← readName cs
  return (name.text, ← skipBlank (← expectToken ':' rest))

mutual

/-- A value, in which so many brackets may be nested. Told is whether `Some` may stand before a
value without parentheses. Every value, every item and every pair of brackets takes one unit of
fuel, which is at most three for each character, and a text takes what is left; so there has to be
four times as much as there are characters. -/
def readValue (bareSome : Bool) : Nat → Nat → List Char → Option (Ron × List Char)
  | 0, _, _ => none
  | fuel + 1, nesting, cs =>
    match cs with
    | '"' :: rest => readText fuel rest
    | 'r' :: '"' :: _ => readRawText cs.tail
    | 'r' :: '#' :: '"' :: _ => readRawText cs.tail
    | 'r' :: '#' :: '#' :: _ => readRawText cs.tail
    | 'b' :: '"' :: rest => readBytes fuel rest
    | 'b' :: 'r' :: '"' :: _ => readRawBytes (cs.drop 2)
    | 'b' :: 'r' :: '#' :: _ => readRawBytes (cs.drop 2)
    | 'b' :: '\'' :: rest => readByte rest
    | '\'' :: rest => readChar rest
    | '[' :: rest => do
      if nesting = 0 then none
      let (items, rest) ← readItems bareSome fuel (nesting - 1) ']' (← skipBlank rest)
      return (.list items, rest)
    | '\x7b' :: rest => do
      if nesting = 0 then none
      let (entries, rest) ← readEntries bareSome fuel (nesting - 1) (← skipBlank rest)
      return (.map entries, rest)
    | '(' :: ')' :: rest => some (.unit, rest)
    | '(' :: rest => do readGroup bareSome fuel nesting none (← skipBlank rest)
    | c :: _ =>
      if c = '+' || c = '-' || c = '.' || c.isDigit then readNumber cs
      else do
        let (name, rest) ← readName cs
        match ← skipBlank rest with
        | '(' :: inner => readGroup bareSome fuel nesting (some name) (← skipBlank inner)
        | inner =>
          if bareSome && name.isWord "Some" then
            match readValue bareSome fuel nesting inner with
            | some (value, rest) => return (.bareSome value, rest)
            | none => return (.word name, rest)
          else return (.word name, rest)
    | [] => none

/-- What stands in parentheses, and the parenthesis after it. -/
def readGroup (bareSome : Bool) : Nat → Nat → Option Name → List Char → Option (Ron × List Char)
  | 0, _, _, _ => none
  | fuel + 1, nesting, name, cs => do
    if nesting = 0 then none
    if (readKey cs).isSome then
      let (fields, rest) ← readFields bareSome fuel (nesting - 1) cs
      return (.record name fields, rest)
    else
      let (items, rest) ← readItems bareSome fuel (nesting - 1) ')' cs
      if name.any (·.isWord "Some") then return (.someOf (outlook cs) items, rest)
      return (.group name items, rest)

/-- Items up to a bracket, and what follows it. -/
def readItems (bareSome : Bool) : Nat → Nat → Char → List Char → Option (List Ron × List Char)
  | 0, _, _, _ => none
  | fuel + 1, nesting, bracket, cs =>
    match expect bracket cs with
    | some rest => some ([], rest)
    | none => do
      let (item, rest) ← readValue bareSome fuel nesting cs
      match ← skipComma rest with
      | (true, rest) =>
        let (items, rest) ← readItems bareSome fuel nesting bracket rest
        return (item :: items, rest)
      | (false, rest) => return ([item], ← expect bracket rest)

/-- Fields up to a parenthesis, and what follows it. -/
def readFields (bareSome : Bool) : Nat → Nat → List Char → Option (List (String × Ron) × List Char)
  | 0, _, _ => none
  | fuel + 1, nesting, cs =>
    match expect ')' cs with
    | some rest => some ([], rest)
    | none => do
      let (key, rest) ← readKey cs
      let (value, rest) ← readValue bareSome fuel nesting rest
      match ← skipComma rest with
      | (true, rest) =>
        let (fields, rest) ← readFields bareSome fuel nesting rest
        return ((key, value) :: fields, rest)
      | (false, rest) => return ([(key, value)], ← expect ')' rest)

/-- Entries of a map up to a brace, and what follows it. -/
def readEntries (bareSome : Bool) : Nat → Nat → List Char → Option (List (Ron × Ron) × List Char)
  | 0, _, _ => none
  | fuel + 1, nesting, cs =>
    match expect '\x7d' cs with
    | some rest => some ([], rest)
    | none => do
      let (key, rest) ← readValue bareSome fuel nesting cs
      let (value, rest) ←
        readValue bareSome fuel nesting (← skipBlank (← expectToken ':' rest))
      match ← skipComma rest with
      | (true, rest) =>
        let (entries, rest) ← readEntries bareSome fuel nesting rest
        return ((key, value) :: entries, rest)
      | (false, rest) => return ([(key, value)], ← expect '\x7d' rest)

end

/-- A digit starts a number. -/
theorem readValue_of_isDigit {fuel nesting : Nat} {c : Char} (hc : c.isDigit = true)
    (cs : List Char) : readValue false (fuel + 1) nesting (c :: cs) = readNumber (c :: cs) := by
  have hne {d : Char} (hd : d.isDigit = false) : c ≠ d := by
    rintro rfl
    rw [hd] at hc
    cases hc
  rw [readValue]
  · rw [if_pos (by rw [hc, Bool.or_true])]
  all_goals
    intros
    exact hne rfl ‹_›

/-! ## Whole texts -/

/-- What follows a word and blanks before it. -/
def expectWord (word : String) (cs : List Char) : Option (List Char) :=
  word.toList.foldlM (fun cs c => expect c cs) cs

/-- Names of extensions with commas between them, up to the parenthesis after them. -/
def readExtensionNames : Nat → Extensions → List Char → Option (Extensions × List Char)
  | 0, _, _ => none
  | fuel + 1, extensions, cs => do
    let (name, rest) ← readName cs
    let extensions ← extensions.enable? name.text
    match ← skipComma rest with
    | (true, ')' :: rest) => return (extensions, rest)
    | (true, rest) => readExtensionNames fuel extensions rest
    | (false, rest) => return (extensions, ← expect ')' rest)

/-- The extensions that are enabled at the start of a text, on top of those given. -/
def readExtensions : Nat → Extensions → List Char → Option (Extensions × List Char)
  | 0, _, _ => none
  | fuel + 1, extensions, '#' :: cs => do
    let rest ← expectToken '[' (← expectToken '!' cs)
    let rest ← expectToken '(' (← expectWord "enable" (← skipBlank rest))
    let (extensions, rest) ← readExtensionNames (cs.length + 1) extensions (← skipBlank rest)
    readExtensions fuel extensions (← skipBlank (← expectToken ']' rest))
  | _ + 1, extensions, cs => some (extensions, cs)

/-- What a text enables, and the value that it is the text of. -/
def parse (s : String) : Option (Extensions × Ron) := do
  let cs := s.toList
  let (extensions, rest) ← readExtensions (cs.length + 1) .none (← skipBlank cs)
  let (value, rest) ← readValue extensions.implicitSome (4 * cs.length + 4) maxNesting rest
  if (← skipBlank rest).isEmpty then return (extensions, value) else none

end Ron

end RoutePolicy
