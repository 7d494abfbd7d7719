import RoutePolicy.Number.Numeral
import RoutePolicy.Toml.Basic

set_option autoImplicit false

/-! # Numbers, dates and truth values in TOML

These are written without quotes, so what a run of characters means is decided when all of it is
there. -/

namespace RoutePolicy

namespace Toml

/-! ## Numbers -/

/-- The digits of a numeral without the underscores between them: there is a digit on both sides
of each. -/
def joinDigits (isDigit : Char → Bool) : List Char → Option (List Char)
  | [] => none
  | [c] => if isDigit c then some [c] else none
  | c :: '_' :: cs => if isDigit c then (joinDigits isDigit cs).map (c :: ·) else none
  | c :: cs => if isDigit c then (joinDigits isDigit cs).map (c :: ·) else none

/-- The value of a digit in bases up to 16. -/
def digitValue (c : Char) : Nat :=
  if c.isDigit then c.toNat - '0'.toNat
  else if 'a' ≤ c ∧ c ≤ 'f' then c.toNat - 'a'.toNat + 10
  else if 'A' ≤ c ∧ c ≤ 'F' then c.toNat - 'A'.toNat + 10
  else 16

/-- The value of a numeral in a base. -/
def wholeInBase? (base : Nat) (cs : List Char) : Option Nat := do
  let digits ← joinDigits (digitValue · < base) cs
  return digits.foldl (fun n c => base * n + digitValue c) 0

/-- The digits of a decimal numeral, which start with a zero only if they are one. -/
def decimalDigits? (cs : List Char) : Option (List Char) := do
  match ← joinDigits Char.isDigit cs with
  | '0' :: _ :: _ => none
  | digits => return digits

/-- A whole number of at most 128 bits. -/
def integer? (cs : List Char) : Option Int := do
  let n : Int ← match cs with
    | '0' :: 'x' :: cs => wholeInBase? 16 cs
    | '0' :: 'o' :: cs => wholeInBase? 8 cs
    | '0' :: 'b' :: cs => wholeInBase? 2 cs
    | _ => do
      let (negative, cs) := splitSign cs
      let n : Int := digitsValue (← decimalDigits? cs)
      return if negative then -n else n
  if -(Nat.pow 2 127 : Int) ≤ n ∧ n < (Nat.pow 2 128 : Int) then some n else none

/-- What follows a decimal numeral in a decimal number: an exponent or nothing. -/
def isExponent : List Char → Bool
  | [] => true
  | c :: cs => (c = 'e' || c = 'E') && (joinDigits Char.isDigit (splitSign cs).2).isSome

/-- A decimal number after its sign: a point, an exponent or both. -/
def hasDecimalForm (cs : List Char) : Bool :=
  let isPart (c : Char) := c.isDigit || c = '_'
  let rest := cs.dropWhile isPart
  (decimalDigits? (cs.takeWhile isPart)).isSome
    && match rest with
      | '.' :: rest =>
        (joinDigits Char.isDigit (rest.takeWhile isPart)).isSome
          && isExponent (rest.dropWhile isPart)
      | _ => !rest.isEmpty && isExponent rest

/-- A decimal number in the range of binary64, or one of two words. -/
def isDecimal (cs : List Char) : Bool :=
  let cs := (splitSign cs).2
  cs = "inf".toList || cs = "nan".toList
    || hasDecimalForm cs
      && (readDecimal? (cs.filter (· ≠ '_'))).any fun (digits, exponent) =>
        (Binary64.ofDecimal false digits exponent).isFinite

/-! ## Dates and times -/

/-- A number of so many digits, and what follows it. -/
def fixed? (width : Nat) (cs : List Char) : Option (Nat × List Char) :=
  let digits := cs.take width
  if digits.length = width ∧ digits.all Char.isDigit then some (digitsValue digits, cs.drop width)
  else none

/-- What follows a character. -/
def after? (c : Char) : List Char → Option (List Char)
  | d :: cs => if d = c then some cs else none
  | [] => none

/-- The days of a month. -/
def daysInMonth (year month : Nat) : Nat :=
  if month = 2 then
    if year % 4 = 0 ∧ (year % 100 ≠ 0 ∨ year % 400 = 0) then 29 else 28
  else if month = 4 ∨ month = 6 ∨ month = 9 ∨ month = 11 then 30
  else 31

/-- What follows a date. -/
def afterDate? (cs : List Char) : Option (List Char) := do
  let (year, cs) ← fixed? 4 cs
  let (month, cs) ← fixed? 2 (← after? '-' cs)
  let (day, cs) ← fixed? 2 (← after? '-' cs)
  if 1 ≤ month ∧ month ≤ 12 ∧ 1 ≤ day ∧ day ≤ daysInMonth year month then some cs else none

/-- What follows the seconds of a time of day and their fraction. -/
def afterSeconds? (cs : List Char) : Option (List Char) := do
  let (second, cs) ← fixed? 2 cs
  if 61 ≤ second then none
  match cs with
  | '.' :: cs =>
    if cs.head?.any Char.isDigit then some (cs.dropWhile Char.isDigit) else none
  | cs => some cs

/-- What follows a time of day, which need not have seconds. -/
def afterTime? (cs : List Char) : Option (List Char) := do
  let (hour, cs) ← fixed? 2 cs
  let (minute, cs) ← fixed? 2 (← after? ':' cs)
  if 24 ≤ hour ∨ 60 ≤ minute then none
  match cs with
  | ':' :: cs => afterSeconds? cs
  | cs => some cs

/-- The characters are a distance from universal time. -/
def isOffset : List Char → Bool
  | [c] => c = 'Z' || c = 'z'
  | c :: cs =>
    (c = '+' || c = '-') && (do
      let (hour, cs) ← fixed? 2 cs
      let (minute, cs) ← fixed? 2 (← after? ':' cs)
      return decide (hour < 24 ∧ minute < 60 ∧ cs = [])).getD false
  | [] => false

/-- A date, a time of day, or both with perhaps a distance from universal time. -/
def isDate (cs : List Char) : Bool :=
  match afterDate? cs with
  | none => afterTime? cs = some []
  | some [] => true
  | some (c :: cs) =>
    (c = 'T' || c = 't' || c = ' ')
      && match afterTime? cs with
        | none => false
        | some rest => rest.isEmpty || isOffset rest

/-! ## All of them -/

/-- The value of a run of characters. -/
def scalar? (cs : List Char) : Option Toml :=
  if cs = "true".toList then some (.flag true)
  else if cs = "false".toList then some (.flag false)
  else if isDecimal cs || isDate cs then some .other
  else (integer? cs).map .integer

/-- A character of such a run. -/
def isScalarChar (c : Char) : Bool :=
  c.isAlphanum || c = '+' || c = '-' || c = '.' || c = '_' || c = ':'

/-- A value without quotes, and what follows it. One blank may stand between a date and a time. -/
def readScalar (cs : List Char) : Option (Toml × List Char) := do
  let run := cs.takeWhile isScalarChar
  let rest := cs.dropWhile isScalarChar
  match rest with
  | ' ' :: c :: more =>
    if afterDate? run = some [] ∧ c.isDigit then
      let time := (c :: more).takeWhile isScalarChar
      return (← scalar? (run ++ ' ' :: time), (c :: more).dropWhile isScalarChar)
    else return (← scalar? run, rest)
  | _ => return (← scalar? run, rest)

end Toml

end RoutePolicy
