import RoutePolicy.Number.Binary64

set_option autoImplicit false

/-! # Reading numerals -/

namespace RoutePolicy

/-- The value of decimal digits. -/
def digitsValue (cs : List Char) : Nat := cs.foldl (fun n c => 10 * n + (c.toNat - '0'.toNat)) 0

/-- The leading decimal digits, and what follows them. -/
def spanDigits (cs : List Char) : List Char × List Char :=
  (cs.takeWhile Char.isDigit, cs.dropWhile Char.isDigit)

/-- A text without its sign, and whether the sign is a minus. -/
def splitSign : List Char → Bool × List Char
  | '-' :: cs => (true, cs)
  | '+' :: cs => (false, cs)
  | cs => (false, cs)

/-- A whole number below `range` in decimal digits, with a plus sign or none. -/
def readCount? (range : Nat) (s : String) : Option Nat :=
  let digits := match s.toList with
    | '+' :: cs => cs
    | cs => cs
  if digits.isEmpty || !digits.all Char.isDigit then none
  else
    let n := digitsValue digits
    if n < range then some n else none

/-- An exponent part that is the rest of a numeral: nothing, or a letter and a whole number. -/
def readExponent? : List Char → Option Int
  | [] => some 0
  | c :: cs =>
    if c = 'e' ∨ c = 'E' then
      let (negative, digits) := splitSign cs
      if digits.isEmpty || !digits.all Char.isDigit then none
      else
        let n : Int := digitsValue digits
        some (if negative then -n else n)
    else none

/-- A numeral without a sign: digits, perhaps a point with digits on at least one side of it, and
perhaps an exponent. The digits read as a whole number and the power of ten they count. -/
def readDecimal? (cs : List Char) : Option (Nat × Int) := do
  let (whole, rest) := spanDigits cs
  let (fraction, rest) := match rest with
    | '.' :: rest => spanDigits rest
    | _ => ([], rest)
  if whole.isEmpty && fraction.isEmpty then failure
  let exponent ← readExponent? rest
  return (digitsValue (whole ++ fraction), exponent - fraction.length)

/-- A binary64 number: a sign, and a decimal numeral or one of the words `inf`, `infinity`, `nan`
in letters of either case. -/
def readBinary64? (s : String) : Option Binary64 :=
  let (negative, cs) := splitSign s.toList
  let word := String.ofList (cs.map Char.toLower)
  if word = "inf" ∨ word = "infinity" then some (.infinite negative)
  else if word = "nan" then some .nan
  else (readDecimal? cs).map fun (digits, exponent) => .ofDecimal negative digits exponent

end RoutePolicy
