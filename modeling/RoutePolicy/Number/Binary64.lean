set_option autoImplicit false

/-! # Decimal numerals as binary64 numbers

A decimal numeral is read as the nearest number with 53 binary digits and an exponent between
-1074 and 971, ties going to the even one. All arithmetic is exact, on natural numbers. -/

namespace RoutePolicy

/-- A binary64 number: `mantissa * 2 ^ exponent` with a sign, an infinity, or no number. -/
inductive Binary64 where
  | finite (negative : Bool) (mantissa : Nat) (exponent : Int)
  | infinite (negative : Bool)
  | nan
  deriving DecidableEq, Repr

/-- A whole number with a sign; zero has either sign. -/
structure Whole where
  negative : Bool
  magnitude : Nat
  deriving DecidableEq, Repr

/-- The decimal digits with the sign in front, also for a negative zero. -/
def Whole.text (w : Whole) : String := (if w.negative then "-" else "") ++ toString w.magnitude

/-- The number is zero or positive; a negative zero counts as zero. -/
def Whole.isNonnegative (w : Whole) : Bool := !w.negative || w.magnitude = 0

/-- The quotient rounded to the nearest whole number, a tie to the even one. -/
def roundQuotient (num den : Nat) : Nat :=
  let q := num / den
  let r := num % den
  if den < 2 * r ∨ (2 * r = den ∧ q % 2 = 1) then q + 1 else q

namespace Binary64

/-- The binary exponent at which the quotient has 53 binary digits, or the least one. -/
def exponentFor (num den : Nat) : Int :=
  let guess : Int := (num.log2 : Int) - den.log2 - 52
  let isLow := if 0 ≤ guess then num < den * Nat.pow 2 (52 + guess.toNat)
    else num * Nat.pow 2 (-guess).toNat < den * Nat.pow 2 52
  max (if isLow then guess - 1 else guess) (-1074)

/-- The positive quotient of two numbers, rounded. -/
def ofQuotient (negative : Bool) (num den : Nat) : Binary64 :=
  let e := exponentFor num den
  let m := if 0 ≤ e then roundQuotient num (den * Nat.pow 2 e.toNat)
    else roundQuotient (num * Nat.pow 2 (-e).toNat) den
  if 971 < e ∨ (e = 971 ∧ m = Nat.pow 2 53) then .infinite negative else .finite negative m e

/-- The number `digits * 10 ^ exponent`, rounded. Numerals far above the greatest number or far
below the least one are settled by their length. -/
def ofDecimal (negative : Bool) (digits : Nat) (exponent : Int) : Binary64 :=
  let magnitude : Int := exponent + (Nat.toDigits 10 digits).length
  if digits = 0 ∨ magnitude < -330 then .finite negative 0 0
  else if 310 < magnitude then .infinite negative
  else if 0 ≤ exponent then ofQuotient negative (digits * Nat.pow 10 exponent.toNat) 1
  else ofQuotient negative digits (Nat.pow 10 (-exponent).toNat)

/-- The product of two numbers, rounded. -/
def mul : Binary64 → Binary64 → Binary64
  | .finite a m e, .finite b n f =>
    let sign := a != b
    let power := e + f
    if m * n = 0 then .finite sign 0 0
    else if 0 ≤ power then ofQuotient sign (m * n * Nat.pow 2 power.toNat) 1
    else ofQuotient sign (m * n) (Nat.pow 2 (-power).toNat)
  | .infinite a, .infinite b => .infinite (a != b)
  | .infinite a, .finite b m _ => if m = 0 then .nan else .infinite (a != b)
  | .finite a m _, .infinite b => if m = 0 then .nan else .infinite (a != b)
  | _, _ => .nan

/-- The number, if it is whole. -/
def whole? : Binary64 → Option Whole
  | .finite negative m e =>
    if 0 ≤ e then some ⟨negative, m * Nat.pow 2 e.toNat⟩
    else
      let d := Nat.pow 2 (-e).toNat
      if m % d = 0 then some ⟨negative, m / d⟩ else none
  | _ => none

/-- The number is neither infinite nor no number. -/
def isFinite : Binary64 → Bool
  | .finite .. => true
  | _ => false

end Binary64

end RoutePolicy
