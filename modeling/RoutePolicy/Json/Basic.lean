set_option autoImplicit false

/-! # JSON values

A value keeps what matters for reading it as something: whether a number was written as a whole
one, members in the order in which they stand and with their repetitions, and texts with an
unpaired surrogate, which can be skipped but not read. -/

namespace RoutePolicy

/-- A JSON value. A text is `none` if it names an unpaired surrogate. -/
inductive Json where
  | null
  | bool (b : Bool)
  | integer (negative : Bool) (magnitude : Nat)
  /-- A number with a fraction or an exponent: `digits * 10 ^ exponent`. -/
  | decimal (negative : Bool) (digits : Nat) (exponent : Int)
  | text (s : Option String)
  | list (items : List Json)
  | object (members : List (Option String × Json))

namespace Json

instance : Inhabited Json := ⟨.null⟩

/-- A text. -/
def ofText (s : String) : Json := .text (some s)

/-- A count. -/
def ofNat (n : Nat) : Json := .integer false n

end Json

end RoutePolicy
