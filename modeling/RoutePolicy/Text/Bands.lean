set_option autoImplicit false

/-! # Sets of code points as bands

A property of characters is stored as the increasing list of the places where it switches: from
the first number on it holds, from the second on it does not, and so on. -/

namespace RoutePolicy.Text

/-- The number of switches at or before `n` is odd. -/
def inBands (switches : Array Nat) (n : Nat) : Bool :=
  switches.foldl (fun inside s => if s ≤ n then !inside else inside) false

end RoutePolicy.Text
