import RoutePolicy.Formula.Basic
import RoutePolicy.Text.Layout
import RoutePolicy.Text.Quoted

set_option autoImplicit false

/-! # Leaves shown as text -/

namespace RoutePolicy

open Text

/-- The name and the two facts of a leaf. The test cannot be shown, so the text says that there is
more. -/
def Leaf.layout {k : Kind} (p : Leaf k) : Layout :=
  .record "NodePredicate" [
    ("name", .atom (quote p.name)),
    ("message", .atom (quote p.message)),
    ("negation", .atom (quote p.negation))] true

end RoutePolicy
