import RoutePolicy.Document.Source
import RoutePolicy.Toml.Basic

set_option autoImplicit false

/-! # Reading data from TOML -/

namespace RoutePolicy

namespace Toml

/-- The entries of a table. -/
def entries? : Toml → Option Entries
  | .table _ entries => some entries
  | _ => none

/-- A text, which also stands for a case without parts. -/
def text? : Toml → Option String
  | .text s => some s
  | _ => none

/-- The name and the part of a case: a table with one entry. -/
def case? (v : Toml) : Option (String × Toml) := do
  let [single] ← v.entries? | none
  return single

instance : Source Toml where
  text? := text?
  count? bits
    | .integer n => if 0 ≤ n ∧ n.toNat < Nat.pow 2 bits then some n.toNat else none
    | _ => none
  flag?
    | .flag b => some b
    | _ => none
  option? v := some (some v)
  items?
    | .list items => some items
    | .rows tables => some (tables.map (.table .heading))
    | _ => none
  record? _ names v := do Fields.ofNamed names (← v.entries?)
  wrapped? _ := some
  word? := text?
  case? name v := do
    let (found, part) ← v.case?
    if found = name then some part else none
  recordCase? name names v := do
    let (found, part) ← v.case?
    if found = name then Fields.ofNamed names (← part.entries?) else none
  tagged? tag fieldNames v := do
    let (tags, rest) := (← v.entries?).partition (·.1 = tag)
    let [(_, .text kind)] := tags | none
    return (kind, ← Fields.ofNamed (← fieldNames kind) rest)

end Toml

end RoutePolicy
