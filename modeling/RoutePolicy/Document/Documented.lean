import RoutePolicy.Document.Basic
import RoutePolicy.Document.Source
import RoutePolicy.Net.Arena
import RoutePolicy.SortedSet

set_option autoImplicit false

/-! # Values with a document

A type with documents says how its values are written and how they are read from any notation. -/

namespace RoutePolicy

/-- A type whose values are written to documents and read from sources. -/
class Documented (α : Type) where
  document : α → Document
  read? {σ : Type} [Source σ] : σ → Option α

export Documented (document read?)

instance : Documented String where
  document := .text
  read? := Source.text?

/-- Counts have 64 bits. -/
instance : Documented Nat where
  document := .count
  read? := Source.count? 64

instance : Documented Bool where
  document := .flag
  read? := Source.flag?

instance {α : Type} [Documented α] : Documented (List α) where
  document l := .list (l.map document)
  read? v := do (← Source.items? v).mapM read?

instance {α : Type} [Documented α] : Documented (Option α) where
  document
    | none => .absent
    | some a => .present (document a)
  read? v := do
    match ← Source.option? v with
    | none => return none
    | some v => return some (← read? v)

instance {ι α : Type} [Documented α] : Documented (Arena ι α) where
  document a := document a.toList
  read? v := (read? v).map .ofList

instance : Documented NameSet where
  document s := document s.toList
  read? v := (read? v).map .ofList

/-- The number of a node or an arc has 32 bits, and a type of its own. -/
def Index.document {ι : Type} [Index ι] (i : ι) : Document := .wrapped (.count (Index.position i))

/-- The number of a node or an arc, whose type has the given name. -/
def Index.read? {ι σ : Type} [Index ι] [Source σ] (typeName : String) (v : σ) : Option ι := do
  return Index.ofPosition (← Source.count? 32 (← Source.wrapped? typeName v))

/-- A value that is one of a few words, of which each stands beside what it means. -/
def readWord? {α σ : Type} [Source σ] (meanings : List (String × α)) (v : σ) : Option α := do
  meanings.lookup (← Source.word? v)

/-- A value that is one of a few words, or `other` for any word else. -/
def readWordOr? {α σ : Type} [Source σ] (other : α) (meanings : List (String × α)) (v : σ) :
    Option α := do
  return (meanings.lookup (← Source.word? v)).getD other

end RoutePolicy
