set_option autoImplicit false

/-! # Reading data out of a notation

A source is a value of some notation from which data are read. What a record, an option or a case
looks like is the notation's business; which fields there are is the reader's. -/

namespace RoutePolicy

/-- The fields found in a record. -/
structure Fields (σ : Type) where
  entries : List (String × σ)
  /-- The fields stood under their names, so that one may be left out. -/
  named : Bool

namespace Fields

variable {σ α : Type}

/-- Fields that stand under their names. No field of the record may stand twice; others are
ignored. -/
def ofNamed (names : List String) (entries : List (String × σ)) : Option (Fields σ) :=
  if names.all fun name => entries.countP (·.1 = name) ≤ 1 then some ⟨entries, true⟩ else none

/-- Fields that stand in the order of the record. -/
def ofListed (names : List String) (items : List σ) : Option (Fields σ) :=
  if items.length ≤ names.length then some ⟨names.zip items, false⟩ else none

/-- A field that has to be there. -/
def required (f : Fields σ) (name : String) (read : σ → Option α) : Option α :=
  (f.entries.lookup name).bind read

/-- A field that has a value also where it is left out. -/
def withDefault (f : Fields σ) (name : String) (default : α) (read : σ → Option α) : Option α :=
  match f.entries.lookup name with
  | none => some default
  | some value => read value

/-- A field that may be left out where fields have names. -/
def optional (f : Fields σ) (name : String) (read : σ → Option (Option α)) : Option (Option α) :=
  match f.entries.lookup name with
  | none => if f.named then some none else none
  | some value => read value

end Fields

/-- Values of a notation from which data are read. Every function is `none` where the value is not
of that form. -/
class Source (σ : Type) where
  text? : σ → Option String
  /-- A whole number of so many bits. -/
  count? : Nat → σ → Option Nat
  flag? : σ → Option Bool
  /-- A value that may be absent. -/
  option? : σ → Option (Option σ)
  items? : σ → Option (List σ)
  /-- The fields of a record of a type, given the names of all its fields. -/
  record? : String → List String → σ → Option (Fields σ)
  /-- The only part of a value of a type. -/
  wrapped? : String → σ → Option σ
  /-- The name of a case without parts. -/
  word? : σ → Option String
  /-- The part of the case of a name. -/
  case? : String → σ → Option σ
  /-- The fields of the case of a name, given the names of all its fields. -/
  recordCase? : String → List String → σ → Option (Fields σ)
  /-- A record one of whose fields, the first one where fields have no names, says which further
  fields there are. Given is the name of that field, and for each of its values the names of the
  further ones. -/
  tagged? : String → (String → Option (List String)) → σ → Option (String × Fields σ)

end RoutePolicy
