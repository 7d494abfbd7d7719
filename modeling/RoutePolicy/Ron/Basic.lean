import RoutePolicy.Number.Binary64

set_option autoImplicit false

/-! # Object notation

RON writes records and cases with parentheses, options as `None` and `Some(…)`, and lets names
stand in front of records. Unlike in JSON a reader has to know what it expects, so a value keeps
all that a reader may ask of it: the type after a number, the name before a record. -/

namespace RoutePolicy

namespace Ron

/-! ## Types of whole numbers -/

/-- A type of whole numbers: whether it has negative ones, and how many bits it has. -/
structure WholeType where
  signed : Bool
  bits : Nat
  deriving DecidableEq, Repr

namespace WholeType

/-- The type that a name after a number stands for. -/
def ofName? : String → Option WholeType
  | "i8" => some ⟨true, 8⟩
  | "i16" => some ⟨true, 16⟩
  | "i32" => some ⟨true, 32⟩
  | "i64" => some ⟨true, 64⟩
  | "u8" => some ⟨false, 8⟩
  | "u16" => some ⟨false, 16⟩
  | "u32" => some ⟨false, 32⟩
  | "u64" => some ⟨false, 64⟩
  | _ => none

/-- The type has the number. -/
def contains (t : WholeType) (w : Whole) : Bool :=
  if !t.signed then w.isNonnegative && w.magnitude < Nat.pow 2 t.bits
  else if w.negative then w.magnitude ≤ Nat.pow 2 (t.bits - 1)
  else w.magnitude < Nat.pow 2 (t.bits - 1)

end WholeType

/-! ## Names -/

/-- A name. A raw one is marked as a name, and never has a meaning of its own. -/
structure Name where
  text : String
  raw : Bool
  deriving DecidableEq, Repr

/-- The words that stand for a truth value, an option or a number. -/
def reservedWords : List String :=
  ["true", "false", "Some", "None", "inf", "inff32", "inff64", "NaN", "NaNf32", "NaNf64"]

namespace Name

/-- The name is a word with a meaning of its own. -/
def isReserved (n : Name) : Bool := !n.raw && n.text ∈ reservedWords

/-- The name is the given word with its own meaning. -/
def isWord (n : Name) (word : String) : Bool := !n.raw && n.text = word

end Name

/-- How many values parentheses hold, as far as looking ahead shows. -/
inductive Outlook where
  | one
  | several
  | unclear
  deriving DecidableEq, Repr

end Ron

/-! ## Values -/

/-- A value of the notation. -/
inductive Ron where
  /-- A whole number, whether it is written in base ten, and the type whose name follows it. -/
  | whole (value : Whole) (inBaseTen : Bool) (type : Option Ron.WholeType)
  /-- A number that is not written as a whole one. -/
  | real
  | text (s : String)
  | bytes (b : List UInt8)
  | char (c : Char)
  | word (name : Ron.Name)
  /-- The word `Some` in front of a value without parentheses. -/
  | bareSome (value : Ron)
  /-- The word `Some` in front of values in parentheses. -/
  | someOf (outlook : Ron.Outlook) (items : List Ron)
  /-- A pair of parentheses with nothing in or before it. -/
  | unit
  /-- Values in parentheses, perhaps after a name other than the word `Some`. -/
  | group (name : Option Ron.Name) (items : List Ron)
  /-- Fields in parentheses, at least one, perhaps after a name. -/
  | record (name : Option Ron.Name) (fields : List (String × Ron))
  | list (items : List Ron)
  | map (entries : List (Ron × Ron))

namespace Ron

instance : Inhabited Ron := ⟨.unit⟩

/-! ## Extensions -/

/-- What a text may enable at its start. -/
structure Extensions where
  /-- A value stands for `Some` of it. -/
  implicitSome : Bool
  /-- The only part of a value needs no parentheses. -/
  unwrapNewtypes : Bool
  /-- The parentheses of an option or a case are those of the value in it. -/
  unwrapVariantNewtypes : Bool
  /-- Records and values with one part have their names in front. -/
  explicitStructNames : Bool
  deriving DecidableEq, Repr

/-- Nothing enabled. -/
def Extensions.none : Extensions := ⟨false, false, false, false⟩

/-- The extensions with the one of a name enabled, if there is one of the name. -/
def Extensions.enable? (e : Extensions) : String → Option Extensions
  | "implicit_some" => some { e with implicitSome := true }
  | "unwrap_newtypes" => some { e with unwrapNewtypes := true }
  | "unwrap_variant_newtypes" => some { e with unwrapVariantNewtypes := true }
  | "explicit_struct_names" => some { e with explicitStructNames := true }
  | _ => Option.none

end Ron

end RoutePolicy
