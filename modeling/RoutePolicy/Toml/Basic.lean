set_option autoImplicit false

/-! # TOML tables

A table may come into being in several ways, and how it did decides in which way entries may still
be put into it. Rows of tables under one key are told apart from lists, which are closed. -/

namespace RoutePolicy

/-- How a table came into being. -/
inductive TableOrigin where
  /-- Written between braces; it is closed. -/
  | inlined
  /-- By a heading of its own. -/
  | heading
  /-- On the way to the table of a heading. -/
  | passed
  /-- On the way to the value of a key with dots. -/
  | dotted
  deriving DecidableEq, Repr

/-- A value of the notation. -/
inductive Toml where
  | text (s : String)
  | integer (n : Int)
  | flag (b : Bool)
  /-- A decimal number or a date, of which no data are read. -/
  | other
  | list (items : List Toml)
  | table (origin : TableOrigin) (entries : List (String × Toml))
  /-- The tables of one key, each with a heading of its own. -/
  | rows (tables : List (List (String × Toml)))

namespace Toml

instance : Inhabited Toml := ⟨.other⟩

/-- Keys with their values, no key twice. -/
abbrev Entries := List (String × Toml)

/-- The entries with the value of a key replaced, or a new entry at the end. -/
def setEntry (entries : Entries) (key : String) (value : Toml) : Entries :=
  if (entries.lookup key).isSome then
    entries.map fun (k, v) => (k, if k = key then value else v)
  else entries ++ [(key, value)]

/-- The entries of a table with those at the end of a path below it changed by `f`, which is told
how the table at the end of the path came into being. Missing tables on the path are made with the
origin `made`. -/
def change (made : TableOrigin) (f : TableOrigin → Entries → Option Entries) :
    List String → TableOrigin → Entries → Option Entries
  | [], origin, entries => f origin entries
  | key :: path, _, entries =>
    match entries.lookup key with
    | none => do
      let inner ← change made f path made []
      return setEntry entries key (.table made inner)
    | some (.table origin inner) =>
      if origin = .inlined ∨ (made = .dotted ∧ origin = .heading) then none
      else do
        let inner ← change made f path origin inner
        return setEntry entries key (.table origin inner)
    | some (.rows tables) => do
      let inner ← change made f path .heading (tables.getLastD [])
      return setEntry entries key (.rows (tables.dropLast ++ [inner]))
    | some _ => none

/-- The entries of a table with one more, under a key with perhaps more than one part. Only tables
made for such keys may be extended, and no value may be there already. -/
def insert (entries : Entries) (path : List String) (key : String) (value : Toml) :
    Option Entries :=
  change .dotted
    (fun origin entries =>
      if decide (origin = .dotted) = path.isEmpty || (entries.lookup key).isSome then none
      else some (entries ++ [(key, value)]))
    path .heading entries

/-- The entries of the whole document after the heading of a table. -/
def openTable (root : Entries) (path : List String) (key : String) : Option Entries :=
  change .passed
    (fun _ entries =>
      match entries.lookup key with
      | none => some (entries ++ [(key, .table .heading [])])
      | some (.table .passed inner) => some (setEntry entries key (.table .heading inner))
      | some _ => none)
    path .heading root

/-- The entries of the whole document after the heading of one more row. -/
def openRow (root : Entries) (path : List String) (key : String) : Option Entries :=
  change .passed
    (fun _ entries =>
      match entries.lookup key with
      | none => some (entries ++ [(key, .rows [[]])])
      | some (.rows tables) => some (setEntry entries key (.rows (tables ++ [[]])))
      | some _ => none)
    path .heading root

/-- The entries of the whole document with one more in the table of the last heading. -/
def insertUnder (root : Entries) (heading : List String) (path : List String) (key : String)
    (value : Toml) : Option Entries :=
  change .passed (fun _ entries => insert entries path key value) heading .heading root

end Toml

end RoutePolicy
