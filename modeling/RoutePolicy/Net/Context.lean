import RoutePolicy.SortedSet

set_option autoImplicit false

/-! # What a transition does with data

The context of a transition: its tags, the resources it reads, writes and erases, and its role. -/

namespace RoutePolicy

/-- The part a transition plays in a route. -/
inductive Role where
  /-- A processing step: it is unfolded, and what it erases is inferred. -/
  | app
  /-- A structural step: it hands on what it reads. -/
  | control
  deriving DecidableEq, Repr

/-- The role of a transition without a context. -/
instance : Inhabited Role := ⟨.app⟩

/-- The name a role is shown with. -/
def Role.title : Role → String
  | .app => "App"
  | .control => "Control"

/-- The data that a transition touches, and its tags. -/
structure Context where
  tags : NameSet
  read : NameSet
  write : NameSet
  erase : NameSet
  role : Role
  deriving DecidableEq

namespace Context

/-- The context of a transition that touches nothing. -/
def ofRole (role : Role) : Context := ⟨∅, ∅, ∅, ∅, role⟩

instance : Inhabited Context := ⟨ofRole .app⟩

/-- The resource is in the read set. -/
def reads (c : Context) (resource : String) : Bool := decide (resource ∈ c.read)

/-- The resource is in the write set. -/
def writes (c : Context) (resource : String) : Bool := decide (resource ∈ c.write)

/-- The resource is in the erase set. -/
def erases (c : Context) (resource : String) : Bool := decide (resource ∈ c.erase)

/-- The context carries the tag. -/
def hasTag (c : Context) (tag : String) : Bool := decide (tag ∈ c.tags)

/-- The text of a context: its role, then the four sets between brackets. -/
def text (c : Context) : String :=
  let shown (s : NameSet) := "[" ++ String.intercalate "," s.toList ++ "]"
  c.role.title ++ " tags=" ++ shown c.tags ++ " read=" ++ shown c.read ++ " write=" ++ shown c.write
    ++ " erase=" ++ shown c.erase

end Context

end RoutePolicy
