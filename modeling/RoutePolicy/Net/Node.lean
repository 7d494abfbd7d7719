set_option autoImplicit false

/-! # Nodes and arcs of a net, by number

A net has two kinds of nodes. A node is named by its kind and its number within the kind, and is
written `p3` (a place) or `t3` (a transition); an arc is written `a3`. A formula, a handle or a
path position of one kind can thus be treated once for both kinds.

A number is stored in 32 bits, so that a position beyond them is wrapped (`wrapIndex`). Handles are
numbered by the positions themselves: the rows of places, transitions and arcs are taken to stay
below `2 ^ 32` entries, where the two are the same (`Arena.wrapIndex_next`). -/

namespace RoutePolicy

/-- The two kinds of nodes. -/
inductive Kind where
  | place
  | transition
  deriving DecidableEq, Hashable, Repr

/-- The kind that arcs of this kind lead to. -/
def Kind.other : Kind → Kind
  | .place => .transition
  | .transition => .place

@[simp] theorem Kind.other_other (k : Kind) : k.other.other = k := by cases k <;> rfl

/-- The letter that nodes of the kind are written with. -/
def Kind.letter : Kind → String
  | .place => "p"
  | .transition => "t"

/-- The number of a node of a known kind. -/
structure Handle (k : Kind) where
  index : Nat
  deriving DecidableEq, Hashable, Repr

abbrev PlaceId := Handle .place

abbrev TransitionId := Handle .transition

/-- The number of an arc. -/
structure ArcId where
  index : Nat
  deriving DecidableEq, Hashable, Repr

/-- A node of either kind. -/
structure Node where
  kind : Kind
  index : Nat
  deriving DecidableEq, Hashable, Repr

/-- The node with this handle. -/
def Handle.node {k : Kind} (h : Handle k) : Node := ⟨k, h.index⟩

instance {k : Kind} : CoeOut (Handle k) Node := ⟨Handle.node⟩

namespace Node

/-- The handle of the node, if it is of kind `k`. -/
def handle? (k : Kind) (n : Node) : Option (Handle k) :=
  if n.kind = k then some ⟨n.index⟩ else none

/-- The node as a place. -/
def place? (n : Node) : Option PlaceId := n.handle? .place

/-- The node as a transition. -/
def transition? (n : Node) : Option TransitionId := n.handle? .transition

/-- Both nodes are places or both are transitions. -/
def sameKind (m n : Node) : Bool := m.kind = n.kind

/-- An arc may join the nodes: they are of different kinds. -/
def isComplementOf (m n : Node) : Bool := !m.sameKind n

/-- Places come before transitions; nodes of one kind are ordered by number. -/
def order (m n : Node) : Ordering :=
  match m.kind, n.kind with
  | .place, .transition => .lt
  | .transition, .place => .gt
  | _, _ => compare m.index n.index

/-- The written form, such as `p3`. -/
def label (n : Node) : String := n.kind.letter ++ toString n.index

theorem handle?_eq_some_iff {k : Kind} {n : Node} {h : Handle k} :
    n.handle? k = some h ↔ n = h.node := by
  obtain ⟨k', i⟩ := n
  obtain ⟨j⟩ := h
  unfold handle? Handle.node
  split
  · rename_i hk
    cases hk
    simp
  · rename_i hk
    simp [hk]

theorem mk_eq_node_iff {k : Kind} {i : Nat} {h : Handle k} :
    (⟨k, i⟩ : Node) = h.node ↔ (⟨i⟩ : Handle k) = h := by
  rw [← handle?_eq_some_iff]
  simp [handle?]

@[simp] theorem handle?_node {k : Kind} (h : Handle k) : h.node.handle? k = some h :=
  handle?_eq_some_iff.mpr rfl

end Node

theorem Handle.node_inj {k : Kind} {h h' : Handle k} : h.node = h'.node ↔ h = h' := by
  rw [← Node.handle?_eq_some_iff, Node.handle?_node, Option.some_inj]

/-- The written form of the node with this handle. -/
def Handle.label {k : Kind} (h : Handle k) : String := h.node.label

/-- The written form, such as `a3`. -/
def ArcId.label (a : ArcId) : String := "a" ++ toString a.index

/-! ## Numbers of 32 bits

A number has 32 bits, in a handle and in a text. -/

/-- The number of numbers that a handle can have, `2 ^ 32`. -/
def handleRange : Nat := 4294967296

/-- A position as the number of a handle: the remainder modulo the range. -/
def wrapIndex (n : Nat) : Nat := n % handleRange

end RoutePolicy
