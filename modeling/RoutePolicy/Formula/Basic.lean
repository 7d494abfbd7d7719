import RoutePolicy.Net.Basic

set_option autoImplicit false

/-! # Formulas on places and transitions

A formula is evaluated at nodes of one kind, which is part of its type: `Formula .place` at places
and `Formula .transition` at transitions. The modal operators step to the neighbours of a node,
which are of the other kind; the path operators look at the nodes of the formula's own kind along
paths. -/

namespace RoutePolicy

/-- What a node of the kind holds. -/
abbrev Kind.Content : Kind → Type
  | .place => Place
  | .transition => Transition

/-- A test on single nodes, with the name it has in formulas, the fact that it states of a node
where it holds, and the fact that it states where it does not. -/
structure Leaf (k : Kind) where
  name : String
  message : String
  negation : String
  test : k.Content → Bool

namespace Leaf

/-- A test whose second fact is the negation of the first. -/
def ofTest {k : Kind} (name message : String) (test : k.Content → Bool) : Leaf k :=
  ⟨name, message, "not: " ++ message, test⟩

/-- The transition reads the resource. -/
def reads (resource : String) : Leaf .transition :=
  ⟨"reads:" ++ resource, "resource " ++ resource ++ " is read",
    "resource " ++ resource ++ " is not read", fun t => t.hasContext (·.reads resource)⟩

/-- The transition writes the resource. -/
def writes (resource : String) : Leaf .transition :=
  ⟨"writes:" ++ resource, "resource " ++ resource ++ " is written",
    "resource " ++ resource ++ " is not written", fun t => t.hasContext (·.writes resource)⟩

/-- The transition erases the resource. -/
def erases (resource : String) : Leaf .transition :=
  ⟨"erases:" ++ resource, "resource " ++ resource ++ " is erased",
    "resource " ++ resource ++ " is not erased", fun t => t.hasContext (·.erases resource)⟩

/-- The transition carries the tag. -/
def tagged (tag : String) : Leaf .transition :=
  ⟨"tag:" ++ tag, "transition carries tag " ++ tag, "tag " ++ tag ++ " is missing",
    fun t => t.hasContext (·.hasTag tag)⟩

/-- The place holds a marker. -/
def marked : Leaf .place :=
  ⟨"marked", "place holds a marker", "place holds no marker", fun p => decide (0 < p.markers)⟩

/-- The place has the identifier. -/
def placeId (id : String) : Leaf .place :=
  .ofTest ("place_id:" ++ id) ("place is " ++ id) fun p => p.id == id

/-- Leaves are told apart by their texts. -/
def agrees {k : Kind} (p q : Leaf k) : Bool :=
  p.name = q.name && p.message = q.message && p.negation = q.negation

end Leaf

/-- A formula for nodes of a kind. -/
inductive Formula : Kind → Type where
  | top {k : Kind} : Formula k
  | bottom {k : Kind} : Formula k
  | leaf {k : Kind} (p : Leaf k) : Formula k
  | and {k : Kind} (f g : Formula k) : Formula k
  | or {k : Kind} (f g : Formula k) : Formula k
  | not {k : Kind} (f : Formula k) : Formula k
  /-- Some successor satisfies the operand. -/
  | modal {k : Kind} (f : Formula k.other) : Formula k
  /-- Some successor satisfies the operand. -/
  | existNext {k : Kind} (f : Formula k.other) : Formula k
  /-- Every successor satisfies the operand. -/
  | forallNext {k : Kind} (f : Formula k.other) : Formula k
  /-- Some successor satisfies `between` and leads to a node that satisfies `next`. -/
  | existModal {k : Kind} (next : Formula k) (between : Formula k.other) : Formula k
  /-- Every successor satisfies `between` and leads to nodes that all satisfy `next`. -/
  | forallModal {k : Kind} (next : Formula k) (between : Formula k.other) : Formula k
  /-- On some path `reach` holds at a node, and `hold` at all nodes before it. -/
  | existUntil {k : Kind} (hold reach : Formula k) : Formula k
  /-- On every path `reach` holds at a node, and `hold` at all nodes before it. -/
  | forallUntil {k : Kind} (hold reach : Formula k) : Formula k
  /-- On every path the operand holds at some node. -/
  | ev {k : Kind} (f : Formula k) : Formula k
  /-- On some path the operand holds at some node. -/
  | pos {k : Kind} (f : Formula k) : Formula k
  /-- On every path the operand holds at all nodes. -/
  | inv {k : Kind} (f : Formula k) : Formula k

abbrev StateFormula := Formula .place

abbrev TransitionFormula := Formula .transition

namespace Formula

/-- The word in front of the name of a leaf. -/
def leafWord : Kind → String
  | .place => "NF"
  | .transition => "AF"

/-- The canonical text: each operator with its operands between parentheses. -/
def text : {k : Kind} → Formula k → String
  | _, .top => "TT"
  | _, .bottom => "FF"
  | k, .leaf p => "(" ++ leafWord k ++ " " ++ p.name ++ ")"
  | _, .and f g => "(AND " ++ f.text ++ " " ++ g.text ++ ")"
  | _, .or f g => "(OR " ++ f.text ++ " " ++ g.text ++ ")"
  | _, .not f => "(NOT " ++ f.text ++ ")"
  | _, .modal f => "(MODAL " ++ f.text ++ ")"
  | _, .existNext f => "(EXIST_NEXT " ++ f.text ++ ")"
  | _, .forallNext f => "(FORALL_NEXT " ++ f.text ++ ")"
  | _, .existModal next between => "(EXIST_MODAL " ++ next.text ++ " " ++ between.text ++ ")"
  | _, .forallModal next between => "(FORALL_MODAL " ++ next.text ++ " " ++ between.text ++ ")"
  | _, .existUntil hold reach => "(EXIST_UNTIL " ++ hold.text ++ " " ++ reach.text ++ ")"
  | _, .forallUntil hold reach => "(FORALL_UNTIL " ++ hold.text ++ " " ++ reach.text ++ ")"
  | _, .ev f => "(EV " ++ f.text ++ ")"
  | _, .pos f => "(POS " ++ f.text ++ ")"
  | _, .inv f => "(INV " ++ f.text ++ ")"

/-- The messages of the leaves, from left to right. -/
def messages : {k : Kind} → Formula k → List String
  | _, .top | _, .bottom => []
  | _, .leaf p => [p.message]
  | _, .not f | _, .ev f | _, .pos f | _, .inv f => f.messages
  | _, .modal f | _, .existNext f | _, .forallNext f => f.messages
  | _, .and f g | _, .or f g | _, .existUntil f g | _, .forallUntil f g => f.messages ++ g.messages
  | _, .existModal next between | _, .forallModal next between => next.messages ++ between.messages

/-- The same operators at all positions, and leaves that agree. -/
def agrees : {k : Kind} → Formula k → Formula k → Bool
  | _, .top, .top => true
  | _, .bottom, .bottom => true
  | _, .leaf p, .leaf q => p.agrees q
  | _, .and f g, .and f' g' => f.agrees f' && g.agrees g'
  | _, .or f g, .or f' g' => f.agrees f' && g.agrees g'
  | _, .not f, .not f' => f.agrees f'
  | _, .modal f, .modal f' => f.agrees f'
  | _, .existNext f, .existNext f' => f.agrees f'
  | _, .forallNext f, .forallNext f' => f.agrees f'
  | _, .existModal f g, .existModal f' g' => f.agrees f' && g.agrees g'
  | _, .forallModal f g, .forallModal f' g' => f.agrees f' && g.agrees g'
  | _, .existUntil f g, .existUntil f' g' => f.agrees f' && g.agrees g'
  | _, .forallUntil f g, .forallUntil f' g' => f.agrees f' && g.agrees g'
  | _, .ev f, .ev f' => f.agrees f'
  | _, .pos f, .pos f' => f.agrees f'
  | _, .inv f, .inv f' => f.agrees f'
  | _, _, _ => false

end Formula

end RoutePolicy
