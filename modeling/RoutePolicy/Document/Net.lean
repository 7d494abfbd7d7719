import RoutePolicy.Document.Documented
import RoutePolicy.Net.Firing

set_option autoImplicit false

/-! # Documents of nets

A net is written with the arc lists of its nodes, but without its tables of identifiers; they are
made anew where a net is read. Nothing checks that the lists agree with the arcs. -/

namespace RoutePolicy

/-- The name of the type of the numbers of a kind of node. -/
def Kind.numberType : Kind → String
  | .place => "PlaceId"
  | .transition => "TransitionId"

instance {k : Kind} : Documented (Handle k) where
  document := Index.document
  read? := Index.read? k.numberType

instance : Documented ArcId where
  document := Index.document
  read? := Index.read? "ArcId"

/-- The name of the case of nodes of a kind. -/
def Kind.caseName : Kind → String
  | .place => "Place"
  | .transition => "Transition"

instance : Documented Node where
  document n := .case n.kind.caseName (Index.document (⟨n.index⟩ : Handle n.kind))
  read? v :=
    let ofKind (k : Kind) : Option Node := do
      let h : Handle k ← read? (← Source.case? k.caseName v)
      return h.node
    ofKind .place <|> ofKind .transition

instance : Documented Arc where
  document a := .record [("source", document a.source), ("target", document a.target)]
  read? v := do
    let fields ← Source.record? "Arc" ["source", "target"] v
    return { source := ← fields.required "source" read?
             target := ← fields.required "target" read? }

instance : Documented PlaceKind where
  document
    | .plain => .word "Plain"
    | .inner origin => .recordCase "Inner" [("origin", document origin)]
  read? v :=
    readWord? [("Plain", .plain)] v <|> do
      let fields ← Source.recordCase? "Inner" ["origin"] v
      return .inner (← fields.required "origin" read?)

instance : Documented Place where
  document p :=
    .record [("id", document p.id), ("markers", document p.markers), ("kind", document p.kind),
      ("incoming", document p.incoming), ("outgoing", document p.outgoing)]
  read? v := do
    let fields ← Source.record? "Place" ["id", "markers", "kind", "incoming", "outgoing"] v
    return { id := ← fields.required "id" read?
             markers := ← fields.required "markers" read?
             kind := ← fields.required "kind" read?
             incoming := ← fields.required "incoming" read?
             outgoing := ← fields.required "outgoing" read? }

/-- The word for a role. -/
def Role.word : Role → String
  | .app => "APP"
  | .control => "CONTROL"

instance : Documented Role where
  document r := .word r.word
  read? := readWord? [("APP", .app), ("CONTROL", .control)]

instance : Documented Context where
  document c :=
    .record [("tags", document c.tags), ("read", document c.read), ("write", document c.write),
      ("erase", document c.erase), ("kind", document c.role)]
  read? v := do
    let fields ← Source.record? "Context" ["tags", "read", "write", "erase", "kind"] v
    return { tags := ← fields.required "tags" read?
             read := ← fields.required "read" read?
             write := ← fields.required "write" read?
             erase := ← fields.required "erase" read?
             role := ← fields.required "kind" read? }

instance : Documented Transition where
  document t :=
    .record [("id", document t.id), ("context", document t.context),
      ("incoming", document t.incoming), ("outgoing", document t.outgoing)]
  read? v := do
    let fields ← Source.record? "Transition" ["id", "context", "incoming", "outgoing"] v
    return { id := ← fields.required "id" read?
             context := ← fields.optional "context" read?
             incoming := ← fields.required "incoming" read?
             outgoing := ← fields.required "outgoing" read? }

instance : Documented Net where
  document net :=
    .record [("id", document net.id), ("places", document net.places),
      ("transitions", document net.transitions), ("arcs", document net.arcs)]
  read? v := do
    let fields ← Source.record? "NetDocument" ["id", "places", "transitions", "arcs"] v
    return .ofParts (← fields.required "id" read?) (← fields.required "places" read?)
      (← fields.required "transitions" read?) (← fields.required "arcs" read?)

/-- A marking has a type of its own. -/
instance : Documented Marking where
  document m := .wrapped (document m.toList)
  read? v := do return .ofList (← read? (← Source.wrapped? "Marking" v))

end RoutePolicy
