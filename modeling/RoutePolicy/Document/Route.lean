import RoutePolicy.Document.Net
import RoutePolicy.Route.Basic

set_option autoImplicit false

/-! # Documents of routes -/

namespace RoutePolicy

instance : Documented Endpoint where
  document e :=
    .record [("id", document e.id), ("contextTags", document e.tags), ("kind", document e.role)]
  read? v := do
    let fields ← Source.record? "Endpoint" ["id", "contextTags", "kind"] v
    return { id := ← fields.required "id" read?
             tags := ← fields.withDefault "contextTags" [] read?
             role := ← fields.withDefault "kind" .app read? }

namespace Route

mutual

/-- The document of a route. -/
def document : Route → Document
  | .node stage branches =>
    .record [("id", RoutePolicy.document stage.id),
      ("startEndpoints", RoutePolicy.document stage.starts),
      ("endEndpoints", RoutePolicy.document stage.ends),
      ("outputResources", RoutePolicy.document stage.outputs),
      ("subRoutes", .list (documents branches))]

def documents : List Route → List Document
  | [] => []
  | r :: rs => document r :: documents rs

end

/-- The stage that a route starts with. -/
def readStage? {σ : Type} [Source σ] (fields : Fields σ) : Option Stage := do
  return { id := ← fields.required "id" read?
           starts := ← fields.withDefault "startEndpoints" [] read?
           ends := ← fields.withDefault "endEndpoints" [] read?
           outputs := ← fields.withDefault "outputResources" [] read? }

/-- The fields of a route. -/
def fieldNames : List String :=
  ["id", "startEndpoints", "endEndpoints", "outputResources", "subRoutes"]

/-- A route of at most so many stages from the root down. -/
def readWithin? {σ : Type} [Source σ] : Nat → σ → Option Route
  | 0, _ => none
  | height + 1, v => do
    let fields ← Source.record? "Route" fieldNames v
    let branches ← fields.withDefault "subRoutes" [] fun v => do
      (← Source.items? v).mapM (readWithin? height)
    return .node (← readStage? fields) branches

/-- No notation nests values so deeply that a route could be higher. -/
def maxHeight : Nat := 128

instance : Documented Route where
  document := document
  read? := readWithin? maxHeight

end Route

end RoutePolicy
