import RoutePolicy.Net.Context

set_option autoImplicit false

/-! # Routes

A route describes how data flow through an application: a tree of stages. Each stage has
endpoints at which it starts and endpoints at which it ends, and the resources that it puts out. -/

namespace RoutePolicy

/-- A service at one end of a stage. -/
structure Endpoint where
  id : String
  tags : List String
  role : Role
  deriving DecidableEq, Inhabited

/-- A processing endpoint without tags. -/
def Endpoint.app (id : String) : Endpoint := ⟨id, [], .app⟩

/-- A structural endpoint without tags. -/
def Endpoint.control (id : String) : Endpoint := ⟨id, [], .control⟩

/-- One stage of a route without what lies below it. -/
structure Stage where
  id : String
  starts : List Endpoint
  ends : List Endpoint
  outputs : List String
  deriving DecidableEq, Inhabited

/-- A stage and the routes below it. -/
inductive Route where
  | node (stage : Stage) (branches : List Route)

instance : Inhabited Route := ⟨.node default []⟩

namespace Route

/-- The stage at the root. -/
def stage : Route → Stage
  | .node stage _ => stage

/-- The routes below the root. -/
def branches : Route → List Route
  | .node _ branches => branches

/-- The identifier of the root. -/
def id (r : Route) : String := r.stage.id

mutual

/-- The number of stages in the tree. -/
def stageCount : Route → Nat
  | .node _ branches => 1 + stageCounts branches

def stageCounts : List Route → Nat
  | [] => 0
  | r :: rs => stageCount r + stageCounts rs

end

mutual

/-- The stages in the order of a walk through the tree that takes a stage before what lies below
it, and skips a stage whose identifier is among the `seen` ones together with what lies below it.
The identifiers seen in the end come second. -/
def newStages (seen : List String) : Route → List Stage × List String
  | .node stage branches =>
    if stage.id ∈ seen then ([], seen)
    else
      let (stages, seen) := newStagesAll (stage.id :: seen) branches
      (stage :: stages, seen)

def newStagesAll (seen : List String) : List Route → List Stage × List String
  | [] => ([], seen)
  | r :: rs =>
    let (stages, seen) := newStages seen r
    let (later, seen) := newStagesAll seen rs
    (stages ++ later, seen)

end

/-- The first stages of each identifier in the trees, one tree after the other. -/
def stages (routes : List Route) : List Stage := (newStagesAll [] routes).1

end Route

end RoutePolicy
