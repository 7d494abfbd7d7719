import RoutePolicy.Route.Basic
import RoutePolicy.Route.Lineage

set_option autoImplicit false

/-! # The net of a route

Each stage becomes a place and each endpoint identifier a transition. A starting endpoint leads
to the place of its stage and writes the outputs of the stage; an ending endpoint is led to from
it and reads them. A source place with one marker leads to every transition without input, and
every transition without output leads to a sink place. Then the lineage of the resources is
passed on from the source. -/

namespace RoutePolicy

/-- The net of a route, and the two places that were added to it. -/
structure RouteNet where
  net : Net
  source : PlaceId
  sink : PlaceId

namespace Net

/-- The net with a transition for the endpoint that carries its tags, and its number. -/
def addEndpoint (net : Net) (e : Endpoint) : Net × TransitionId :=
  let (net, t) := match net.transitionById e.id with
    | some t => (net, t)
    | none => (net.addTransition (.bare e.id (some (.ofRole e.role))), net.transitions.next)
  let tag (c : Context) : Context := { c with tags := c.tags.insertMany e.tags }
  (net.modifyContext t fun c => some (tag (c.getD default)), t)

/-- The net with an endpoint at which the stage of `place` starts. -/
def addStart (place : PlaceId) (outputs : List String) (net : Net) (e : Endpoint) : Net :=
  let (net, t) := net.addEndpoint e
  let write (c : Context) : Context := { c with write := c.write.insertMany outputs }
  (net.modifyContext t fun c => some (write (c.getD default))).joinOnce ⟨t.node, place.node⟩

/-- The net with an endpoint at which the stage of `place` ends. -/
def addEnd (place : PlaceId) (outputs : List String) (net : Net) (e : Endpoint) : Net :=
  let (net, t) := net.addEndpoint e
  let read (c : Context) : Context := { c with read := c.read.insertMany outputs }
  (net.modifyContext t fun c => some (read (c.getD default))).joinOnce ⟨place.node, t.node⟩

/-- The net with the place of a stage and its endpoints. -/
def addStage (net : Net) (s : Stage) : Net :=
  let place := net.places.next
  let net := net.addPlace (.plain s.id 0)
  let net := s.starts.foldl (addStart place s.outputs) net
  s.ends.foldl (addEnd place s.outputs) net

/-- The net with a transition joined to the source if nothing leads to it, and to the sink if it
leads nowhere. -/
def closeTransition (source sink : PlaceId) (net : Net) (t : TransitionId) : Net :=
  let net := if net.incoming? t.node = some [] then net.join ⟨source.node, t.node⟩ else net
  if net.outgoing? t.node = some [] then net.join ⟨t.node, sink.node⟩ else net

end Net

/-- The net of stages, before the source and the sink are added. -/
def Net.ofStages (id : String) (stages : List Stage) : Net :=
  stages.foldl Net.addStage (.empty id)

/-- The net of stages with its source and its sink. -/
def RouteNet.ofStages (id : String) (stages : List Stage) : RouteNet :=
  let net := Net.ofStages id stages
  let source := net.places.next
  let net := net.addPlace (.plain (id ++ "#source") 1)
  let sink := net.places.next
  let net := net.addPlace (.plain (id ++ "#sink") 0)
  let net := net.transitions.indices.foldl (Net.closeTransition source sink) net
  ⟨net.propagate source, source, sink⟩

/-- The net of several routes, under an identifier of its own. -/
def RouteNet.ofRoutes (id : String) (routes : List Route) : RouteNet :=
  .ofStages id (Route.stages routes)

/-- The net of a route. -/
def RouteNet.ofRoute (r : Route) : RouteNet := .ofRoutes r.id [r]

end RoutePolicy
