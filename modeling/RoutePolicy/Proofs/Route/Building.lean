import RoutePolicy.Proofs.Route.RouteNet

set_option autoImplicit false

/-! # The construction of a route's net does not fail

`RouteNet.build` walks through the tree and adds the stages on the way, and each arc is checked when
it is added. All arcs are accepted, since the places and transitions that they join are there by
then; so the construction succeeds for every route, and gives the net of the stages that the walk
meets (`RouteNet.build_eq_ok`). -/

namespace RoutePolicy

namespace Net

/-- The net with the transition of an endpoint, its context changed by `f`, and an arc at it. -/
def link (net : Net) (e : Endpoint) (f : Context → Context) (arc : TransitionId → Arc) :
    Except Failure Net :=
  let (net, t) := net.addEndpoint e
  ((net.modifyContext t fun c => some (f (c.getD default))).addArcOnce (arc t)).map Prod.fst

/-- The net with the place of a stage and its endpoints. -/
def buildStage (net : Net) (s : Stage) : Except Failure Net := do
  let place := net.places.next
  let write (c : Context) : Context := { c with write := c.write.insertMany s.outputs }
  let read (c : Context) : Context := { c with read := c.read.insertMany s.outputs }
  let net ← s.starts.foldlM (fun net e => net.link e write fun t => ⟨t.node, place.node⟩)
    (net.addPlace (.plain s.id 0))
  s.ends.foldlM (fun net e => net.link e read fun t => ⟨place.node, t.node⟩) net

/-- The net with one more arc where there is cause for it. -/
def addArcIf (net : Net) (cause : Prop) [Decidable cause] (arc : Arc) : Except Failure Net :=
  if cause then net.addArc arc else .ok net

/-- The net with a transition joined to the source if nothing leads to it, and to the sink if it
leads nowhere. -/
def buildEnds (source sink : PlaceId) (net : Net) (t : TransitionId) : Except Failure Net := do
  let net ← net.addArcIf (net.incoming? t.node = some []) ⟨source.node, t.node⟩
  net.addArcIf (net.outgoing? t.node = some []) ⟨t.node, sink.node⟩

end Net

/-- A net on the way, and the identifiers of the stages in it. -/
structure Builder where
  net : Net
  seen : List String

namespace Builder

mutual

/-- The stages of the tree are added, without those below an identifier that was seen. -/
def visit (b : Builder) : Route → Except Failure Builder
  | .node stage branches =>
    if stage.id ∈ b.seen then .ok b
    else do
      let net ← b.net.buildStage stage
      visitAll ⟨net, stage.id :: b.seen⟩ branches

def visitAll (b : Builder) : List Route → Except Failure Builder
  | [] => .ok b
  | r :: rs => do
    let b ← b.visit r
    b.visitAll rs

end

/-- The source and the sink are added, and the lineage is passed on. -/
def finish (b : Builder) (id : String) : Except Failure RouteNet := do
  let source := b.net.places.next
  let net := b.net.addPlace (.plain (id ++ "#source") 1)
  let sink := net.places.next
  let net := net.addPlace (.plain (id ++ "#sink") 0)
  let net ← net.transitions.indices.foldlM (Net.buildEnds source sink) net
  return ⟨net.propagate source, source, sink⟩

end Builder

/-- The net of a route, built on one walk through the tree. -/
def RouteNet.build (route : Route) : Except Failure RouteNet := do
  let b ← Builder.visit ⟨.empty route.id, []⟩ route
  b.finish route.id

/-! ## Every arc is accepted -/

namespace Net

section

variable {net : Net} {place source sink : PlaceId} {t : TransitionId}

/-- The arc of an endpoint is accepted: its transition is there when the arc is added. -/
theorem OfRoute.link_eq_ok (h : net.OfRoute none) (hp : net.contains place.node = true)
    (e : Endpoint) (f : Context → Context) {arc : TransitionId → Arc}
    (harc : (arc = fun t => ⟨t.node, place.node⟩) ∨ arc = fun t => ⟨place.node, t.node⟩) :
    net.link e f arc = .ok (((net.addEndpoint e).1.modifyContext (net.addEndpoint e).2
      fun c => some (f (c.getD default))).joinOnce (arc (net.addEndpoint e).2)) := by
  obtain ⟨hnet, hwithin, ht⟩ := h.addEndpoint e
  have hplace := hwithin _ hp
  have hwf := (hnet.modifyContext (net.addEndpoint e).2
    fun c => some (f (c.getD default))).wellFormed
  rcases harc with rfl | rfl
  · exact hwf.addArcOnce_eq_ok (by rwa [contains_modifyContext]) (by rwa [contains_modifyContext])
      (by simp [Handle.node])
  · exact hwf.addArcOnce_eq_ok (by rwa [contains_modifyContext]) (by rwa [contains_modifyContext])
      (by simp [Handle.node])

theorem OfRoute.link_start_eq_ok (h : net.OfRoute none) (hp : net.contains place.node = true)
    (outputs : List String) (e : Endpoint) :
    (net.link e (fun c => { c with write := c.write.insertMany outputs })
      fun t => ⟨t.node, place.node⟩) = .ok (Net.addStart place outputs net e) :=
  h.link_eq_ok hp e _ (Or.inl rfl)

theorem OfRoute.link_end_eq_ok (h : net.OfRoute none) (hp : net.contains place.node = true)
    (outputs : List String) (e : Endpoint) :
    (net.link e (fun c => { c with read := c.read.insertMany outputs })
      fun t => ⟨place.node, t.node⟩) = .ok (Net.addEnd place outputs net e) :=
  h.link_eq_ok hp e _ (Or.inr rfl)

/-- The endpoints at one end of a stage are linked one after the other. -/
theorem OfRoute.foldlM_link_eq_ok {f : Context → Context} {arc : TransitionId → Arc}
    {step : Net → Endpoint → Net}
    (hstep : ∀ {net : Net}, net.OfRoute none → net.contains place.node = true → ∀ e,
      net.link e f arc = .ok (step net e) ∧ (step net e).OfRoute none ∧ net.Within (step net e))
    (h : net.OfRoute none) (hp : net.contains place.node = true) (es : List Endpoint) :
    es.foldlM (fun net e => net.link e f arc) net = .ok (es.foldl step net) := by
  refine foldlM_eq_ok (P := fun net => net.OfRoute none ∧ net.contains place.node = true)
    (fun net hnet e _ => ?_) ⟨h, hp⟩
  obtain ⟨hlink, hroute, hwithin⟩ := hstep hnet.1 hnet.2 e
  exact ⟨hlink, hroute, hwithin _ hnet.2⟩

/-- The arcs of a stage are accepted, since its place is there. -/
theorem OfRoute.buildStage_eq_ok (h : net.OfRoute none) (s : Stage) :
    net.buildStage s = .ok (net.addStage s) := by
  have hp : (net.addPlace (.plain s.id 0)).contains net.places.next.node = true :=
    (contains_addPlace net _ _).mpr (Or.inl rfl)
  have hplace := h.addPlace (by simp) s.id
  obtain ⟨hstarts, hwithin⟩ := OfRoute.foldl_endpoints
    (fun h hp e => h.addStart hp s.outputs e) s.starts hplace hp
  have hfirst := OfRoute.foldlM_link_eq_ok
    (fun h hp e => ⟨h.link_start_eq_ok hp s.outputs e, h.addStart hp s.outputs e⟩) hplace hp
    s.starts
  have hsecond := OfRoute.foldlM_link_eq_ok
    (fun h hp e => ⟨h.link_end_eq_ok hp s.outputs e, h.addEnd hp s.outputs e⟩) hstarts
    (hwithin _ hp) s.ends
  unfold buildStage
  dsimp only
  rw [hfirst, ok_bind, hsecond]
  rfl

theorem addArcIf_eq_ok {arc : Arc} (hs : net.contains arc.source = true)
    (ht : net.contains arc.target = true) (hk : arc.source.kind ≠ arc.target.kind) (cause : Prop)
    [Decidable cause] :
    net.addArcIf cause arc = .ok (if cause then net.join arc else net) := by
  unfold addArcIf
  split
  · exact addArc_eq_ok hs ht hk
  · rfl

/-- The arcs at the ends are accepted, since the source and the sink are there. -/
theorem OfRoute.buildEnds_eq_ok (h : net.OfRoute (some source))
    (hsource : net.contains source.node = true) (hsink : net.contains sink.node = true)
    (ht : net.contains t.node = true) :
    buildEnds source sink net t = .ok (Net.closeTransition source sink net t) := by
  obtain ⟨net', heq, -, hcloses, -⟩ := h.joinSource hsource ht
  rw [buildEnds, addArcIf_eq_ok hsource ht (by simp [Handle.node]), ok_bind, heq,
    addArcIf_eq_ok ((hcloses.nodes _).trans ht) ((hcloses.nodes _).trans hsink)
      (by simp [Handle.node])]
  simp only [Net.closeTransition, heq]

theorem OfRoute.foldlM_buildEnds_eq_ok (h : net.OfRoute (some source))
    (hsource : net.contains source.node = true) (hsink : net.contains sink.node = true) :
    net.transitions.indices.foldlM (buildEnds source sink) net
      = .ok (net.transitions.indices.foldl (Net.closeTransition source sink) net) := by
  refine foldlM_eq_ok (P := fun net' => net'.OfRoute (some source) ∧ net.Closes net')
    (fun net' hnet t ht => ?_) ⟨h, .refl net⟩
  obtain ⟨hroute, hcloses⟩ := hnet
  have hsource' := (hcloses.nodes _).trans hsource
  have hsink' := (hcloses.nodes _).trans hsink
  have ht' := (hcloses.nodes t.node).trans (Arena.mem_indices_iff.mp ht)
  obtain ⟨hroute', hcloses', -⟩ := hroute.closeTransition hsource' hsink' ht'
  exact ⟨hroute.buildEnds_eq_ok hsource' hsink' ht', hroute', hcloses.trans hcloses'⟩

end

end Net

namespace Builder

/-! ## The walk

The recursion of the walk follows the tree, as that of `Route.newStages` does. -/

mutual

theorem visit_eq_ok {net : Net} (h : net.OfRoute none) (seen : List String) : ∀ route : Route,
    visit ⟨net, seen⟩ route
      = .ok ⟨(Route.newStages seen route).1.foldl Net.addStage net,
          (Route.newStages seen route).2⟩
  | .node stage branches => by
    rw [visit, Route.newStages]
    split
    · rfl
    · rw [h.buildStage_eq_ok, ok_bind, visitAll_eq_ok (h.addStage stage)]
      rfl

theorem visitAll_eq_ok {net : Net} (h : net.OfRoute none) (seen : List String) :
    ∀ routes : List Route, visitAll ⟨net, seen⟩ routes
      = .ok ⟨(Route.newStagesAll seen routes).1.foldl Net.addStage net,
          (Route.newStagesAll seen routes).2⟩
  | [] => rfl
  | route :: routes => by
    rw [visitAll, visit_eq_ok h seen route, ok_bind, visitAll_eq_ok (h.foldl_addStage _),
      Route.newStagesAll]
    dsimp only
    rw [List.foldl_append]

end

theorem finish_eq_ok (id : String) (stages : List Stage) (seen : List String) :
    finish ⟨.ofStages id stages, seen⟩ id = .ok (RouteNet.ofStages id stages) := by
  obtain ⟨hends, hsource, hsink⟩ := (Net.ofRoute_ofStages id stages).addEnds (id ++ "#source")
    (id ++ "#sink")
  rw [finish]
  dsimp only
  rw [hends.foldlM_buildEnds_eq_ok hsource hsink]
  rfl

end Builder

/-- **The construction succeeds for every route.** -/
theorem RouteNet.build_eq_ok (route : Route) :
    RouteNet.build route = .ok (RouteNet.ofRoute route) := by
  have hstages : Route.stages [route] = (Route.newStages [] route).1 := List.append_nil _
  rw [RouteNet.build, Builder.visit_eq_ok (.empty route.id), ok_bind, ← hstages]
  exact Builder.finish_eq_ok route.id (Route.stages [route]) _

end RoutePolicy
