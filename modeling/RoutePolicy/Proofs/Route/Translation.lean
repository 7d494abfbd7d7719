import RoutePolicy.Proofs.Route.Building
import RoutePolicy.Proofs.Route.Lineage
import RoutePolicy.Proofs.Route.Preorder
import RoutePolicy.Proofs.StepGraph

set_option autoImplicit false

/-! # The net of a route is its translation

`RouteNet.Translates` says what the net of stages holds: a place for each stage and the two at the
ends, a transition for each identifier of an endpoint, and the arcs that the endpoints ask for. The
endpoints are visited one after the other, and each net on the way holds what the endpoints up to
there ask for (`Net.Shows`). The arcs from the source and to the sink come last, and what they
depend on does not change while they are added (`Net.OfRoute.mem_arcs_foldl_closeTransition`). -/

namespace RoutePolicy

/-- The endpoints of a stage, those at which it starts first. -/
def Stage.endpoints (s : Stage) : List Endpoint := s.starts ++ s.ends

/-- The context of the transition that endpoints with one identifier share: the role of the first of
them, and the tags of all of them. -/
structure Context.Unites (c : Context) (id : String) (es : List Endpoint) : Prop where
  role : (es.find? (·.id = id)).map (·.role) = some c.role
  tags : ∀ tag, tag ∈ c.tags ↔ ∃ e ∈ es, e.id = id ∧ tag ∈ e.tags

namespace RouteNet

/-- The arcs in the net of stages. The place of a stage has the number of the stage. -/
inductive Joins (b : RouteNet) (stages : List Stage) : Arc → Prop
  | start {i : Nat} {s : Stage} {e : Endpoint} {t : TransitionId} : stages[i]? = some s →
      e ∈ s.starts → b.net.nodeName? t.node = some e.id →
      Joins b stages ⟨t.node, (⟨i⟩ : PlaceId).node⟩
  | finish {i : Nat} {s : Stage} {e : Endpoint} {t : TransitionId} : stages[i]? = some s →
      e ∈ s.ends → b.net.nodeName? t.node = some e.id →
      Joins b stages ⟨(⟨i⟩ : PlaceId).node, t.node⟩
  | source {t : TransitionId} {id : String} : b.net.nodeName? t.node = some id →
      (∀ s ∈ stages, ∀ e ∈ s.ends, e.id ≠ id) → Joins b stages ⟨b.source.node, t.node⟩
  | sink {t : TransitionId} {id : String} : b.net.nodeName? t.node = some id →
      (∀ s ∈ stages, ∀ e ∈ s.starts, e.id ≠ id) → Joins b stages ⟨t.node, b.sink.node⟩

/-- The net is the translation of the stages: it has their places and those of the source and the
sink, named after `id`, the transitions of their endpoints, and the arcs that join them, each once.
Each transition then has places on both sides, nothing leads to the source, and nothing leads away
from the sink. -/
structure Translates (b : RouteNet) (id : String) (stages : List Stage) : Prop where
  wellFormed : b.net.WellFormed
  places : b.net.placeList = stages.map (fun s => .plain s.id 0)
    ++ [.plain (id ++ "#source") 1, .plain (id ++ "#sink") 0]
  source : b.source = ⟨stages.length⟩
  sink : b.sink = ⟨stages.length + 1⟩
  transitions : b.net.transitionIds = ((stages.flatMap Stage.endpoints).map (·.id)).eraseDups
  context : ∀ t x, b.net.transitions.get? t = some x →
    ∃ c, x.context = some c ∧ c.Unites x.id (stages.flatMap Stage.endpoints)
  arcs : ∀ arc, arc ∈ b.net.arcs.toList ↔ b.Joins stages arc
  nodup : b.net.arcs.toList.Nodup
  input : ∀ t : TransitionId, b.net.contains t.node = true →
    ∃ p : PlaceId, ⟨p.node, t.node⟩ ∈ b.net.arcs.toList
  output : ∀ t : TransitionId, b.net.contains t.node = true →
    ∃ p : PlaceId, ⟨t.node, p.node⟩ ∈ b.net.arcs.toList
  first : ∀ arc ∈ b.net.arcs.toList, arc.target ≠ b.source.node
  last : ∀ arc ∈ b.net.arcs.toList, arc.source ≠ b.sink.node

end RouteNet

/-! ## Contexts of several endpoints -/

namespace Context

/-- A change that leaves the role and the tags of every context. -/
def KeepsTags (f : Context → Context) : Prop := ∀ c, (f c).role = c.role ∧ (f c).tags = c.tags

section

variable {c : Context} {id : String} {es : List Endpoint} {e : Endpoint}

theorem Unites.map (h : c.Unites id es) {f : Context → Context} (hf : KeepsTags f) :
    (f c).Unites id es := by
  obtain ⟨hrole, htags⟩ := hf c
  exact ⟨hrole ▸ h.role, htags ▸ h.tags⟩

/-- The transition of an endpoint of another identifier does not change. -/
theorem Unites.concat_of_ne (h : c.Unites id es) (hne : e.id ≠ id) : c.Unites id (es ++ [e]) := by
  refine ⟨?_, fun tag => ?_⟩
  · have hnone : [e].find? (·.id = id) = none := by simp [hne]
    rw [List.find?_append, hnone, Option.or_none]
    exact h.role
  · rw [h.tags]
    simp [or_and_right, exists_or, hne]

/-- The transition of an earlier endpoint gets the tags of a later one. -/
theorem Unites.concat_of_eq (h : c.Unites id es) (heq : e.id = id) :
    (e.tagged c).Unites id (es ++ [e]) := by
  refine ⟨?_, fun tag => ?_⟩
  · obtain ⟨e', he', hrole⟩ := Option.map_eq_some_iff.mp h.role
    rw [List.find?_append, he', Option.some_or, Option.map_some, hrole]
    rfl
  · show tag ∈ c.tags.insertMany e.tags ↔ _
    rw [SortedSet.mem_insertMany, h.tags]
    simp [or_and_right, exists_or, heq, or_comm]

/-- A new transition has the role and the tags of its first endpoint. -/
theorem unites_of_new (h : ∀ e' ∈ es, e'.id ≠ e.id) :
    (e.tagged (ofRole e.role)).Unites e.id (es ++ [e]) := by
  refine ⟨?_, fun tag => ?_⟩
  · have hnone : es.find? (·.id = e.id) = none := by simpa using h
    rw [List.find?_append, hnone]
    simp [Endpoint.tagged, ofRole]
  · have hempty : tag ∉ (ofRole e.role).tags := List.not_mem_nil
    show tag ∈ (ofRole e.role).tags.insertMany e.tags ↔ _
    rw [SortedSet.mem_insertMany, or_iff_right hempty]
    constructor
    · exact fun htag => ⟨e, by simp, rfl, htag⟩
    · rintro ⟨e', he', hid, htag⟩
      rcases List.mem_append.mp he' with he' | he'
      · exact absurd hid (h e' he')
      · exact List.mem_singleton.mp he' ▸ htag

end

theorem keepsTags_withRead (read : NameSet) : KeepsTags (·.withRead read) := fun c =>
  ⟨role_withRead c read, tags_withRead c read⟩

end Context

namespace Net

/-! ## Places and transitions -/

/-- The places of the net, and the transitions of the endpoints. -/
structure Carries (net : Net) (places : List Place) (es : List Endpoint) : Prop where
  places : net.placeList = places
  transitions : net.transitionIds = (es.map (·.id)).eraseDups
  context : ∀ t x, net.transitionData? t = some x → ∃ c, x.context = some c ∧ c.Unites x.id es

section

variable {net : Net} {places : List Place} {es : List Endpoint} {e : Endpoint}
  {source : Option PlaceId} {t : TransitionId}

theorem Carries.join (h : net.Carries places es) (arc : Arc) : (net.join arc).Carries places es :=
  ⟨by rw [placeList_join, h.places], by rw [transitionIds_join, h.transitions],
    fun t x hx => h.context t x (by rwa [transitionData?_join] at hx)⟩

theorem Carries.joinOnce (h : net.Carries places es) (arc : Arc) :
    (net.joinOnce arc).Carries places es := by
  unfold Net.joinOnce
  split
  · exact h
  · exact h.join arc

theorem Carries.addPlace (h : net.Carries places es) (x : Place) :
    (net.addPlace x).Carries (places ++ [x.data]) es :=
  ⟨by rw [placeList_addPlace, h.places], h.transitions, h.context⟩

theorem Carries.modifyContext (h : net.Carries places es) (t : TransitionId) {f : Context → Context}
    (hf : Context.KeepsTags f) :
    (net.modifyContext t fun c => some (f (c.getD default))).Carries places es := by
  refine ⟨h.places, by rw [transitionIds_modifyContext, h.transitions], fun u x hx => ?_⟩
  rw [transitionData?_modifyContext] at hx
  split at hx
  · obtain ⟨y, hy, rfl⟩ := Option.map_eq_some_iff.mp hx
    obtain ⟨c, hc, hunites⟩ := h.context u y hy
    refine ⟨f c, ?_, hunites.map hf⟩
    rw [hc, Option.getD_some]
  · exact h.context u x hx

theorem Carries.contains_iff (h : net.Carries places es) {p : PlaceId} :
    net.contains p.node = true ↔ p.index < places.length := by
  rw [← h.places, length_placeList]
  exact Arena.contains_iff

/-- The number that the next place gets. -/
theorem Carries.next_eq (h : net.Carries places es) : net.places.next = ⟨places.length⟩ := by
  rw [← h.places, length_placeList]
  rfl

/-- The identifiers of the transitions are those of the endpoints. -/
theorem Carries.mem_ids_iff (h : net.Carries places es) (hnet : net.OfRoute source) (id : String) :
    id ∈ es.map (·.id) ↔ ∃ t, net.transitionById id = some t := by
  rw [← List.mem_eraseDups, ← h.transitions, transitionIds, List.mem_map]
  constructor
  · rintro ⟨x, hx, rfl⟩
    obtain ⟨t, ht⟩ := Arena.exists_get?_of_mem hx
    exact ⟨t, hnet.transitionById_eq ht⟩
  · rintro ⟨t, ht⟩
    obtain ⟨x, hx, rfl⟩ := (hnet.named id t).mp ht
    obtain ⟨y, hy, rfl⟩ := transitionData?_eq_some_iff.mp hx
    exact ⟨y, Arena.mem_of_get? hy, rfl⟩

/-- One more endpoint has the transition of an earlier one, or a new transition. -/
theorem Carries.addEndpoint (h : net.Carries places es) (hnet : net.OfRoute source) (e : Endpoint) :
    (net.addEndpoint e).1.Carries places (es ++ [e]) := by
  have hids := h.mem_ids_iff hnet e.id
  cases hid : net.transitionById e.id with
  | some t =>
      rw [addEndpoint_of_some hid]
      constructor
      case places => exact h.places
      case transitions =>
        rw [transitionIds_modifyContext, h.transitions, List.map_append, List.map_singleton,
          eraseDups_concat, if_pos (hids.mpr ⟨t, hid⟩)]
      case context =>
        intro u x hx
        rw [transitionData?_modifyContext] at hx
        split at hx
        · rename_i htu
          subst htu
          obtain ⟨y, hy, rfl⟩ := Option.map_eq_some_iff.mp hx
          obtain ⟨c, hc, hunites⟩ := h.context t y hy
          obtain ⟨y', hy', heq⟩ := (hnet.named e.id t).mp hid
          obtain rfl := Option.some_inj.mp (hy.symm.trans hy')
          refine ⟨e.tagged c, ?_, hunites.concat_of_eq heq.symm⟩
          rw [hc, Option.getD_some]
        · rename_i htu
          obtain ⟨c, hc, hunites⟩ := h.context u x hx
          refine ⟨c, hc, hunites.concat_of_ne fun heq => htu ?_⟩
          exact Option.some_inj.mp (hid.symm.trans ((hnet.named e.id u).mpr ⟨x, hx, heq.symm⟩))
  | none =>
      have hnew : e.id ∉ es.map (·.id) := fun hmem => by
        obtain ⟨t, ht⟩ := hids.mp hmem
        rw [hid] at ht
        cases ht
      rw [addEndpoint_of_none hid]
      constructor
      case places => exact h.places
      case transitions =>
        rw [transitionIds_modifyContext, transitionIds_addTransition, h.transitions,
          List.map_append, List.map_singleton, eraseDups_concat, if_neg hnew]
        rfl
      case context =>
        intro u x hx
        rw [transitionData?_modifyContext, transitionData?_addTransition] at hx
        split at hx
        · rename_i htu
          rw [if_pos htu.symm] at hx
          obtain rfl := Option.some_inj.mp hx
          exact ⟨_, rfl, Context.unites_of_new fun e' he' heq =>
            hnew (heq ▸ List.mem_map_of_mem he')⟩
        · rename_i htu
          rw [if_neg (Ne.symm htu)] at hx
          obtain ⟨c, hc, hunites⟩ := h.context u x hx
          refine ⟨c, hc, hunites.concat_of_ne fun heq => ?_⟩
          rw [(hnet.named e.id u).mpr ⟨x, hx, heq.symm⟩] at hid
          cases hid

theorem Carries.propagate (h : net.Carries places es) (origin : PlaceId) :
    (net.propagate origin).Carries places es :=
  List.foldlRecOn (motive := fun net : Net => net.Carries places es) _ passTransition h
    fun _ hnet t _ => hnet.modifyContext t (Context.keepsTags_withRead _)

end

end Net

/-! ## One visit after the other -/

/-- The two ends of a stage. -/
inductive Side where
  | start
  | finish
  deriving DecidableEq

namespace Side

/-- The endpoints of a stage at this end. -/
def endpoints : Side → Stage → List Endpoint
  | .start => Stage.starts
  | .finish => Stage.ends

/-- The arc between the transition of an endpoint at this end and the place of the stage. -/
def arc (side : Side) (t : TransitionId) (place : PlaceId) : Arc :=
  match side with
  | .start => ⟨t.node, place.node⟩
  | .finish => ⟨place.node, t.node⟩

/-- The node of an arc where the arcs of this end have the transition. -/
def tip : Side → Arc → Node
  | .start => Arc.source
  | .finish => Arc.target

theorem tip_arc (side : Side) (t : TransitionId) (place : PlaceId) :
    side.tip (side.arc t place) = t.node := by
  cases side <;> rfl

theorem tip_arc_of_ne {side side' : Side} (h : side' ≠ side) (t : TransitionId) (place : PlaceId) :
    side.tip (side'.arc t place) = place.node := by
  cases side <;> cases side'
  · exact absurd rfl h
  · rfl
  · rfl
  · exact absurd rfl h

end Side

/-- An endpoint at one end of the stage of a place. -/
structure Visit where
  side : Side
  endpoint : Endpoint
  place : PlaceId

/-- The arc that joins the transition of the endpoint to the place. -/
def Visit.arc (v : Visit) (t : TransitionId) : Arc := v.side.arc t v.place

/-- The endpoints of a stage in the order in which they are visited. -/
def Stage.visits (s : Stage) (place : PlaceId) : List Visit :=
  s.starts.map (⟨.start, ·, place⟩) ++ s.ends.map (⟨.finish, ·, place⟩)

/-- The endpoints of all stages. The place of a stage has the number of the stage. -/
def visits (stages : List Stage) : List Visit := stages.zipIdx.flatMap fun x => x.1.visits ⟨x.2⟩

namespace Net

/-- The net in which these endpoints have been visited. -/
structure Shows (net : Net) (places : List Place) (vs : List Visit) : Prop where
  ofRoute : net.OfRoute none
  carries : net.Carries places (vs.map (·.endpoint))
  arcs : ∀ arc, arc ∈ net.arcs.toList ↔
    ∃ v ∈ vs, ∃ t, net.transitionById v.endpoint.id = some t ∧ v.arc t = arc

section

variable {net : Net} {places : List Place} {vs : List Visit} {e : Endpoint}

theorem mem_arcs_joinOnce (net : Net) (arc x : Arc) :
    x ∈ (net.joinOnce arc).arcs.toList ↔ x ∈ net.arcs.toList ∨ x = arc := by
  unfold joinOnce
  split
  · rename_i harc
    exact (or_iff_left_of_imp fun hx => hx ▸ harc).symm
  · rw [arcs_join, Arena.toList_push, List.mem_append, List.mem_singleton]

@[simp] theorem transitionById_joinOnce (net : Net) (arc : Arc) (id : String) :
    (net.joinOnce arc).transitionById id = net.transitionById id := by
  unfold joinOnce
  split
  · rfl
  · exact transitionById_join net arc id

/-- The transition of an endpoint is found under its identifier. -/
theorem transitionById_addEndpoint (net : Net) (e : Endpoint) :
    (net.addEndpoint e).1.transitionById e.id = some (net.addEndpoint e).2 := by
  cases hid : net.transitionById e.id with
  | some t =>
      rw [addEndpoint_of_some hid]
      exact hid
  | none =>
      rw [addEndpoint_of_none hid]
      exact (transitionById_addTransition net _ _).trans (if_pos rfl)

theorem transitionById_addEndpoint_of_some {id : String} {t : TransitionId}
    (h : net.transitionById id = some t) (e : Endpoint) :
    (net.addEndpoint e).1.transitionById id = some t := by
  cases hid : net.transitionById e.id with
  | some u =>
      rw [addEndpoint_of_some hid]
      exact h
  | none =>
      rw [addEndpoint_of_none hid]
      refine (transitionById_addTransition net _ _).trans ((if_neg fun heq => ?_).trans h)
      rw [heq] at h
      cases hid.symm.trans h

/-- The endpoint of a visit gets its transition, and this is joined to the place. -/
theorem Shows.visit (h : net.Shows places vs) (v : Visit)
    (hplace : net.contains v.place.node = true) {f : Context → Context} (hf : Context.KeepsTags f) :
    (((net.addEndpoint v.endpoint).1.modifyContext (net.addEndpoint v.endpoint).2
      fun c => some (f (c.getD default))).joinOnce (v.arc (net.addEndpoint v.endpoint).2)).Shows
        places (vs ++ [v]) := by
  have harc : v.arc (net.addEndpoint v.endpoint).2
        = ⟨(net.addEndpoint v.endpoint).2.node, v.place.node⟩ ∨
      v.arc (net.addEndpoint v.endpoint).2
        = ⟨v.place.node, (net.addEndpoint v.endpoint).2.node⟩ := by
    unfold Visit.arc Side.arc
    cases v.side
    · exact Or.inl rfl
    · exact Or.inr rfl
  constructor
  case ofRoute => exact (h.ofRoute.joinEndpoint hplace v.endpoint _ harc).1
  case carries =>
    rw [List.map_append, List.map_singleton]
    exact ((h.carries.addEndpoint h.ofRoute v.endpoint).modifyContext _ hf).joinOnce _
  case arcs =>
    intro arc
    -- the endpoints before this one keep their transitions
    have hearlier : ∀ w ∈ vs,
        (∃ t, (net.addEndpoint v.endpoint).1.transitionById w.endpoint.id = some t ∧
          w.arc t = arc) ↔ ∃ t, net.transitionById w.endpoint.id = some t ∧ w.arc t = arc := by
      intro w hw
      obtain ⟨t, ht⟩ := (h.carries.mem_ids_iff h.ofRoute w.endpoint.id).mp
        (List.mem_map_of_mem (List.mem_map_of_mem hw))
      rw [ht, transitionById_addEndpoint_of_some ht]
    simp only [mem_arcs_joinOnce, arcs_modifyContext, arcs_addEndpoint, h.arcs,
      transitionById_joinOnce, transitionById_modifyContext, List.mem_append, List.mem_singleton,
      or_and_right, exists_or, exists_eq_left, transitionById_addEndpoint, Option.some_inj,
      exists_eq_left']
    refine or_congr (exists_congr fun w => and_congr_right fun hw => (hearlier w hw).symm) eq_comm

/-- The endpoints at one end of a stage are visited one after the other. -/
theorem Shows.foldl {step : Net → Endpoint → Net} {visit : Endpoint → Visit}
    (hstep : ∀ {net : Net} {vs : List Visit} (e : Endpoint), net.Shows places vs →
      (step net e).Shows places (vs ++ [visit e])) (es : List Endpoint) (h : net.Shows places vs) :
    (es.foldl step net).Shows places (vs ++ es.map visit) := by
  induction es generalizing net vs with
  | nil => simpa using h
  | cons e es ih =>
      rw [List.foldl_cons, List.map_cons, List.append_cons]
      exact ih (hstep e h)

theorem Shows.addPlace (h : net.Shows places vs) (id : String) :
    (net.addPlace (.plain id 0)).Shows (places ++ [.plain id 0]) vs :=
  ⟨h.ofRoute.addPlace (by simp) id, h.carries.addPlace _, h.arcs⟩

theorem Shows.addStart (h : net.Shows places vs) {place : PlaceId}
    (hplace : net.contains place.node = true) (outputs : List String) (e : Endpoint) :
    (Net.addStart place outputs net e).Shows places (vs ++ [⟨.start, e, place⟩]) :=
  h.visit (f := fun c => { c with write := c.write.insertMany outputs }) ⟨.start, e, place⟩ hplace
    fun _ => ⟨rfl, rfl⟩

theorem Shows.addEnd (h : net.Shows places vs) {place : PlaceId}
    (hplace : net.contains place.node = true) (outputs : List String) (e : Endpoint) :
    (Net.addEnd place outputs net e).Shows places (vs ++ [⟨.finish, e, place⟩]) :=
  h.visit (f := fun c => { c with read := c.read.insertMany outputs }) ⟨.finish, e, place⟩ hplace
    fun _ => ⟨rfl, rfl⟩

theorem Shows.addStage (h : net.Shows places vs) (s : Stage) :
    (net.addStage s).Shows (places ++ [.plain s.id 0]) (vs ++ s.visits ⟨places.length⟩) := by
  have hplace {net : Net} {vs : List Visit} (h : net.Shows (places ++ [.plain s.id 0]) vs) :
      net.contains (⟨places.length⟩ : PlaceId).node = true := by
    rw [h.carries.contains_iff, List.length_append]
    exact Nat.lt_succ_self _
  unfold Net.addStage
  rw [h.carries.next_eq, Stage.visits, ← List.append_assoc]
  refine Shows.foldl (fun e h => h.addEnd (hplace h) s.outputs e) s.ends ?_
  exact Shows.foldl (fun e h => h.addStart (hplace h) s.outputs e) s.starts (h.addPlace s.id)

theorem shows_ofStages (id : String) (stages : List Stage) :
    (ofStages id stages).Shows (stages.map fun s => .plain s.id 0) (visits stages) := by
  induction stages using List.reverseRecOn with
  | nil =>
      refine ⟨.empty id, ⟨rfl, rfl, fun t x hx => ?_⟩, fun arc => ?_⟩
      · obtain ⟨y, hy, -⟩ := transitionData?_eq_some_iff.mp hx
        exact absurd (Arena.mem_of_get? hy) List.not_mem_nil
      · exact iff_of_false List.not_mem_nil fun ⟨v, hv, _⟩ => List.not_mem_nil hv
  | append_singleton stages s ih =>
      have hstep := ih.addStage s
      have hvisits : visits (stages ++ [s]) = visits stages ++ s.visits ⟨stages.length⟩ := by
        simp [visits, List.zipIdx_append]
      rw [List.length_map] at hstep
      rw [ofStages, List.foldl_append, List.map_append, hvisits]
      exact hstep

end

/-! ## The source and the sink -/

section

variable {net : Net} {source sink : PlaceId} {t u : TransitionId} {arc : Arc}

/-- The arc joins the transition to the source or to the sink, and no arc of the net is on that side
of the transition. -/
def Closing (net : Net) (source sink : PlaceId) (t : TransitionId) (arc : Arc) : Prop :=
  ((∀ x ∈ net.arcs.toList, x.target ≠ t.node) ∧ arc = ⟨source.node, t.node⟩) ∨
    (∀ x ∈ net.arcs.toList, x.source ≠ t.node) ∧ arc = ⟨t.node, sink.node⟩

theorem mem_arcs_closeTransition (h : net.WellFormed) (hsource : net.contains source.node = true)
    (ht : net.contains t.node = true) : arc ∈ (closeTransition source sink net t).arcs.toList ↔
      arc ∈ net.arcs.toList ∨ net.Closing source sink t arc := by
  rw [arcs_closeTransition h hsource ht]
  simp only [List.mem_append, List.mem_ite_nil_right, List.mem_singleton, or_assoc]
  rfl

/-- Closing one transition leaves open what arcs there are at another one. -/
theorem closing_closeTransition (h : net.WellFormed) (hsource : net.contains source.node = true)
    (ht : net.contains t.node = true) (hne : u ≠ t) :
    (closeTransition source sink net t).Closing source sink u arc ↔
      net.Closing source sink u arc := by
  have hnode : t.node ≠ u.node := fun heq => hne (Handle.node_inj.mp heq).symm
  have hstays (tip : Arc → Node) (hfirst : tip ⟨source.node, t.node⟩ ≠ u.node)
      (hlast : tip ⟨t.node, sink.node⟩ ≠ u.node) :
      (∀ x ∈ (closeTransition source sink net t).arcs.toList, tip x ≠ u.node) ↔
        ∀ x ∈ net.arcs.toList, tip x ≠ u.node := by
    simp only [mem_arcs_closeTransition h hsource ht]
    refine ⟨fun hnone x hx => hnone x (Or.inl hx), fun hnone x hx => ?_⟩
    rcases hx with hx | ⟨-, rfl⟩ | ⟨-, rfl⟩
    · exact hnone x hx
    · exact hfirst
    · exact hlast
  unfold Closing
  rw [hstays Arc.target hnode (node_ne_node sink u),
    hstays Arc.source (node_ne_node source u) hnode]

/-- Each transition is closed as the arcs were in the beginning. -/
theorem OfRoute.mem_arcs_foldl_closeTransition (arc : Arc) {ts : List TransitionId}
    (h : net.OfRoute (some source)) (hnodup : ts.Nodup) (hsource : net.contains source.node = true)
    (hsink : net.contains sink.node = true) (hts : ∀ t ∈ ts, net.contains t.node = true) :
    arc ∈ (ts.foldl (Net.closeTransition source sink) net).arcs.toList ↔
      arc ∈ net.arcs.toList ∨ ∃ t ∈ ts, net.Closing source sink t arc := by
  induction ts generalizing net with
  | nil => simp
  | cons t ts ih =>
      obtain ⟨ht, hts⟩ := List.forall_mem_cons.mp hts
      obtain ⟨hnew, hnodup⟩ := List.nodup_cons.mp hnodup
      obtain ⟨hnet, hcloses, -⟩ := h.closeTransition hsource hsink ht
      rw [List.foldl_cons, ih hnet hnodup ((hcloses.nodes _).trans hsource)
        ((hcloses.nodes _).trans hsink) fun u hu => (hcloses.nodes _).trans (hts u hu),
        mem_arcs_closeTransition h.wellFormed hsource ht, or_assoc]
      refine or_congr_right ?_
      rw [List.exists_mem_cons_iff]
      refine or_congr_right (exists_congr fun u => and_congr_right fun hu => ?_)
      exact closing_closeTransition h.wellFormed hsource ht fun heq => hnew (heq ▸ hu)

end

end Net

/-! ## The translation -/

section

variable {stages : List Stage} {net : Net} {places : List Place} {arc : Arc} {id : String}
  {t : TransitionId}

theorem mem_visits {v : Visit} : v ∈ visits stages ↔
    ∃ s, stages[v.place.index]? = some s ∧ v.endpoint ∈ v.side.endpoints s := by
  obtain ⟨side, e, ⟨i⟩⟩ := v
  simp only [visits, Stage.visits, List.mem_flatMap, List.mem_append, List.mem_map, Visit.mk.injEq,
    Prod.exists, List.mem_zipIdx_iff_getElem?]
  cases side <;> simp [Side.endpoints]

theorem map_endpoint_visits (stages : List Stage) :
    (visits stages).map (·.endpoint) = stages.flatMap Stage.endpoints := by
  have hstage (x : Stage × Nat) : (x.1.visits ⟨x.2⟩).map (·.endpoint) = x.1.endpoints := by
    simp [Stage.visits, Stage.endpoints, Function.comp_def]
  rw [visits, List.map_flatMap]
  simp only [hstage]
  rw [← List.flatMap_map, List.zipIdx_map_fst]

namespace Net

/-- The arcs of a net in which the stages have been visited. -/
theorem Shows.mem_arcs_iff (h : net.Shows places (visits stages)) : arc ∈ net.arcs.toList ↔
    ∃ (i : Nat) (s : Stage) (side : Side) (e : Endpoint) (t : TransitionId), stages[i]? = some s ∧
      e ∈ side.endpoints s ∧ net.transitionById e.id = some t ∧ side.arc t ⟨i⟩ = arc := by
  rw [h.arcs]
  constructor
  · rintro ⟨v, hv, t, ht, harc⟩
    obtain ⟨s, hs, he⟩ := mem_visits.mp hv
    exact ⟨v.place.index, s, v.side, v.endpoint, t, hs, he, ht, harc⟩
  · rintro ⟨i, s, side, e, t, hs, he, ht, harc⟩
    exact ⟨⟨side, e, ⟨i⟩⟩, mem_visits.mpr ⟨s, hs, he⟩, t, ht, harc⟩

/-- A transition is found under its name and under no other. -/
theorem OfRoute.transitionById_eq_some_iff {source : Option PlaceId} (h : net.OfRoute source) :
    net.transitionById id = some t ↔ net.nodeName? t.node = some id := by
  rw [h.named]
  simp only [transitionData?_eq_some_iff, nodeName?, Handle.node, Option.map_eq_some_iff]
  constructor
  · rintro ⟨-, ⟨x, hx, rfl⟩, rfl⟩
    exact ⟨x, hx, rfl⟩
  · rintro ⟨x, hx, rfl⟩
    exact ⟨x.data, ⟨x, hx, rfl⟩, rfl⟩

/-- No arc leads away from a transition if no stage starts at it, and none leads to it if no stage
ends at it. -/
theorem Shows.no_arc_iff (h : net.Shows places (visits stages))
    (ht : net.nodeName? t.node = some id) (side : Side) :
    (∀ x ∈ net.arcs.toList, side.tip x ≠ t.node) ↔
      ∀ s ∈ stages, ∀ e ∈ side.endpoints s, e.id ≠ id := by
  rw [← h.ofRoute.transitionById_eq_some_iff] at ht
  constructor
  · rintro hnone s hs e he rfl
    obtain ⟨i, hi⟩ := List.mem_iff_getElem?.mp hs
    exact hnone _ (h.mem_arcs_iff.mpr ⟨i, s, side, e, t, hi, he, ht, rfl⟩) (side.tip_arc t ⟨i⟩)
  · intro hnone x hx htip
    obtain ⟨i, s, side', e, u, hi, he, hu, rfl⟩ := h.mem_arcs_iff.mp hx
    by_cases hside : side' = side
    · -- the arc is at the transition of the endpoint, which has one name only
      subst hside
      rw [Side.tip_arc, Handle.node_inj] at htip
      subst htip
      rw [h.ofRoute.transitionById_eq_some_iff] at hu ht
      exact hnone s (List.mem_of_getElem? hi) e he (Option.some_inj.mp (hu.symm.trans ht))
    · rw [Side.tip_arc_of_ne hside] at htip
      exact node_ne_node _ t htip

theorem Carries.closeTransition {es : List Endpoint} {source sink : PlaceId}
    (h : net.Carries places es) (t : TransitionId) :
    (Net.closeTransition source sink net t).Carries places es := by
  simp only [Net.closeTransition]
  split <;> split <;> simp only [h, Carries.join]

end Net

end

namespace RouteNet

variable (id : String) (stages : List Stage)

/-- What the net of stages carries, with the two places at the ends. -/
theorem carries_ofStages : (ofStages id stages).net.Carries
    (stages.map (fun s => .plain s.id 0) ++ [.plain (id ++ "#source") 1, .plain (id ++ "#sink") 0])
    (stages.flatMap Stage.endpoints) := by
  have hstages := (Net.shows_ofStages id stages).carries
  rw [map_endpoint_visits] at hstages
  have hends := (hstages.addPlace (.plain (id ++ "#source") 1)).addPlace (.plain (id ++ "#sink") 0)
  rw [List.append_assoc] at hends
  refine Net.Carries.propagate ?_ _
  exact List.foldlRecOn (motive := fun net : Net => net.Carries _ _) _ _ hends
    fun _ hnet t _ => hnet.closeTransition t

theorem source_ofStages : (ofStages id stages).source = ⟨stages.length⟩ := by
  rw [← List.length_map]
  exact (Net.shows_ofStages id stages).carries.next_eq

theorem sink_ofStages : (ofStages id stages).sink = ⟨stages.length + 1⟩ := by
  have hsource := (Net.shows_ofStages id stages).carries.addPlace (.plain (id ++ "#source") 1)
  refine hsource.next_eq.trans ?_
  rw [List.length_append, List.length_map]
  rfl

/-- The names of the transitions stay when the net is closed. -/
theorem nodeName?_ofStages (t : TransitionId) :
    (ofStages id stages).net.nodeName? t.node = (Net.ofStages id stages).nodeName? t.node := by
  have hstages := (Net.shows_ofStages id stages).carries
  rw [Net.nodeName?_transition, Net.nodeName?_transition, (carries_ofStages id stages).transitions,
    hstages.transitions, map_endpoint_visits]

/-- To the arcs of the stages come those at the ends. -/
theorem mem_arcs_ofStages (arc : Arc) : arc ∈ (ofStages id stages).net.arcs.toList ↔
    arc ∈ (Net.ofStages id stages).arcs.toList ∨
      ∃ t : TransitionId, (Net.ofStages id stages).contains t.node = true ∧
        (Net.ofStages id stages).Closing (ofStages id stages).source (ofStages id stages).sink t
          arc := by
  obtain ⟨hends, hsource, hsink⟩ := (Net.ofRoute_ofStages id stages).addEnds (id ++ "#source")
    (id ++ "#sink")
  have hclosed := hends.mem_arcs_foldl_closeTransition arc (Arena.nodup_indices _) hsource
    hsink fun t ht => Arena.mem_indices_iff.mp ht
  simp only [Arena.mem_indices_iff] at hclosed
  show arc ∈ (Net.propagate _ _).arcs.toList ↔ _
  rw [Net.arcs_propagate]
  exact hclosed

/-- The arcs of the net are those that the stages ask for. -/
theorem joins_iff (arc : Arc) :
    arc ∈ (ofStages id stages).net.arcs.toList ↔ (ofStages id stages).Joins stages arc := by
  have hstages := Net.shows_ofStages id stages
  have hname := nodeName?_ofStages id stages
  rw [mem_arcs_ofStages]
  constructor
  · rintro (harc | ⟨t, ht, hclosing⟩)
    · obtain ⟨i, s, side, e, t, hi, he, ht, rfl⟩ := hstages.mem_arcs_iff.mp harc
      rw [hstages.ofRoute.transitionById_eq_some_iff, ← hname] at ht
      cases side with
      | start => exact .start hi he ht
      | finish => exact .finish hi he ht
    · obtain ⟨name, ht⟩ := Net.contains_iff_nodeName?.mp ht
      rcases hclosing with ⟨hnone, rfl⟩ | ⟨hnone, rfl⟩
      · exact .source ((hname t).trans ht) ((hstages.no_arc_iff ht .finish).mp hnone)
      · exact .sink ((hname t).trans ht) ((hstages.no_arc_iff ht .start).mp hnone)
  · intro hjoins
    cases hjoins with
    | start hi he ht =>
        rw [hname, ← hstages.ofRoute.transitionById_eq_some_iff] at ht
        exact Or.inl (hstages.mem_arcs_iff.mpr ⟨_, _, .start, _, _, hi, he, ht, rfl⟩)
    | finish hi he ht =>
        rw [hname, ← hstages.ofRoute.transitionById_eq_some_iff] at ht
        exact Or.inl (hstages.mem_arcs_iff.mpr ⟨_, _, .finish, _, _, hi, he, ht, rfl⟩)
    | source ht hnone =>
        rw [hname] at ht
        exact Or.inr ⟨_, Net.contains_iff_nodeName?.mpr ⟨_, ht⟩,
          Or.inl ⟨(hstages.no_arc_iff ht .finish).mpr hnone, rfl⟩⟩
    | sink ht hnone =>
        rw [hname] at ht
        exact Or.inr ⟨_, Net.contains_iff_nodeName?.mpr ⟨_, ht⟩,
          Or.inr ⟨(hstages.no_arc_iff ht .start).mpr hnone, rfl⟩⟩

/-- **The net of stages is their translation.** -/
theorem translates_ofStages : (ofStages id stages).Translates id stages := by
  have hcarries := carries_ofStages id stages
  have hsource := source_ofStages id stages
  have hsink := sink_ofStages id stages
  -- the places of the stages come before those at the ends
  have hplace {i n : Nat} {s : Stage} (hi : stages[i]? = some s) (hn : stages.length ≤ n) :
      (⟨i⟩ : PlaceId).node ≠ (⟨n⟩ : PlaceId).node := by
    have hlt := (List.getElem?_eq_some_iff.mp hi).1
    simp only [ne_eq, Handle.node_inj, Handle.mk.injEq]
    omega
  have hends : (ofStages id stages).source.node ≠ (ofStages id stages).sink.node := by
    rw [hsource, hsink]
    simp [Handle.node_inj]
  constructor
  case wellFormed => exact (sound_ofStages id stages).net.wellFormed
  case places => exact hcarries.places
  case source => exact hsource
  case sink => exact hsink
  case transitions => exact hcarries.transitions
  case context =>
    intro t x hx
    exact hcarries.context t x.data (Net.transitionData?_eq_some_iff.mpr ⟨x, hx, rfl⟩)
  case arcs => exact joins_iff id stages
  case nodup => exact nodup_arcs_ofStages id stages
  case input => exact (sound_ofStages id stages).input
  case output => exact exists_output_ofStages id stages
  case first =>
    intro arc harc
    rw [joins_iff] at harc
    cases harc with
    | start hi _ _ => exact hsource ▸ hplace hi (Nat.le_refl _)
    | finish _ _ _ => exact (Net.node_ne_node _ _).symm
    | source _ _ => exact (Net.node_ne_node _ _).symm
    | sink _ _ => exact hends.symm
  case last =>
    intro arc harc
    rw [joins_iff] at harc
    cases harc with
    | start _ _ _ => exact (Net.node_ne_node _ _).symm
    | finish hi _ _ => exact hsink ▸ hplace hi (Nat.le_succ _)
    | source _ _ => exact hends
    | sink _ _ => exact (Net.node_ne_node _ _).symm

/-- **The construction succeeds for every route, and the net is the translation of the translated
nodes of the tree.** -/
theorem translates_ofRoute (route : Route) : build route = .ok (ofRoute route) ∧
    ∃ paths, (∀ others, route.Translated others ↔ others = paths) ∧
      (ofRoute route).Translates route.id
        (paths.filterMap fun path => (route.at? path).map Route.stage) := by
  obtain ⟨paths, hpaths, hstages⟩ := route.exists_translated
  refine ⟨build_eq_ok route, paths, fun others => ?_, ?_⟩
  · exact ⟨fun hothers => hothers.unique hpaths, fun heq => heq ▸ hpaths⟩
  · rw [← hstages]
    exact translates_ofStages route.id (Route.stages [route])

end RouteNet

end RoutePolicy
