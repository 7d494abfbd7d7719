import RoutePolicy.Proofs.Net.Agreement
import RoutePolicy.Proofs.ReachabilityGraph
import RoutePolicy.Proofs.Route.Building
import RoutePolicy.Proofs.Route.Relisting
import RoutePolicy.Proofs.Survey

set_option autoImplicit false

/-! # Equality of the nets of routes

Equality of nets looks nodes up by their identifiers, so a net need not be equal to itself: where two
places have one identifier both are compared with the last one. In the net of a route only the source
and the sink may have the identifier of another place, as the identifiers of the stages are told apart
while the places are made and those of the two added places are not. A stage named like the source is
compared with the source, which holds a marker. So the net of a route is equal to its copies exactly if
no stage has the identifier of the source (`RouteNet.equality_ofRoute`). Up to markers it is equal to
the nets of all its steps. -/

namespace RoutePolicy

/-! ## Nets that differ in markers -/

namespace Net

variable {net a b : Net} {source : Option PlaceId} {m m' : Marking}

theorem KeepsNames.symm (h : a.KeepsNames b) : b.KeepsNames a :=
  ⟨h.placeNames.symm, h.transitionNames.symm, h.placeIds.symm, h.transitionIds.symm⟩

/-- Under the identifier of a place some place is found. -/
theorem Indexed.exists_placeById (h : net.Indexed) {id : String} (hid : id ∈ net.placeIds) :
    ∃ p y, net.placeById id = some p ∧ net.places.get? p = some y := by
  obtain ⟨x, hx, rfl⟩ := List.mem_map.mp hid
  obtain ⟨p, hp⟩ : ∃ p, (NameTable.ofArena (·.id) net.places).lookup x.id = some p :=
    NameTable.exists_lookup_ofArena hx
  rw [← h.places] at hp
  obtain ⟨⟨y, hy, -⟩, -⟩ := h.placeById_eq_some_iff.mp hp
  exact ⟨p, y, hp, hy⟩

/-- The place that is found has the identifier. -/
theorem Indexed.id_of_placeById (h : net.Indexed) {id : String} {p : PlaceId} {y : Place}
    (hp : net.placeById id = some p) (hy : net.places.get? p = some y) : y.id = id := by
  obtain ⟨⟨y', hy', hid⟩, -⟩ := h.placeById_eq_some_iff.mp hp
  obtain rfl := Option.some.inj (hy.symm.trans hy')
  exact hid

/-- A net with the same identifiers matches the places if each one resembles the place that is found
there under its identifier. -/
theorem Indexed.matchesPlaces_iff (h : b.Indexed) (hkeeps : a.KeepsNames b)
    {P : Place → Place → Bool} : a.matchesPlaces b P = true ↔ ∀ x ∈ a.places.toList, ∀ p y,
      b.placeById x.id = some p → b.places.get? p = some y → P x y = true := by
  have hsize : a.places.size = b.places.size := by
    have hlength := congrArg List.length hkeeps.placeIds
    simpa [placeIds, Arena.size, Arena.toList] using hlength.symm
  rw [matchesPlaces, Bool.and_eq_true, decide_eq_true_iff, and_iff_right hsize, List.all_eq_true]
  refine forall₂_congr fun x hx => ?_
  have hid : x.id ∈ b.placeIds := hkeeps.placeIds ▸ List.mem_map_of_mem hx
  obtain ⟨p, y, hp, hy⟩ := h.exists_placeById hid
  rw [hp, Option.bind_some, hy, Option.any_some]
  constructor
  · intro hP p' y' hp' hy'
    obtain rfl := Option.some.inj hp'
    obtain rfl := Option.some.inj (hy.symm.trans hy')
    exact hP
  · intro hall
    exact hall p y rfl hy

theorem matchesTransitions_of_eq (heq : b.transitions = a.transitions)
    (hfind : ∀ t x, a.transitions.get? t = some x → b.transitionById x.id = some t) :
    a.matchesTransitions b = true := by
  rw [matchesTransitions, Bool.and_eq_true, decide_eq_true_iff, List.all_eq_true, heq]
  refine ⟨rfl, fun x hx => ?_⟩
  obtain ⟨t, ht⟩ := Arena.exists_get?_of_mem hx
  rw [hfind t x ht, Option.bind_some, ht, Option.any_some]
  simp [Transition.agrees]

theorem WellFormed.matchesArcs_of_eq (ha : a.WellFormed) (hb : b.WellFormed)
    (heq : b.arcs.toList.map b.arcKey = a.arcs.toList.map a.arcKey) :
    a.matchesArcs b = .ok true := by
  rw [ha.matchesArcs hb, heq]
  exact congrArg Except.ok (sameElements_iff.mpr fun _ => .rfl)

/-- Whatever the markers, the net of a route is the same up to markers. -/
theorem OfRoute.agreesUpToMarkers_withMarking (h : net.OfRoute source) (hindexed : net.Indexed)
    (hm : m.size = net.places.size) (hm' : m'.size = net.places.size) :
    (net.withMarking m).agreesUpToMarkers (net.withMarking m') = .ok true := by
  have hkeeps := keepsNames_withMarking hm
  have hkeeps' := keepsNames_withMarking hm'
  have hplain {m : Marking} (hm : m.size = net.places.size) {p : PlaceId} {x : Place}
      (hx : (net.withMarking m).places.get? p = some x) : x.kind = .plain := by
    rw [get?_withMarking hm, Option.map_eq_some_iff] at hx
    obtain ⟨y, hy, rfl⟩ := hx
    exact (h.place p y.data (placeData?_eq_some_iff.mpr ⟨y, hy, rfl⟩)).2
  have hplaces : (net.withMarking m).matchesPlaces (net.withMarking m') Place.agreesUpToMarkers
      = true := by
    have hindexed' := hindexed.of_keepsNames hkeeps'
    refine (hindexed'.matchesPlaces_iff (hkeeps.symm.trans hkeeps')).mpr fun x hx p y hp hy => ?_
    obtain ⟨q, hq⟩ := Arena.exists_get?_of_mem hx
    simp [Place.agreesUpToMarkers, hplain hm hq, hplain hm' hy, hindexed'.id_of_placeById hp hy]
  have htransitions : (net.withMarking m).matchesTransitions (net.withMarking m') = true :=
    matchesTransitions_of_eq rfl fun _ _ ht => h.transitionById_eq ht
  rw [agreesUpToMarkers, if_pos (by rw [hplaces, htransitions]; rfl)]
  refine (h.wellFormed.withMarking hm).matchesArcs_of_eq (h.wellFormed.withMarking hm') ?_
  rw [arcKey_withMarking hm, arcKey_withMarking hm']
  rfl

/-- The net of a route is equal to itself if each place has the markers of the one that is found under
its identifier. -/
theorem OfRoute.agrees_self (h : net.OfRoute source) (hindexed : net.Indexed) :
    ∃ r, net.agrees net = .ok r ∧ (r = true ↔ ∀ x ∈ net.places.toList, ∀ p y,
      net.placeById x.id = some p → net.places.get? p = some y → x.markers = y.markers) := by
  have hplaces : net.matchesPlaces net Place.agrees = true ↔ ∀ x ∈ net.places.toList, ∀ p y,
      net.placeById x.id = some p → net.places.get? p = some y → x.markers = y.markers := by
    rw [hindexed.matchesPlaces_iff (.refl net)]
    refine forall₂_congr fun x _ => forall₄_congr fun p y hp hy => ?_
    simp [Place.agrees, hindexed.id_of_placeById hp hy]
  have htransitions : net.matchesTransitions net = true :=
    matchesTransitions_of_eq rfl fun _ _ ht => h.transitionById_eq ht
  refine ⟨net.matchesPlaces net Place.agrees, ?_, hplaces⟩
  rw [agrees, htransitions, h.wellFormed.matchesArcs_of_eq h.wellFormed rfl]
  cases net.matchesPlaces net Place.agrees <;> simp

/-! ## The tables of the net of a route -/

theorem keepsNames_joinOnce (net : Net) (arc : Arc) : net.KeepsNames (net.joinOnce arc) := by
  unfold joinOnce
  split
  · exact .refl net
  · exact net.keepsNames_join arc

theorem Indexed.addEndpoint (h : net.Indexed) (e : Endpoint) : (net.addEndpoint e).1.Indexed := by
  cases hid : net.transitionById e.id with
  | some t =>
      rw [addEndpoint_of_some hid]
      dsimp only
      exact h.of_keepsNames (net.keepsNames_modifyContext t _)
  | none =>
      rw [addEndpoint_of_none hid]
      dsimp only
      exact (h.addTransition _).of_keepsNames (keepsNames_modifyContext _ _ _)

theorem Indexed.joinEndpoint (h : net.Indexed) (e : Endpoint) (t : TransitionId)
    (f : Option Context → Option Context) (arc : Arc) :
    (((net.addEndpoint e).1.modifyContext t f).joinOnce arc).Indexed :=
  (h.addEndpoint e).of_keepsNames ((keepsNames_modifyContext _ t f).trans (keepsNames_joinOnce _ arc))

theorem Indexed.addStage (h : net.Indexed) (s : Stage) : (net.addStage s).Indexed :=
  List.foldlRecOn s.ends _ (List.foldlRecOn s.starts _ (h.addPlace (.plain s.id 0))
    fun _ hnet e _ => hnet.joinEndpoint e _ _ _) fun _ hnet e _ => hnet.joinEndpoint e _ _ _

theorem keepsNames_closeTransition (source sink : PlaceId) (net : Net) (t : TransitionId) :
    net.KeepsNames (Net.closeTransition source sink net t) := by
  simp only [closeTransition]
  split <;> split
  · exact (keepsNames_join _ _).trans (keepsNames_join _ _)
  · exact keepsNames_join _ _
  · exact keepsNames_join _ _
  · exact .refl net

theorem keepsNames_passTransition (net : Net) (t : TransitionId) :
    net.KeepsNames (net.passTransition t) := by
  unfold passTransition
  exact net.keepsNames_modifyContext t _

theorem keepsNames_propagate (net : Net) (origin : PlaceId) : net.KeepsNames (net.propagate origin) :=
  List.foldlRecOn (motive := fun net' : Net => net.KeepsNames net') _ passTransition (.refl net)
    fun _ hnet t _ => hnet.trans (keepsNames_passTransition _ t)

end Net

namespace RouteNet

/-- The tables of the net of stages follow from its nodes. -/
theorem indexed_ofStages (id : String) (stages : List Stage) : (ofStages id stages).net.Indexed := by
  have hstages : (Net.ofStages id stages).Indexed :=
    List.foldlRecOn stages Net.addStage (.empty id) fun _ hnet s _ => hnet.addStage s
  have hends := (hstages.addPlace (.plain (id ++ "#source") 1)).addPlace (.plain (id ++ "#sink") 0)
  refine Net.Indexed.of_keepsNames ?_ (Net.keepsNames_propagate _ _)
  exact List.foldlRecOn (motive := Net.Indexed) _ _ hends
    fun _ hnet t _ => hnet.of_keepsNames (Net.keepsNames_closeTransition _ _ _ t)

variable {b : RouteNet} {id : String} {stages : List Stage}

/-- The place of a stage, the source and the sink, with their identifiers and markers. -/
theorem Translates.place_cases (h : b.Translates id stages) {p : PlaceId} {x : Place}
    (hx : b.net.places.get? p = some x) :
    (∃ s, stages[p.index]? = some s ∧ x.id = s.id ∧ x.markers = 0) ∨
    (p = b.source ∧ x.id = id ++ "#source" ∧ x.markers = 1) ∨
    (p = b.sink ∧ x.id = id ++ "#sink" ∧ x.markers = 0) := by
  have hdata := h.placeData?_eq p
  rw [Net.placeData?, hx, Option.map_some] at hdata
  have hkeys {id' : String} {n : Nat} (hplain : some x.data = some (.plain id' n)) :
      x.id = id' ∧ x.markers = n := by
    have heq := Option.some.inj hplain
    exact ⟨congrArg Place.id heq, congrArg Place.markers heq⟩
  cases hs : stages[p.index]? with
  | some s =>
      rw [hs] at hdata
      exact Or.inl ⟨s, rfl, hkeys hdata⟩
  | none =>
      rw [hs] at hdata
      by_cases hsource : p = b.source
      · rw [if_pos hsource] at hdata
        exact Or.inr (Or.inl ⟨hsource, hkeys hdata⟩)
      · by_cases hsink : p = b.sink
        · rw [if_neg hsource, if_pos hsink] at hdata
          exact Or.inr (Or.inr ⟨hsink, hkeys hdata⟩)
        · rw [if_neg hsource, if_neg hsink] at hdata
          cases hdata

theorem source_ne_sink (id : String) : id ++ "#source" ≠ id ++ "#sink" := by
  simp [← String.toList_inj]

/-- If no stage has the identifier of the source, the identifier of a place tells its markers. -/
theorem Translates.markers_eq (h : b.Translates id stages)
    (hfree : ∀ s ∈ stages, s.id ≠ id ++ "#source") {x : Place} (hx : x ∈ b.net.places.toList) :
    x.markers = if x.id = id ++ "#source" then 1 else 0 := by
  obtain ⟨p, hp⟩ := Arena.exists_get?_of_mem hx
  obtain ⟨s, hs, hid, hmarkers⟩ | ⟨-, hid, hmarkers⟩ | ⟨-, hid, hmarkers⟩ := h.place_cases hp
  · rw [hmarkers, hid, if_neg (hfree s (List.mem_of_getElem? hs))]
  · rw [hmarkers, hid, if_pos rfl]
  · rw [hmarkers, hid, if_neg (source_ne_sink id).symm]

/-- The source comes after the places of all stages, so it is what is found under its identifier. -/
theorem Translates.isLast_source (h : b.Translates id stages) :
    b.net.places.IsLast (·.id) (id ++ "#source") b.source := by
  have hsource : b.net.placeData? b.source = some (.plain (id ++ "#source") 1) := by
    rw [h.placeData?_eq, if_pos rfl, h.source]
    simp
  obtain ⟨x, hx, hdata⟩ := Net.placeData?_eq_some_iff.mp hsource
  refine ⟨⟨x, hx, congrArg Place.id hdata⟩, fun p y hy hid => ?_⟩
  obtain ⟨s, hs, -⟩ | ⟨rfl, -⟩ | ⟨-, hsink, -⟩ := h.place_cases hy
  · have hlt : p.index < stages.length := (List.getElem?_eq_some_iff.mp hs).1
    rw [h.source]
    exact Nat.le_of_lt hlt
  · exact Nat.le_refl _
  · exact absurd (hid.symm.trans hsink) (source_ne_sink id)

/-- **The net of a route is equal to itself exactly if no stage is named like the source.** -/
theorem Translates.agrees_self_iff (h : b.Translates id stages) (hnet : b.net.OfRoute (some b.source))
    (hindexed : b.net.Indexed) : ∃ r, b.net.agrees b.net = .ok r ∧
      (r = true ↔ ∀ s ∈ stages, s.id ≠ id ++ "#source") := by
  obtain ⟨r, hr, hiff⟩ := hnet.agrees_self hindexed
  refine ⟨r, hr, hiff.trans ⟨fun hsame s hs hclash => ?_, fun hfree x hx p y hp hy => ?_⟩⟩
  -- the place of such a stage is compared with the source
  · obtain ⟨i, hi⟩ := List.mem_iff_getElem?.mp hs
    have hstage : b.net.placeData? ⟨i⟩ = some (.plain s.id 0) := by
      rw [h.placeData?_eq, hi]
    have hsource := hindexed.placeById_eq_some_iff.mpr h.isLast_source
    obtain ⟨x, hx, hdata⟩ := Net.placeData?_eq_some_iff.mp hstage
    obtain ⟨⟨y, hy, -⟩, -⟩ := h.isLast_source
    have hid : x.id = id ++ "#source" := (congrArg Place.id hdata).trans hclash
    have hmarkers := hsame x (Arena.mem_of_get? hx) b.source y (hid ▸ hsource) hy
    have hzero : x.markers = 0 := congrArg Place.markers hdata
    have hone : y.markers = 1 := by
      have hplace := (hnet.place b.source y.data (Net.placeData?_eq_some_iff.mpr ⟨y, hy, rfl⟩)).1
      rwa [if_pos rfl] at hplace
    rw [hzero, hone] at hmarkers
    cases hmarkers
  · rw [h.markers_eq hfree hx, h.markers_eq hfree (Arena.mem_of_get? hy),
      hindexed.id_of_placeById hp hy]

end RouteNet

/-! ## The nets of the steps -/

/-- The net of a step has the markers of the step, and that of the first one is the net itself. -/
theorem stepNet_of_stepGraph {net : Net} {limit : Option Nat} {g : StepGraph} (h : net.WellFormed)
    (hg : net.stepGraph limit = .ok g) : g.stepNet 0 = .ok net ∧
      ∀ i < g.stepCount, ∃ m, m.size = net.places.size ∧ g.stepNet i = .ok (net.withMarking m) := by
  have hgraph := isReachabilityGraph_of_stepGraph h hg
  have hstep {i : Nat} {s : Step} (hs : g.steps[i]? = some s) :
      s.marking.size = net.places.size ∧ g.stepNet i = .ok (net.withMarking s.marking) := by
    have hreach := (exists_step_iff_reaches hg).mp
      ⟨s, Array.mem_toList_iff.mpr (Array.mem_of_getElem? hs), rfl⟩
    have hsize := hreach.size_eq.trans net.size_marking
    refine ⟨hsize, ?_⟩
    rw [StepGraph.stepNet, hs, hgraph.net_eq]
    exact if_pos hsize
  constructor
  · obtain ⟨s, hs, hmarking⟩ := hgraph.initial
    rw [(hstep hs).2, hmarking, Net.withMarking_marking]
  · intro i hi
    exact ⟨_, hstep (Array.getElem?_eq_getElem hi)⟩

/-- **A built net against its copies and its steps.** A copy of a net is the same value. The net of a
route is equal to it exactly if no stage is named like the source. When its step graph is built, the
net of the first step is the net itself, and that of every step is equal to it up to markers, in both
directions. -/
theorem RouteNet.equality_ofRoute (route : Route) : ∃ b, build route = .ok b ∧
    (∃ r, b.net.agrees b.net = .ok r ∧
      (r = true ↔ ∀ s ∈ Route.stages [route], s.id ≠ route.id ++ "#source")) ∧
    ∀ limit g, b.net.stepGraph limit = .ok g → g.stepNet 0 = .ok b.net ∧
      ∀ i < g.stepCount, ∃ net, g.stepNet i = .ok net ∧ net.agreesUpToMarkers b.net = .ok true ∧
        b.net.agreesUpToMarkers net = .ok true := by
  have hnet := (sound_ofRoute route).net
  have hindexed := indexed_ofStages route.id (Route.stages [route])
  refine ⟨ofRoute route, build_eq_ok route, ?_, fun limit g hg => ?_⟩
  · exact (translates_ofStages route.id (Route.stages [route])).agrees_self_iff hnet hindexed
  · obtain ⟨hfirst, hsteps⟩ := stepNet_of_stepGraph hnet.wellFormed hg
    refine ⟨hfirst, fun i hi => ?_⟩
    obtain ⟨m, hm, hstep⟩ := hsteps i hi
    have hto := hnet.agreesUpToMarkers_withMarking hindexed hm (ofRoute route).net.size_marking
    have hfrom := hnet.agreesUpToMarkers_withMarking hindexed (ofRoute route).net.size_marking hm
    rw [Net.withMarking_marking] at hto hfrom
    exact ⟨_, hstep, hto, hfrom⟩

/-- Goods are taken in at one end and given out at the other. -/
def transit : Route := .node ⟨"transit", [.app "in"], [.app "out"], []⟩ []

/-- A transit with a store beside it, which is named like the source. -/
def transitWithStore : Route :=
  .node ⟨"transit", [.app "in"], [.app "out"], []⟩ [.node ⟨"transit#source", [], [], []⟩ []]

/-- The net of the transit is equal to its copy, and up to markers to the net in the end. -/
theorem RouteNet.equality_ofRoute_transit : ∃ b g, build transit = .ok b ∧
    b.net.agrees b.net = .ok true ∧ b.net.stepGraph none = .ok g ∧ g.stepCount = 3 ∧
    g.stepNet 0 = .ok b.net ∧ ∃ net, g.stepNet 2 = .ok net ∧
      net.agreesUpToMarkers b.net = .ok true ∧ b.net.agreesUpToMarkers net = .ok true := by
  have hcount : ((ofRoute transit).net.survey none).toOption.map (·.stepCount) = some 3 := by
    decide +kernel
  obtain ⟨g, hg, hthree⟩ := exists_ok_of_map hcount
  rw [← Net.stepGraph_eq_survey] at hg
  obtain ⟨b, hb, ⟨r, hr, hfree⟩, hsteps⟩ := equality_ofRoute transit
  obtain rfl : ofRoute transit = b := Except.ok.inj ((build_eq_ok transit).symm.trans hb)
  obtain ⟨hfirst, hlast⟩ := hsteps none g hg
  obtain rfl := hfree.mpr (by decide)
  exact ⟨_, g, hb, hr, hg, hthree, hfirst, hlast 2 (by rw [hthree]; decide)⟩

/-- **The net of a route need not be equal to its copy.** The place of the store holds no marker, and
the source, which is found under its name, holds one. -/
theorem RouteNet.equality_ofRoute_transitWithStore : ∃ b, build transitWithStore = .ok b ∧
    b.net.agrees b.net = .ok false := by
  refine ⟨ofRoute transitWithStore, build_eq_ok _, ?_⟩
  decide +kernel

end RoutePolicy
