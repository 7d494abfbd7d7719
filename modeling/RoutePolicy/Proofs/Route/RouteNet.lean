import RoutePolicy.Proofs.Net.Data
import RoutePolicy.Proofs.Net.Moves
import RoutePolicy.Route.RouteNet

set_option autoImplicit false

/-! # The net of a route is well formed and starts with one marker

What every step of the construction keeps is that the net is well formed, that all its places are
plain, that only the source holds a marker, and that each transition is found under its identifier
(`Net.OfRoute`). When the net is closed, arcs lead to every transition and
away from it (`RouteNet.joined_ofStages`). -/

namespace RoutePolicy

/-- A net of stages. The source is marked once, if there is one, and nothing else is. -/
structure Net.OfRoute (source : Option PlaceId) (net : Net) : Prop where
  wellFormed : net.WellFormed
  place : ∀ p x, net.placeData? p = some x →
    x.markers = (if source = some p then 1 else 0) ∧ x.kind = .plain
  named : ∀ id t, net.transitionById id = some t ↔ ∃ x, net.transitionData? t = some x ∧ x.id = id

/-- The net of a route, in which every transition has a place before it. -/
structure RouteNet.Sound (b : RouteNet) : Prop where
  net : b.net.OfRoute (some b.source)
  source : b.net.contains b.source.node = true
  input : ∀ t : TransitionId, b.net.contains t.node = true →
    ∃ p : PlaceId, ⟨p.node, t.node⟩ ∈ b.net.arcs.toList

/-- The context with the tags of an endpoint. -/
def Endpoint.tagged (e : Endpoint) (c : Context) : Context :=
  { c with tags := c.tags.insertMany e.tags }

namespace Net

/-- All nodes of the first net are nodes of the second. -/
def Within (net net' : Net) : Prop := ∀ n, net.contains n = true → net'.contains n = true

theorem Within.refl (net : Net) : net.Within net := fun _ hn => hn

theorem Within.trans {net net' net'' : Net} (h : net.Within net') (h' : net'.Within net'') :
    net.Within net'' := fun n hn => h' n (h n hn)

/-! ## Steps of the construction -/

section

variable {source : Option PlaceId} {net : Net}

theorem OfRoute.empty (id : String) : (Net.empty id).OfRoute none := by
  refine ⟨.empty id, fun p x hx => ?_, fun id t => ?_⟩
  · rw [placeData?_eq_some_iff] at hx
    obtain ⟨y, hy, -⟩ := hx
    exact absurd (Arena.mem_of_get? hy) List.not_mem_nil
  · constructor
    · intro h
      cases h
    · rintro ⟨x, hx, -⟩
      obtain ⟨y, hy, -⟩ := transitionData?_eq_some_iff.mp hx
      exact absurd (Arena.mem_of_get? hy) List.not_mem_nil

/-- A place without markers leaves the source as it is. -/
theorem OfRoute.addPlace (h : net.OfRoute source) (hs : source ≠ some net.places.next)
    (id : String) : (net.addPlace (.plain id 0)).OfRoute source := by
  refine ⟨h.wellFormed.addPlace _, fun p x hx => ?_, h.named⟩
  rw [placeData?_addPlace] at hx
  split at hx
  · rename_i hp
    obtain rfl := Option.some_inj.mp hx
    rw [if_neg (hp ▸ hs)]
    exact ⟨rfl, rfl⟩
  · exact h.place p x hx

/-- A place with one marker becomes the source. -/
theorem OfRoute.addSource (h : net.OfRoute none) (id : String) :
    (net.addPlace (.plain id 1)).OfRoute (some net.places.next) := by
  refine ⟨h.wellFormed.addPlace _, fun p x hx => ?_, h.named⟩
  rw [placeData?_addPlace] at hx
  split at hx
  · rename_i hp
    obtain rfl := Option.some_inj.mp hx
    rw [hp, if_pos rfl]
    exact ⟨rfl, rfl⟩
  · rename_i hp
    rw [if_neg fun heq => hp (Option.some_inj.mp heq).symm]
    exact h.place p x hx

theorem OfRoute.addTransition (h : net.OfRoute source) {x : Transition}
    (hx : net.transitionById x.id = none) : (net.addTransition x).OfRoute source := by
  refine ⟨h.wellFormed.addTransition x, h.place, fun id t => ?_⟩
  rw [transitionById_addTransition, transitionData?_addTransition]
  have hnext : ¬net.contains net.transitions.next.node = true := not_contains_next_transition net
  by_cases ht : t = net.transitions.next
  · subst ht
    -- no identifier was given the new number before
    have hnone : net.transitionById id ≠ some net.transitions.next := fun hid => by
      obtain ⟨y, hy, -⟩ := (h.named id _).mp hid
      exact hnext (contains_iff_transitionData?.mpr ⟨y, hy⟩)
    rw [if_pos rfl]
    constructor
    · intro hid
      split at hid
      · rename_i heq
        exact ⟨x.data, rfl, heq.symm⟩
      · exact absurd hid hnone
    · rintro ⟨y, hy, rfl⟩
      obtain rfl := Option.some_inj.mp hy
      exact if_pos rfl
  · rw [if_neg ht, ← h.named]
    split
    · rename_i hid
      rw [hid, hx, Option.some_inj]
      exact ⟨fun heq => absurd heq.symm ht, fun heq => absurd heq (by simp)⟩
    · exact Iff.rfl

theorem OfRoute.modifyContext (h : net.OfRoute source) (t : TransitionId)
    (f : Option Context → Option Context) : (net.modifyContext t f).OfRoute source := by
  refine ⟨h.wellFormed.modifyContext t f, h.place, fun id u => ?_⟩
  rw [transitionById_modifyContext, h.named, transitionData?_modifyContext]
  split
  · simp
  · exact Iff.rfl

theorem OfRoute.join (h : net.OfRoute source) {arc : Arc}
    (hs : net.contains arc.source = true) (ht : net.contains arc.target = true)
    (hk : arc.source.kind ≠ arc.target.kind) : (net.join arc).OfRoute source := by
  refine ⟨h.wellFormed.join hs ht hk, fun p x hx => ?_, fun id t => ?_⟩
  · exact h.place p x (by simpa using hx)
  · simpa using h.named id t

theorem OfRoute.joinOnce (h : net.OfRoute source) {arc : Arc}
    (hs : net.contains arc.source = true) (ht : net.contains arc.target = true)
    (hk : arc.source.kind ≠ arc.target.kind) : (net.joinOnce arc).OfRoute source := by
  unfold Net.joinOnce
  split
  · exact h
  · exact h.join hs ht hk

theorem within_joinOnce (net : Net) (arc : Arc) : net.Within (net.joinOnce arc) := by
  intro n hn
  unfold Net.joinOnce
  split
  · exact hn
  · simpa using hn

end

/-- Each transition is found under its name. -/
theorem OfRoute.transitionById_eq {source : Option PlaceId} {net : Net} (h : net.OfRoute source)
    {t : TransitionId} {x : Transition} (hx : net.transitions.get? t = some x) :
    net.transitionById x.id = some t :=
  (h.named _ _).mpr ⟨x.data, transitionData?_eq_some_iff.mpr ⟨x, hx, rfl⟩, rfl⟩

/-! ## Stages -/

section

variable {net : Net} {place : PlaceId}

/-- The identifier is known from an earlier endpoint. -/
theorem addEndpoint_of_some {e : Endpoint} {t : TransitionId}
    (h : net.transitionById e.id = some t) :
    net.addEndpoint e = (net.modifyContext t fun c => some (e.tagged (c.getD default)), t) := by
  unfold Net.addEndpoint
  rw [h]
  rfl

/-- The identifier is new. -/
theorem addEndpoint_of_none {e : Endpoint} (h : net.transitionById e.id = none) :
    net.addEndpoint e = ((net.addTransition (.bare e.id (some (.ofRole e.role)))).modifyContext
      net.transitions.next fun c => some (e.tagged (c.getD default)), net.transitions.next) := by
  unfold Net.addEndpoint
  rw [h]
  rfl

/-- An endpoint has a transition in the net, a new one or that of an earlier stage. -/
theorem OfRoute.addEndpoint (h : net.OfRoute none) (e : Endpoint) :
    (net.addEndpoint e).1.OfRoute none ∧ net.Within (net.addEndpoint e).1 ∧
      (net.addEndpoint e).1.contains (net.addEndpoint e).2.node = true := by
  cases hid : net.transitionById e.id with
  | some t =>
      rw [addEndpoint_of_some hid]
      dsimp only
      obtain ⟨x, hx, -⟩ := (h.named e.id t).mp hid
      refine ⟨h.modifyContext t _, fun n hn => ?_, ?_⟩
      · simpa using hn
      · simpa using contains_iff_transitionData?.mpr ⟨x, hx⟩
  | none =>
      rw [addEndpoint_of_none hid]
      dsimp only
      refine ⟨(h.addTransition hid).modifyContext _ _, fun n hn => ?_, ?_⟩
      · simpa using (contains_addTransition net _ n).mpr (Or.inr hn)
      · simpa using (contains_addTransition net _ _).mpr (Or.inl rfl)

/-- The transition of an endpoint is joined to the place of its stage, on either side. -/
theorem OfRoute.joinEndpoint (h : net.OfRoute none) (hp : net.contains place.node = true)
    (e : Endpoint) (f : Option Context → Option Context) {arc : Arc}
    (harc : arc = ⟨(net.addEndpoint e).2.node, place.node⟩ ∨
      arc = ⟨place.node, (net.addEndpoint e).2.node⟩) :
    (((net.addEndpoint e).1.modifyContext (net.addEndpoint e).2 f).joinOnce arc).OfRoute none ∧
      net.Within (((net.addEndpoint e).1.modifyContext (net.addEndpoint e).2 f).joinOnce arc) := by
  obtain ⟨hnet, hwithin, ht⟩ := h.addEndpoint e
  have hplace := hwithin _ hp
  refine ⟨?_, hwithin.trans fun n hn => ?_⟩
  · rcases harc with rfl | rfl
    · exact (hnet.modifyContext _ f).joinOnce (by rwa [contains_modifyContext])
        (by rwa [contains_modifyContext]) (by simp [Handle.node])
    · exact (hnet.modifyContext _ f).joinOnce (by rwa [contains_modifyContext])
        (by rwa [contains_modifyContext]) (by simp [Handle.node])
  · exact within_joinOnce _ _ n (by rwa [contains_modifyContext])

theorem OfRoute.addStart (h : net.OfRoute none) (hp : net.contains place.node = true)
    (outputs : List String) (e : Endpoint) :
    (Net.addStart place outputs net e).OfRoute none ∧
      net.Within (Net.addStart place outputs net e) := h.joinEndpoint hp e _ (Or.inl rfl)

theorem OfRoute.addEnd (h : net.OfRoute none) (hp : net.contains place.node = true)
    (outputs : List String) (e : Endpoint) :
    (Net.addEnd place outputs net e).OfRoute none ∧
      net.Within (Net.addEnd place outputs net e) := h.joinEndpoint hp e _ (Or.inr rfl)

/-- The endpoints of a stage are added one after the other. -/
theorem OfRoute.foldl_endpoints {step : Net → Endpoint → Net}
    (hstep : ∀ {net : Net}, net.OfRoute none → net.contains place.node = true → ∀ e,
      (step net e).OfRoute none ∧ net.Within (step net e))
    (es : List Endpoint) (h : net.OfRoute none) (hp : net.contains place.node = true) :
    (es.foldl step net).OfRoute none ∧ net.Within (es.foldl step net) := by
  induction es generalizing net with
  | nil => exact ⟨h, .refl net⟩
  | cons e es ih =>
      obtain ⟨he, hwithin⟩ := hstep h hp e
      obtain ⟨hes, hwithin'⟩ := ih he (hwithin _ hp)
      exact ⟨hes, hwithin.trans hwithin'⟩

theorem OfRoute.addStage (h : net.OfRoute none) (s : Stage) : (net.addStage s).OfRoute none := by
  have hp : (net.addPlace (.plain s.id 0)).contains net.places.next.node = true :=
    (contains_addPlace net _ _).mpr (Or.inl rfl)
  obtain ⟨hstarts, hwithin⟩ := OfRoute.foldl_endpoints
    (fun h hp e => h.addStart hp s.outputs e) s.starts (h.addPlace (by simp) s.id) hp
  exact (OfRoute.foldl_endpoints (fun h hp e => h.addEnd hp s.outputs e) s.ends hstarts
    (hwithin _ hp)).1

theorem OfRoute.foldl_addStage (h : net.OfRoute none) (stages : List Stage) :
    (stages.foldl Net.addStage net).OfRoute none :=
  List.foldlRecOn stages Net.addStage h fun _ hnet s _ => hnet.addStage s

theorem ofRoute_ofStages (id : String) (stages : List Stage) :
    (ofStages id stages).OfRoute none := (OfRoute.empty id).foldl_addStage stages

end

/-! ## Closing the net -/

/-- The source comes before the sink, and it is the only marked place. -/
theorem OfRoute.addEnds {net : Net} (h : net.OfRoute none) (source sink : String) :
    ((net.addPlace (.plain source 1)).addPlace (.plain sink 0)).OfRoute (some net.places.next) ∧
    ((net.addPlace (.plain source 1)).addPlace (.plain sink 0)).contains net.places.next.node = true ∧
    ((net.addPlace (.plain source 1)).addPlace (.plain sink 0)).contains
      (net.addPlace (.plain source 1)).places.next.node = true := by
  have hhas : (net.addPlace (.plain source 1)).contains net.places.next.node = true :=
    (contains_addPlace net _ _).mpr (Or.inl rfl)
  have hne : some net.places.next ≠ some (net.addPlace (.plain source 1)).places.next := fun heq =>
    not_contains_next_place (net.addPlace (.plain source 1)) (Option.some_inj.mp heq ▸ hhas)
  exact ⟨(h.addSource source).addPlace hne sink, (contains_addPlace _ _ _).mpr (Or.inr hhas),
    (contains_addPlace _ _ _).mpr (Or.inl rfl)⟩

section

variable {net : Net} {source sink : PlaceId}

/-- The nodes stay, and the arcs as well. -/
structure Closes (net net' : Net) : Prop where
  nodes : ∀ n, net'.contains n = net.contains n
  arcs : ∀ arc ∈ net.arcs.toList, arc ∈ net'.arcs.toList

theorem Closes.refl (net : Net) : net.Closes net := ⟨fun _ => rfl, fun _ harc => harc⟩

theorem Closes.trans {net' net'' : Net} (h : net.Closes net') (h' : net'.Closes net'') :
    net.Closes net'' :=
  ⟨fun n => (h'.nodes n).trans (h.nodes n), fun arc harc => h'.arcs arc (h.arcs arc harc)⟩

theorem closes_join (net : Net) (arc : Arc) : net.Closes (net.join arc) := by
  refine ⟨fun n => contains_join net arc n, fun x hx => ?_⟩
  rw [arcs_join, Arena.toList_push]
  exact List.mem_append_left _ hx

/-- Arcs lead to the node and away from it. -/
def Joined (net : Net) (n : Node) : Prop :=
  (∃ arc ∈ net.arcs.toList, arc.target = n) ∧ ∃ arc ∈ net.arcs.toList, arc.source = n

theorem Joined.closes {net' : Net} {n : Node} (h : net.Joined n) (hcloses : net.Closes net') :
    net'.Joined n :=
  ⟨h.1.imp fun arc harc => ⟨hcloses.arcs arc harc.1, harc.2⟩,
    h.2.imp fun arc harc => ⟨hcloses.arcs arc harc.1, harc.2⟩⟩

theorem mem_join (net : Net) (arc : Arc) : arc ∈ (net.join arc).arcs.toList := by
  rw [arcs_join, Arena.toList_push]
  exact List.mem_append_right _ (List.mem_singleton_self _)

/-- A node whose list of arcs is empty is one that no arc leads to. -/
theorem WellFormed.incoming?_eq_nil_iff (h : net.WellFormed) {n : Node}
    (hn : net.contains n = true) :
    net.incoming? n = some [] ↔ ∀ arc ∈ net.arcs.toList, arc.target ≠ n :=
  h.incoming.eq_nil_iff (contains_iff_incoming?.mp hn)

theorem WellFormed.outgoing?_eq_nil_iff (h : net.WellFormed) {n : Node}
    (hn : net.contains n = true) :
    net.outgoing? n = some [] ↔ ∀ arc ∈ net.arcs.toList, arc.source ≠ n :=
  h.outgoing.eq_nil_iff (contains_iff_outgoing?.mp hn)

/-- A transition is joined to the source if nothing leads to it. -/
theorem OfRoute.joinSource (h : net.OfRoute (some source))
    (hsource : net.contains source.node = true) {t : TransitionId}
    (ht : net.contains t.node = true) : ∃ net', (if net.incoming? t.node = some [] then
      net.join ⟨source.node, t.node⟩ else net) = net' ∧ net'.OfRoute (some source) ∧
        net.Closes net' ∧ ∃ arc ∈ net'.arcs.toList, arc.target = t.node := by
  refine ⟨_, rfl, ?_⟩
  split
  · exact ⟨h.join hsource ht (by simp [Handle.node]), closes_join _ _, ⟨source.node, t.node⟩,
      mem_join _ _, rfl⟩
  · rename_i hne
    rw [h.wellFormed.incoming?_eq_nil_iff ht] at hne
    push Not at hne
    exact ⟨h, .refl net, hne⟩

/-- A transition is joined to the sink if it leads nowhere. -/
theorem OfRoute.joinSink (h : net.OfRoute (some source)) (hsink : net.contains sink.node = true)
    {t : TransitionId} (ht : net.contains t.node = true) : ∃ net',
      (if net.outgoing? t.node = some [] then net.join ⟨t.node, sink.node⟩ else net) = net' ∧
        net'.OfRoute (some source) ∧ net.Closes net' ∧
        ∃ arc ∈ net'.arcs.toList, arc.source = t.node := by
  refine ⟨_, rfl, ?_⟩
  split
  · exact ⟨h.join ht hsink (by simp [Handle.node]), closes_join _ _, ⟨t.node, sink.node⟩,
      mem_join _ _, rfl⟩
  · rename_i hne
    rw [h.wellFormed.outgoing?_eq_nil_iff ht] at hne
    push Not at hne
    exact ⟨h, .refl net, hne⟩

/-- A transition that was closed has arcs on both sides. -/
theorem OfRoute.closeTransition (h : net.OfRoute (some source))
    (hsource : net.contains source.node = true) (hsink : net.contains sink.node = true)
    {t : TransitionId} (ht : net.contains t.node = true) :
    (closeTransition source sink net t).OfRoute (some source) ∧
      net.Closes (closeTransition source sink net t) ∧
      (closeTransition source sink net t).Joined t.node := by
  obtain ⟨net₁, heq₁, hnet₁, hcloses₁, hinput⟩ := h.joinSource hsource ht
  obtain ⟨net₂, heq₂, hnet₂, hcloses₂, houtput⟩ := hnet₁.joinSink
    ((hcloses₁.nodes _).trans hsink) ((hcloses₁.nodes _).trans ht)
  simp only [Net.closeTransition, heq₁, heq₂]
  exact ⟨hnet₂, hcloses₁.trans hcloses₂,
    hinput.imp fun arc harc => ⟨hcloses₂.arcs arc harc.1, harc.2⟩, houtput⟩

theorem OfRoute.foldl_closeTransition (ts : List TransitionId) (h : net.OfRoute (some source))
    (hsource : net.contains source.node = true) (hsink : net.contains sink.node = true)
    (hts : ∀ t ∈ ts, net.contains t.node = true) :
    (ts.foldl (Net.closeTransition source sink) net).OfRoute (some source) ∧
      net.Closes (ts.foldl (Net.closeTransition source sink) net) ∧
      ∀ t ∈ ts, (ts.foldl (Net.closeTransition source sink) net).Joined t.node := by
  induction ts generalizing net with
  | nil => exact ⟨h, .refl net, by simp⟩
  | cons t ts ih =>
      obtain ⟨ht, hts⟩ := List.forall_mem_cons.mp hts
      obtain ⟨hnet, hcloses, hjoined⟩ := h.closeTransition hsource hsink ht
      obtain ⟨hlast, hcloses', hrest⟩ := ih hnet ((hcloses.nodes _).trans hsource)
        ((hcloses.nodes _).trans hsink) fun u hu => (hcloses.nodes _).trans (hts u hu)
      exact ⟨hlast, hcloses.trans hcloses',
        List.forall_mem_cons.mpr ⟨hjoined.closes hcloses', hrest⟩⟩

theorem transitionData?_closeTransition (net : Net) (t u : TransitionId) :
    (closeTransition source sink net t).transitionData? u = net.transitionData? u := by
  simp only [Net.closeTransition]
  split <;> split <;> simp only [transitionData?_join]

theorem transitionData?_foldl_closeTransition (net : Net) (ts : List TransitionId)
    (u : TransitionId) :
    (ts.foldl (Net.closeTransition source sink) net).transitionData? u = net.transitionData? u :=
  List.foldlRecOn (motive := fun net' : Net => net'.transitionData? u = net.transitionData? u) ts _
    rfl fun net' hnet t _ => (transitionData?_closeTransition net' t u).trans hnet

/-- The lineage of resources only changes contexts: what such a change keeps is kept. -/
theorem foldl_passTransition {P : Net → Prop} (ts : List TransitionId)
    (hstep : ∀ net t f, P net → P (net.modifyContext t f)) (h : P net) :
    P (ts.foldl passTransition net) := by
  refine List.foldlRecOn (motive := P) ts passTransition h fun net hnet t _ => ?_
  unfold passTransition
  exact hstep net t _ hnet

theorem OfRoute.propagate (h : net.OfRoute (some source)) (origin : PlaceId) :
    (net.propagate origin).OfRoute (some source) ∧ net.Closes (net.propagate origin) := by
  refine foldl_passTransition (P := fun net' => net'.OfRoute (some source) ∧ net.Closes net') _
    (fun net' t f hpassed => ?_) ⟨h, .refl net⟩
  obtain ⟨hnet, hcloses⟩ := hpassed
  have hkept : net'.Closes (net'.modifyContext t f) :=
    ⟨fun n => contains_modifyContext net' t f n, fun arc harc => harc⟩
  exact ⟨hnet.modifyContext t f, hcloses.trans hkept⟩

end

end Net

/-! ## Routes -/

/-- The net of stages is closed, so that every transition has arcs on both sides, and then the
lineage is passed on from the source. What the transitions hold does not change before that. -/
theorem RouteNet.exists_closed_ofStages (id : String) (stages : List Stage) : ∃ closed : Net,
    (RouteNet.ofStages id stages).net = closed.propagate (RouteNet.ofStages id stages).source ∧
    closed.OfRoute (some (RouteNet.ofStages id stages).source) ∧
    closed.contains (RouteNet.ofStages id stages).source.node = true ∧
    (∀ t : TransitionId, closed.contains t.node = true → closed.Joined t.node) ∧
    ∀ t, closed.transitionData? t = (Net.ofStages id stages).transitionData? t := by
  unfold RouteNet.ofStages
  dsimp only
  obtain ⟨hends, hsource, hsink⟩ := (Net.ofRoute_ofStages id stages).addEnds (id ++ "#source")
    (id ++ "#sink")
  have hdata (t : TransitionId) : (((Net.ofStages id stages).addPlace
      (.plain (id ++ "#source") 1)).addPlace (.plain (id ++ "#sink") 0)).transitionData? t
        = (Net.ofStages id stages).transitionData? t := rfl
  generalize (Net.ofStages id stages).places.next = source at *
  generalize ((Net.ofStages id stages).addPlace (.plain (id ++ "#source") 1)).places.next = sink at *
  generalize ((Net.ofStages id stages).addPlace (.plain (id ++ "#source") 1)).addPlace
    (.plain (id ++ "#sink") 0) = net at *
  obtain ⟨hclosed, hcloses, hjoined⟩ := hends.foldl_closeTransition net.transitions.indices
    hsource hsink fun t ht => Arena.mem_indices_iff.mp ht
  refine ⟨_, rfl, hclosed, (hcloses.nodes _).trans hsource, fun t ht => ?_, fun t => ?_⟩
  · rw [hcloses.nodes] at ht
    exact hjoined t (Arena.mem_indices_iff.mpr ht)
  · rw [Net.transitionData?_foldl_closeTransition, hdata]

/-- Passing on the lineage keeps the arcs. -/
theorem RouteNet.joined_ofStages (id : String) (stages : List Stage) :
    (RouteNet.ofStages id stages).net.OfRoute (some (RouteNet.ofStages id stages).source) ∧
    (RouteNet.ofStages id stages).net.contains (RouteNet.ofStages id stages).source.node = true ∧
    ∀ t : TransitionId, (RouteNet.ofStages id stages).net.contains t.node = true →
      (RouteNet.ofStages id stages).net.Joined t.node := by
  obtain ⟨closed, hnet, hclosed, hsource, hjoined, -⟩ := exists_closed_ofStages id stages
  obtain ⟨hprop, hpass⟩ := hclosed.propagate (RouteNet.ofStages id stages).source
  rw [hnet]
  refine ⟨hprop, (hpass.nodes _).trans hsource, fun t ht => ?_⟩
  rw [hpass.nodes] at ht
  exact (hjoined t ht).closes hpass

/-- **The net of stages starts with one marker, in the source, and has an arc to each
transition.** -/
theorem RouteNet.sound_ofStages (id : String) (stages : List Stage) :
    (RouteNet.ofStages id stages).Sound := by
  obtain ⟨hnet, hsource, hjoined⟩ := joined_ofStages id stages
  refine ⟨hnet, hsource, fun t ht => ?_⟩
  obtain ⟨⟨arc, harc, htarget⟩, -⟩ := hjoined t ht
  obtain ⟨p, rfl⟩ := hnet.wellFormed.exists_eq_into harc htarget
  exact ⟨p, harc⟩

/-- In the net of stages every transition has a place after it. -/
theorem RouteNet.exists_output_ofStages (id : String) (stages : List Stage) (t : TransitionId)
    (ht : (RouteNet.ofStages id stages).net.contains t.node = true) :
    ∃ p : PlaceId, ⟨t.node, p.node⟩ ∈ (RouteNet.ofStages id stages).net.arcs.toList := by
  obtain ⟨hnet, -, hjoined⟩ := joined_ofStages id stages
  obtain ⟨-, arc, harc, hsource⟩ := hjoined t ht
  obtain ⟨p, rfl⟩ := hnet.wellFormed.exists_eq_from harc hsource
  exact ⟨p, harc⟩

theorem RouteNet.sound_ofRoute (route : Route) : (RouteNet.ofRoute route).Sound :=
  sound_ofStages _ _

/-- The source holds the only marker. -/
theorem RouteNet.Sound.tokens {b : RouteNet} (h : b.Sound) (p : PlaceId) :
    b.net.marking.tokens p = if p = b.source then 1 else 0 := by
  rw [Net.tokens_marking]
  cases hx : b.net.placeData? p with
  | none =>
      rw [if_neg]
      · rfl
      · rintro rfl
        obtain ⟨x, hx'⟩ := Net.contains_iff_placeData?.mp h.source
        rw [hx] at hx'
        cases hx'
  | some x =>
      show x.markers = _
      rw [(h.net.place p x hx).1]
      simp only [Option.some.injEq, eq_comm]

/-! ## No two arcs between the same nodes

The stages are joined by arcs that are not there yet. To the source and the sink only nodes without
an arc on that side are joined, so no lists of arcs but those of the well-formed net tell that such
an arc is new. -/

namespace Net

section

variable {net : Net} {arc : Arc}

theorem nodup_join (h : net.arcs.toList.Nodup) (harc : arc ∉ net.arcs.toList) :
    (net.join arc).arcs.toList.Nodup := by
  rw [arcs_join, Arena.toList_push, List.nodup_append]
  refine ⟨h, List.nodup_singleton arc, fun x hx y hy hxy => harc ?_⟩
  rwa [← List.mem_singleton.mp hy, ← hxy]

theorem nodup_joinOnce (h : net.arcs.toList.Nodup) (arc : Arc) :
    (net.joinOnce arc).arcs.toList.Nodup := by
  unfold Net.joinOnce
  split
  · exact h
  · rename_i harc
    exact nodup_join h harc

theorem arcs_addEndpoint (net : Net) (e : Endpoint) : (net.addEndpoint e).1.arcs = net.arcs := by
  unfold Net.addEndpoint
  cases net.transitionById e.id <;> rfl

/-- The transition of an endpoint is joined to the place of its stage once. -/
theorem nodup_joinEndpoint (h : net.arcs.toList.Nodup) (e : Endpoint)
    (f : Option Context → Option Context) (arc : Arc) :
    (((net.addEndpoint e).1.modifyContext (net.addEndpoint e).2 f).joinOnce arc).arcs.toList.Nodup := by
  refine nodup_joinOnce ?_ arc
  rw [arcs_modifyContext, arcs_addEndpoint]
  exact h

theorem nodup_addStage (h : net.arcs.toList.Nodup) (s : Stage) :
    (net.addStage s).arcs.toList.Nodup := by
  refine List.foldlRecOn (motive := fun net : Net => net.arcs.toList.Nodup) s.ends _ ?_
    fun _ hnet e _ => nodup_joinEndpoint hnet e _ _
  exact List.foldlRecOn (motive := fun net : Net => net.arcs.toList.Nodup) s.starts _
    (b := net.addPlace (.plain s.id 0)) h fun _ hnet e _ => nodup_joinEndpoint hnet e _ _

theorem nodup_ofStages (id : String) (stages : List Stage) :
    (ofStages id stages).arcs.toList.Nodup :=
  List.foldlRecOn (motive := fun net : Net => net.arcs.toList.Nodup) stages addStage List.nodup_nil
    fun _ hnet s _ => nodup_addStage hnet s

/-- A transition gets an arc from the source if nothing leads to it, and one to the sink if it leads
nowhere. -/
theorem arcs_closeTransition (h : net.WellFormed) {source sink : PlaceId} {t : TransitionId}
    (hsource : net.contains source.node = true) (ht : net.contains t.node = true) :
    (closeTransition source sink net t).arcs.toList = net.arcs.toList
      ++ (if ∀ arc ∈ net.arcs.toList, arc.target ≠ t.node then [⟨source.node, t.node⟩] else [])
      ++ (if ∀ arc ∈ net.arcs.toList, arc.source ≠ t.node then [⟨t.node, sink.node⟩] else []) := by
  -- after the first half the net is still well formed, and the transition leads where it led
  obtain ⟨net', heq, hwf, ht', harcs, hfrom⟩ : ∃ net', (if net.incoming? t.node = some [] then
      net.join ⟨source.node, t.node⟩ else net) = net' ∧ net'.WellFormed ∧
        net'.contains t.node = true ∧ net'.arcs.toList = net.arcs.toList
          ++ (if ∀ arc ∈ net.arcs.toList, arc.target ≠ t.node then [⟨source.node, t.node⟩]
            else []) ∧
        ((∀ arc ∈ net'.arcs.toList, arc.source ≠ t.node) ↔
          ∀ arc ∈ net.arcs.toList, arc.source ≠ t.node) := by
    refine ⟨_, rfl, ?_⟩
    simp only [h.incoming?_eq_nil_iff ht]
    split
    · refine ⟨h.join hsource ht (by simp [Handle.node]), by simpa using ht, by simp, ?_⟩
      rw [arcs_join, Arena.toList_push, List.forall_mem_append, and_iff_left]
      simpa using node_ne_node source t
    · exact ⟨h, ht, (List.append_nil _).symm, Iff.rfl⟩
  simp only [Net.closeTransition, heq, hwf.outgoing?_eq_nil_iff ht', hfrom]
  split
  · rw [arcs_join, Arena.toList_push, harcs]
  · rw [harcs, List.append_nil]

theorem nodup_closeTransition (h : net.WellFormed) (hnodup : net.arcs.toList.Nodup)
    {source sink : PlaceId} {t : TransitionId} (hsource : net.contains source.node = true)
    (ht : net.contains t.node = true) : (closeTransition source sink net t).arcs.toList.Nodup := by
  have hadd {l : List Arc} {arc : Arc} {c : Prop} [Decidable c] (hl : l.Nodup)
      (hnew : c → arc ∉ l) : (l ++ if c then [arc] else []).Nodup := by
    split
    · rename_i hc
      rw [← List.concat_eq_append]
      exact hl.concat (hnew hc)
    · rwa [List.append_nil]
  rw [arcs_closeTransition h hsource ht]
  refine hadd (hadd hnodup fun hnone harc => hnone _ harc rfl) fun hnone harc => ?_
  rcases List.mem_append.mp harc with harc | harc
  · exact hnone _ harc rfl
  · split at harc
    · exact node_ne_node source t (congrArg Arc.source (List.mem_singleton.mp harc)).symm
    · exact absurd harc List.not_mem_nil

theorem OfRoute.nodup_foldl_closeTransition {source sink : PlaceId} (ts : List TransitionId)
    (h : net.OfRoute (some source)) (hnodup : net.arcs.toList.Nodup)
    (hsource : net.contains source.node = true) (hsink : net.contains sink.node = true)
    (hts : ∀ t ∈ ts, net.contains t.node = true) :
    (ts.foldl (Net.closeTransition source sink) net).arcs.toList.Nodup := by
  induction ts generalizing net with
  | nil => exact hnodup
  | cons t ts ih =>
      obtain ⟨ht, hts⟩ := List.forall_mem_cons.mp hts
      obtain ⟨hnet, hcloses, -⟩ := h.closeTransition hsource hsink ht
      exact ih hnet (nodup_closeTransition h.wellFormed hnodup hsource ht)
        ((hcloses.nodes _).trans hsource) ((hcloses.nodes _).trans hsink)
        fun u hu => (hcloses.nodes _).trans (hts u hu)

theorem arcs_propagate (net : Net) (origin : PlaceId) : (net.propagate origin).arcs = net.arcs :=
  foldl_passTransition (P := fun net' => net'.arcs = net.arcs) _ (fun _ _ _ h => h) rfl

end

end Net

/-- **At most one arc leads from one node of a route's net to another.** -/
theorem RouteNet.nodup_arcs_ofStages (id : String) (stages : List Stage) :
    (RouteNet.ofStages id stages).net.arcs.toList.Nodup := by
  unfold RouteNet.ofStages
  dsimp only
  obtain ⟨hends, hsource, hsink⟩ := (Net.ofRoute_ofStages id stages).addEnds (id ++ "#source")
    (id ++ "#sink")
  rw [Net.arcs_propagate]
  exact hends.nodup_foldl_closeTransition _ (Net.nodup_ofStages id stages) hsource hsink
    fun t ht => Arena.mem_indices_iff.mp ht

theorem RouteNet.nodup_arcs_ofRoute (route : Route) :
    (RouteNet.ofRoute route).net.arcs.toList.Nodup :=
  nodup_arcs_ofStages _ _

theorem RouteNet.ordinary_ofRoute (route : Route) : (RouteNet.ofRoute route).net.Ordinary := by
  have hsound := sound_ofRoute route
  refine ⟨hsound.net.wellFormed, nodup_arcs_ofRoute route, fun p => ?_⟩
  -- the source holds the only marker
  rw [hsound.tokens]
  split <;> decide

end RoutePolicy
