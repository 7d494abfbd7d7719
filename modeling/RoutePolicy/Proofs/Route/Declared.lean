import RoutePolicy.Proofs.Route.Translation

set_option autoImplicit false

/-! # What stages declare, and what the pass makes of it

While the stages are added, each transition is given the outputs of those that start at it, to be
written (`Net.Gives`). The pass keeps what a processing step writes, and overwrites what a structural
step writes and what any transition reads (`RouteNet.Spreads`). So every resource that is read was
declared by a stage, and came from there through structural steps only (`lineage_is_declared`). The
outputs of a stage reach its own endpoints when a processing step starts it
(`outputs_reach_endpoints`), and may reach none of them otherwise (`outputs_miss_unheard`). -/

namespace RoutePolicy

/-- The stage of a translated node of the tree. -/
def Route.HasStage (route : Route) (s : Stage) : Prop :=
  ∃ paths, route.Translated paths ∧ ∃ path ∈ paths, (route.at? path).map Route.stage = some s

theorem Route.mem_stages_iff {route : Route} {s : Stage} :
    s ∈ Route.stages [route] ↔ route.HasStage s := by
  obtain ⟨paths, hpaths, hstages⟩ := route.exists_translated
  rw [hstages, List.mem_filterMap]
  constructor
  · exact fun hs => ⟨paths, hpaths, hs⟩
  · rintro ⟨others, hothers, hs⟩
    exact hothers.unique hpaths ▸ hs

/-- What the stage gives to the endpoints at which it starts. -/
def Stage.shares (s : Stage) : List (String × List String) := s.starts.map fun e => (e.id, s.outputs)

/-- One of the stages starts at the transition and puts out the resource. -/
def RouteNet.Declares (b : RouteNet) (stages : List Stage) (t : TransitionId) (r : String) : Prop :=
  ∃ s ∈ stages, (∃ e ∈ s.starts, b.net.nodeName? t.node = some e.id) ∧ r ∈ s.outputs

/-- A translated node of the route starts at the transition and puts out the resource. -/
def Route.Declares (route : Route) (t : TransitionId) (r : String) : Prop :=
  ∃ s, route.HasStage s ∧
    (∃ e ∈ s.starts, (RouteNet.ofRoute route).net.nodeName? t.node = some e.id) ∧ r ∈ s.outputs

theorem Route.declares_iff {route : Route} {t : TransitionId} {r : String} :
    (RouteNet.ofRoute route).Declares (Route.stages [route]) t r ↔ route.Declares t r := by
  simp only [RouteNet.Declares, Route.Declares, Route.mem_stages_iff]

/-- What the contexts are after the pass. A supplier that was passed before hands on what it writes
in the end, and one that was not what the stages declare. -/
structure RouteNet.Spreads (b : RouteNet) (stages : List Stage) : Prop where
  app : ∀ t, (b.net.contextAt t).role = .app →
    (∀ r, r ∈ (b.net.contextAt t).write ↔ b.Declares stages t r) ∧
      (b.net.contextAt t).erase = (b.net.contextAt t).read.diff (b.net.contextAt t).write
  control : ∀ t, (b.net.contextAt t).role = .control →
    (b.net.contextAt t).write = (b.net.contextAt t).read ∧ (b.net.contextAt t).erase = ∅
  read : ∀ t r, r ∈ (b.net.contextAt t).read ↔ ∃ u, b.net.Feeds u t ∧
    if b.net.PassedBefore b.source u t then r ∈ (b.net.contextAt u).write
      else b.Declares stages u r

namespace Net

/-! ## Before the pass -/

/-- Each transition writes what was given to its identifier, and erases nothing yet. -/
structure Gives (net : Net) (given : List (String × List String)) : Prop where
  known : ∀ g ∈ given, ∃ t, net.transitionById g.1 = some t
  context : ∀ t x, net.transitionData? t = some x → ∃ c, x.context = some c ∧ c.erase = ∅ ∧
    ∀ r, r ∈ c.write ↔ ∃ g ∈ given, g.1 = x.id ∧ r ∈ g.2

section

variable {net : Net} {given : List (String × List String)} {t : TransitionId} {id : String}

theorem Gives.addPlace (h : net.Gives given) (x : Place) : (net.addPlace x).Gives given :=
  ⟨h.known, h.context⟩

theorem Gives.join (h : net.Gives given) (arc : Arc) : (net.join arc).Gives given :=
  ⟨by simpa using h.known, by simpa using h.context⟩

theorem Gives.joinOnce (h : net.Gives given) (arc : Arc) : (net.joinOnce arc).Gives given := by
  unfold Net.joinOnce
  split
  · exact h
  · exact h.join arc

/-- A change that leaves what is written and erased. -/
theorem Gives.modifyContext (h : net.Gives given) (t : TransitionId) {f : Context → Context}
    (hf : ∀ c, (f c).write = c.write ∧ (f c).erase = c.erase) :
    (net.modifyContext t fun c => some (f (c.getD default))).Gives given := by
  refine ⟨h.known, fun u x hx => ?_⟩
  rw [transitionData?_modifyContext] at hx
  split at hx
  · obtain ⟨y, hy, rfl⟩ := Option.map_eq_some_iff.mp hx
    obtain ⟨c, hc, herase, hwrite⟩ := h.context u y hy
    refine ⟨f c, by rw [hc, Option.getD_some], (hf c).2.trans herase, fun r => ?_⟩
    rw [(hf c).1]
    exact hwrite r
  · exact h.context u x hx

/-- The outputs of a stage are given to one of its endpoints. -/
theorem Gives.give (h : net.Gives given) {source : Option PlaceId} (hnet : net.OfRoute source)
    (hid : net.transitionById id = some t) (outputs : List String) :
    (net.modifyContext t fun c => some { c.getD default with
      write := (c.getD default).write.insertMany outputs }).Gives (given ++ [(id, outputs)]) := by
  constructor
  case known =>
    refine List.forall_mem_append.mpr ⟨h.known, ?_⟩
    rw [List.forall_mem_singleton]
    exact ⟨t, hid⟩
  case context =>
    intro u x hx
    rw [transitionData?_modifyContext] at hx
    simp only [List.mem_append, List.mem_singleton, or_and_right, exists_or, exists_eq_left]
    split at hx
    · rename_i htu
      subst htu
      obtain ⟨y, hy, rfl⟩ := Option.map_eq_some_iff.mp hx
      obtain ⟨c, hc, herase, hwrite⟩ := h.context t y hy
      obtain ⟨y', hy', heq⟩ := (hnet.named id t).mp hid
      obtain rfl := Option.some_inj.mp (hy.symm.trans hy')
      refine ⟨{ c with write := c.write.insertMany outputs }, by rw [hc, Option.getD_some], herase,
        fun r => ?_⟩
      rw [SortedSet.mem_insertMany, hwrite, and_iff_right heq.symm]
    · rename_i htu
      obtain ⟨c, hc, herase, hwrite⟩ := h.context u x hx
      refine ⟨c, hc, herase, fun r => (hwrite r).trans (or_iff_left fun h' => htu ?_).symm⟩
      exact Option.some_inj.mp (hid.symm.trans ((hnet.named id u).mpr ⟨x, hx, h'.1.symm⟩))

/-- A new transition was given nothing. -/
theorem Gives.addEndpoint (h : net.Gives given) (e : Endpoint) :
    (net.addEndpoint e).1.Gives given := by
  have hkeeps (c : Context) : (e.tagged c).write = c.write ∧ (e.tagged c).erase = c.erase :=
    ⟨rfl, rfl⟩
  cases hid : net.transitionById e.id with
  | some t =>
      rw [addEndpoint_of_some hid]
      exact h.modifyContext t hkeeps
  | none =>
      rw [addEndpoint_of_none hid]
      refine Gives.modifyContext ⟨fun g hg => ?_, fun u x hx => ?_⟩ _ hkeeps
      · rw [transitionById_addTransition]
        split
        · exact ⟨_, rfl⟩
        · exact h.known g hg
      · rw [transitionData?_addTransition] at hx
        split at hx
        · obtain rfl := Option.some_inj.mp hx
          refine ⟨_, rfl, rfl, fun r => iff_of_false List.not_mem_nil ?_⟩
          rintro ⟨g, hg, hname, -⟩
          obtain ⟨t, ht⟩ := h.known g hg
          have hname : g.1 = e.id := hname
          rw [hname, hid] at ht
          cases ht
        · exact h.context u x hx

theorem Gives.addStart (h : net.Gives given) (hnet : net.OfRoute none) (place : PlaceId)
    (outputs : List String) (e : Endpoint) :
    (Net.addStart place outputs net e).Gives (given ++ [(e.id, outputs)]) := by
  unfold Net.addStart
  exact ((h.addEndpoint e).give (hnet.addEndpoint e).1 (transitionById_addEndpoint net e)
    outputs).joinOnce _

theorem Gives.addEnd (h : net.Gives given) (place : PlaceId) (outputs : List String)
    (e : Endpoint) : (Net.addEnd place outputs net e).Gives given := by
  unfold Net.addEnd
  exact ((h.addEndpoint e).modifyContext _
    (f := fun c => { c with read := c.read.insertMany outputs }) fun _ => ⟨rfl, rfl⟩).joinOnce _

/-- The endpoints at which a stage starts are given its outputs one after the other. -/
theorem Gives.foldl_addStart (h : net.Gives given) (hnet : net.OfRoute none) {place : PlaceId}
    (hplace : net.contains place.node = true) (outputs : List String) (es : List Endpoint) :
    (es.foldl (Net.addStart place outputs) net).Gives
      (given ++ es.map fun e => (e.id, outputs)) := by
  induction es generalizing net given with
  | nil => simpa using h
  | cons e es ih =>
      obtain ⟨hnet', hwithin⟩ := hnet.addStart hplace outputs e
      rw [List.foldl_cons, List.map_cons, List.append_cons]
      exact ih (h.addStart hnet place outputs e) hnet' (hwithin _ hplace)

theorem Gives.addStage (h : net.Gives given) (hnet : net.OfRoute none) (s : Stage) :
    (net.addStage s).Gives (given ++ s.shares) := by
  have hplace : (net.addPlace (.plain s.id 0)).contains net.places.next.node = true :=
    (contains_addPlace net _ _).mpr (Or.inl rfl)
  have hstarts := (h.addPlace (.plain s.id 0)).foldl_addStart (hnet.addPlace (by simp) s.id) hplace
    s.outputs s.starts
  exact List.foldlRecOn (motive := fun net : Net => net.Gives (given ++ s.shares)) s.ends _ hstarts
    fun _ hnet e _ => hnet.addEnd _ s.outputs e

theorem gives_ofStages (id : String) (stages : List Stage) :
    (ofStages id stages).Gives (stages.flatMap Stage.shares) := by
  induction stages using List.reverseRecOn with
  | nil =>
      refine ⟨by simp, fun t x hx => ?_⟩
      obtain ⟨y, hy, -⟩ := transitionData?_eq_some_iff.mp hx
      exact absurd (Arena.mem_of_get? hy) List.not_mem_nil
  | append_singleton stages s ih =>
      rw [ofStages, List.foldl_append, List.flatMap_append, List.flatMap_singleton]
      exact ih.addStage (ofRoute_ofStages id stages) s

theorem contextAt_eq (net : Net) (t : TransitionId) :
    net.contextAt t = ((net.transitionData? t).bind (·.context)).getD default := by
  rw [contextAt, transitionData?, Option.bind_map]
  rfl

theorem Gives.erase_eq (h : net.Gives given) (t : TransitionId) :
    (net.contextAt t).erase = ∅ := by
  rw [contextAt_eq]
  cases hx : net.transitionData? t with
  | none => rfl
  | some x =>
      obtain ⟨c, hc, herase, -⟩ := h.context t x hx
      rw [Option.bind_some, hc, Option.getD_some, herase]

theorem Gives.mem_write_iff (h : net.Gives given) (t : TransitionId) (r : String) :
    r ∈ (net.contextAt t).write ↔
      ∃ id, net.nodeName? t.node = some id ∧ ∃ g ∈ given, g.1 = id ∧ r ∈ g.2 := by
  have hname : net.nodeName? t.node = (net.transitionData? t).map (·.id) := by
    rw [transitionData?, Option.map_map]
    rfl
  rw [contextAt_eq, hname]
  cases hx : net.transitionData? t with
  | none => simpa using not_mem_default_write
  | some x =>
      obtain ⟨c, hc, -, hwrite⟩ := h.context t x hx
      rw [Option.bind_some, hc, Option.getD_some, hwrite]
      simp

theorem passedBefore_propagate_iff (net : Net) (origin : PlaceId) (u t : TransitionId) :
    (net.propagate origin).PassedBefore origin u t ↔ net.PassedBefore origin u t := by
  have hpassed : net.Passed (net.propagate origin) := passed_foldl net _
  rw [PassedBefore, propagationOrder_congr hpassed.after (congrArg Arena.size hpassed.arcs)
    hpassed.size]
  rfl

/-- What the pass does to a context, with all that it depends on read off the net it gives. -/
theorem WellFormed.exists_read_propagate (h : net.WellFormed) (origin : PlaceId)
    (t : TransitionId) : ∃ read : NameSet,
      (net.propagate origin).contextAt t = (net.contextAt t).withRead read ∧
      ∀ r, r ∈ read ↔ ∃ u, (net.propagate origin).Feeds u t ∧
        if (net.propagate origin).PassedBefore origin u t
          then r ∈ ((net.propagate origin).contextAt u).write else r ∈ (net.contextAt u).write := by
  have hpassed : net.Passed (net.propagate origin) := passed_foldl net _
  simp only [hpassed.feeds_iff, passedBefore_propagate_iff]
  by_cases ht : net.contains t.node = true
  · obtain ⟨read, heq, hread⟩ := h.contextAt_propagate origin ht
    refine ⟨read, heq, fun r => (hread r).trans (exists_congr fun u => and_congr_right fun _ => ?_)⟩
    split <;> rfl
  · -- there is no such transition before or after the pass
    have hnone {net : Net} (ht : ¬net.contains t.node = true) : net.contextAt t = default := by
      rw [contains_iff_transitionData?, not_exists] at ht
      rw [contextAt_eq, Option.eq_none_iff_forall_ne_some.mpr ht, Option.bind_none,
        Option.getD_none]
    refine ⟨∅, ?_, fun r => iff_of_false List.not_mem_nil ?_⟩
    · rw [hnone ht, hnone (by rwa [hpassed.nodes])]
      rfl
    · rintro ⟨u, hfeeds, -⟩
      exact ht (h.contains_of_feeds hfeeds).2

end

end Net

/-! ## After the pass -/

namespace RouteNet

theorem mem_shares_iff {stages : List Stage} {name : Option String} {r : String} :
    (∃ id, name = some id ∧ ∃ g ∈ stages.flatMap Stage.shares, g.1 = id ∧ r ∈ g.2) ↔
      ∃ s ∈ stages, (∃ e ∈ s.starts, name = some e.id) ∧ r ∈ s.outputs := by
  simp only [List.mem_flatMap, Stage.shares, List.mem_map]
  constructor
  · rintro ⟨id, rfl, g, ⟨s, hs, e, he, rfl⟩, rfl, hr⟩
    exact ⟨s, hs, ⟨e, he, rfl⟩, hr⟩
  · rintro ⟨s, hs, ⟨e, he, rfl⟩, hr⟩
    exact ⟨_, rfl, _, ⟨s, hs, e, he, rfl⟩, rfl, hr⟩

/-- **After the pass** a processing step writes what the stages declare and erases the rest of what it
reads, a structural step writes what it reads, and what is read comes from the suppliers. -/
theorem spreads_ofStages (id : String) (stages : List Stage) :
    (ofStages id stages).Spreads stages := by
  obtain ⟨closed, hnet, hclosed, -, -, hdata⟩ := exists_closed_ofStages id stages
  have hgives := Net.gives_ofStages id stages
  have hcontext (t : TransitionId) :
      closed.contextAt t = (Net.ofStages id stages).contextAt t := by
    rw [Net.contextAt_eq, Net.contextAt_eq, hdata]
  have hdeclares (t : TransitionId) (r : String) :
      r ∈ (closed.contextAt t).write ↔ (ofStages id stages).Declares stages t r := by
    rw [hcontext, hgives.mem_write_iff, Declares, nodeName?_ofStages, mem_shares_iff]
  have herase (t : TransitionId) : (closed.contextAt t).erase = ∅ := by
    rw [hcontext, hgives.erase_eq]
  -- each transition gets its read set once, as the suppliers are at that moment
  have hpass (t : TransitionId) : ∃ read : NameSet,
      ((ofStages id stages).net.contextAt t) = (closed.contextAt t).withRead read ∧
      ∀ r, r ∈ read ↔ ∃ u, (ofStages id stages).net.Feeds u t ∧
        if (ofStages id stages).net.PassedBefore (ofStages id stages).source u t
          then r ∈ ((ofStages id stages).net.contextAt u).write
          else (ofStages id stages).Declares stages u r := by
    simp only [← hdeclares, hnet]
    exact hclosed.wellFormed.exists_read_propagate _ t
  constructor
  case app =>
    intro t hrole
    obtain ⟨read, heq, -⟩ := hpass t
    rw [heq, Context.role_withRead] at hrole
    rw [heq, Context.withRead_of_app read hrole]
    exact ⟨hdeclares t, rfl⟩
  case control =>
    intro t hrole
    obtain ⟨read, heq, -⟩ := hpass t
    rw [heq, Context.role_withRead] at hrole
    rw [heq, Context.withRead_of_control read hrole]
    exact ⟨rfl, herase t⟩
  case read =>
    intro t r
    obtain ⟨read, heq, hread⟩ := hpass t
    rw [heq, Context.read_withRead]
    exact hread r

section

variable {b : RouteNet} {stages : List Stage} {s : Stage} {t u : TransitionId} {r : String}

/-- **What is read was declared** at the beginning of a chain of structural steps. The induction is on
the position of the transition in the pass: a structural step that was passed before hands on what it
reads itself. -/
theorem Spreads.exists_origin (h : b.Spreads stages) (hr : r ∈ (b.net.contextAt t).read) :
    ∃ w v, b.Declares stages w r ∧
      Relation.ReflTransGen (fun u v => b.net.Feeds u v ∧ (b.net.contextAt v).role = .control) w v ∧
      b.net.Feeds v t := by
  induction hn : (b.net.propagationOrder b.source).idxOf t using Nat.strong_induction_on
    generalizing t with
  | _ n ih =>
      obtain ⟨u, hfeeds, hu⟩ := (h.read t r).mp hr
      split at hu
      · rename_i hbefore
        cases hrole : (b.net.contextAt u).role with
        | app => exact ⟨u, u, ((h.app u hrole).1 r).mp hu, .refl, hfeeds⟩
        | control =>
            rw [(h.control u hrole).1] at hu
            obtain ⟨w, v, hw, hchain, hv⟩ := ih _ (hn ▸ hbefore) hu rfl
            exact ⟨w, u, hw, hchain.tail ⟨hv, hrole⟩, hfeeds⟩
      · exact ⟨u, u, hu, .refl, hfeeds⟩

/-- A processing step hands on what it declares. -/
theorem Spreads.mem_read_of_app (h : b.Spreads stages) (hfeeds : b.net.Feeds u t)
    (hrole : (b.net.contextAt u).role = .app) (hu : b.Declares stages u r) :
    r ∈ (b.net.contextAt t).read := by
  refine (h.read t r).mpr ⟨u, hfeeds, ?_⟩
  split
  · exact ((h.app u hrole).1 r).mpr hu
  · exact hu

/-- The endpoints of the stages have transitions. -/
theorem Translates.exists_transition {id : String} (h : b.Translates id stages) (hs : s ∈ stages)
    {e : Endpoint} (he : e ∈ s.endpoints) : ∃ t : TransitionId, b.net.nodeName? t.node = some e.id := by
  have hid : e.id ∈ b.net.transitionIds := by
    rw [h.transitions, List.mem_eraseDups]
    exact List.mem_map_of_mem (List.mem_flatMap.mpr ⟨s, hs, he⟩)
  obtain ⟨i, hi⟩ := List.mem_iff_getElem?.mp hid
  exact ⟨⟨i⟩, (b.net.nodeName?_transition ⟨i⟩).trans hi⟩

/-- The transitions at which a stage starts feed those at which it ends. -/
theorem Translates.feeds {id : String} (h : b.Translates id stages) (hs : s ∈ stages)
    {e e' : Endpoint} (he : e ∈ s.starts) (he' : e' ∈ s.ends)
    (hu : b.net.nodeName? u.node = some e.id) (ht : b.net.nodeName? t.node = some e'.id) :
    b.net.Feeds u t := by
  obtain ⟨i, hi⟩ := List.mem_iff_getElem?.mp hs
  exact ⟨⟨i⟩, (h.arcs _).mpr (.start hi he hu), (h.arcs _).mpr (.finish hi he' ht)⟩

end

end RouteNet

/-! ## Routes -/

/-- **The pass invents no lineage.** Whatever a transition reads was declared by a translated node,
and came to the transition from one at which that node starts, through structural steps only. A
processing step writes exactly what the nodes declare that start at it, and erases what it reads and
does not write; a structural step writes what it reads, and erases nothing. -/
theorem lineage_is_declared (route : Route) (t : TransitionId) :
    let b := RouteNet.ofRoute route
    (∀ r ∈ (b.net.contextAt t).read, ∃ w v, route.Declares w r ∧
      Relation.ReflTransGen (fun u v => b.net.Feeds u v ∧ (b.net.contextAt v).role = .control) w v ∧
      b.net.Feeds v t) ∧
    ((b.net.contextAt t).role = .app →
      (∀ r, r ∈ (b.net.contextAt t).write ↔ route.Declares t r) ∧
      ∀ r, r ∈ (b.net.contextAt t).erase ↔
        r ∈ (b.net.contextAt t).read ∧ r ∉ (b.net.contextAt t).write) ∧
    ((b.net.contextAt t).role = .control →
      (b.net.contextAt t).write = (b.net.contextAt t).read ∧ (b.net.contextAt t).erase = ∅) := by
  intro b
  have hspreads : b.Spreads (Route.stages [route]) := RouteNet.spreads_ofStages route.id _
  refine ⟨fun r hr => ?_, fun hrole => ?_, hspreads.control t⟩
  · obtain ⟨w, v, hw, hchain⟩ := hspreads.exists_origin hr
    exact ⟨w, v, Route.declares_iff.mp hw, hchain⟩
  · obtain ⟨hwrite, herase⟩ := hspreads.app t hrole
    refine ⟨fun r => (hwrite r).trans Route.declares_iff, fun r => ?_⟩
    rw [herase, SortedSet.mem_diff]

/-- The receiver reads what the first stage declares, by way of two structural steps. -/
theorem lineage_is_declared_handedOn :
    let b := RouteNet.ofRoute handedOn
    ∃ w v t, b.net.transitionById "z" = some t ∧ "R1" ∈ (b.net.contextAt t).read ∧
      handedOn.Declares w "R1" ∧
      Relation.ReflTransGen (fun u v => b.net.Feeds u v ∧ (b.net.contextAt v).role = .control) w v ∧
      b.net.Feeds v t := by
  intro b
  have hread : "R1" ∈ (b.net.contextAt ⟨3⟩).read := by decide +kernel
  obtain ⟨w, v, horigin⟩ := (lineage_is_declared handedOn ⟨3⟩).1 "R1" hread
  exact ⟨w, v, ⟨3⟩, by decide +kernel, hread, horigin⟩

/-- **The outputs of a translated node** are in the write set of each processing step at which the
node starts. A structural step at which it starts only writes what it reads. All transitions at which
the node ends read the outputs, if one of those at which it starts is a processing step. -/
theorem outputs_reach_endpoints (route : Route) (s : Stage) (hs : route.HasStage s) :
    let b := RouteNet.ofRoute route
    (∀ e ∈ s.starts, ∃ t, b.net.transitionById e.id = some t ∧
      ((b.net.contextAt t).role = .app → ∀ r ∈ s.outputs, r ∈ (b.net.contextAt t).write) ∧
      ((b.net.contextAt t).role = .control →
        (b.net.contextAt t).write = (b.net.contextAt t).read)) ∧
    ∀ e ∈ s.ends, ∃ t, b.net.transitionById e.id = some t ∧
      ((∃ e' ∈ s.starts, ∃ u, b.net.transitionById e'.id = some u ∧
        (b.net.contextAt u).role = .app) → ∀ r ∈ s.outputs, r ∈ (b.net.contextAt t).read) := by
  intro b
  have hspreads : b.Spreads (Route.stages [route]) := RouteNet.spreads_ofStages route.id _
  have htranslates : b.Translates route.id (Route.stages [route]) :=
    RouteNet.translates_ofStages route.id _
  have hnet := (RouteNet.sound_ofRoute route).net
  rw [← Route.mem_stages_iff] at hs
  constructor
  · intro e he
    obtain ⟨t, ht⟩ := htranslates.exists_transition hs (List.mem_append_left _ he)
    refine ⟨t, hnet.transitionById_eq_some_iff.mpr ht, fun hrole r hr => ?_, fun hrole => ?_⟩
    · exact ((hspreads.app t hrole).1 r).mpr ⟨s, hs, ⟨e, he, ht⟩, hr⟩
    · exact (hspreads.control t hrole).1
  · intro e he
    obtain ⟨t, ht⟩ := htranslates.exists_transition hs (List.mem_append_right _ he)
    refine ⟨t, hnet.transitionById_eq_some_iff.mpr ht, ?_⟩
    rintro ⟨e', he', u, hu, hrole⟩ r hr
    rw [hnet.transitionById_eq_some_iff] at hu
    exact hspreads.mem_read_of_app (htranslates.feeds hs he' he hu ht) hrole
      ⟨s, hs, ⟨e', he', hu⟩, hr⟩

/-- A processing step starts the first stage, so the structural step at its end reads the output. -/
theorem outputs_reach_endpoints_handedOn :
    let b := RouteNet.ofRoute handedOn
    handedOn.HasStage ⟨"s1", [.app "a"], [.control "c1"], ["R1"]⟩ ∧
      ∃ t, b.net.transitionById "c1" = some t ∧ "R1" ∈ (b.net.contextAt t).read := by
  intro b
  have hs : handedOn.HasStage ⟨"s1", [.app "a"], [.control "c1"], ["R1"]⟩ :=
    Route.mem_stages_iff.mp (by decide)
  obtain ⟨-, hends⟩ := outputs_reach_endpoints handedOn _ hs
  obtain ⟨t, ht, hread⟩ := hends (.control "c1") (by decide)
  refine ⟨hs, t, ht, hread ⟨.app "a", by decide, ⟨0⟩, ?_, ?_⟩ "R1" (by decide)⟩
  · decide +kernel
  · decide +kernel

/-- A structural step starts the route, and nothing starts the stage below it. -/
def unheard : Route :=
  .node ⟨"route", [.control "relay"], [.app "reader"], ["R"]⟩
    [.node ⟨"stray", [], [.app "other"], ["S"]⟩ []]

/-- What the two stages put out reaches none of their endpoints. -/
theorem outputs_miss_unheard :
    let b := RouteNet.ofRoute unheard
    unheard.HasStage ⟨"route", [.control "relay"], [.app "reader"], ["R"]⟩ ∧
      unheard.HasStage ⟨"stray", [], [.app "other"], ["S"]⟩ ∧
      ∃ t u v, b.net.transitionById "relay" = some t ∧ b.net.transitionById "reader" = some u ∧
        b.net.transitionById "other" = some v ∧ "R" ∉ (b.net.contextAt t).write ∧
        "R" ∉ (b.net.contextAt u).read ∧ "S" ∉ (b.net.contextAt v).read := by
  refine ⟨Route.mem_stages_iff.mp (by decide), Route.mem_stages_iff.mp (by decide),
    ⟨0⟩, ⟨1⟩, ⟨2⟩, ?_⟩
  decide +kernel

end RoutePolicy
