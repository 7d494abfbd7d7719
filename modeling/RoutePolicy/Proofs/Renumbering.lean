import RoutePolicy.Proofs.MaximalPaths
import RoutePolicy.Proofs.Net.Renumbering
import RoutePolicy.Proofs.ParallelSets

set_option autoImplicit false

/-! # What is explored of a renumbered net

A net and its renumbered net have as many nodes and arcs, as many steps and paths, or meet their
limits alike, and the same transitions can run at once. The arcs that are used in one net are, under
their new numbers, those that are used in the other (`Net.Renumbers.uses_iff`). -/

namespace RoutePolicy

variable {net net' : Net} {ρ : Renumbering} {g g' : StepGraph} {limit : Nat}
  {stepLimit stepLimit' pathLimit pathLimit' : Option Nat} {target : String} {set : NameSet}
  {source source' : Option PlaceId}

/-- Lists without repetitions whose elements correspond to each other are the same up to their
order. -/
theorem perm_map_of_mem_iff {α : Type} (e : α ≃ α) {l l' : List α} (hl : l.Nodup) (hl' : l'.Nodup)
    (h : ∀ a, e a ∈ l' ↔ a ∈ l) : (l.map e).Perm l' := by
  refine (List.perm_ext_iff_of_nodup (hl.map e.injective) hl').mpr fun b => ?_
  obtain ⟨a, rfl⟩ := e.surjective b
  rw [h, List.mem_map_of_injective e.injective]

theorem length_indices {ι α : Type} [Index ι] (a : Arena ι α) : a.indices.length = a.size := by
  simp [Arena.indices]

/-- The path along the renumbered nodes. -/
def Renumbering.path (ρ : Renumbering) : Equiv.Perm Path where
  toFun p := ⟨p.nodes.map ρ.node, p.cyclic⟩
  invFun p := ⟨p.nodes.map ρ.node.symm, p.cyclic⟩
  left_inv p := by simp
  right_inv p := by simp

/-- The net that was explored is the net of its step graph. -/
theorem Net.Ordinary.of_stepGraph (h : net.Ordinary) (hg : net.stepGraph stepLimit = .ok g) :
    g.net.Ordinary := net_of_stepGraph hg ▸ h

namespace Net.Renumbers

variable (h : net.Renumbers ρ net')

include h

/-! ## Nodes and arcs -/

theorem perm_indices_places :
    (net.places.indices.map (ρ .place)).Perm net'.places.indices :=
  perm_map_of_mem_iff _ (Arena.nodup_indices _) (Arena.nodup_indices _) fun p => by
    rw [Arena.mem_indices_iff, Arena.mem_indices_iff]
    exact h.contains_place p

theorem perm_indices_transitions :
    (net.transitions.indices.map (ρ .transition)).Perm net'.transitions.indices :=
  perm_map_of_mem_iff _ (Arena.nodup_indices _) (Arena.nodup_indices _) fun t => by
    rw [Arena.mem_indices_iff, Arena.mem_indices_iff]
    exact h.contains_transition t

theorem size_places : net'.places.size = net.places.size := by
  have hlength := h.perm_indices_places.length_eq
  rwa [List.length_map, length_indices, length_indices, eq_comm] at hlength

theorem size_transitions : net'.transitions.size = net.transitions.size := by
  have hlength := h.perm_indices_transitions.length_eq
  rwa [List.length_map, length_indices, length_indices, eq_comm] at hlength

theorem size_arcs (hnet : net.Ordinary) (hnet' : net'.Ordinary) :
    net'.arcs.size = net.arcs.size := by
  have hlength := (perm_map_of_mem_iff ρ.arc hnet.nodup hnet'.nodup h.arcs).length_eq
  rwa [List.length_map, eq_comm] at hlength

/-- The transitions found under a name hold the same. -/
theorem transitionData?_transitionById (hr : net.OfRoute source) (hr' : net'.OfRoute source')
    (id : String) : (net'.transitionById id).bind net'.transitionData?
      = (net.transitionById id).bind net.transitionData? := by
  refine Option.ext fun x => ?_
  have hfound {net : Net} {source : Option PlaceId} (hr : net.OfRoute source) :
      (net.transitionById id).bind net.transitionData? = some x ↔
        ∃ t, net.transitionData? t = some x ∧ x.id = id := by
    rw [Option.bind_eq_some_iff]
    refine exists_congr fun t => ?_
    rw [hr.named]
    constructor
    · rintro ⟨⟨y, hy, hid⟩, hx⟩
      obtain rfl := Option.some.inj (hx.symm.trans hy)
      exact ⟨hx, hid⟩
    · rintro ⟨hx, hid⟩
      exact ⟨⟨x, hx, hid⟩, hx⟩
  rw [hfound hr, hfound hr', ← (ρ .transition).exists_congr_right]
  simp only [h.transition]

/-! ## Steps and used arcs -/

section

variable (hnet : net.Ordinary) (hnet' : net'.Ordinary)

include hnet hnet'

/-- What fires in one net fires in the other. -/
theorem mem_fired (hg : net.stepGraph stepLimit = .ok g) (hg' : net'.stepGraph stepLimit' = .ok g')
    {t : TransitionId} (ht : t ∈ g.fired) : ρ .transition t ∈ g'.fired := by
  obtain ⟨m, hm, hen⟩ := (StepGraph.mem_fired_iff_enables hnet.wellFormed hg).mp ht
  have hmatch := h.matching hnet hnet'
  obtain ⟨m', hm', hcorr⟩ :=
    hmatch.exists_reaches hnet.wellFormed hnet'.wellFormed (canReach_iff.mp hm)
  exact (StepGraph.mem_fired_iff_enables hnet'.wellFormed hg').mpr
    ⟨m', canReach_iff.mpr hm', hmatch.enables hnet'.wellFormed ⟨hen.1, rfl⟩ hcorr hen⟩

theorem uses (hg : net.stepGraph stepLimit = .ok g) (hg' : net'.stepGraph stepLimit' = .ok g')
    {n m : Node} (huses : g.Uses n m) : g'.Uses (ρ.node n) (ρ.node m) := by
  obtain ⟨harc, v, hv, hend⟩ := huses
  rw [net_of_stepGraph hg] at harc
  obtain ⟨v', hv', heq⟩ := StepGraph.mem_fired_iff.mp
    (h.mem_fired hnet hnet' hg hg' (StepGraph.mem_fired_iff.mpr ⟨v, hv, rfl⟩))
  refine ⟨net_of_stepGraph hg' ▸ (h.arcs ⟨n, m⟩).mpr harc, v', hv', ?_⟩
  rw [heq, ← ρ.node_handle]
  exact hend.imp (congrArg ρ.node) (congrArg ρ.node)

/-- **The used arcs are the same under their new numbers.** -/
theorem uses_iff (hg : net.stepGraph stepLimit = .ok g) (hg' : net'.stepGraph stepLimit' = .ok g')
    {n m : Node} : g'.Uses (ρ.node n) (ρ.node m) ↔ g.Uses n m := by
  refine ⟨fun huses => ?_, h.uses hnet hnet' hg hg'⟩
  have hback := h.symm.uses hnet' hnet hg' hg huses
  rwa [ρ.node_symm_apply, ρ.node_symm_apply] at hback

/-- The renumbering of nodes as an isomorphism of the used arcs. -/
def usesIso (hg : net.stepGraph stepLimit = .ok g) (hg' : net'.stepGraph stepLimit' = .ok g') :
    g.Uses ≃r g'.Uses :=
  ⟨ρ.node, h.uses_iff hnet hnet' hg hg'⟩

end

/-! ## Paths -/

section

variable (hnet : net.Ordinary) (hnet' : net'.Ordinary)
  (hg : net.stepGraph stepLimit = .ok g) (hg' : net'.stepGraph stepLimit' = .ok g')

include hnet hnet' hg hg'

/-- **As many paths are met.** -/
theorem length_met : g'.successors.met.length = g.successors.met.length := by
  have hord := hnet.of_stepGraph hg
  have hord' := hnet'.of_stepGraph hg'
  have hnodup := (g.isSimple_successors hord.nodup).nodup_met
  have hnodup' := (g'.isSimple_successors hord'.nodup).nodup_met
  have hperm := perm_map_of_mem_iff ρ.path hnodup hnodup' fun p => by
    rw [StepGraph.mem_met_iff hord.wellFormed, StepGraph.mem_met_iff hord'.wellFormed]
    have hchain := isChain_map_iff (h.usesIso hnet hnet' hg hg') (w := p.nodes)
    have hclosed := isClosed_map_iff ρ.node.injective (w := p.nodes)
    have hnodup := List.nodup_map_iff ρ.node.injective (l := p.nodes)
    refine and_congr hchain (and_congr (by simp [Renumbering.path]) ?_)
    show (if p.cyclic then IsClosed (p.nodes.map ρ.node) else (p.nodes.map ρ.node).Nodup) ↔ _
    rw [hclosed, hnodup]
  rw [← hperm.length_eq, List.length_map]

/-- **As many paths are maximal.** -/
theorem size_paths {s s' : PathSet} (hs : g.pathSet pathLimit = .ok s)
    (hs' : g'.pathSet pathLimit' = .ok s') : s'.size = s.size := by
  have hord := hnet.of_stepGraph hg
  have hord' := hnet'.of_stepGraph hg'
  have hnodup := (PathSet.isComplete_of_pathSet hord.wellFormed hord.nodup hs).nodup
  have hnodup' := (PathSet.isComplete_of_pathSet hord'.wellFormed hord'.nodup hs').nodup
  have hperm := perm_map_of_mem_iff ρ.path hnodup hnodup' fun p => by
    rw [PathSet.mem_paths_iff hord.wellFormed hs, PathSet.mem_paths_iff hord'.wellFormed hs']
    have hchain := isChain_map_iff (h.usesIso hnet hnet' hg hg') (w := p.nodes)
    have hclosed := isClosed_map_iff ρ.node.injective (w := p.nodes)
    have hstuck := isStuck_map_iff (h.usesIso hnet hnet' hg hg') (w := p.nodes)
    refine and_congr hchain (and_congr (by simp [Renumbering.path]) ?_)
    show (if p.cyclic then IsClosed (p.nodes.map ρ.node)
      else IsStuck g'.Uses (p.nodes.map ρ.node)) ↔ _
    rw [hclosed]
    split
    · rfl
    · exact hstuck
  rw [PathSet.size, PathSet.size, ← hperm.length_eq, List.length_map]

/-- **The paths of both nets are enumerated, and they are as many, or both enumerations meet the limit
alike.** -/
theorem pathSet (pathLimit : Option Nat) :
    (∃ s s', g.pathSet pathLimit = .ok s ∧ g'.pathSet pathLimit = .ok s' ∧ s'.size = s.size) ∨
    ∃ failure, g.pathSet pathLimit = .error failure ∧ g'.pathSet pathLimit = .error failure := by
  have heq {g : StepGraph} (hwf : g.net.WellFormed) : g.pathSet pathLimit = do
      Successors.checkLimit pathLimit g.successors.met.length
      return ⟨g.net, g.successors, longest g.successors.met,
        gather ((longest g.successors.met).filterMap fun p => p.nodes.head?.map (·, p))⟩ := by
    rw [StepGraph.pathSet, Successors.maximalPaths_eq (StepGraph.isGathered_successors hwf)]
    cases Successors.checkLimit pathLimit g.successors.met.length <;> rfl
  have hpaths := heq (hnet.of_stepGraph hg).wellFormed
  have hpaths' := heq (hnet'.of_stepGraph hg').wellFormed
  rw [h.length_met hnet hnet' hg hg'] at hpaths'
  cases hcheck : Successors.checkLimit pathLimit g.successors.met.length with
  | error failure =>
      rw [hcheck] at hpaths hpaths'
      exact Or.inr ⟨failure, hpaths, hpaths'⟩
  | ok =>
      rw [hcheck] at hpaths hpaths'
      exact Or.inl ⟨_, _, hpaths, hpaths', h.size_paths hnet hnet' hg hg' hpaths hpaths'⟩

end

/-! ## Transitions that run at once -/

/-- The transitions with the names of a set are the same under their new numbers. -/
theorem perm_named (set : NameSet) :
    ((net.named set).map (ρ .transition)).Perm (net'.named set) :=
  perm_map_of_mem_iff _ (net.nodup_named set) (net'.nodup_named set) fun t => by
    have hnamed (net : Net) (t : TransitionId) :
        t ∈ net.named set ↔ ∃ x, net.transitionData? t = some x ∧ x.id ∈ set := by
      rw [mem_named_iff]
      constructor
      · rintro ⟨x, hx, hid⟩
        exact ⟨x.data, transitionData?_eq_some_iff.mpr ⟨x, hx, rfl⟩, hid⟩
      · rintro ⟨_, hdata, hid⟩
        obtain ⟨x, hx, rfl⟩ := transitionData?_eq_some_iff.mp hdata
        exact ⟨x, hx, hid⟩
    rw [hnamed, hnamed, h.transition]

section

variable (hnet : net.Ordinary) (hnet' : net'.Ordinary)

include hnet hnet'

theorem demand (ts : List TransitionId) (p : PlaceId) :
    net'.demand (ts.map (ρ .transition)) (ρ .place p) = net.demand ts p := by
  induction ts with
  | nil => rfl
  | cons t ts ih =>
      rw [List.map_cons, demand_cons, demand_cons, ih]
      exact congrArg (· + _) (h.arcCount hnet hnet' p.node t.node)

/-- What can run at once in one net can do so in the other. -/
theorem canRunAtOnce (hset : net.CanRunAtOnce set) : net'.CanRunAtOnce set := by
  constructor
  case several => exact hset.several
  case steps =>
    intro id hid
    obtain ⟨t, x, hx, happ, rfl⟩ := hset.steps id hid
    obtain ⟨x', hx', hdata⟩ := h.exists_get? hx
    exact ⟨_, x', hx', (show x'.data.role = x.data.role from congrArg _ hdata).trans happ,
      show x'.data.id = x.data.id from congrArg _ hdata⟩
  case enabled =>
    obtain ⟨m, hm, hen⟩ := hset.enabled
    obtain ⟨m', hm', hcorr⟩ := (h.matching hnet hnet').exists_reaches hnet.wellFormed
      hnet'.wellFormed (canReach_iff.mp hm)
    refine ⟨m', canReach_iff.mpr hm', fun p' => ?_⟩
    obtain ⟨p, rfl⟩ := (ρ .place).surjective p'
    have hperm : net'.demand ((net.named set).map (ρ .transition)) (ρ .place p)
        = net'.demand (net'.named set) (ρ .place p) :=
      ((h.perm_named set).map _).sum_eq
    rw [← hperm, h.demand hnet hnet']
    by_cases hp : net.contains p.node = true
    · rw [hcorr.tokens ⟨hp, rfl⟩]
      exact hen p
    · rw [hnet.wellFormed.demand_eq_zero hp]
      exact Nat.zero_le _

/-- The names at work at one time are those that can run at once, in both nets. -/
theorem parallelSets_eq {limit limit' : Option Nat} (hr : net.OfRoute source)
    (hr' : net'.OfRoute source') {sets sets' : List (List String)}
    (hsets : net.parallelSets limit = .ok sets) (hsets' : net'.parallelSets limit' = .ok sets') :
    sets' = sets := by
  have heq := SortedSet.ext_mem (s := ⟨sets', pairwise_parallelSets hsets'⟩)
    (t := ⟨sets, pairwise_parallelSets hsets⟩) fun names => by
      show names ∈ sets' ↔ names ∈ sets
      rw [hr'.mem_parallelSets_iff hnet' hsets', hr.mem_parallelSets_iff hnet hsets]
      exact exists_congr fun set => and_congr_left fun _ =>
        ⟨h.symm.canRunAtOnce hnet' hnet, h.canRunAtOnce hnet hnet'⟩
  exact congrArg SortedSet.toList heq

/-- **The same sets of transitions can run at once**, or both searches for them meet the limit
alike. -/
theorem parallelSets (hr : net.OfRoute source) (hr' : net'.OfRoute source')
    (hfills : net.FillsSlowly) (hfills' : net'.FillsSlowly) (hlimit : limit < countRange) :
    net'.parallelSets (some limit) = net.parallelSets (some limit) := by
  obtain ⟨u, hunfold, hu⟩ := exists_unfoldsTo hnet.wellFormed
  obtain ⟨u', hunfold', hu'⟩ := exists_unfoldsTo hnet'.wellFormed
  have hmatch := h.unfolded hnet hnet' hu hu' (hu.addsInner hunfold) (hu'.addsInner hunfold')
  have hmax : max limit 1 < countRange := max_lt hlimit (by decide)
  have hlimited {net u : Net} (hunfold : net.unfold = .ok u) : net.parallelSets (some limit) = do
      let g ← u.stepGraph (some limit)
      let sets := (g.steps.toList.map fun s => u.atWork s.marking).filter fun s => 2 ≤ s.size
      return (SortedSet.ofList (sets.map (·.toList))).toList := by
    rw [Net.parallelSets, hunfold]
    rfl
  rcases hmatch.stepGraph hu.wellFormed hu'.wellFormed
      ((hfills.unfolded hu).firesBelow hu.wellFormed hmax)
      ((hfills'.unfolded hu').firesBelow hu'.wellFormed hmax) with
    ⟨g, g', hg, hg', -⟩ | ⟨failure, herror, herror'⟩
  · have hsets := hlimited hunfold
    have hsets' := hlimited hunfold'
    rw [hg, ok_bind] at hsets
    rw [hg', ok_bind] at hsets'
    rw [hsets, hsets']
    exact congrArg Except.ok (h.parallelSets_eq hnet hnet' hr hr' hsets hsets')
  · rw [hlimited hunfold, hlimited hunfold', herror, herror']
    rfl

end

end Net.Renumbers

end RoutePolicy
