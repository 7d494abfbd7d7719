import RoutePolicy.Proofs.Concurrency
import RoutePolicy.Proofs.Route.RouteNet

set_option autoImplicit false

/-! # The sets that run at once are the sets that are enabled together

A processing step at work in the unfolded net has taken its markers already and not yet put any.
When what is held in this way is given back, a marking of the net is left (`Net.Refunds`). The start
of a processing step only moves markers to what is held, so this marking stays as it is; the end of
the step is then one firing of the net (`Net.UnfoldsTo.exists_refunds_works`). So the marking that
is left is always one that the net reaches (`Net.UnfoldsTo.exists_refunds`), and it has the markers
for all that is at work. With the way back, from transitions that are enabled together to their
starts, it is known exactly which sets are reported for a route (`parallel_sets`). -/

namespace RoutePolicy

variable {net u : Net} {limit : Option Nat} {g : StepGraph} {m μ μ' : Marking} {t : TransitionId}

namespace Net

/-! ## What the transitions at work hold -/

/-- The number of markers from a place that the transitions at work have taken. -/
def held (net : Net) (μ : Marking) (p : PlaceId) : Nat :=
  (net.apps.map fun t => μ.tokens (net.innerOf t) * net.arcCount p.node t.node).sum

/-- In the second marking the transitions at work have given back what they have taken. -/
def Refunds (net : Net) (μ m : Marking) : Prop :=
  ∀ p : PlaceId, net.contains p.node = true → m.tokens p = μ.tokens p + net.held μ p

/-- What is at work can be paid for out of what it holds. -/
theorem demand_le_held {ts : List TransitionId} (hts : ts.Nodup)
    (hwork : ∀ t ∈ ts, net.IsApp t ∧ 0 < μ.tokens (net.innerOf t)) (p : PlaceId) :
    net.demand ts p ≤ net.held μ p := by
  obtain ⟨us, hperm, hsub⟩ := hts.subperm fun t ht => mem_apps_iff.mpr (hwork t ht).1
  calc net.demand ts p
      ≤ (ts.map fun t => μ.tokens (net.innerOf t) * net.arcCount p.node t.node).sum :=
        List.sum_le_sum fun t ht => Nat.le_mul_of_pos_left _ (hwork t ht).2
    _ = (us.map fun t => μ.tokens (net.innerOf t) * net.arcCount p.node t.node).sum :=
        (hperm.map _).sum_eq.symm
    _ ≤ net.held μ p := (hsub.map _).sum_le_sum fun n _ => Nat.zero_le n

/-! ## Giving back -/

namespace UnfoldsTo

/-- When the steps of the unfolded net are known, the net fires each transition that it has the
markers for: a place that got too many markers would do so in the unfolded net as well. -/
theorem exists_firing (h : net.Ordinary) (hu : net.UnfoldsTo u) (hg : u.stepGraph limit = .ok g)
    (hm : net.Reaches net.marking m) (ht : net.contains t.node = true)
    (hle : ∀ p : PlaceId, net.contains p.node = true → net.arcCount p.node t.node ≤ m.tokens p) :
    ∃ m', net.Reaches net.marking m' ∧ ∀ p, m'.tokens p
      = m.tokens p - net.arcCount p.node t.node + net.arcCount t.node p.node := by
  have hen : net.Enables m t := by
    refine ⟨ht, fun p hp => ?_⟩
    calc 0 < net.arcCount p.node t.node := arcCount_pos_iff.mpr hp
      _ ≤ m.tokens p := hle p (h.wellFormed.source _ hp)
  obtain ⟨μ, hμ, htokens⟩ := hu.exists_reaches h.wellFormed hg hm
  obtain ⟨μ', hμ', hfired⟩ := hu.exists_fired hg hμ ht fun p hp => by
    rw [htokens]
    exact hen.2 p (arcCount_pos_iff.mp hp)
  have hrange (p : PlaceId) :
      m.tokens p - net.arcCount p.node t.node + net.arcCount t.node p.node < countRange := by
    rw [← htokens, ← hfired]
    exact hu.wellFormed.tokens_lt (fun p => hu.tokens p ▸ h.start p) hμ' p
  obtain ⟨m', hf⟩ := (h.wellFormed.exists_fireAt_iff (hm.size_eq.trans net.size_marking)).mpr
    ⟨hen, fun p _ => hrange p⟩
  exact ⟨m', hm.tail hf, h.wellFormed.tokens_fireAt hf⟩

/-- **One move of the unfolded net is no firing or one firing of the net**, up to what is held. A
start moves markers from a place to what is held, and an end fires what was started. -/
theorem exists_refunds_works (h : net.Ordinary) (hu : net.UnfoldsTo u)
    (hg : u.stepGraph limit = .ok g) (hworks : net.Works μ μ') (hm : net.Reaches net.marking m)
    (hrefund : net.Refunds μ m) : ∃ m', net.Reaches net.marking m' ∧ net.Refunds μ' m' := by
  cases hworks with
  | start t app enabled places inner =>
      have hheld : ∀ p, net.held μ' p = net.held μ p + net.arcCount p.node t.node := fun p =>
        atWorkSum_add app inner _
      refine ⟨m, hm, fun p hp => ?_⟩
      have hle := h.arcCount_le enabled p
      rw [hrefund p hp, places p hp, hheld]
      omega
  | finish t app places inner =>
      have hheld : ∀ p, net.held μ p = net.held μ' p + net.arcCount p.node t.node := fun p =>
        atWorkSum_add app inner _
      obtain ⟨m', hm', htokens⟩ := hu.exists_firing h hg hm app.contains fun p hp => by
        rw [hrefund p hp, hheld]
        omega
      refine ⟨m', hm', fun p hp => ?_⟩
      rw [htokens, hrefund p hp, places p hp, hheld]
      omega
  | control t enabled places inner =>
      have hheld : ∀ p, net.held μ' p = net.held μ p := fun p => atWorkSum_congr inner _
      have hle := h.arcCount_le enabled
      obtain ⟨m', hm', htokens⟩ := hu.exists_firing h hg hm enabled.1 fun p hp => by
        have := hle p
        rw [hrefund p hp]
        omega
      refine ⟨m', hm', fun p hp => ?_⟩
      have := hle p
      rw [htokens, hrefund p hp, places p hp, hheld]
      omega

/-- **Every marking that the unfolded net reaches refunds to one that the net reaches.** -/
theorem exists_refunds (h : net.Ordinary) (hu : net.UnfoldsTo u)
    (hg : u.stepGraph limit = .ok g) (hμ : u.Reaches u.marking μ) :
    ∃ m, net.Reaches net.marking m ∧ net.Refunds μ m := by
  refine hμ.induction (P := fun μ => ∃ m, net.Reaches net.marking m ∧ net.Refunds μ m) ?_ ?_
  · refine ⟨net.marking, .refl net _, fun p _ => ?_⟩
    -- no inner place is marked in the beginning
    have hinner (t : TransitionId) : u.marking.tokens (net.innerOf t) = 0 := by
      rw [hu.tokens, tokens_innerOf net.size_marking]
    rw [hu.tokens, held, ← atWorkSum, atWorkSum_eq_zero fun t _ => hinner t, Nat.add_zero]
  · rintro μ₁ v μ₂ hμ₁ ⟨m₁, hm₁, hrefund⟩ hf
    have hmoves := hu.wellFormed.moves_of_fireAt (hμ₁.size_eq.trans u.size_marking) hf
    exact hu.exists_refunds_works h hg (hu.works h.wellFormed hmoves) hm₁ hrefund

end UnfoldsTo

/-! ## Sets of names -/

/-- The transitions whose names are in the set. -/
def named (net : Net) (set : NameSet) : List TransitionId :=
  net.transitions.indices.filter fun t => (net.transitions.get? t).any (·.id ∈ set)

/-- The set has at least two members, all of them are processing steps, and some sequence of firings
leads to a marking that has the markers for all of them at once. -/
structure CanRunAtOnce (net : Net) (set : NameSet) : Prop where
  several : 2 ≤ set.size
  steps : ∀ id ∈ set, ∃ t x, net.transitions.get? t = some x ∧ x.role = .app ∧ x.id = id
  enabled : ∃ m, net.CanReach m ∧ net.EnabledTogether m (net.named set)

section

variable {source : Option PlaceId} {set : NameSet}

theorem mem_named_iff : t ∈ net.named set ↔ ∃ x, net.transitions.get? t = some x ∧ x.id ∈ set := by
  rw [named, List.mem_filter, Arena.mem_indices_iff, Option.any_eq_true]
  simp only [decide_eq_true_eq]
  exact ⟨And.right, fun h => ⟨h.elim fun _ hx => Arena.contains_of_get? hx.1, h⟩⟩

theorem nodup_named (net : Net) (set : NameSet) : (net.named set).Nodup :=
  (Arena.nodup_indices _).filter _

/-- In the net of a route no two transitions have the same name. -/
theorem OfRoute.eq_of_id_eq (hr : net.OfRoute source) {t' : TransitionId} {x x' : Transition}
    (hx : net.transitions.get? t = some x) (hx' : net.transitions.get? t' = some x')
    (hid : x.id = x'.id) : t = t' := by
  have ht := hr.transitionById_eq hx
  rw [hid, hr.transitionById_eq hx'] at ht
  exact (Option.some_inj.mp ht).symm

theorem OfRoute.isApp_of_mem_named (hr : net.OfRoute source)
    (hsteps : ∀ id ∈ set, ∃ t x, net.transitions.get? t = some x ∧ x.role = .app ∧ x.id = id)
    (ht : t ∈ net.named set) : net.IsApp t := by
  obtain ⟨x, hx, hid⟩ := mem_named_iff.mp ht
  obtain ⟨t', x', hx', hrole, heq⟩ := hsteps x.id hid
  obtain rfl := hr.eq_of_id_eq hx hx' heq.symm
  exact ⟨x', hx', hrole⟩

/-- At work are the processing steps whose inner places are marked. -/
theorem OfRoute.mem_atWork_iff (hr : net.OfRoute source) (hu : net.UnfoldsTo u) {id : String} :
    id ∈ u.atWork μ ↔ ∃ t x, net.transitions.get? t = some x ∧ x.role = .app ∧ x.id = id ∧
      0 < μ.tokens (net.innerOf t) := by
  rw [Net.mem_atWork_iff]
  constructor
  · rintro ⟨p, x, hx, horigin, hpos⟩
    rcases hu.place p x hx with hplain | ⟨t, y, hy, hrole, rfl⟩
    -- the places of a route's net stand for no transition
    · rw [Place.origin?, (hr.place p x hplain).2] at horigin
      cases horigin
    · obtain rfl := Option.some_inj.mp ((hu.inner t y hy hrole).symm.trans hx)
      exact ⟨t, y, hy, hrole, Option.some_inj.mp horigin, hpos⟩
  · rintro ⟨t, x, hx, hrole, rfl, hpos⟩
    exact ⟨net.innerOf t, _, hu.inner t x hx hrole, rfl, hpos⟩

/-- What is at work at once was enabled together. -/
theorem OfRoute.canRunAtOnce_atWork (hr : net.OfRoute source) (h : net.Ordinary)
    (hu : net.UnfoldsTo u) (hg : u.stepGraph limit = .ok g) (hμ : u.Reaches u.marking μ)
    (htwo : 2 ≤ (u.atWork μ).size) : net.CanRunAtOnce (u.atWork μ) := by
  constructor
  case several => exact htwo
  case steps =>
    intro id hid
    obtain ⟨t, x, hx, hrole, hid, -⟩ := (hr.mem_atWork_iff hu).mp hid
    exact ⟨t, x, hx, hrole, hid⟩
  case enabled =>
    obtain ⟨m, hm, hrefund⟩ := hu.exists_refunds h hg hμ
    have hwork : ∀ t ∈ net.named (u.atWork μ), net.IsApp t ∧ 0 < μ.tokens (net.innerOf t) := by
      intro t ht
      obtain ⟨x, hx, hid⟩ := mem_named_iff.mp ht
      obtain ⟨t', x', hx', hrole, heq, hpos⟩ := (hr.mem_atWork_iff hu).mp hid
      obtain rfl := hr.eq_of_id_eq hx hx' heq.symm
      exact ⟨⟨x', hx', hrole⟩, hpos⟩
    refine ⟨m, canReach_iff.mpr hm, fun p => ?_⟩
    by_cases hp : net.contains p.node = true
    · calc net.demand (net.named (u.atWork μ)) p
          ≤ net.held μ p := demand_le_held (net.nodup_named _) hwork p
        _ ≤ μ.tokens p + net.held μ p := Nat.le_add_left _ _
        _ = m.tokens p := (hrefund p hp).symm
    · rw [hr.wellFormed.demand_eq_zero hp]
      exact Nat.zero_le _

/-- What is enabled together is at work at once. -/
theorem OfRoute.exists_atWork_eq (hr : net.OfRoute source) (hu : net.UnfoldsTo u)
    (hg : u.stepGraph limit = .ok g) (hset : net.CanRunAtOnce set) :
    ∃ μ, u.Reaches u.marking μ ∧ u.atWork μ = set := by
  obtain ⟨m, hm, hen⟩ := hset.enabled
  rw [canReach_iff] at hm
  have happ : ∀ t ∈ net.named set, net.IsApp t := fun t ht => hr.isApp_of_mem_named hset.steps ht
  obtain ⟨μ, hμ, hmarked⟩ := hu.exists_marked hr.wellFormed hg hm happ hen
  have hinner (t : TransitionId) (ht : net.IsApp t) :
      0 < μ.tokens (net.innerOf t) ↔ t ∈ net.named set := by
    rw [hmarked]
    constructor
    · rintro ⟨t', ht', heq⟩
      rwa [(ht.innerOf_inj (happ t' ht')).mp heq]
    · intro hmem
      exact ⟨t, hmem, rfl⟩
  refine ⟨μ, hμ, SortedSet.ext_mem fun id => ?_⟩
  rw [hr.mem_atWork_iff hu]
  constructor
  · rintro ⟨t, x, hx, hrole, rfl, hpos⟩
    obtain ⟨x', hx', hid⟩ := mem_named_iff.mp ((hinner t ⟨x, hx, hrole⟩).mp hpos)
    obtain rfl := Option.some_inj.mp (hx.symm.trans hx')
    exact hid
  · intro hid
    obtain ⟨t, x, hx, hrole, rfl⟩ := hset.steps id hid
    exact ⟨t, x, hx, hrole, rfl, (hinner t ⟨x, hx, hrole⟩).mpr (mem_named_iff.mpr ⟨x, hx, hid⟩)⟩

/-- Of what can run at once, all parts with at least two members can as well. -/
theorem CanRunAtOnce.mono {part : NameSet} (hset : net.CanRunAtOnce set)
    (hsub : ∀ id ∈ part, id ∈ set) (htwo : 2 ≤ part.size) : net.CanRunAtOnce part := by
  constructor
  case several => exact htwo
  case steps => exact fun id hid => hset.steps id (hsub id hid)
  case enabled =>
    obtain ⟨m, hm, hen⟩ := hset.enabled
    have hnamed : (net.named part).Sublist (net.named set) := by
      refine List.monotone_filter_right _ fun t ht => ?_
      obtain ⟨x, hx, hid⟩ := (Option.any_eq_true _ _).mp ht
      exact (Option.any_eq_true _ _).mpr ⟨x, hx, decide_eq_true (hsub _ (of_decide_eq_true hid))⟩
    exact ⟨m, hm, hen.sublist hnamed⟩

/-- The sets that can run at once are those that are enabled together at some marking. -/
theorem OfRoute.mem_parallelSets_iff (hr : net.OfRoute source) (h : net.Ordinary)
    {sets : List (List String)} (hsets : net.parallelSets limit = .ok sets) {names : List String} :
    names ∈ sets ↔ ∃ set : NameSet, net.CanRunAtOnce set ∧ set.toList = names := by
  obtain ⟨u, g, hunfold, hu, hg⟩ := exists_unfolded_of_parallelSets hr.wellFormed hsets
  rw [RoutePolicy.mem_parallelSets_iff hunfold hg hsets]
  constructor
  · rintro ⟨μ, hμ, htwo, rfl⟩
    exact ⟨u.atWork μ, hr.canRunAtOnce_atWork h hu hg hμ htwo, rfl⟩
  · rintro ⟨set, hset, rfl⟩
    obtain ⟨μ, hμ, rfl⟩ := hr.exists_atWork_eq hu hg hset
    exact ⟨μ, hμ, hset.several, rfl⟩

end

end Net

/-- **The sets that are reported for a route are exactly those of at least two processing steps for
which some sequence of firings leads to the markers that all of them take at once.** With a set all
its parts of at least two members are reported. The report is in ascending order, in which no set
occurs twice. -/
theorem parallel_sets {route : Route} {sets : List (List String)}
    (h : (RouteNet.ofRoute route).net.parallelSets limit = .ok sets) :
    (∀ set : NameSet, set.toList ∈ sets ↔ (RouteNet.ofRoute route).net.CanRunAtOnce set) ∧
    (∀ names ∈ sets, ∃ set : NameSet, set.toList = names) ∧
    (∀ set part : NameSet, set.toList ∈ sets → (∀ id ∈ part, id ∈ set) → 2 ≤ part.size →
      part.toList ∈ sets) ∧
    sets.Pairwise fun names names' => compare names names' = .lt := by
  have hmem (names : List String) : names ∈ sets ↔
      ∃ set : NameSet, (RouteNet.ofRoute route).net.CanRunAtOnce set ∧ set.toList = names :=
    (RouteNet.sound_ofRoute route).net.mem_parallelSets_iff (RouteNet.ordinary_ofRoute route) h
  have hiff (set : NameSet) :
      set.toList ∈ sets ↔ (RouteNet.ofRoute route).net.CanRunAtOnce set := by
    rw [hmem]
    constructor
    · rintro ⟨set', hset', heq⟩
      obtain rfl : set' = set := SortedSet.ext_mem fun id => by
        rw [SortedSet.mem_def, heq, SortedSet.mem_def]
      exact hset'
    · intro hset
      exact ⟨set, hset, rfl⟩
  refine ⟨hiff, fun names hnames => ?_, fun set part hset hsub htwo => ?_, ?_⟩
  · obtain ⟨set, -, heq⟩ := (hmem names).mp hnames
    exact ⟨set, heq⟩
  · exact (hiff part).mpr (((hiff set).mp hset).mono hsub htwo)
  · exact Net.pairwise_parallelSets h

/-- Two steps that both follow on the same one. -/
def branching : Route :=
  .node ⟨"root", [], [], []⟩
    [.node ⟨"s1", [.app "E0"], [.app "E1"], ["R1"]⟩ [],
      .node ⟨"s2", [.app "E0"], [.app "E2"], ["R2"]⟩ []]

/-- They can run at once, and neither can with the step before them. -/
theorem parallel_sets_branching :
    (RouteNet.ofRoute branching).net.parallelSets none = .ok [["E1", "E2"]] ∧
    (RouteNet.ofRoute branching).net.CanRunAtOnce (.ofList ["E1", "E2"]) ∧
    ¬(RouteNet.ofRoute branching).net.CanRunAtOnce (.ofList ["E0", "E1"]) := by
  have hsets : (RouteNet.ofRoute branching).net.parallelSets none = .ok [["E1", "E2"]] := by
    rw [Net.parallelSets_eq_survey]
    decide +kernel
  obtain ⟨hiff, -⟩ := parallel_sets hsets
  exact ⟨hsets, (hiff _).mp (by decide), fun hset => absurd ((hiff _).mpr hset) (by decide)⟩

end RoutePolicy
