import RoutePolicy.Proofs.ParallelSets
import RoutePolicy.Proofs.Verification.Access
import RoutePolicy.Proofs.Verification.Clamping

set_option autoImplicit false

/-! # Verdicts on the number of uses

A rule that allows `n` uses of a resource is violated in two ways: a walk along used arcs from the
source meets more than `n` readers (`StepGraph.ReadsBeyond`), or some sequence of firings leads to a
marking with the markers for more than `n` readers, and for two at least, at once
(`Net.ReadsAtOnceBeyond`). When the net of a route is explored to the end there is no other way
(`usage_verdicts`).

A single reader in a set of transitions that run at once is counted as well. That makes no difference:
such a reader can fire, so a walk meets it. -/

namespace RoutePolicy

open Relation

/-- The number of readers of the resource among the nodes; one that comes up again counts each time. -/
def Net.readsOn (net : Net) (target : String) (w : List Node) : Nat :=
  (w.filterMap Node.transition?).countP (net.isReader target)

/-- Some walk along used arcs from the node meets more than `n` readers of the resource. -/
def StepGraph.ReadsBeyond (g : StepGraph) (target : String) (start : Node) (n : Nat) : Prop :=
  ∃ w, IsWalk g.Uses start w ∧ n < g.net.readsOn target w

/-- Some sequence of firings leads to markers enough for more than `n` different processing steps at
once that read the resource, and for at least two. -/
def Net.ReadsAtOnceBeyond (net : Net) (target : String) (n : Nat) : Prop :=
  ∃ m us, net.CanReach m ∧ us.Nodup ∧ max (n + 1) 2 ≤ us.length ∧ (∀ t ∈ us, net.IsApp t) ∧
    (∀ t ∈ us, net.HasContext t (·.reads target)) ∧ net.EnabledTogether m us

variable {net : Net} {g : StepGraph} {target : String} {n : Node} {p : PlaceId} {t : TransitionId}
  {ts us : List TransitionId} {k : Nat}

/-! ## Readers on a walk -/

namespace Net

theorem readsOn_append (net : Net) (target : String) (w w' : List Node) :
    net.readsOn target (w ++ w') = net.readsOn target w + net.readsOn target w' := by
  rw [readsOn, List.filterMap_append, List.countP_append]
  rfl

theorem readsOn_place (net : Net) (target : String) (p : PlaceId) (w : List Node) :
    net.readsOn target (p.node :: w) = net.readsOn target w := by
  rw [readsOn, List.filterMap_cons_none rfl]
  rfl

theorem readsOn_reader (ht : net.HasContext t (·.reads target)) (w : List Node) :
    net.readsOn target (t.node :: w) = net.readsOn target w + 1 := by
  have hnode : t.node.transition? = some t := Node.handle?_node t
  rw [readsOn, List.filterMap_cons_some hnode, List.countP_cons_of_pos (isReader_iff.mpr ht)]
  rfl

end Net

/-- The transitions among the nodes, as nodes. -/
theorem map_node_filterMap_transition? (w : List Node) :
    ((w.filterMap Node.transition?).map Handle.node).Sublist w := by
  induction w with
  | nil => exact .slnil
  | cons n w ih =>
      cases ht : n.transition? with
      | none =>
          rw [List.filterMap_cons_none ht]
          exact ih.cons n
      | some t =>
          obtain rfl := Node.handle?_eq_some_iff.mp ht
          rw [List.filterMap_cons_some ht, List.map_cons]
          exact ih.cons_cons t.node

/-- What a relation leads to is the end of a walk that goes on. -/
theorem exists_walk_of_transGen {α : Type} {R : α → α → Prop} {a b : α} (h : TransGen R a b) :
    ∃ w, IsWalk R a (a :: (w ++ [b])) := by
  obtain ⟨c, hac, hcb⟩ := TransGen.head'_iff.mp h
  obtain ⟨w, hw⟩ := exists_walk_of_reflTransGen hcb
  exact ⟨w, hw.cons hac⟩

namespace StepGraph

/-- The readers on a walk follow one on the other. -/
theorem readsAlong_of_walk {w : List Node} (hw : IsWalk g.Uses n (n :: w)) :
    g.ReadsAlong target n ((w.filterMap Node.transition?).filter (g.net.isReader target)) := by
  constructor
  case reads =>
    intro t ht
    exact Net.isReader_iff.mp (List.mem_filter.mp ht).2
  case chain =>
    have hall : (n :: w).Pairwise (TransGen g.Uses) :=
      List.isChain_iff_pairwise.mp (hw.chain.imp fun _ _ => .single)
    have hsub : (((w.filterMap Node.transition?).filter (g.net.isReader target)).map
        Handle.node).Sublist w :=
      (List.filter_sublist.map _).trans (map_node_filterMap_transition? w)
    exact (hall.sublist (hsub.cons_cons n)).isChain

/-- Readers that follow one on the other are met on a walk. -/
theorem ReadsAlong.exists_walk (h : g.ReadsAlong target n ts) :
    ∃ w, IsWalk g.Uses n (n :: w) ∧ ts.length ≤ g.net.readsOn target w := by
  induction ts generalizing n with
  | nil => exact ⟨[], .singleton g.Uses n, Nat.zero_le _⟩
  | cons t ts ih =>
      obtain ⟨ht, hway, hrest⟩ := cons_iff.mp h
      obtain ⟨w, hw⟩ := exists_walk_of_transGen hway
      obtain ⟨w', hw', hle⟩ := ih hrest
      -- the second walk starts with the reader that the first one ends with
      have hchain : (n :: w ++ t.node :: w').IsChain g.Uses :=
        List.isChain_split.mpr ⟨hw.chain, hw'.chain⟩
      refine ⟨w ++ t.node :: w', ⟨rfl, hchain⟩, ?_⟩
      rw [List.length_cons, Net.readsOn_append, Net.readsOn_reader ht]
      omega

/-- **A walk from a place meets more than `k` readers exactly if so many follow one on the other.** -/
theorem readsBeyond_iff : g.ReadsBeyond target p.node k ↔
    ∃ ts, ts.length = k + 1 ∧ g.ReadsAlong target p.node ts := by
  constructor
  · rintro ⟨w, hw, hlt⟩
    obtain ⟨n, w, rfl⟩ := List.exists_cons_of_ne_nil hw.ne_nil
    obtain rfl : n = p.node := by simpa using hw.start
    refine ⟨_, ?_, (readsAlong_of_walk hw).take (k + 1)⟩
    rw [Net.readsOn_place, Net.readsOn, List.countP_eq_length_filter] at hlt
    rw [List.length_take]
    omega
  · rintro ⟨ts, hlen, h⟩
    obtain ⟨w, hw, hle⟩ := h.exists_walk
    refine ⟨p.node :: w, hw, ?_⟩
    rw [Net.readsOn_place]
    omega

/-- The formula of a bound that is cut down to the number of readers says that no walk exceeds the
bound. -/
theorem holds_atMost_iff (hwf : g.net.WellFormed) :
    (Formula.atMost (min k (g.net.readerCount target)) target).Holds g p ↔
      ¬g.ReadsBeyond target p.node k := by
  rw [holds_atMost_min_iff hwf, readsBeyond_iff, ← holds_readsMoreThan_iff hwf]
  rfl

end StepGraph

/-! ## Readers at once -/

namespace Net

variable {limit : Option Nat} {source : Option PlaceId} {sets : List (List String)}

/-- The readers in a set of names are transitions with these names. -/
theorem OfRoute.readersIn_le_length (h : net.OfRoute source) (set : NameSet) :
    net.readersIn target set.toList ≤ ((net.named set).filter (net.isReader target)).length := by
  have hnodup : set.toList.Nodup := set.ascending.imp fun {a b} hlt => by
    rintro rfl
    rw [Std.compare_self] at hlt
    cases hlt
  have hsub : (set.toList.filter fun id => ((net.transitionById id).bind net.transitions.get?).any
      (·.hasContext (·.reads target))) ⊆ ((net.named set).filter (net.isReader target)).filterMap
        fun t => (net.transitions.get? t).map (·.id) := by
    intro id hid
    obtain ⟨hset, hreads⟩ := List.mem_filter.mp hid
    obtain ⟨x, hx, hread⟩ := (Option.any_eq_true _ _).mp hreads
    obtain ⟨t, ht, hget⟩ := Option.bind_eq_some_iff.mp hx
    obtain ⟨d, hd, rfl⟩ := (h.named id t).mp ht
    obtain ⟨y, hy, rfl⟩ := transitionData?_eq_some_iff.mp hd
    obtain rfl := Option.some_inj.mp (hget.symm.trans hy)
    refine List.mem_filterMap.mpr ⟨t, List.mem_filter.mpr ⟨?_, ?_⟩, by rw [hget]; rfl⟩
    · exact mem_named_iff.mpr ⟨x, hget, hset⟩
    · exact isReader_iff.mpr ⟨x, hget, hread⟩
  calc net.readersIn target set.toList
      = (set.toList.filter fun id => ((net.transitionById id).bind net.transitions.get?).any
          (·.hasContext (·.reads target))).length := List.countP_eq_length_filter
    _ ≤ (((net.named set).filter (net.isReader target)).filterMap
          fun t => (net.transitions.get? t).map (·.id)).length :=
        ((hnodup.filter _).subperm hsub).length_le
    _ ≤ ((net.named set).filter (net.isReader target)).length := List.length_filterMap_le _ _

/-- When the greatest number of readers at once is beyond a number, a set that can run at once has
so many of them. -/
theorem exists_lt_readersIn (h : k < net.readersAtOnce target sets) :
    ∃ set ∈ sets, k < net.readersIn target set := by
  rw [readersAtOnce, List.foldl_max] at h
  cases hmax : (sets.map (net.readersIn target)).max? with
  | none =>
      rw [hmax] at h
      exact absurd h (Nat.not_lt_zero k)
  | some n =>
      obtain ⟨set, hset, rfl⟩ := List.mem_map.mp (List.max?_mem hmax)
      rw [hmax, Option.getD_some, Nat.zero_max] at h
      exact ⟨set, hset, h⟩

/-- **What is counted as reads at once is enabled together.** -/
theorem OfRoute.exists_enabledTogether (h : net.OfRoute source) (hord : net.Ordinary)
    (hsets : net.parallelSets limit = .ok sets) (hlt : k < net.readersAtOnce target sets) :
    ∃ m us, net.CanReach m ∧ us.Nodup ∧ k < us.length ∧ (∀ t ∈ us, net.IsApp t) ∧
      (∀ t ∈ us, net.HasContext t (·.reads target)) ∧ net.EnabledTogether m us := by
  obtain ⟨names, hnames, hlt⟩ := exists_lt_readersIn hlt
  obtain ⟨set, hset, rfl⟩ := (h.mem_parallelSets_iff hord hsets).mp hnames
  obtain ⟨m, hm, hen⟩ := hset.enabled
  refine ⟨m, (net.named set).filter (net.isReader target), hm, (net.nodup_named set).filter _,
    hlt.trans_le (h.readersIn_le_length set), fun t ht => ?_, fun t ht => ?_,
    hen.sublist List.filter_sublist⟩
  · exact h.isApp_of_mem_named hset.steps (List.mem_of_mem_filter ht)
  · exact isReader_iff.mp (List.mem_filter.mp ht).2

/-- There are not more readers at once than the net has. -/
theorem OfRoute.readersAtOnce_le_readerCount (h : net.OfRoute source) (hord : net.Ordinary)
    (hsets : net.parallelSets limit = .ok sets) (target : String) :
    net.readersAtOnce target sets ≤ net.readerCount target := by
  by_contra hmore
  obtain ⟨m, us, -, hnodup, hlt, -, hreads, -⟩ :=
    h.exists_enabledTogether hord hsets (Nat.lt_of_not_le hmore)
  exact Nat.not_le.mpr hlt (length_le_readerCount hnodup hreads)

/-- The outcome for reads at the same time compares their number with the bound of the rule. -/
theorem tells_parallelOutcome (net : Net) (sets : List (List String)) (target : String)
    {rule : Rule} {b : Nat} (hbound : rule.concurrencyBound? = some ⟨false, b⟩) :
    (net.parallelOutcome (some (.ok sets)) target rule).Tells
      (b < net.readersAtOnce target sets) := by
  simp only [parallelOutcome, hbound]
  by_cases hlt : b < net.readersAtOnce target sets
  · rw [if_pos hlt]
    exact ⟨iff_of_true rfl hlt, iff_of_false (fun hsat => by cases hsat) (not_not_intro hlt)⟩
  · rw [if_neg hlt]
    exact ⟨iff_of_false Bool.false_ne_true hlt, iff_of_true rfl hlt⟩

end Net

/-! ## The outcome of a rule -/

/-- The bounds are exceeded by the same numbers, as far as readers go. -/
theorem NestsAlike.lt_iff {n b : Nat} (h : NestsAlike n b) {readers atOnce : Nat}
    (hnests : n ≤ maxNestedBound ∨ readers ≤ maxNestedBound) (hle : atOnce ≤ readers) :
    b < atOnce ↔ n < atOnce := by
  unfold NestsAlike at h
  omega

namespace Analysis.Explored

variable {a : Analysis} {s : PathSet} {limit : Option Nat} {sets : List (List String)}

/-- A rule on the number of uses tells that its formula fails or that there are too many reads at
once. -/
theorem tells_usage (h : a.Explored g s) {sets : ParallelSets} {rule : Rule} {f : StateFormula}
    {breach : Prop} (hparallel : (a.route.net.parallelOutcome sets target rule).Tells breach) :
    (a.outcome sets target rule .nTimesUsage f).Tells (¬f.Holds g a.route.source ∨ breach) := by
  obtain ⟨hholds, hfails⟩ := h.outcome sets target rule .nTimesUsage f
  rw [if_pos rfl] at hholds
  by_cases hf : f.Holds g a.route.source
  · rw [hholds hf, or_iff_right (not_not_intro hf)]
    exact hparallel
  · have hviolated := hfails hf
    refine ⟨iff_of_true hviolated (Or.inl hf), iff_of_false (fun hsat => ?_) fun hno => ?_⟩
    · rw [hsat] at hviolated
      cases hviolated
    · exact hno (Or.inl hf)

/-- A reader that fires is met by a walk from the source. -/
theorem readsBeyond_zero (h : a.Explored g s) (ht : a.route.net.Fires t)
    (hread : a.route.net.HasContext t (·.reads target)) :
    g.ReadsBeyond target a.route.source.node 0 := by
  obtain ⟨limit, hg⟩ := h.steps
  have hwf : g.net.WellFormed := h.net_eq ▸ h.sound.net.wellFormed
  obtain ⟨q, hq, hused⟩ := h.sound.exists_uses_of_fires hg ht
  have halong : g.ReadsAlong target a.route.source.node [t] :=
    StepGraph.ReadsAlong.cons_iff.mpr ⟨h.net_eq ▸ hread, .tail' hq hused,
      fun u hu => absurd hu List.not_mem_nil, List.isChain_singleton _⟩
  exact StepGraph.readsBeyond_iff.mpr ⟨[t], rfl, halong⟩

/-- **The count of reads at once misses nothing and adds nothing**, beside the reads on walks. -/
theorem readsBeyond_or_lt_iff (h : a.Explored g s)
    (hord : a.route.net.Ordinary) (hsets : a.route.net.parallelSets limit = .ok sets) :
    (g.ReadsBeyond target a.route.source.node k ∨ k < a.route.net.readersAtOnce target sets) ↔
      g.ReadsBeyond target a.route.source.node k ∨ a.route.net.ReadsAtOnceBeyond target k := by
  constructor
  · rintro (hwalk | hlt)
    · exact Or.inl hwalk
    obtain ⟨m, us, hm, hnodup, hlen, happ, hreads, hen⟩ :=
      h.sound.net.exists_enabledTogether hord hsets hlt
    by_cases htwo : 2 ≤ us.length
    · exact Or.inr ⟨m, us, hm, hnodup, max_le hlen htwo, happ, hreads, hen⟩
    -- a single reader that is enabled fires, and no use is allowed
    · left
      obtain ⟨limit, hg⟩ := h.steps
      obtain ⟨t, us, rfl⟩ := List.exists_cons_of_length_pos (Nat.zero_lt_of_lt hlen)
      obtain rfl : k = 0 := by omega
      have ht := List.mem_cons_self (a := t) (l := us)
      exact h.readsBeyond_zero (h.sound.net.wellFormed.fires_of_enabledTogether hg
        (Net.canReach_iff.mp hm) hen ht (happ t ht)) (hreads t ht)
  · rintro (hwalk | ⟨m, us, hm, hnodup, hlen, happ, hreads, hen⟩)
    · exact Or.inl hwalk
    · obtain ⟨hmore, htwo⟩ := max_le_iff.mp hlen
      exact Or.inr (Nat.lt_of_lt_of_le hmore (h.sound.net.length_le_readersAtOnce hsets
        (Net.canReach_iff.mp hm) hnodup happ hreads hen htwo))

end Analysis.Explored

/-! ## Verdicts -/

namespace Config.Limits

variable {c : Config} {request : Request} {resource : Resource} {rule : Rule} {n : Nat}

/-- A rule with a numeral that overflows is skipped. -/
theorem outcome_of_overflow (h : c.Limits request resource rule n)
    (hn : Binary64.overflowBound ≤ n) : (c.verdictOn request resource rule).outcome =
      .skipped (PolicyError.invalidBound rule.id (toString n)).message := by
  have hf : rule.formulaFor (c.analyse request.route).route.net .nTimesUsage resource.id c.dutyTags
      = .error (.invalidBound rule.id (toString n)) := by
    rw [Rule.formulaFor, Rule.instantiate, Rule.usageFormula,
      Rule.usageBound_of_overflow h.hasBound hn]
    rfl
  simp only [verdictOn, Analysis.verifyRule, h.hasPattern, hf]

/-- Any other rule has a formula, and its bound is cut down to the number of readers. -/
theorem outcome_eq (h : c.Limits request resource rule n) (hn : n < Binary64.overflowBound)
    (hnests : n ≤ maxNestedBound ∨ request.net.readerCount resource.id ≤ maxNestedBound) :
    (c.verdictOn request resource rule).outcome = (c.analyse request.route).outcome
      (some (request.net.parallelSets c.stateLimit)) resource.id rule .nTimesUsage
      (.atMost (min n (request.net.readerCount resource.id)) resource.id) := by
  obtain ⟨b, hb, halike⟩ := Rule.exists_usageBound h.hasBound hn
  have hmin := halike.min_eq hnests
  have hf : rule.formulaFor (c.analyse request.route).route.net .nTimesUsage resource.id c.dutyTags
      = .ok (.atMost (min n (request.net.readerCount resource.id)) resource.id) :=
    Rule.usageFormula_eq_ok_iff.mpr ⟨b, hb, hmin.trans_le (min_le_iff.mpr hnests), hmin ▸ rfl⟩
  rw [verdictOn, Analysis.outcome_verifyRule h.hasPattern hf, h.parallelSets_eq]

end Config.Limits

/-- **Verdicts on the number of uses are exact.** When the net of a route and its unfolding are
explored to the end, a rule that allows `n` uses is violated exactly if a walk along used arcs from
the source meets more than `n` readers, or more than `n` different readers, and at least two, are
enabled together; else it is satisfied. This needs a number that can be read, so a rule with too
large a number is skipped. -/
theorem usage_verdicts {c : Config} {request : Request} {resource : Resource} {rule : Rule}
    {n : Nat} (h : c.Limits request resource rule n) {s : PathSet} {sets : List (List String)}
    (hspace : (c.analyse request.route).stateSpace = .ok (g, s))
    (hsets : request.net.parallelSets c.stateLimit = .ok sets)
    (hnests : n ≤ maxNestedBound ∨ request.net.readerCount resource.id ≤ maxNestedBound) :
    c.verdictOn request resource rule ∈ (c.verify request).verdicts ∧ g.net = request.net ∧
    (n < Binary64.overflowBound → (c.verdictOn request resource rule).outcome.Tells
      (g.ReadsBeyond resource.id (RouteNet.ofRoute request.route).source.node n ∨
        request.net.ReadsAtOnceBeyond resource.id n)) ∧
    (Binary64.overflowBound ≤ n → (c.verdictOn request resource rule).outcome =
      .skipped (PolicyError.invalidBound rule.id (toString n)).message) := by
  have hexplored := Config.explored_analyse hspace
  have hord : request.net.Ordinary := RouteNet.ordinary_ofRoute request.route
  have hwf : g.net.WellFormed := hexplored.net_eq ▸ hexplored.sound.net.wellFormed
  refine ⟨Config.mem_verdicts_iff.mpr ⟨resource, h.hasResource, rule, h.hasRule, rfl⟩,
    hexplored.net_eq, fun hn => ?_, h.outcome_of_overflow⟩
  obtain ⟨k, hk, halike⟩ := Rule.exists_concurrencyBound? h.hasBound hn
  have htells := hexplored.tells_usage
    (f := .atMost (min n (g.net.readerCount resource.id)) resource.id)
    (Net.tells_parallelOutcome _ sets resource.id hk)
  have hatOnce := hexplored.sound.net.readersAtOnce_le_readerCount hord hsets resource.id
  rw [StepGraph.holds_atMost_iff hwf, not_not, halike.lt_iff hnests hatOnce,
    hexplored.readsBeyond_or_lt_iff hord hsets, hexplored.net_eq] at htells
  rw [h.outcome_eq hn hnests, hsets]
  exact htells

/-- Two readers that both follow on the same step. -/
def parallelReads : Request :=
  ⟨.node ⟨"root", [], [], []⟩
    [.node ⟨"s1", [.app "E0"], [.app "E1"], ["R"]⟩ [],
      .node ⟨"s2", [.app "E0"], [.app "E2"], ["R"]⟩ []], [usedOnce]⟩

/-- No walk reads twice, but both readers are enabled together. -/
theorem usage_verdicts_parallelReads : ∃ g s,
    (Config.standard.analyse parallelReads.route).stateSpace = .ok (g, s) ∧
    parallelReads.net.parallelSets Config.standard.stateLimit = .ok [["E1", "E2"]] ∧
    Config.standard.Limits parallelReads usedOnce once 1 ∧ 1 ≤ maxNestedBound ∧
    (Config.standard.verdictOn parallelReads usedOnce once).outcome.isViolation = true ∧
    (g.ReadsBeyond "R" (RouteNet.ofRoute parallelReads.route).source.node 1 ∨
      parallelReads.net.ReadsAtOnceBeyond "R" 1) := by
  have hok : (Config.standard.analyse parallelReads.route).stateSpace.isOk = true := by
    rw [Config.analyse_eq_survey]
    decide +kernel
  obtain ⟨⟨g, s⟩, hspace⟩ := exists_eq_ok hok
  have hsets : parallelReads.net.parallelSets Config.standard.stateLimit = .ok [["E1", "E2"]] := by
    rw [Net.parallelSets_eq_survey]
    decide +kernel
  have hlimits : Config.standard.Limits parallelReads usedOnce once 1 :=
    ⟨rfl, by decide, by decide, by decide, by decide +kernel⟩
  have hviolated : (Config.standard.verdictOn parallelReads usedOnce once).outcome.isViolation
      = true := by
    rw [Config.verdictOn, hlimits.parallelSets_eq, hsets, Config.analyse_eq_survey]
    decide +kernel
  have hone : (1 : Nat) < Binary64.overflowBound := by decide +kernel
  have htells := (usage_verdicts hlimits hspace hsets (Or.inl (by decide))).2.2.1 hone
  exact ⟨g, s, hspace, hsets, hlimits, by decide, hviolated, htells.1.mp hviolated⟩

/-- A permission to use a resource `n` times. -/
def allowing (n : Nat) : Rule := ⟨"uses", .permission, [⟨.count, .lteq, toString n⟩], []⟩

/-- A resource that may be used `n` times. -/
def usedTimes (n : Nat) : Resource := ⟨"R", [⟨[allowing n], [], []⟩]⟩

/-- The sender hands it over. -/
def handoverTimes (n : Nat) : Request := ⟨handover, [usedTimes n]⟩

theorem limits_handoverTimes (n : Nat) :
    Config.standard.Limits (handoverTimes n) (usedTimes n) (allowing n) n :=
  ⟨rfl, List.mem_cons_self, List.mem_cons_self, rfl, rfl⟩

/-- **A number that is rounded to an infinity leaves the rule without a verdict.** -/
theorem verdict_lost_to_overflow : ¬∀ (c : Config) (request : Request) (resource : Resource)
    (rule : Rule) (n : Nat) (g : StepGraph) (s : PathSet) (sets : List (List String)),
    c.Limits request resource rule n → (c.analyse request.route).stateSpace = .ok (g, s) →
    request.net.parallelSets c.stateLimit = .ok sets →
    (n ≤ maxNestedBound ∨ request.net.readerCount resource.id ≤ maxNestedBound) →
    (c.verdictOn request resource rule).outcome.Tells
      (g.ReadsBeyond resource.id (RouteNet.ofRoute request.route).source.node n ∨
        request.net.ReadsAtOnceBeyond resource.id n) := by
  intro hall
  have hlimits := limits_handoverTimes Binary64.overflowBound
  have hok : (Config.standard.analyse handover).stateSpace.isOk = true := by
    rw [Config.analyse_eq_survey]
    decide +kernel
  obtain ⟨⟨g, s⟩, hspace⟩ := exists_eq_ok hok
  have hsetsOk : ((RouteNet.ofRoute handover).net.parallelSets Config.standard.stateLimit).isOk
      = true := by
    rw [Net.parallelSets_eq_survey]
    decide +kernel
  obtain ⟨sets, hsets⟩ := exists_eq_ok hsetsOk
  have hfew : (RouteNet.ofRoute handover).net.readerCount "R" ≤ maxNestedBound := by decide +kernel
  have htells := hall _ _ _ _ _ g s sets hlimits hspace hsets (Or.inr hfew)
  rw [hlimits.outcome_of_overflow (Nat.le_refl _)] at htells
  -- a rule that is skipped is not violated, so it would have to be satisfied
  have hkept := htells.1.not.mp Bool.false_ne_true
  cases htells.2.mpr hkept

end RoutePolicy
