import RoutePolicy.Proofs.Concurrency
import RoutePolicy.Proofs.Number.Numeral
import RoutePolicy.Proofs.Route.Succession
import RoutePolicy.Proofs.Verification.Outcome

set_option autoImplicit false

/-! # Rules on the number of uses

A rule on the number of uses is satisfied when the reads along each chain of firings keep the
bound, and the reads at the same time do. Where a route branches these are different chains, and
each of them may use up the bound, so what is bounded in a whole run is the number of uses for each
chain (`usage_bounds`). -/

namespace RoutePolicy

/-- The transition reads the resource. -/
def Net.isReader (net : Net) (target : String) (t : TransitionId) : Bool :=
  (net.transitions.get? t).any (·.hasContext (·.reads target))

/-- The net of the route that a request is about. -/
abbrev Request.net (request : Request) : Net := (RouteNet.ofRoute request.route).net

/-- The verdict of the report on a rule of a resource. -/
def Config.verdictOn (c : Config) (request : Request) (resource : Resource) (rule : Rule) :
    RuleVerdict :=
  let a := c.analyse request.route
  a.verifyRule c.dutyTags (a.parallelSets c request.resources) resource.id rule

/-- A rule of a request allows `n` uses of a resource, also at the same time. -/
structure Config.Limits (c : Config) (request : Request) (resource : Resource) (rule : Rule)
    (n : Nat) : Prop where
  checks : c.checkParallelReads = true
  hasResource : resource ∈ request.resources
  hasRule : rule ∈ resource.rules
  hasPattern : rule.pattern = some .nTimesUsage
  hasBound : (rule.constraintOn .count).map (·.rightOperand) = some (toString n)

/-- The report on a request finds that a rule is satisfied which allows `n` uses of a resource, also
at the same time. -/
structure Config.Grants (c : Config) (request : Request) (resource : Resource) (rule : Rule)
    (n : Nat) : Prop extends limits : c.Limits request resource rule n where
  satisfied : (c.verdictOn request resource rule).outcome = .satisfied

/-- The verdicts of a report are those on the rules of the resources. -/
theorem Config.mem_verdicts_iff {c : Config} {request : Request} {v : RuleVerdict} :
    v ∈ (c.verify request).verdicts ↔ ∃ resource ∈ request.resources, ∃ rule ∈ resource.rules,
      c.verdictOn request resource rule = v := by
  show v ∈ request.resources.flatMap _ ↔ _
  simp only [List.mem_flatMap, List.mem_map]
  rfl

variable {net : Net} {target : String} {t : TransitionId} {us : List TransitionId}

theorem Net.isReader_iff : net.isReader target t = true ↔ net.HasContext t (·.reads target) := by
  rw [isReader, Option.any_eq_true]
  rfl

/-! ## Reads along a chain -/

theorem isChain_of_length_lt_two {α : Type} {R : α → α → Prop} {l : List α} (h : l.length < 2) :
    l.IsChain R := by
  match l, h with
  | [], _ => exact .nil
  | [a], _ => exact .singleton a

namespace Analysis.Explored

variable {a : Analysis} {g : StepGraph} {s : PathSet}

/-- A chain of firings with too many readers shows that some path reads too often. -/
theorem holds_readsMoreThan (h : a.Explored g s) {bound : Nat} {p : PlaceId}
    (hfires : ∀ t ∈ us, a.route.net.Fires t) (hchain : us.IsChain a.route.net.Feeds)
    (hfirst : ∀ t ∈ us.head?, Relation.ReflTransGen g.Uses p.node t.node)
    (hbound : bound < us.countP (a.route.net.isReader target)) :
    (Formula.readsMoreThan target bound).Holds g p := by
  obtain ⟨limit, hg⟩ := h.steps
  induction us generalizing p bound with
  | nil => exact absurd hbound (Nat.not_lt_zero _)
  | cons t us ih =>
      obtain ⟨ht, hfires⟩ := List.forall_mem_cons.mp hfires
      obtain ⟨hnext, hchain⟩ := List.isChain_cons.mp hchain
      have hreach := hfirst t rfl
      obtain ⟨q, hq, hused⟩ := StepGraph.exists_uses_of_reaches
        (h.net_eq ▸ h.sound.net.wellFormed) hreach
      rw [List.countP_cons] at hbound
      -- the place between this transition and the next one, from which the chain goes on
      have hrest {bound : Nat} (hlt : bound < us.countP (a.route.net.isReader target)) :
          ∃ q' : PlaceId, g.Uses t.node q'.node ∧ (Formula.readsMoreThan target bound).Holds g q' := by
        obtain ⟨t', us', rfl⟩ : ∃ t' us', us = t' :: us' :=
          List.exists_cons_of_ne_nil fun hnil => by simp [hnil] at hlt
        obtain ⟨q', hput, htake⟩ := hnext t' rfl
        have ht' := hfires t' List.mem_cons_self
        refine ⟨q', StepGraph.uses_of_fires hg ht hput (Or.inl rfl),
          ih hfires hchain (fun x hx => ?_) hlt⟩
        obtain rfl := Option.some_inj.mp hx
        exact .single (StepGraph.uses_of_fires hg ht' htake (Or.inr rfl))
      by_cases hreads : a.route.net.isReader target t = true
      · have hholds := (h.holds_reads_iff target t).mpr (Net.isReader_iff.mp hreads)
        rw [if_pos hreads] at hbound
        cases bound with
        | zero => exact ⟨q, hq, t, hused, hholds⟩
        | succ bound =>
            obtain ⟨q', hq', hmore⟩ := hrest (Nat.lt_of_succ_lt_succ hbound)
            exact ⟨q, hq, t, hused, hholds, q', hq', hmore⟩
      -- a transition that does not read is only passed on the way
      · rw [if_neg hreads, Nat.add_zero] at hbound
        obtain ⟨q', hq', hmore⟩ := hrest hbound
        have hway := hreach.tail hq'
        cases bound with
        | zero =>
            obtain ⟨x, hx, hmore⟩ := hmore
            exact ⟨x, hway.trans hx, hmore⟩
        | succ bound =>
            obtain ⟨x, hx, hmore⟩ := hmore
            exact ⟨x, hway.trans hx, hmore⟩

/-- **A bound that holds at the source holds along each chain of firings.** -/
theorem boundsChains (h : a.Explored g s) {bound : Nat}
    (hholds : (Formula.atMost bound target).Holds g a.route.source) :
    a.route.net.BoundsChains (a.route.net.isReader target) bound := by
  obtain ⟨limit, hg⟩ := h.steps
  intro us hfires hchain
  by_contra hmore
  refine hholds (h.holds_readsMoreThan hfires hchain (fun t ht => ?_) (Nat.lt_of_not_le hmore))
  exact (h.sound.reachable_iff_fires hg).mpr (hfires t (List.mem_of_mem_head? ht))

end Analysis.Explored

/-! ## Reads at the same time -/

section

variable {limit : Option Nat} {m : Marking} {sets : List (List String)} {source : Option PlaceId}

/-- The greatest number of readers is at least that of each set. -/
theorem Net.readersIn_le_readersAtOnce {set : List String} (hset : set ∈ sets) :
    net.readersIn target set ≤ net.readersAtOnce target sets := by
  rw [Net.readersAtOnce, List.foldl_max]
  exact Nat.le_trans (List.le_max?_getD_of_mem (List.mem_map_of_mem hset)) (Nat.le_max_right _ _)

/-- Readers that are found under the names of a set are readers in the set. -/
theorem Net.OfRoute.length_le_readersIn (h : net.OfRoute source) {set : List String}
    (hnodup : us.Nodup) (hreads : ∀ t ∈ us, net.HasContext t (·.reads target))
    (hset : ∀ t ∈ us, ∀ x, net.transitions.get? t = some x → x.id ∈ set) :
    us.length ≤ net.readersIn target set := by
  have hsub : us ⊆ (set.filter fun id => ((net.transitionById id).bind net.transitions.get?).any
      (·.hasContext (·.reads target))).filterMap net.transitionById := by
    intro t ht
    obtain ⟨x, hx, hread⟩ := hreads t ht
    have hid := h.transitionById_eq hx
    refine List.mem_filterMap.mpr ⟨x.id, List.mem_filter.mpr ⟨hset t ht x hx, ?_⟩, hid⟩
    rw [hid, Option.bind_some, hx]
    exact hread
  calc us.length
      ≤ ((set.filter fun id => ((net.transitionById id).bind net.transitions.get?).any
          (·.hasContext (·.reads target))).filterMap net.transitionById).length :=
        (hnodup.subperm hsub).length_le
    _ ≤ (set.filter fun id => ((net.transitionById id).bind net.transitions.get?).any
          (·.hasContext (·.reads target))).length := List.length_filterMap_le _ _
    _ = net.readersIn target set := List.countP_eq_length_filter.symm

/-- **Different readers that are enabled together are counted as reads at the same time.** -/
theorem Net.OfRoute.length_le_readersAtOnce (h : net.OfRoute source)
    (hsets : net.parallelSets limit = .ok sets) (hm : net.Reaches net.marking m)
    (hnodup : us.Nodup) (happ : ∀ t ∈ us, net.IsApp t)
    (hreads : ∀ t ∈ us, net.HasContext t (·.reads target)) (hen : net.EnabledTogether m us)
    (htwo : 2 ≤ us.length) : us.length ≤ net.readersAtOnce target sets := by
  obtain ⟨names, hin, hmem⟩ := exists_atWork_of_parallelSets h.wellFormed hsets hm happ hen
  have hle : us.length ≤ net.readersIn target names.toList :=
    h.length_le_readersIn hnodup hreads hmem
  -- the set has at least two members, so it is one of those that are reported
  have hsize : 2 ≤ names.size := calc
    2 ≤ us.length := htwo
    _ ≤ net.readersIn target names.toList := hle
    _ ≤ names.size := List.countP_le_length
  exact hle.trans (readersIn_le_readersAtOnce (hin hsize))

/-- There are not more different readers than the net has. -/
theorem Net.length_le_readerCount (hnodup : us.Nodup)
    (hreads : ∀ t ∈ us, net.HasContext t (·.reads target)) :
    us.length ≤ net.readerCount target := by
  have hsub : us ⊆ net.transitions.indices := fun t ht => by
    obtain ⟨x, hx, -⟩ := hreads t ht
    exact Arena.mem_indices_iff.mpr (Arena.contains_of_get? hx)
  have hall : us.countP (net.isReader target) = us.length :=
    List.countP_eq_length.mpr fun t ht => isReader_iff.mpr (hreads t ht)
  rw [readerCount, ← Arena.filterMap_get?_indices, List.countP_filterMap, ← hall]
  refine ((hnodup.subperm hsub).countP_le _).trans_eq (List.countP_congr fun t _ => ?_)
  unfold isReader
  cases net.transitions.get? t <;> rfl

end

/-! ## What a satisfied rule rests on -/

section

variable {r : Rule} {n : Nat}

theorem Rule.usageFormula_eq_ok_iff {readers : Nat} {f : StateFormula} :
    r.usageFormula target (some readers) = .ok f ↔ ∃ b, r.usageBound = .ok b ∧
      min b readers ≤ maxNestedBound ∧ f = .atMost (min b readers) target := by
  rw [usageFormula, bind_eq_ok_iff]
  refine exists_congr fun b => and_congr_right fun _ => ?_
  simp only
  split
  · rename_i hdeep
    exact iff_of_false (fun h => by cases h) fun h => Nat.not_lt.mpr h.1 hdeep
  · rename_i hdeep
    rw [and_iff_right (Nat.le_of_not_lt hdeep)]
    show Except.ok _ = .ok f ↔ _
    rw [Except.ok.injEq, eq_comm]

/-- The bound of a rule with a numeral that does not overflow. -/
theorem Rule.exists_usageBound
    (h : (r.constraintOn .count).map (·.rightOperand) = some (toString n))
    (hn : n < Binary64.overflowBound) : ∃ b, r.usageBound = .ok b ∧ NestsAlike n b := by
  obtain ⟨con, hcon, hright⟩ := Option.map_eq_some_iff.mp h
  obtain ⟨b, hb, halike⟩ := exists_readUsageBound?_toString hn
  refine ⟨b, ?_, halike⟩
  simp only [usageBound, hcon, hright, trim_toString, hb]

/-- A rule with a numeral that overflows has no bound. -/
theorem Rule.usageBound_of_overflow
    (h : (r.constraintOn .count).map (·.rightOperand) = some (toString n))
    (hn : Binary64.overflowBound ≤ n) :
    r.usageBound = .error (.invalidBound r.id (toString n)) := by
  obtain ⟨con, hcon, hright⟩ := Option.map_eq_some_iff.mp h
  simp only [usageBound, hcon, hright, trim_toString, readUsageBound?_toString_of_le hn]

/-- The number of uses at the same time that a rule with a numeral allows. -/
theorem Rule.exists_concurrencyBound?
    (h : (r.constraintOn .count).map (·.rightOperand) = some (toString n))
    (hn : n < Binary64.overflowBound) :
    ∃ k, r.concurrencyBound? = some ⟨false, k⟩ ∧ NestsAlike n k := by
  obtain ⟨con, hcon, hright⟩ := Option.map_eq_some_iff.mp h
  simp only [concurrencyBound?, hcon, hright, trim_toString, Option.bind_eq_bind, Option.bind_some]
  exact exists_whole?_toString hn

/-- Reads at the same time keep the bound of a satisfied rule. -/
theorem Net.readersAtOnce_le_of_satisfied {found : Except Failure (List (List String))}
    (h : net.parallelOutcome (some found) target r = .satisfied) : ∃ sets, found = .ok sets ∧
      ∀ bound, r.concurrencyBound? = some bound → net.readersAtOnce target sets ≤ bound.magnitude := by
  cases found with
  | error failure => cases h
  | ok sets =>
      refine ⟨sets, rfl, fun bound hbound => ?_⟩
      simp only [parallelOutcome, hbound] at h
      by_contra hmore
      rw [if_pos (Nat.lt_of_not_le hmore)] at h
      cases h

/-- The net has been explored if there is an answer. -/
theorem Analysis.exists_stateSpace_of_outcome {a : Analysis} {sets : ParallelSets}
    {pattern : Pattern} {f : StateFormula} {o : Outcome}
    (h : a.outcome sets target r pattern f = o) (ho : ∀ reason, o ≠ .inconclusive reason) :
    ∃ g s, a.stateSpace = .ok (g, s) := by
  cases hspace : a.stateSpace with
  | error failure =>
      simp only [outcome, hspace] at h
      exact absurd h.symm (ho failure.message)
  | ok space => exact ⟨space.1, space.2, rfl⟩

/-- A net whose rule is satisfied has been explored. -/
theorem Analysis.exists_stateSpace {a : Analysis} {sets : ParallelSets} {pattern : Pattern}
    {f : StateFormula} (h : a.outcome sets target r pattern f = .satisfied) :
    ∃ g s, a.stateSpace = .ok (g, s) :=
  exists_stateSpace_of_outcome h fun _ hreason => by cases hreason

end

namespace Config

variable {c : Config} {request : Request} {resource : Resource} {rule : Rule} {n : Nat}

/-- The sets that run at once are asked for. -/
theorem Limits.parallelSets_eq (h : c.Limits request resource rule n) :
    (c.analyse request.route).parallelSets c request.resources
      = some (request.net.parallelSets c.stateLimit) := by
  refine if_pos ?_
  rw [h.checks, Bool.true_and, List.any_eq_true]
  exact ⟨rule, List.mem_flatMap.mpr ⟨resource, h.hasResource, h.hasRule⟩,
    decide_eq_true h.hasPattern⟩

namespace Grants

/-- The rule has a formula, and the outcome for it is satisfied. -/
theorem exists_formula (h : c.Grants request resource rule n) : ∃ b, rule.usageBound = .ok b ∧
    min b (request.net.readerCount resource.id) ≤ maxNestedBound ∧
    (c.analyse request.route).outcome
      (some (request.net.parallelSets c.stateLimit)) resource.id rule
      .nTimesUsage (.atMost
        (min b (request.net.readerCount resource.id)) resource.id)
      = .satisfied := by
  have hsat := h.satisfied
  simp only [verdictOn, h.limits.parallelSets_eq] at hsat
  cases hf : rule.formulaFor (c.analyse request.route).route.net .nTimesUsage resource.id
      c.dutyTags with
  | error e =>
      simp only [Analysis.verifyRule, h.hasPattern, hf] at hsat
      cases hsat
  | ok f =>
      rw [Analysis.outcome_verifyRule h.hasPattern hf] at hsat
      obtain ⟨b, hb, hle, rfl⟩ := Rule.usageFormula_eq_ok_iff.mp hf
      exact ⟨b, hb, hle, hsat⟩

/-- **What a satisfied rule rests on**: a bound on the reads along each chain, and one on the readers
that run at once. -/
theorem exists_bounds (h : c.Grants request resource rule n) :
    (∃ limit g, request.net.stepGraph limit = .ok g) ∧
    request.net.BoundsChains (request.net.isReader resource.id) n ∧
    ∃ sets, request.net.parallelSets c.stateLimit = .ok sets ∧
      (request.net.readersAtOnce resource.id sets ≤ n ∨
        request.net.readerCount resource.id ≤ n) := by
  obtain ⟨b, hb, hnested, hsat⟩ := h.exists_formula
  have hn : n < Binary64.overflowBound := by
    by_contra hle
    rw [Rule.usageBound_of_overflow h.hasBound (Nat.le_of_not_lt hle)] at hb
    cases hb
  obtain ⟨b', hb', halike⟩ := Rule.exists_usageBound h.hasBound hn
  obtain rfl := Except.ok.inj (hb.symm.trans hb')
  obtain ⟨k, hk, hkalike⟩ := Rule.exists_concurrencyBound? h.hasBound hn
  obtain ⟨g, s, hspace⟩ := Analysis.exists_stateSpace hsat
  have hexplored := explored_analyse hspace
  have hatMost := hexplored.holds_of_satisfied hsat
  have hparallel := ((hexplored.outcome _ _ _ _ _).1 hatMost).symm.trans hsat
  rw [if_pos rfl] at hparallel
  obtain ⟨sets, hsets, hreaders⟩ := Net.readersAtOnce_le_of_satisfied hparallel
  obtain ⟨limit, hg⟩ := hexplored.steps
  unfold NestsAlike at halike hkalike
  refine ⟨⟨limit, g, hg⟩, fun us hfires hchain => ?_, sets, hsets, ?_⟩
  · have hle : us.countP (request.net.isReader resource.id) ≤
        min b (request.net.readerCount resource.id) :=
      hexplored.boundsChains hatMost us hfires hchain
    omega
  -- a bound that is too deep to nest is never met, as there are not so many readers
  · have hle : request.net.readersAtOnce resource.id sets ≤ k := hreaders _ hk
    omega

/-- The different readers that are enabled together keep the bound. -/
theorem length_le (h : c.Grants request resource rule n) {m : Marking}
    (hm : request.net.Reaches request.net.marking m) (hnodup : us.Nodup)
    (happ : ∀ t ∈ us, request.net.IsApp t)
    (hreads : ∀ t ∈ us, request.net.HasContext t (·.reads resource.id))
    (hen : request.net.EnabledTogether m us) : us.length ≤ n := by
  obtain ⟨⟨limit, g, hg⟩, hchains, sets, hsets, hreaders⟩ := h.exists_bounds
  have hsound := RouteNet.sound_ofRoute request.route
  rcases Nat.lt_or_ge us.length 2 with hfew | htwo
  -- a single reader that is enabled is a chain of one firing
  · have hfires (t : TransitionId) (ht : t ∈ us) : request.net.Fires t :=
      hsound.net.wellFormed.fires_of_enabledTogether hg hm hen ht (happ t ht)
    have hall : us.countP (request.net.isReader resource.id) = us.length :=
      List.countP_eq_length.mpr fun t ht => Net.isReader_iff.mpr (hreads t ht)
    exact hall ▸ hchains us hfires (isChain_of_length_lt_two hfew)
  · rcases hreaders with hreaders | hreaders
    · exact (hsound.net.length_le_readersAtOnce hsets hm hnodup happ hreads hen htwo).trans
        hreaders
    · exact (Net.length_le_readerCount hnodup hreads).trans hreaders

end Grants

end Config

/-- **Uses are bounded along each chain of firings, at each moment, and by both in a run.** When a
rule that allows `n` uses is found to be satisfied, then in each run of the route every chain of
firings reads the resource at most `n` times, at most `n` different processing steps that read it
are enabled together afterwards, and the run reads it at most `n` times for the marker it starts
with and for each marker that its firings put beyond the first one. -/
theorem usage_bounds {c : Config} {request : Request} {resource : Resource} {rule : Rule} {n : Nat}
    (h : c.Grants request resource rule n) {ts : List TransitionId} {net' : Net}
    (hrun : request.net.run ts = .ok net') :
    (∀ us : List TransitionId, us.Sublist ts → us.IsChain request.net.Feeds →
      us.countP (request.net.isReader resource.id) ≤ n) ∧
    (∀ us : List TransitionId, us.Nodup → (∀ t ∈ us, request.net.IsApp t) →
      (∀ t ∈ us, request.net.HasContext t (·.reads resource.id)) →
      request.net.EnabledTogether net'.marking us → us.length ≤ n) ∧
    ts.countP (request.net.isReader resource.id) ≤ n * (1 + request.net.surplus ts) := by
  obtain ⟨-, hchains, -⟩ := h.exists_bounds
  refine ⟨fun us hsub hchain => ?_, fun us hnodup happ hreads hen => ?_, ?_⟩
  · exact hchains us (fun t ht => ⟨ts, net', hrun, hsub.subset ht⟩) hchain
  · obtain ⟨m', hm', rfl⟩ := Net.run_eq_ok_iff.mp hrun
    have hm : request.net.Reaches request.net.marking m' := ⟨ts, hm'⟩
    rw [Net.marking_withMarking (hm.size_eq.trans request.net.size_marking)] at hen
    exact h.length_le hm hnodup happ hreads hen
  · exact (RouteNet.sound_ofRoute request.route).countP_le_of_run hchains hrun

/-! ## A route that branches -/

/-- Two steps follow on the first one, and the reader follows on each of them. -/
def fork : Route := .node ⟨"fork", [.app "split"], [.app "left"], []⟩
  [.node ⟨"second", [.app "split"], [.app "right"], []⟩ [],
    .node ⟨"read", [.app "left", .app "right"], [.app "reader"], ["R"]⟩ []]

/-- A permission to use a resource once. -/
def once : Rule := ⟨"once", .permission, [⟨.count, .lteq, "1"⟩], []⟩

/-- A resource that may be used once. -/
def usedOnce : Resource := ⟨"R", [⟨[once], [], []⟩]⟩

/-- The use of the resource in the route that branches. -/
def forkRequest : Request := ⟨fork, [usedOnce]⟩

/-- Both branches are taken, and the reader fires after each. -/
def forkRun : List TransitionId := [⟨0⟩, ⟨1⟩, ⟨2⟩, ⟨3⟩, ⟨3⟩]

theorem grants_fork : Config.standard.Grants forkRequest usedOnce once 1 := by
  refine ⟨⟨rfl, by decide, by decide, by decide, by decide +kernel⟩, ?_⟩
  rw [Config.verdictOn, Config.analyse_eq_survey]
  simp only [Analysis.parallelSets]
  rw [Net.parallelSets_eq_survey]
  decide +kernel

theorem exists_run_fork : ∃ net', forkRequest.net.run forkRun = .ok net' :=
  exists_eq_ok (by decide +kernel)

/-- The bound on a run is attained: one use is allowed, the run has one marker more than the one it
starts with, and it reads twice. -/
theorem usage_bounds_fork : Config.standard.Grants forkRequest usedOnce once 1 ∧
    ∃ net', forkRequest.net.run forkRun = .ok net' ∧
      forkRun.countP (forkRequest.net.isReader "R") ≤ 1 * (1 + forkRequest.net.surplus forkRun) := by
  obtain ⟨net', hrun⟩ := exists_run_fork
  exact ⟨grants_fork, net', hrun, (usage_bounds grants_fork hrun).2.2⟩

/-- **The reads of a whole run are not bounded by the number of uses.** -/
theorem reads_exceed_uses : ¬∀ (c : Config) (request : Request) (resource : Resource) (rule : Rule)
    (n : Nat), c.Grants request resource rule n → ∀ ts net', request.net.run ts = .ok net' →
      ts.countP (request.net.isReader resource.id) ≤ n := by
  intro hall
  obtain ⟨net', hrun⟩ := exists_run_fork
  have hle := hall _ _ _ _ _ grants_fork forkRun net' hrun
  have htwice : forkRun.countP (forkRequest.net.isReader usedOnce.id) = 2 := by decide +kernel
  omega

end RoutePolicy
