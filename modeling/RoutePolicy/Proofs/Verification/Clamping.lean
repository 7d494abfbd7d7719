import Mathlib.Data.List.Duplicate
import RoutePolicy.Proofs.Verification.Usage

set_option autoImplicit false

/-! # Cutting a bound down to the number of readers

A formula on the number of uses nests as many reads as the bound says. When the net is known the
bound is cut down to the number of transitions that read the resource, and the truth value of the
formula stays the same at every place (`clamped_usage`).

The formula speaks of the readers that follow on a place, one after the other along used arcs
(`StepGraph.ReadsAlong`). If more of them follow than there are readers, one of them comes up twice,
so it lies on a cycle of used arcs, and then any number of them follow. -/

namespace RoutePolicy

open Relation

/-- The transitions read the resource and follow on the node, each on the one before, along used
arcs. -/
structure StepGraph.ReadsAlong (g : StepGraph) (target : String) (n : Node)
    (ts : List TransitionId) : Prop where
  reads : ∀ t ∈ ts, g.net.HasContext t (·.reads target)
  chain : (n :: ts.map Handle.node).IsChain (TransGen g.Uses)

variable {g : StepGraph} {target : String} {n : Node} {p : PlaceId} {t u : TransitionId}
  {ts : List TransitionId} {k : Nat}

namespace StepGraph

/-! ## The ways between readers -/

/-- A place leads to a transition along a last place. -/
theorem place_leads_iff (hwf : g.net.WellFormed) : TransGen g.Uses p.node t.node ↔
    ∃ q : PlaceId, ReflTransGen g.Uses p.node q.node ∧ g.Uses q.node t.node := by
  constructor
  · intro h
    exact exists_uses_of_reaches hwf h.to_reflTransGen
  · rintro ⟨q, hq, hlast⟩
    exact .tail' hq hlast

/-- A transition leads to another one along a first place. -/
theorem transition_leads_iff (hwf : g.net.WellFormed) : TransGen g.Uses t.node u.node ↔
    ∃ q : PlaceId, g.Uses t.node q.node ∧ TransGen g.Uses q.node u.node := by
  constructor
  · intro h
    obtain ⟨n, hfirst, hreach⟩ := TransGen.head'_iff.mp h
    obtain ⟨q, rfl⟩ := hfirst.exists_place hwf
    rcases reflTransGen_iff_eq_or_transGen.mp hreach with heq | hway
    · exact absurd heq.symm (Net.node_ne_node q u)
    · exact ⟨q, hfirst, hway⟩
  · rintro ⟨q, hfirst, hway⟩
    exact .head hfirst hway

namespace ReadsAlong

theorem cons_iff : g.ReadsAlong target n (t :: ts) ↔ g.net.HasContext t (·.reads target) ∧
    TransGen g.Uses n t.node ∧ g.ReadsAlong target t.node ts := by
  constructor
  · rintro ⟨hreads, hchain⟩
    obtain ⟨ht, hts⟩ := List.forall_mem_cons.mp hreads
    obtain ⟨hfirst, hchain⟩ := List.isChain_cons_cons.mp hchain
    exact ⟨ht, hfirst, hts, hchain⟩
  · rintro ⟨ht, hfirst, hts, hchain⟩
    exact ⟨List.forall_mem_cons.mpr ⟨ht, hts⟩, List.isChain_cons_cons.mpr ⟨hfirst, hchain⟩⟩

/-- Fewer readers follow as well. -/
theorem take (h : g.ReadsAlong target n ts) (k : Nat) : g.ReadsAlong target n (ts.take k) := by
  refine ⟨fun t ht => h.reads t (List.mem_of_mem_take ht), ?_⟩
  have := h.chain.take (k + 1)
  rwa [List.take_succ_cons, ← List.map_take] at this

/-- When a reader comes up twice, any number of readers follow. -/
theorem pump (h : g.ReadsAlong target n ts) (hdup : ¬ts.Nodup) (k : Nat) :
    ∃ us, us.length = k ∧ g.ReadsAlong target n us := by
  obtain ⟨t, ht⟩ := List.exists_duplicate_iff_not_nodup.mpr hdup
  -- the way from the reader to where it comes up again is a cycle
  have hpair : (n :: [t, t].map Handle.node).Pairwise (TransGen g.Uses) :=
    (List.isChain_iff_pairwise.mp h.chain).sublist
      (((List.duplicate_iff_sublist.mp ht).map Handle.node).cons_cons n)
  obtain ⟨hfirst, hcycle⟩ := List.pairwise_cons.mp hpair
  have hnt : TransGen g.Uses n t.node := hfirst _ List.mem_cons_self
  have htt : TransGen g.Uses t.node t.node := List.pairwise_pair.mp hcycle
  refine ⟨List.replicate k t, List.length_replicate, fun u hu => ?_, ?_⟩
  · rw [List.eq_of_mem_replicate hu]
    exact h.reads t ht.mem
  · rw [List.map_replicate, List.isChain_iff_pairwise, List.pairwise_cons]
    refine ⟨fun m hm => ?_, List.pairwise_replicate.mpr (Or.inr htt)⟩
    rw [List.eq_of_mem_replicate hm]
    exact hnt

/-- If more readers follow than the net has, any number of them do. -/
theorem exists_of_readerCount_lt (h : g.ReadsAlong target n ts)
    (hlen : g.net.readerCount target < ts.length) (k : Nat) :
    ∃ us, us.length = k ∧ g.ReadsAlong target n us := by
  refine h.pump (fun hnodup => ?_) k
  have := Net.length_le_readerCount hnodup h.reads
  omega

end ReadsAlong

end StepGraph

/-! ## What the formula says -/

/-- **The nested formula says that more than `bound` readers follow on the place.** -/
theorem holds_readsMoreThan_iff (hwf : g.net.WellFormed) {bound : Nat} :
    (Formula.readsMoreThan target bound).Holds g p ↔
      ∃ ts, ts.length = bound + 1 ∧ g.ReadsAlong target p.node ts := by
  induction bound generalizing p with
  | zero =>
      constructor
      · rintro ⟨q, hq, t, hused, hreads⟩
        refine ⟨[t], rfl, StepGraph.ReadsAlong.cons_iff.mpr ⟨hreads, .tail' hq hused, ?_⟩⟩
        exact ⟨fun u hu => absurd hu List.not_mem_nil, List.isChain_singleton _⟩
      · rintro ⟨ts, hlen, h⟩
        obtain ⟨t, rfl⟩ := List.length_eq_one_iff.mp hlen
        obtain ⟨hreads, hway, -⟩ := StepGraph.ReadsAlong.cons_iff.mp h
        obtain ⟨q, hq, hused⟩ := (StepGraph.place_leads_iff hwf).mp hway
        exact ⟨q, hq, t, hused, hreads⟩
  | succ bound ih =>
      constructor
      · rintro ⟨q, hq, t, hused, hreads, q', hput, hmore⟩
        obtain ⟨us, hlen, h⟩ := ih.mp hmore
        obtain ⟨u, us, rfl⟩ := List.exists_cons_of_length_eq_add_one hlen
        obtain ⟨hu, hway, h⟩ := StepGraph.ReadsAlong.cons_iff.mp h
        refine ⟨t :: u :: us, congrArg (· + 1) hlen,
          StepGraph.ReadsAlong.cons_iff.mpr ⟨hreads, .tail' hq hused, ?_⟩⟩
        exact StepGraph.ReadsAlong.cons_iff.mpr ⟨hu, .head hput hway, h⟩
      · rintro ⟨ts, hlen, h⟩
        obtain ⟨t, us, rfl⟩ := List.exists_cons_of_length_eq_add_one hlen
        obtain ⟨hreads, hway, h⟩ := StepGraph.ReadsAlong.cons_iff.mp h
        have hlen : us.length = bound + 1 := Nat.succ.inj hlen
        obtain ⟨u, us, rfl⟩ := List.exists_cons_of_length_eq_add_one hlen
        obtain ⟨hu, hnext, h⟩ := StepGraph.ReadsAlong.cons_iff.mp h
        obtain ⟨q, hq, hused⟩ := (StepGraph.place_leads_iff hwf).mp hway
        -- the chain goes on from the place after the first reader
        obtain ⟨q', hput, hnext⟩ := (StepGraph.transition_leads_iff hwf).mp hnext
        exact ⟨q, hq, t, hused, hreads, q', hput,
          ih.mpr ⟨u :: us, hlen, StepGraph.ReadsAlong.cons_iff.mpr ⟨hu, hnext, h⟩⟩⟩

/-- A formula with a bound that is cut down to the number of readers holds at the same places. -/
theorem holds_atMost_min_iff (hwf : g.net.WellFormed) (bound : Nat) (target : String) :
    (Formula.atMost (min bound (g.net.readerCount target)) target).Holds g p ↔
      (Formula.atMost bound target).Holds g p := by
  refine not_congr ?_
  rw [holds_readsMoreThan_iff hwf, holds_readsMoreThan_iff hwf]
  constructor
  · rintro ⟨ts, hlen, h⟩
    by_cases hle : bound ≤ g.net.readerCount target
    · exact ⟨ts, by rw [hlen, Nat.min_eq_left hle], h⟩
    · exact h.exists_of_readerCount_lt (by omega) (bound + 1)
  · rintro ⟨ts, hlen, h⟩
    refine ⟨ts.take (min bound (g.net.readerCount target) + 1), ?_, h.take _⟩
    rw [List.length_take]
    omega

/-! ## Truth values -/

variable {net : Net} {s : PathSet} {stepLimit pathLimit : Option Nat}

/-- Formulas that hold at the same node have the same truth value there. -/
theorem Formula.exists_evaluate_eq (hg : g.net.WellFormed) (hs : g.pathSet pathLimit = .ok s)
    {k : Kind} {f f' : Formula k} {h : Handle k} (hh : g.net.contains h.node = true)
    (hff' : f.Holds g h ↔ f'.Holds g h) :
    ∃ b, f.evaluate s h = .ok b ∧ f'.evaluate s h = .ok b := by
  classical
  refine ⟨decide (f'.Holds g h), (evaluate_eq_ok_iff hg hs f hh).mpr ?_,
    (evaluate_eq_ok_iff hg hs f' hh).mpr decide_eq_true_iff⟩
  rw [decide_eq_true_iff, hff']

/-- The formula of a rule for a net that is not known nests the bound itself. -/
theorem Rule.formula_nTimesUsage {rule : Rule} {tags : DutyTags} {f : StateFormula}
    (h : rule.formula .nTimesUsage target tags = .ok f) :
    ∃ bound, rule.usageBound = .ok bound ∧ f = .atMost bound target := by
  obtain ⟨bound, hbound, h⟩ := bind_eq_ok_iff.mp h
  refine ⟨bound, hbound, ?_⟩
  dsimp only at h
  split at h
  · cases h
  · exact (Except.ok.inj h).symm

/-- **Cutting a bound down to the number of readers keeps the truth value at every place.** So the
formula of a rule on the number of uses has the same truth value with and without the net. -/
theorem clamped_usage (h : net.WellFormed) (hg : net.stepGraph stepLimit = .ok g)
    (hs : g.pathSet pathLimit = .ok s) (target : String) {p : PlaceId}
    (hp : net.contains p.node = true) :
    (∀ n, ∃ b, (Formula.atMost n target).evaluate s p = .ok b ∧
      (Formula.atMost (min n (net.readerCount target)) target).evaluate s p = .ok b) ∧
    ∀ (rule : Rule) (tags : DutyTags) (f f' : StateFormula),
      rule.formula .nTimesUsage target tags = .ok f →
      rule.formulaFor net .nTimesUsage target tags = .ok f' →
      ∃ b, f.evaluate s p = .ok b ∧ f'.evaluate s p = .ok b := by
  obtain rfl := net_of_stepGraph hg
  have hclamp (n : Nat) := Formula.exists_evaluate_eq h hs hp
    (holds_atMost_min_iff h n target).symm
  refine ⟨hclamp, fun rule tags f f' hf hf' => ?_⟩
  obtain ⟨bound, hbound, rfl⟩ := Rule.formula_nTimesUsage hf
  obtain ⟨bound', hbound', -, rfl⟩ := Rule.usageFormula_eq_ok_iff.mp hf'
  -- both formulas have the bound of the rule
  obtain rfl := Except.ok.inj (hbound.symm.trans hbound')
  exact hclamp bound

/-- A marker goes round and the resource is read each time. -/
def readingLoop : Net :=
  (((((((Net.empty "loop").addPlace (.plain "before" 1)).addPlace (.plain "after" 0)
    ).addTransition (.bare "read" (some { Context.ofRole .app with read := .ofList ["R"] }))
    ).addTransition (.bare "again" none)).join ⟨⟨.place, 0⟩, ⟨.transition, 0⟩⟩
    ).join ⟨⟨.transition, 0⟩, ⟨.place, 1⟩⟩).join ⟨⟨.place, 1⟩, ⟨.transition, 1⟩⟩
    |>.join ⟨⟨.transition, 1⟩, ⟨.place, 0⟩⟩

theorem readingLoop_made : readingLoop.Made := by
  refine .join (.join (.join (.join (.addTransition (.addTransition (.addPlace (.addPlace
    (.empty "loop") ?_) ?_))) rfl) rfl) rfl) rfl
  all_goals decide

/-- A permission to use a resource three times. -/
def thrice : Rule := ⟨"thrice", .permission, [⟨.count, .lteq, "3"⟩], []⟩

/-- There is one reader, so a bound of three uses is cut down to one. -/
theorem clamped_usage_readingLoop : ∃ g s, readingLoop.stepGraph none = .ok g ∧
    g.pathSet none = .ok s ∧ readingLoop.readerCount "R" = 1 ∧
    ∃ b, (Formula.atMost 3 "R").evaluate s ⟨0⟩ = .ok b ∧
      (Formula.atMost 1 "R").evaluate s ⟨0⟩ = .ok b := by
  have hpaths : (readingLoop.survey none >>= (·.pathSet none)).isOk = true := by decide +kernel
  obtain ⟨s, hs⟩ := exists_eq_ok hpaths
  obtain ⟨g, hg, hs⟩ := bind_eq_ok_iff.mp hs
  rw [← Net.stepGraph_eq_survey] at hg
  have hreaders : readingLoop.readerCount "R" = 1 := by decide +kernel
  have hbound : thrice.usageBound = .ok 3 := by decide +kernel
  have hclamped := (clamped_usage readingLoop_made.wellFormed hg hs "R" (p := ⟨0⟩) (by decide)).2
    thrice .standard (.atMost 3 "R") (.atMost 1 "R")
  refine ⟨g, s, hg, hs, hreaders, hclamped ?_ ?_⟩
  · rw [Rule.formula, Rule.instantiate, Rule.usageFormula, hbound]
    rfl
  · rw [Rule.formulaFor, Rule.instantiate, Rule.usageFormula, hbound, hreaders]
    rfl

end RoutePolicy
