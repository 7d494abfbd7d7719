import RoutePolicy.Proofs.Formula.Semantics
import RoutePolicy.Proofs.Route.Reachability
import RoutePolicy.Proofs.Survey
import RoutePolicy.Verification

set_option autoImplicit false

/-! # The outcome for a rule is the meaning of its formula

When the net of a route is explored to the end, a rule is violated exactly if its formula does not
hold at the source (`Analysis.Explored.outcome`). A formula that something is never reached speaks
of the transitions that can fire (`Analysis.Explored.holds_neverReachable_iff`). -/

namespace RoutePolicy

/-- The net of the analysed route is explored to the end, with this step graph and path set. -/
structure Analysis.Explored (a : Analysis) (g : StepGraph) (s : PathSet) : Prop where
  sound : a.route.Sound
  space : a.stateSpace = .ok (g, s)
  steps : ∃ limit, a.route.net.stepGraph limit = .ok g
  paths : ∃ limit, g.pathSet limit = .ok s

theorem Config.explored_analyse {c : Config} {route : Route} {g : StepGraph} {s : PathSet}
    (h : (c.analyse route).stateSpace = .ok (g, s)) : (c.analyse route).Explored g s := by
  obtain ⟨g', hg, h'⟩ := bind_eq_ok_iff.mp h
  obtain ⟨s', hs, h'⟩ := bind_eq_ok_iff.mp h'
  cases h'
  exact ⟨RouteNet.sound_ofRoute route, h, ⟨_, hg⟩, ⟨_, hs⟩⟩

/-- The analysis, computed without a table. -/
theorem Config.analyse_eq_survey (c : Config) (route : Route) : c.analyse route =
    { route := RouteNet.ofRoute route
      stateSpace := do
        let steps ← (RouteNet.ofRoute route).net.survey c.stateLimit
        let paths ← steps.pathSet c.pathLimit
        return (steps, paths) } := by
  simp only [analyse, Net.stepGraph_eq_survey]

/-! ## Verdicts on rules -/

section

variable {a : Analysis} {tags : DutyTags} {sets : ParallelSets} {target : String} {rule : Rule}

theorem Analysis.resource_verifyRule : (a.verifyRule tags sets target rule).resource = target := by
  unfold verifyRule
  split
  · rfl
  · split <;> rfl

theorem Analysis.rule_verifyRule : (a.verifyRule tags sets target rule).rule = rule.id := by
  unfold verifyRule
  split
  · rfl
  · split <;> rfl

theorem Analysis.pattern_verifyRule : (a.verifyRule tags sets target rule).pattern = rule.pattern := by
  unfold verifyRule
  split
  · rename_i hpattern
    exact hpattern.symm
  · rename_i hpattern
    split <;> exact hpattern.symm

end

/-- A rule with a pattern and a formula gets the outcome for the formula. -/
theorem Analysis.outcome_verifyRule {a : Analysis} {tags : DutyTags} {sets : ParallelSets}
    {target : String} {rule : Rule} {pattern : Pattern} {f : StateFormula}
    (hpattern : rule.pattern = some pattern)
    (hf : rule.formulaFor a.route.net pattern target tags = .ok f) :
    (a.verifyRule tags sets target rule).outcome = a.outcome sets target rule pattern f := by
  simp only [verifyRule, hpattern, hf]

/-- The transition has a context that satisfies `p`. -/
def Net.HasContext (net : Net) (t : TransitionId) (p : Context → Bool) : Prop :=
  ∃ x, net.transitions.get? t = some x ∧ x.hasContext p = true

namespace Analysis.Explored

variable {a : Analysis} {g : StepGraph} {s : PathSet}

theorem net_eq (h : a.Explored g s) : g.net = a.route.net := by
  obtain ⟨limit, hg⟩ := h.steps
  exact net_of_stepGraph hg

/-- **A rule is violated where its formula does not hold.** -/
theorem outcome (h : a.Explored g s) (sets : ParallelSets) (target : String) (rule : Rule)
    (pattern : Pattern) (f : StateFormula) :
    (f.Holds g a.route.source → a.outcome sets target rule pattern f =
      if pattern = .nTimesUsage then a.route.net.parallelOutcome sets target rule
      else .satisfied) ∧
    (¬f.Holds g a.route.source →
      (a.outcome sets target rule pattern f).isViolation = true) := by
  obtain ⟨limit, hs⟩ := h.paths
  have hsource : g.net.contains a.route.source.node = true := h.net_eq ▸ h.sound.source
  have hwf : g.net.WellFormed := h.net_eq ▸ h.sound.net.wellFormed
  obtain ⟨e, he, hiff⟩ := f.decides_explain hwf hs hsource
  have hverdict : f.verdict s a.route.source = .ok e.verdict := by
    rw [Formula.verdict, he]
    rfl
  simp only [Analysis.outcome, h.space, hverdict]
  rw [← hiff]
  have hvalue : e.verdict.satisfied = e.holds := rfl
  rw [hvalue]
  cases e.holds with
  | true => exact ⟨fun _ => rfl, fun hf => absurd rfl hf⟩
  | false => exact ⟨fun hf => absurd hf Bool.false_ne_true, fun _ => rfl⟩

/-- The formula of a rule that is satisfied holds. -/
theorem holds_of_satisfied (h : a.Explored g s) {sets : ParallelSets} {target : String} {rule : Rule}
    {pattern : Pattern} {f : StateFormula}
    (hsat : a.outcome sets target rule pattern f = .satisfied) : f.Holds g a.route.source := by
  by_contra hno
  have hviolated := (h.outcome sets target rule pattern f).2 hno
  rw [hsat] at hviolated
  cases hviolated

/-- Nothing that satisfies `step` is reached exactly if nothing that does so can fire. -/
theorem holds_neverReachable_iff (h : a.Explored g s) (step : TransitionFormula) :
    (Formula.neverReachable step).Holds g a.route.source ↔
      ∀ t, a.route.net.Fires t → ¬step.Holds g t := by
  obtain ⟨limit, hg⟩ := h.steps
  constructor
  · intro hnever t ht hstep
    obtain ⟨p, hp, hused⟩ := h.sound.exists_uses_of_fires hg ht
    exact hnever p hp ⟨t, hused, hstep⟩
  · rintro hnever p hp ⟨t, hused, hstep⟩
    exact hnever t ((h.sound.reachable_iff_fires hg).mp (hp.tail hused)) hstep

theorem holds_reads_iff (h : a.Explored g s) (target : String) (t : TransitionId) :
    (Formula.reads target).Holds g t ↔ a.route.net.HasContext t (·.reads target) := by
  show (∃ x, g.net.transitions.get? t = some x ∧ _) ↔ _
  rw [h.net_eq]
  rfl

theorem holds_tagged_iff (h : a.Explored g s) (tag : String) (t : TransitionId) :
    (Formula.tagged tag).Holds g t ↔ a.route.net.HasContext t (·.hasTag tag) := by
  show (∃ x, g.net.transitions.get? t = some x ∧ _) ↔ _
  rw [h.net_eq]
  rfl

end Analysis.Explored

end RoutePolicy
