import RoutePolicy.Proofs.Verification.Outcome
import RoutePolicy.Proofs.Verification.Patterns

set_option autoImplicit false

/-! # Rules on access

A rule that prohibits access, and one that leaves access to a connector, are violated exactly if
some firing sequence of the net fires a transition that has no right to the resource
(`access_verdicts`). -/

namespace RoutePolicy

open Text

/-- The outcome is a violation if there is a breach, and else the rule is satisfied. -/
def Outcome.Tells (o : Outcome) (breach : Prop) : Prop :=
  (o.isViolation = true ↔ breach) ∧ (o = .satisfied ↔ ¬breach)

/-- A rule with the pattern of a restriction to a connector names the connector. -/
theorem Rule.constraints_of_connectorRestrictedUsage {rule : Rule}
    (h : rule.pattern = some .connectorRestrictedUsage) :
    ∃ con, rule.constraints = [con] ∧ rule.constraintOn .system = some con := by
  obtain ⟨con, hcon, -, hfound⟩ := Rule.constraintOn_of_pattern h rfl
  exact ⟨con, hcon, hfound⟩

namespace Analysis.Explored

variable {a : Analysis} {g : StepGraph} {s : PathSet}

/-- A rule that a step is never reached tells whether such a step can fire. -/
theorem tells_neverReachable (h : a.Explored g s) (sets : ParallelSets) (target : String)
    (rule : Rule) (pattern : Pattern) (hp : pattern ≠ .nTimesUsage) (step : TransitionFormula) :
    (a.outcome sets target rule pattern (.neverReachable step)).Tells
      (∃ t, a.route.net.Fires t ∧ step.Holds g t) := by
  obtain ⟨hholds, hfails⟩ := h.outcome sets target rule pattern (.neverReachable step)
  rw [if_neg hp, h.holds_neverReachable_iff] at hholds
  rw [h.holds_neverReachable_iff] at hfails
  by_cases hbreach : ∃ t, a.route.net.Fires t ∧ step.Holds g t
  · have hviolated := hfails fun hnever => by
      obtain ⟨t, ht, hstep⟩ := hbreach
      exact hnever t ht hstep
    refine ⟨iff_of_true hviolated hbreach, iff_of_false (fun hsat => ?_) (not_not_intro hbreach)⟩
    rw [hsat] at hviolated
    cases hviolated
  · have hsat := hholds fun t ht hstep => hbreach ⟨t, ht, hstep⟩
    rw [hsat]
    exact ⟨iff_of_false Bool.false_ne_true hbreach, iff_of_true rfl hbreach⟩

end Analysis.Explored

/-- **Verdicts on access are exact.** When the net of a route is explored to the end, a prohibition
is violated exactly if some firing sequence reads the resource, and a restriction to a connector
exactly if some firing sequence reads it without the tag of the connector. The transitions that
used arcs lead to from the source are those that fire in some sequence. -/
theorem access_verdicts {c : Config} {route : Route} {g : StepGraph} {s : PathSet}
    (h : (c.analyse route).stateSpace = .ok (g, s)) (sets : ParallelSets) (target : String)
    (rule : Rule) :
    let net := (c.analyse route).route.net
    let outcome := ((c.analyse route).verifyRule c.dutyTags sets target rule).outcome
    (rule.pattern = some .prohibitAccess →
      outcome.Tells (∃ t, net.Fires t ∧ net.HasContext t (·.reads target))) ∧
    (rule.pattern = some .connectorRestrictedUsage →
      ∃ con, rule.constraints = [con] ∧ outcome.Tells (∃ t, net.Fires t ∧
        net.HasContext t (·.reads target) ∧
        ¬net.HasContext t (·.hasTag (trim con.rightOperand)))) ∧
    ∀ t : TransitionId, Relation.ReflTransGen g.Uses (c.analyse route).route.source.node t.node ↔
      net.Fires t := by
  have hexplored := Config.explored_analyse h
  refine ⟨fun hpattern => ?_, fun hpattern => ?_, fun t => ?_⟩
  · rw [Analysis.outcome_verifyRule hpattern rfl]
    have htells := hexplored.tells_neverReachable sets target rule .prohibitAccess (by simp)
      (.reads target)
    simpa only [hexplored.holds_reads_iff] using htells
  · obtain ⟨con, hcon, hon⟩ := Rule.constraints_of_connectorRestrictedUsage hpattern
    refine ⟨con, hcon, ?_⟩
    have hformula : rule.formulaFor (c.analyse route).route.net .connectorRestrictedUsage target
        c.dutyTags = .ok (.neverReachable
          (.and (.reads target) (.not (.tagged (trim con.rightOperand))))) := by
      simp only [Rule.formulaFor, Rule.instantiate, hon]
    rw [Analysis.outcome_verifyRule hpattern hformula]
    have htells := hexplored.tells_neverReachable sets target rule .connectorRestrictedUsage
      (by simp) (.and (.reads target) (.not (.tagged (trim con.rightOperand))))
    simpa only [Formula.Holds, hexplored.holds_reads_iff, hexplored.holds_tagged_iff] using htells
  · obtain ⟨limit, hg⟩ := hexplored.steps
    exact hexplored.sound.reachable_iff_fires hg

/-- The sender hands the resource to the receiver, which reads it. -/
def handover : Route := .node ⟨"handover", [.app "sender"], [.app "receiver"], ["R"]⟩ []

/-- A prohibition to read what is handed over. -/
theorem access_verdicts_handover : ∃ g s,
    (Config.standard.analyse handover).stateSpace = .ok (g, s) ∧
    ((Config.standard.analyse handover).verifyRule Config.standard.dutyTags none "R"
      (.prohibition "never")).outcome.Tells
      (∃ t, (Config.standard.analyse handover).route.net.Fires t ∧
        (Config.standard.analyse handover).route.net.HasContext t (·.reads "R")) := by
  have hok : (Config.standard.analyse handover).stateSpace.isOk = true := by
    rw [Config.analyse_eq_survey]
    decide +kernel
  obtain ⟨⟨g, s⟩, h⟩ := exists_eq_ok hok
  exact ⟨g, s, h, (access_verdicts h none "R" (.prohibition "never")).1 rfl⟩

end RoutePolicy
