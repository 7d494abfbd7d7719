import RoutePolicy.Proofs.Formula.Citations
import RoutePolicy.Proofs.Verification.Access
import RoutePolicy.Proofs.Verification.Usage

set_option autoImplicit false

/-! # The messages of violations

A rule is violated where its formula is false at the source, or where more transitions can read the
resource at once than it allows. The message of a violation has a form that the pattern of the rule
fixes (`Rule.cause?`): it says that the resource is read, and what is missing then. Which path or which
transition of the net breaks the rule is not seen from it. So a violation is always explained, and two
violations of one rule along paths are explained alike (`violation_messages`). -/

namespace RoutePolicy

/-! ## Causes -/

/-- What is said where the formula of a rule with the pattern is false. For a rule that a resource is
used until its deletion there are two cases: `erased` says whether every read is followed by an
erasure. A rule that provides access has a formula that is never false. -/
def Rule.cause? (r : Rule) (tags : DutyTags) (target : String) (erased : Bool) :
    Pattern → Option String
  | .provideAccess => none
  | .prohibitAccess | .nTimesUsage => some ("resource " ++ target ++ " is read")
  | .durationUsage | .usageDuringInterval =>
    some ("resource " ++ target ++ " is read; resource " ++ target ++ " is not erased")
  | .usageUntilDeletion =>
    if erased then some ("resource " ++ target ++ " is erased; resource " ++ target ++ " is read")
    else some ("resource " ++ target ++ " is read; resource " ++ target ++ " is not erased")
  | .usageLogging =>
    some ("resource " ++ target ++ " is read; tag " ++ tags.logging ++ " is missing")
  | .usageNotification =>
    some ("resource " ++ target ++ " is read; tag " ++ tags.notification ++ " is missing")
  | .connectorRestrictedUsage => (r.constraintOn .system).map fun con =>
    "resource " ++ target ++ " is read; tag " ++ Text.trim con.rightOperand ++ " is missing"

/-- Something is said. -/
theorem Rule.cause?_ne_empty (r : Rule) (tags : DutyTags) (target : String) (erased : Bool)
    (pattern : Pattern) : r.cause? tags target erased pattern ≠ some "" := by
  cases pattern <;> cases erased <;> simp [cause?, ← String.toList_inj]

/-- What is said of a rule whose formula is `f`: why the formula is false at the source, or, if it is
true there, that too many transitions read the resource at once. -/
inductive Analysis.Breach (a : Analysis) (s : PathSet) (tags : DutyTags) (sets : ParallelSets)
    (target : String) (rule : Rule) (f : StateFormula) : Pattern → String → Prop
  | along {pattern : Pattern} {erased : Bool} {text : String}
      (hf : f.evaluate s a.route.source = .ok false)
      (herased : (Formula.everyReadFollowedBy target (.erases target)).evaluate s a.route.source
        = .ok erased)
      (htext : rule.cause? tags target erased pattern = some text) :
      Breach a s tags sets target rule f pattern text
  | atOnce {found : List (List String)} {bound : Whole}
      (hf : f.evaluate s a.route.source = .ok true) (hsets : sets = some (.ok found))
      (hbound : rule.concurrencyBound? = some bound)
      (hmore : bound.magnitude < a.route.net.readersAtOnce target found) :
      Breach a s tags sets target rule f .nTimesUsage
        (toString (a.route.net.readersAtOnce target found) ++ " concurrent reads of " ++ target
          ++ " exceed bound " ++ bound.text)

/-! ## Two facts in one message -/

/-- Two sentences that are not the same are both stated. -/
theorem intercalate_merge {a b text : String} (h : a ≠ b) (htext : a ++ "; " ++ b = text) :
    String.intercalate "; " (Evaluation.merge [a] [b]) = text := by
  rw [Evaluation.merge_of_disjoint (by simpa using h), ← htext]
  rfl

theorem intercalate_read_notErased (target : String) :
    String.intercalate "; " (Evaluation.merge ["resource " ++ target ++ " is read"]
        ["resource " ++ target ++ " is not erased"])
      = "resource " ++ target ++ " is read; resource " ++ target ++ " is not erased" :=
  intercalate_merge (by simp [← String.toList_inj]) (by simp [← String.toList_inj])

theorem intercalate_erased_read (target : String) :
    String.intercalate "; " (Evaluation.merge ["resource " ++ target ++ " is erased"]
        ["resource " ++ target ++ " is read"])
      = "resource " ++ target ++ " is erased; resource " ++ target ++ " is read" :=
  intercalate_merge (by simp [← String.toList_inj]) (by simp [← String.toList_inj])

theorem intercalate_read_missing (target tag : String) :
    String.intercalate "; " (Evaluation.merge ["resource " ++ target ++ " is read"]
        ["tag " ++ tag ++ " is missing"])
      = "resource " ++ target ++ " is read; tag " ++ tag ++ " is missing" :=
  intercalate_merge (by simp [← String.toList_inj]) (by simp [← String.toList_inj])

/-! ## Violations of rules -/

theorem Outcome.isViolation_iff {o : Outcome} :
    o.isViolation = true ↔ ∃ message, o = .violated message := by
  cases o <;> simp [isViolation]

/-- Reads at the same time break a rule if they are more than its bound. -/
theorem Net.parallelOutcome_eq_violated_iff {net : Net} {sets : ParallelSets} {target : String}
    {rule : Rule} {message : Option String} :
    net.parallelOutcome sets target rule = .violated message ↔ ∃ found bound,
      sets = some (.ok found) ∧ rule.concurrencyBound? = some bound ∧
        bound.magnitude < net.readersAtOnce target found ∧
        message = some (toString (net.readersAtOnce target found) ++ " concurrent reads of "
          ++ target ++ " exceed bound " ++ bound.text) := by
  unfold parallelOutcome
  constructor
  · intro h
    split at h
    · cases h
    · cases h
    · rename_i found
      split at h
      · cases h
      · rename_i bound hbound
        by_cases hmore : bound.magnitude < net.readersAtOnce target found
        · rw [if_pos hmore] at h
          exact ⟨found, bound, rfl, hbound, hmore, (Outcome.violated.inj h).symm⟩
        · rw [if_neg hmore] at h
          cases h
  · rintro ⟨found, bound, rfl, hbound, hmore, rfl⟩
    simp only [hbound, if_pos hmore]

/-- A rule is violated if its formula is. -/
theorem Analysis.verifyRule_eq_violated_iff {a : Analysis} {tags : DutyTags} {sets : ParallelSets}
    {target : String} {rule : Rule} {message : Option String} :
    (a.verifyRule tags sets target rule).outcome = .violated message ↔ ∃ pattern f,
      rule.pattern = some pattern ∧ rule.formulaFor a.route.net pattern target tags = .ok f ∧
        a.outcome sets target rule pattern f = .violated message := by
  constructor
  · intro h
    cases hpattern : rule.pattern with
    | none =>
        simp only [verifyRule, hpattern] at h
        cases h
    | some pattern =>
        cases hf : rule.formulaFor a.route.net pattern target tags with
        | error error =>
            simp only [verifyRule, hpattern, hf] at h
            cases h
        | ok f =>
            rw [outcome_verifyRule hpattern hf] at h
            exact ⟨pattern, f, rfl, hf, h⟩
  · rintro ⟨pattern, f, hpattern, hf, h⟩
    rwa [outcome_verifyRule hpattern hf]

namespace Analysis.Explored

variable {a : Analysis} {g : StepGraph} {s : PathSet}

/-- Every formula has a value at the source, and it is true where the formula holds. -/
theorem decides_source (h : a.Explored g s) (f : StateFormula) :
    Decides (f.explain s a.route.source) (f.Holds g a.route.source) := by
  obtain ⟨limit, hs⟩ := h.paths
  exact f.decides_explain (h.net_eq ▸ h.sound.net.wellFormed) hs
    (show g.net.contains a.route.source.node = true from h.net_eq ▸ h.sound.source)

variable {tags : DutyTags} {target : String} {rule : Rule} {f : StateFormula} {pattern : Pattern}
  {e : Evaluation} {erased : Bool}

/-- A read without the goal after it is cited, and why the goal was missed. -/
theorem facts_everyReadFollowedBy (h : a.Explored g s) {goal : TransitionFormula} {fact : String}
    (hgoal : goal.Cites s false [fact])
    (he : (Formula.everyReadFollowedBy target goal).explain s a.route.source = .ok e)
    (hfalse : e.holds = false) :
    e.facts = Evaluation.merge ["resource " ++ target ++ " is read"] [fact] := by
  obtain ⟨limit, hs⟩ := h.paths
  exact Formula.cites_everyReadFollowedBy (h.net_eq ▸ h.sound.net.wellFormed) hs hgoal
    (List.nodup_singleton fact) _ e he hfalse

theorem facts_notErased (h : a.Explored g s)
    (he : (Formula.everyReadFollowedBy target (.erases target)).explain s a.route.source = .ok e)
    (hfalse : e.holds = false) : String.intercalate "; " e.facts
      = "resource " ++ target ++ " is read; resource " ++ target ++ " is not erased" := by
  rw [h.facts_everyReadFollowedBy (Formula.cites_erases s target false) he hfalse]
  exact intercalate_read_notErased target

theorem facts_notTagged (h : a.Explored g s) {tag : String}
    (he : (Formula.everyReadFollowedBy target (.tagged tag)).explain s a.route.source = .ok e)
    (hfalse : e.holds = false) : String.intercalate "; " e.facts
      = "resource " ++ target ++ " is read; tag " ++ tag ++ " is missing" := by
  rw [h.facts_everyReadFollowedBy (Formula.cites_not_tagged s tag) he hfalse]
  exact intercalate_read_missing target tag

/-- Either half of the rule may fail. The second one is looked at if every read is followed by an
erasure. -/
theorem facts_erasedForGood (h : a.Explored g s)
    (he : (Formula.erasedForGood target).explain s a.route.source = .ok e)
    (hfalse : e.holds = false)
    (herased : (Formula.everyReadFollowedBy target (.erases target)).evaluate s a.route.source
      = .ok erased) :
    rule.cause? tags target erased .usageUntilDeletion = some (String.intercalate "; " e.facts) := by
  obtain ⟨e₁, he₁, hvalue⟩ := bind_eq_ok_iff.mp herased
  obtain rfl := Except.ok.inj hvalue
  obtain ⟨e₂, he₂, hcases⟩ := Evaluation.and_cases he
  obtain rfl := Except.ok.inj (he₁.symm.trans he₂)
  rcases hcases with ⟨hfirst, rfl⟩ | ⟨hfirst, r, hr, ⟨hsecond, rfl⟩ | ⟨-, rfl⟩⟩
  · rw [h.facts_notErased he₁ hfalse, hfirst]
    rfl
  · rw [Formula.cites_noReadAfterErasure s target _ _ hr hsecond, intercalate_erased_read, hfirst]
    rfl
  · exact absurd (hfalse.symm.trans hfirst) Bool.false_ne_true

/-- **The pattern of a rule fixes the facts for which its formula is false.** -/
theorem cause?_eq_of_fails (h : a.Explored g s)
    (hf : rule.formulaFor a.route.net pattern target tags = .ok f)
    (he : f.explain s a.route.source = .ok e) (hfalse : e.holds = false)
    (herased : (Formula.everyReadFollowedBy target (.erases target)).evaluate s a.route.source
      = .ok erased) :
    rule.cause? tags target erased pattern = some (String.intercalate "; " e.facts) := by
  cases pattern with
  | provideAccess =>
      obtain rfl := Except.ok.inj hf
      obtain rfl := Except.ok.inj he
      cases hfalse
  | prohibitAccess =>
      obtain rfl := Except.ok.inj hf
      have hfacts := Formula.cites_neverReachable (Formula.cites_reads s target) _ e he hfalse
      rw [hfacts]
      rfl
  | nTimesUsage =>
      obtain ⟨b, -, -, rfl⟩ := Rule.usageFormula_eq_ok_iff.mp hf
      rw [Formula.cites_atMost s target _ _ e he hfalse]
      rfl
  | durationUsage =>
      obtain rfl := Except.ok.inj hf
      exact congrArg some (h.facts_notErased he hfalse).symm
  | usageDuringInterval =>
      obtain rfl := Except.ok.inj hf
      exact congrArg some (h.facts_notErased he hfalse).symm
  | usageUntilDeletion =>
      obtain rfl := Except.ok.inj hf
      exact h.facts_erasedForGood he hfalse herased
  | usageLogging =>
      obtain rfl := Except.ok.inj hf
      exact congrArg some (h.facts_notTagged he hfalse).symm
  | usageNotification =>
      obtain rfl := Except.ok.inj hf
      exact congrArg some (h.facts_notTagged he hfalse).symm
  | connectorRestrictedUsage =>
      simp only [Rule.formulaFor, Rule.instantiate] at hf
      split at hf
      · cases hf
      · rename_i con hcon
        obtain rfl := Except.ok.inj hf
        have hfacts := Formula.cites_neverReachable ((Formula.cites_reads s target).and
          (Formula.cites_not_tagged s (Text.trim con.rightOperand)).not) _ e he hfalse
        rw [hfacts, intercalate_read_missing, Rule.cause?, hcon]
        rfl

/-- A false formula makes a violation, with its facts as the message. -/
theorem outcome_of_false (h : a.Explored g s)
    (hf : rule.formulaFor a.route.net pattern target tags = .ok f)
    (he : f.explain s a.route.source = .ok e) (hfalse : e.holds = false)
    (herased : (Formula.everyReadFollowedBy target (.erases target)).evaluate s a.route.source
      = .ok erased) (sets : ParallelSets) :
    a.outcome sets target rule pattern f = .violated (rule.cause? tags target erased pattern) := by
  have hcause := h.cause?_eq_of_fails hf he hfalse herased
  have hstated : e.facts ≠ [] := by
    intro hnone
    rw [hnone] at hcause
    exact rule.cause?_ne_empty tags target erased pattern hcause
  have hverdict : f.verdict s a.route.source
      = .ok ⟨false, rule.cause? tags target erased pattern⟩ := by
    rw [Formula.verdict, he, ok_bind, Evaluation.verdict_of_stated hfalse hstated, hcause]
    rfl
  simp only [Analysis.outcome, h.space, hverdict]
  rfl

/-- **A rule with a formula is violated for a reason, and the reason is its message.** -/
theorem outcome_eq_violated_iff (h : a.Explored g s)
    (hf : rule.formulaFor a.route.net pattern target tags = .ok f) {sets : ParallelSets}
    {message : Option String} : a.outcome sets target rule pattern f = .violated message ↔
      ∃ text, a.Breach s tags sets target rule f pattern text ∧ message = some text := by
  obtain ⟨e, he, hiff⟩ := h.decides_source f
  obtain ⟨e₁, he₁, -⟩ := h.decides_source (Formula.everyReadFollowedBy target (.erases target))
  have hvalue := Formula.evaluate_of_explain he
  have herased := Formula.evaluate_of_explain he₁
  cases hholds : e.holds with
  | false =>
      rw [hholds] at hvalue
      rw [h.outcome_of_false hf he hholds herased, Outcome.violated.injEq]
      constructor
      · rintro rfl
        have hcause := h.cause?_eq_of_fails hf he hholds herased
        exact ⟨_, .along hvalue herased hcause, hcause⟩
      · rintro ⟨text, ⟨-, herased', htext⟩ | ⟨htrue, -, -, -⟩, rfl⟩
        · obtain rfl := Except.ok.inj (herased.symm.trans herased')
          exact htext
        · cases hvalue.symm.trans htrue
  | true =>
      rw [hholds] at hvalue
      rw [(h.outcome sets target rule pattern f).1 (hiff.mp hholds)]
      constructor
      · intro hviolated
        split at hviolated
        · rename_i hpattern
          subst hpattern
          obtain ⟨found, bound, hsets, hbound, hmore, rfl⟩ :=
            Net.parallelOutcome_eq_violated_iff.mp hviolated
          exact ⟨_, .atOnce hvalue hsets hbound hmore, rfl⟩
        · cases hviolated
      · rintro ⟨text, ⟨hfalse, -, -⟩ | ⟨-, hsets, hbound, hmore⟩, rfl⟩
        · cases hvalue.symm.trans hfalse
        · rw [if_pos rfl]
          exact Net.parallelOutcome_eq_violated_iff.mpr ⟨_, _, hsets, hbound, hmore, rfl⟩

end Analysis.Explored

/-- **Every violation names its cause, in a form that the pattern fixes.** A rule is violated exactly
if it has a pattern and a formula, the net of the route is explored to the end, and the formula is false
at the source or too many transitions can read the resource at once. The message is there, and it
depends on the pattern, the texts of the rule and the settings, and on nothing else: for a rule that
a resource is used until its deletion also on whether every read is followed by an erasure, and for
reads at the same time also on their number. A rule that provides access is never violated. -/
theorem violation_messages (c : Config) (route : Route) (sets : ParallelSets) (target : String)
    (rule : Rule) :
    let a := c.analyse route
    (∀ message, (a.verifyRule c.dutyTags sets target rule).outcome = .violated message ↔
      ∃ pattern f g s text, rule.pattern = some pattern ∧
        rule.formulaFor a.route.net pattern target c.dutyTags = .ok f ∧
        a.stateSpace = .ok (g, s) ∧ a.Breach s c.dutyTags sets target rule f pattern text ∧
        message = some text) ∧
    (rule.pattern = some .provideAccess →
      (a.verifyRule c.dutyTags sets target rule).outcome.isViolation = false) := by
  intro a
  have hiff (message : Option String) :
      (a.verifyRule c.dutyTags sets target rule).outcome = .violated message ↔
        ∃ pattern f g s text, rule.pattern = some pattern ∧
          rule.formulaFor a.route.net pattern target c.dutyTags = .ok f ∧
          a.stateSpace = .ok (g, s) ∧ a.Breach s c.dutyTags sets target rule f pattern text ∧
          message = some text := by
    rw [Analysis.verifyRule_eq_violated_iff]
    refine exists_congr fun pattern => exists_congr fun f => ?_
    constructor
    · rintro ⟨hpattern, hf, houtcome⟩
      obtain ⟨g, s, hspace⟩ :=
        Analysis.exists_stateSpace_of_outcome houtcome fun _ hreason => by cases hreason
      obtain ⟨text, hbreach, rfl⟩ :=
        ((Config.explored_analyse hspace).outcome_eq_violated_iff hf).mp houtcome
      exact ⟨g, s, text, hpattern, hf, hspace, hbreach, rfl⟩
    · rintro ⟨g, s, text, hpattern, hf, hspace, hbreach, rfl⟩
      exact ⟨hpattern, hf, ((Config.explored_analyse hspace).outcome_eq_violated_iff hf).mpr
        ⟨text, hbreach, rfl⟩⟩
  refine ⟨hiff, fun hprovide => ?_⟩
  rw [Bool.eq_false_iff]
  intro hviolated
  obtain ⟨message, hmessage⟩ := Outcome.isViolation_iff.mp hviolated
  obtain ⟨pattern, f, g, s, text, hpattern, -, -, hbreach, -⟩ := (hiff message).mp hmessage
  obtain rfl := Option.some.inj (hprovide.symm.trans hpattern)
  cases hbreach with
  | along _ _ htext => cases htext

/-- A permission with the duty to log. -/
def audited : Rule := (Rule.permission "audited").addDuty (.ofAction .log)

/-- The receiver reads what is handed over and does not log it. -/
theorem violation_messages_handover :
    let a := Config.standard.analyse handover
    let verdict := a.verifyRule Config.standard.dutyTags none "R"
    (∃ g s f, a.stateSpace = .ok (g, s) ∧
      audited.formulaFor a.route.net .usageLogging "R" Config.standard.dutyTags = .ok f ∧
      a.Breach s Config.standard.dutyTags none "R" audited f .usageLogging
        "resource R is read; tag logging is missing" ∧
      (verdict audited).outcome
        = .violated (some "resource R is read; tag logging is missing")) ∧
    (verdict (.permission "free")).outcome.isViolation = false := by
  intro a verdict
  have hviolated : (verdict audited).outcome
      = .violated (some "resource R is read; tag logging is missing") := by
    show ((Config.standard.analyse handover).verifyRule _ _ _ _).outcome = _
    rw [Config.analyse_eq_survey]
    decide +kernel
  refine ⟨?_, (violation_messages Config.standard handover none "R" (.permission "free")).2 rfl⟩
  obtain ⟨pattern, f, g, s, text, hpattern, hf, hspace, hbreach, htext⟩ :=
    ((violation_messages Config.standard handover none "R" audited).1 _).mp hviolated
  obtain rfl := Option.some.inj hpattern
  obtain rfl := Option.some.inj htext
  exact ⟨g, s, f, hspace, hf, hbreach, hviolated⟩

end RoutePolicy
