import RoutePolicy.Proofs.Verification.Clamping
import RoutePolicy.Proofs.Verification.Duty

set_option autoImplicit false

/-! # Verdicts on duties and on deletion

A rule with a duty looks at each reader that can fire, and at all maximal runs along used arcs from
it: on each of them there has to be a transition that discharges the duty, which may be the reader
itself (`StepGraph.Discharges`). A rule on deletion asks in addition that no used arcs lead from a
transition that erases the resource, and can fire, to one that reads it (`StepGraph.ErasesForGood`).
When the net of a route is explored to the end these conditions settle the verdicts
(`duty_verdicts`). -/

namespace RoutePolicy

open Relation

namespace StepGraph

/-- Every reader that can fire is followed on every maximal run, or is itself, a transition whose
context satisfies `duty`. -/
def Discharges (g : StepGraph) (target : String) (duty : Context → Bool) : Prop :=
  ∀ t, g.net.Fires t → g.net.HasContext t (·.reads target) →
    ∀ v, IsMaximalRun g.Uses t.node v →
      ∃ i, ∃ u : TransitionId, v i = some u.node ∧ g.net.HasContext u duty

/-- Used arcs lead from no transition that can fire and erases the resource to one that reads it. -/
def ErasesForGood (g : StepGraph) (target : String) : Prop :=
  ∀ t, g.net.Fires t → g.net.HasContext t (·.erases target) →
    ∀ u : TransitionId, TransGen g.Uses t.node u.node → ¬g.net.HasContext u (·.reads target)

end StepGraph

/-- The rule is satisfied if it is kept, and violated if it is not. -/
def Outcome.Confirms (o : Outcome) (kept : Prop) : Prop :=
  (o = .satisfied ↔ kept) ∧ (o.isViolation = true ↔ ¬kept)

variable {a : Analysis} {g : StepGraph} {s : PathSet} {target : String}

/-! ## What the formulas say -/

/-- A place behind the transition leads to a reader exactly if the transition does. -/
theorem holds_modal_pos_reads_iff (hwf : g.net.WellFormed) (target : String) {t : TransitionId} :
    (Formula.modal (.pos (.modal (.reads target))) : TransitionFormula).Holds g t ↔
      ∃ u : TransitionId, TransGen g.Uses t.node u.node ∧ g.net.HasContext u (·.reads target) := by
  constructor
  · rintro ⟨q, hput, q', hway, u, htake, hread⟩
    exact ⟨u, .head' hput (hway.tail htake), hread⟩
  · rintro ⟨u, hway, hread⟩
    obtain ⟨q, hput, hway⟩ := (StepGraph.transition_leads_iff hwf).mp hway
    obtain ⟨q', hway, htake⟩ := (StepGraph.place_leads_iff hwf).mp hway
    exact ⟨q, hput, q', hway, u, htake, hread⟩

namespace Analysis.Explored

/-- The formula of a duty holds at the source exactly if every reader is discharged. -/
theorem holds_everyReadFollowedBy_iff (h : a.Explored g s) {f : TransitionFormula}
    {duty : Context → Bool} (hf : ∀ t, f.Holds g t ↔ g.net.HasContext t duty) :
    (Formula.everyReadFollowedBy target f).Holds g a.route.source ↔ g.Discharges target duty := by
  rw [Formula.everyReadFollowedBy, h.holds_neverReachable_iff, ← h.net_eq]
  refine forall_congr' fun t => imp_congr_right fun _ => ?_
  have hev : (Formula.ev f).Holds g t ↔ ∀ v, IsMaximalRun g.Uses t.node v →
      ∃ i, ∃ u : TransitionId, v i = some u.node ∧ g.net.HasContext u duty := by
    simp only [← hf]
    rfl
  rw [← hev]
  exact not_and_not_right

/-- The formula of deletion holds at the source exactly if every reader is followed by an erasure and
no erasure by a reader. -/
theorem holds_erasedForGood_iff (h : a.Explored g s) :
    (Formula.erasedForGood target).Holds g a.route.source ↔
      g.Discharges target (·.erases target) ∧ g.ErasesForGood target := by
  have hwf : g.net.WellFormed := h.net_eq ▸ h.sound.net.wellFormed
  refine and_congr (h.holds_everyReadFollowedBy_iff fun t => Iff.rfl) ?_
  rw [h.holds_neverReachable_iff, ← h.net_eq]
  refine forall_congr' fun t => imp_congr_right fun _ => ?_
  have hafter := holds_modal_pos_reads_iff hwf target (t := t)
  constructor
  · intro hnever herase u hway hread
    exact hnever ⟨herase, hafter.mpr ⟨u, hway, hread⟩⟩
  · rintro hnever ⟨herase, hread⟩
    obtain ⟨u, hway, hread⟩ := hafter.mp hread
    exact hnever herase u hway hread

/-- A rule with a formula is kept exactly if the formula holds, where nothing else is asked for. -/
theorem confirms (h : a.Explored g s) (sets : ParallelSets) (target : String) (rule : Rule)
    {pattern : Pattern} (hp : pattern ≠ .nTimesUsage) {f : StateFormula} {kept : Prop}
    (hf : f.Holds g a.route.source ↔ kept) :
    (a.outcome sets target rule pattern f).Confirms kept := by
  obtain ⟨hholds, hfails⟩ := h.outcome sets target rule pattern f
  rw [if_neg hp] at hholds
  rw [← hf]
  by_cases hkept : f.Holds g a.route.source
  · rw [hholds hkept]
    exact ⟨iff_of_true rfl hkept, iff_of_false Bool.false_ne_true (not_not_intro hkept)⟩
  · have hviolated := hfails hkept
    refine ⟨iff_of_false (fun hsat => ?_) hkept, iff_of_true hviolated hkept⟩
    rw [hsat] at hviolated
    cases hviolated

end Analysis.Explored

/-! ## Verdicts -/

/-- A rule on the number of uses has no duty. -/
theorem Pattern.ne_nTimesUsage_of_duty {pattern : Pattern} {tags : DutyTags} {duty : Context → Bool}
    (h : pattern.duty? target tags = some duty) : pattern ≠ .nTimesUsage := by
  rintro rfl
  cases h

/-- **Verdicts on duties and on deletion are exact.** When the net of a route is explored to the end,
a rule with a duty is satisfied exactly if every reader that can fire is discharged on every maximal
run along used arcs, and a rule on deletion exactly if every reader is followed by an erasure in this
way and no used arcs lead from an erasure that can fire to a reader. Otherwise it is violated. -/
theorem duty_verdicts {c : Config} {request : Request}
    (h : (c.analyse request.route).stateSpace = .ok (g, s)) {v : RuleVerdict} {pattern : Pattern}
    (hv : v ∈ (c.verify request).verdicts) (hpattern : v.pattern = some pattern) :
    g.net = request.net ∧
    (∀ duty, pattern.duty? v.resource c.dutyTags = some duty →
      v.outcome.Confirms (g.Discharges v.resource duty)) ∧
    (pattern = .usageUntilDeletion → v.outcome.Confirms
      (g.Discharges v.resource (·.erases v.resource) ∧ g.ErasesForGood v.resource)) := by
  have hexplored := Config.explored_analyse h
  obtain ⟨resource, -, rule, -, rfl⟩ := Config.mem_verdicts_iff.mp hv
  obtain ⟨hresource, hrule⟩ := (c.analyse request.route).verifyRule_spec c.dutyTags
    ((c.analyse request.route).parallelSets c request.resources) resource.id rule
  rw [Config.verdictOn, hrule] at hpattern
  rw [Config.verdictOn, hresource]
  refine ⟨hexplored.net_eq, ?_, ?_⟩
  · intro duty hduty
    obtain ⟨f, hf, hholds⟩ := Rule.exists_formulaFor_of_duty hduty rule
      (c.analyse request.route).route.net
    rw [Analysis.outcome_verifyRule hpattern hf]
    exact hexplored.confirms _ _ _ (Pattern.ne_nTimesUsage_of_duty hduty)
      (hexplored.holds_everyReadFollowedBy_iff (hholds g))
  · rintro rfl
    rw [Analysis.outcome_verifyRule hpattern rfl]
    exact hexplored.confirms _ _ _ (by decide) hexplored.holds_erasedForGood_iff

/-- A permission to use a resource until a moment in an interval. -/
def inInterval : Rule :=
  ⟨"interval", .permission, [⟨.policyEvaluationTime, .after, "t0"⟩,
    ⟨.policyEvaluationTime, .before, "t1"⟩], []⟩

/-- A permission to use a resource that is deleted afterwards. -/
def untilDeletion : Rule := { inInterval with id := "deletion", postDuties := [.ofAction .delete] }

/-- A resource that may be used until it is deleted. -/
def usedUntilDeletion : Resource := ⟨"R", [⟨[inInterval, untilDeletion], [], []⟩]⟩

/-- The reader erases the resource, which a later step puts out once more. -/
def renewed : Request :=
  ⟨.node ⟨"data", [.app "a"], [.app "T"], ["R"]⟩
    [.node ⟨"pause", [.app "T"], [.app "b"], []⟩ [],
      .node ⟨"again", [.app "b"], [.app "U"], ["R"]⟩ []], [usedUntilDeletion]⟩

/-- Both readers erase what they read, but after the first erasure there is a read. -/
theorem duty_verdicts_renewed : ∃ g s,
    (Config.standard.analyse renewed.route).stateSpace = .ok (g, s) ∧
    (∃ v ∈ (Config.standard.verify renewed).verdicts, v.pattern = some .usageDuringInterval ∧
      v.outcome = .satisfied ∧ g.Discharges "R" (·.erases "R")) ∧
    ∃ v ∈ (Config.standard.verify renewed).verdicts, v.pattern = some .usageUntilDeletion ∧
      v.outcome.isViolation = true ∧ ¬g.ErasesForGood "R" := by
  have hok : (Config.standard.analyse renewed.route).stateSpace.isOk = true := by
    rw [Config.analyse_eq_survey]
    decide +kernel
  obtain ⟨⟨g, s⟩, h⟩ := exists_eq_ok hok
  have hinterval : (Config.standard.verdictOn renewed usedUntilDeletion inInterval).outcome
      = .satisfied := by
    rw [Config.verdictOn, Config.analyse_eq_survey]
    decide +kernel
  have hdeletion : (Config.standard.verdictOn renewed usedUntilDeletion untilDeletion
      ).outcome.isViolation = true := by
    rw [Config.verdictOn, Config.analyse_eq_survey]
    decide +kernel
  have hv : Config.standard.verdictOn renewed usedUntilDeletion inInterval
      ∈ (Config.standard.verify renewed).verdicts :=
    Config.mem_verdicts_iff.mpr ⟨usedUntilDeletion, by decide, inInterval, by decide, rfl⟩
  have hw : Config.standard.verdictOn renewed usedUntilDeletion untilDeletion
      ∈ (Config.standard.verify renewed).verdicts :=
    Config.mem_verdicts_iff.mpr ⟨usedUntilDeletion, by decide, untilDeletion, by decide, rfl⟩
  have hdischarges : g.Discharges "R" (·.erases "R") :=
    ((duty_verdicts h hv rfl).2.1 _ rfl).1.mp hinterval
  have hkept := ((duty_verdicts h hw rfl).2.2 rfl).2.mp hdeletion
  exact ⟨g, s, h, ⟨_, hv, rfl, hinterval, hdischarges⟩, _, hw, rfl, hdeletion,
    fun hgood => hkept ⟨hdischarges, hgood⟩⟩

end RoutePolicy
