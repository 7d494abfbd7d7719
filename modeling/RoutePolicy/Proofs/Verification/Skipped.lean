import RoutePolicy.Proofs.Verification.Access
import RoutePolicy.Proofs.Verification.Usage

set_option autoImplicit false

/-! # Rules that a report skips

A rule is skipped if it has no pattern, or has no formula for the net of the route. Every rule with a
formula gets another outcome, whatever exploration finds. So the rules that are skipped are those
without a pattern and those whose bound on the number of uses cannot be used (`skipped_verdicts`). -/

namespace RoutePolicy

/-- Why a rule is skipped for a net, in words: it has no pattern, or its bound on the number of uses
cannot be used. -/
inductive Rule.Skipped (rule : Rule) (net : Net) (target : String) : String → Prop
  | shape (hpattern : rule.pattern = none) : Skipped rule net target "rule shape not recognised"
  | bound {e : PolicyError} (hpattern : rule.pattern = some .nTimesUsage)
      (hdefect : rule.BoundDefect net target e) : Skipped rule net target e.message

variable {a : Analysis} {tags : DutyTags} {sets : ParallelSets} {target : String} {rule : Rule}
  {reason : String}

theorem Net.parallelOutcome_ne_skipped {net : Net} :
    net.parallelOutcome sets target rule ≠ .skipped reason := by
  unfold parallelOutcome
  split
  · simp
  · simp
  · split
    · simp
    · simp only
      split <;> simp

/-- A rule with a formula is not skipped. -/
theorem Analysis.outcome_ne_skipped {pattern : Pattern} {f : StateFormula} :
    a.outcome sets target rule pattern f ≠ .skipped reason := by
  unfold outcome
  split
  · simp
  · split
    · simp
    · split_ifs
      · simp
      · exact Net.parallelOutcome_ne_skipped
      · simp

theorem Analysis.outcome_verifyRule_eq_skipped_iff :
    (a.verifyRule tags sets target rule).outcome = .skipped reason ↔
      rule.Skipped a.route.net target reason := by
  constructor
  · intro h
    unfold verifyRule at h
    split at h
    · rename_i hpattern
      cases h
      exact .shape hpattern
    · rename_i pattern hpattern
      split at h
      · rename_i e he
        obtain ⟨rfl, hdefect⟩ := (Rule.formulaFor_eq_error_iff hpattern).mp he
        cases h
        exact .bound hpattern hdefect
      · exact absurd h outcome_ne_skipped
  · intro h
    cases h with
    | shape hpattern => simp only [verifyRule, hpattern]
    | bound hpattern hdefect =>
        have he : rule.formulaFor a.route.net .nTimesUsage target tags = .error _ :=
          (Rule.formulaFor_eq_error_iff hpattern).mpr ⟨rfl, hdefect⟩
        simp only [verifyRule, hpattern, he]

/-- **A rule with a pattern is skipped only for its bound on the number of uses.** A rule with a
pattern never lacks the constraint that its formula is about. It lacks a formula only if its pattern is
that of a number of uses, and its bound cannot be read, or is too large for a net with this many
readers. So a report skips the rules without a pattern and those with such a bound, and no others. -/
theorem skipped_verdicts (c : Config) (request : Request) :
    (∀ (rule : Rule) (net : Net) (target : String) (tags : DutyTags) (pattern : Pattern),
      rule.pattern = some pattern →
        (∀ id operand, rule.formulaFor net pattern target tags
          ≠ .error (.missingConstraint id operand)) ∧
        ∀ e, rule.formulaFor net pattern target tags = .error e ↔
          pattern = .nTimesUsage ∧ rule.BoundDefect net target e) ∧
    ∀ target id reason,
      (∃ v ∈ (c.verify request).verdicts,
        v.resource = target ∧ v.rule = id ∧ v.outcome = .skipped reason) ↔
      ∃ resource ∈ request.resources, ∃ rule ∈ resource.rules,
        resource.id = target ∧ rule.id = id ∧ rule.Skipped request.net target reason := by
  refine ⟨fun rule net target tags pattern hpattern => ⟨fun id operand he => ?_, fun e => ?_⟩,
    fun target id reason => ⟨?_, ?_⟩⟩
  · obtain ⟨-, hdefect⟩ := (Rule.formulaFor_eq_error_iff hpattern).mp he
    cases hdefect
  · exact Rule.formulaFor_eq_error_iff hpattern
  · rintro ⟨v, hv, hresource, hrule, hskipped⟩
    obtain ⟨resource, hin, rule, hrule', rfl⟩ := Config.mem_verdicts_iff.mp hv
    rw [Config.verdictOn] at hresource hrule hskipped
    rw [Analysis.resource_verifyRule] at hresource
    rw [Analysis.rule_verifyRule] at hrule
    rw [Analysis.outcome_verifyRule_eq_skipped_iff, hresource] at hskipped
    exact ⟨resource, hin, rule, hrule', hresource, hrule, hskipped⟩
  · rintro ⟨resource, hin, rule, hrule, hresource, hid, hskipped⟩
    subst hresource
    exact ⟨c.verdictOn request resource rule,
      Config.mem_verdicts_iff.mpr ⟨resource, hin, rule, hrule, rfl⟩, Analysis.resource_verifyRule,
      Analysis.rule_verifyRule.trans hid, Analysis.outcome_verifyRule_eq_skipped_iff.mpr hskipped⟩

/-- A permission to use a resource `bound` times, where `bound` is any text. -/
def allowed (bound : String) : Rule := ⟨"limit", .permission, [⟨.count, .lteq, bound⟩], []⟩

/-- More transitions read the resource than reads may be nested. -/
def crowded : Net :=
  { Net.empty "crowded" with
    transitions := ⟨.replicate 257 (.bare "read" (some { Context.ofRole .app with
      read := .ofList ["R"] }))⟩ }

theorem readerCount_crowded : crowded.readerCount "R" = 257 := by
  simp only [Net.readerCount, crowded, Arena.toList, Array.toList_replicate]
  rw [List.countP_replicate, if_pos (by decide)]

/-- The resource that is handed over may be used a number of times that is left empty. -/
def handoverUnlimited : Request := ⟨handover, [⟨"R", [⟨[allowed ""], [], []⟩]⟩]⟩

/-- An empty bound is not read, and three hundred uses are too many for a net with 257 readers. -/
theorem skipped_verdicts_allowed :
    (∃ v ∈ (Config.standard.verify handoverUnlimited).verdicts, v.resource = "R" ∧
      v.rule = "limit" ∧ v.outcome = .skipped "rule limit: \"\" is not a usage bound") ∧
    (allowed "300").formulaFor crowded .nTimesUsage "R" .standard
      = .error (.boundTooDeep "limit" 300) := by
  obtain ⟨hformula, hskipped⟩ := skipped_verdicts .standard handoverUnlimited
  constructor
  · have hvalue : readUsageBound? (Text.trim "") = none := by decide +kernel
    have hdefect : (allowed "").BoundDefect handoverUnlimited.net "R"
        (.invalidBound "limit" (Text.trim "")) :=
      @Rule.BoundDefect.unreadable _ _ _ ⟨.count, .lteq, ""⟩ rfl rfl hvalue
    have hmessage : (PolicyError.invalidBound "limit" (Text.trim "")).message
        = "rule limit: \"\" is not a usage bound" := by decide +kernel
    rw [← hmessage]
    exact (hskipped _ _ _).mpr ⟨_, List.mem_cons_self, allowed "", List.mem_cons_self, rfl, rfl,
      .bound rfl hdefect⟩
  · have hvalue : readUsageBound? (Text.trim "300") = some 300 := by decide +kernel
    have hreaders : maxNestedBound < crowded.readerCount "R" := by
      rw [readerCount_crowded]
      decide
    have hdefect : (allowed "300").BoundDefect crowded "R" (.boundTooDeep "limit" 300) :=
      @Rule.BoundDefect.tooDeep _ _ _ ⟨.count, .lteq, "300"⟩ 300 rfl rfl hvalue (by decide) hreaders
    exact ((hformula _ crowded "R" .standard _ rfl).2 _).mpr ⟨rfl, hdefect⟩

end RoutePolicy
