import RoutePolicy.Proofs.Limits
import RoutePolicy.Proofs.Verification.Prohibition

set_option autoImplicit false

/-! # Looser limits keep definite verdicts

Three searches are limited: that for the steps of the net, that for its paths, and that for the steps
of the unfolded net. Each of them that ends does so with the same result under looser limits. A
verdict that is not inconclusive uses only results of searches that have ended, so it stays
(`verdicts_of_loosens`). -/

namespace RoutePolicy

/-- The second settings differ from the first ones at most by looser limits. -/
structure Config.Loosens (c c' : Config) : Prop where
  stateLimit : RoutePolicy.Loosens c.stateLimit c'.stateLimit
  pathLimit : RoutePolicy.Loosens c.pathLimit c'.pathLimit
  loggingTag : c'.loggingTag = c.loggingTag
  notificationTag : c'.notificationTag = c.notificationTag
  checkParallelReads : c'.checkParallelReads = c.checkParallelReads

/-- The outcome is not left open. -/
def Outcome.Definite (o : Outcome) : Prop := ∀ reason, o ≠ .inconclusive reason

namespace Config

variable {c c' : Config} {route : Route} {resources : List Resource} {request : Request}

theorem Loosens.dutyTags (h : c.Loosens c') : c'.dutyTags = c.dutyTags := by
  rw [Config.dutyTags, h.loggingTag, h.notificationTag]
  rfl

/-- A state space that was explored to the end is explored to the same end under looser limits. -/
theorem Loosens.stateSpace (h : c.Loosens c') {space : StepGraph × PathSet}
    (hspace : (c.analyse route).stateSpace = .ok space) :
    (c'.analyse route).stateSpace = .ok space := by
  obtain ⟨g, hg, hspace⟩ := bind_eq_ok_iff.mp hspace
  obtain ⟨s, hs, hspace⟩ := bind_eq_ok_iff.mp hspace
  have hnet := RouteNet.ordinary_ofRoute route
  have hg' := stepGraph_of_loosens hnet.wellFormed hnet.start h.stateLimit hg
  have hwf : g.net.WellFormed := net_of_stepGraph hg ▸ hnet.wellFormed
  have hs' := pathSet_of_loosens hwf h.pathLimit hs
  show ((RouteNet.ofRoute route).net.stepGraph c'.stateLimit >>= _) = _
  rw [hg', ok_bind, hs', ok_bind]
  exact hspace

/-- Parallel sets are asked for under both settings or under none, and those that were found are found
again. -/
theorem Loosens.parallelSets (h : c.Loosens c') (route : Route) (resources : List Resource) :
    ((c.analyse route).parallelSets c resources = none →
      (c'.analyse route).parallelSets c' resources = none) ∧
    ∀ sets, (c.analyse route).parallelSets c resources = some (.ok sets) →
      (c'.analyse route).parallelSets c' resources = some (.ok sets) := by
  unfold Analysis.parallelSets
  rw [h.checkParallelReads]
  split
  · refine ⟨fun hnone => absurd hnone (Option.some_ne_none _), fun sets hsets => ?_⟩
    exact congrArg some (parallelSets_of_loosens (RouteNet.ordinary_ofRoute route) h.stateLimit
      (Option.some_inj.mp hsets))
  · exact ⟨fun _ => rfl, fun _ hsets => nomatch hsets⟩

theorem Loosens.parallelOutcome (h : c.Loosens c') {net : Net} {target : String} {rule : Rule}
    (hdefinite : (net.parallelOutcome ((c.analyse route).parallelSets c resources) target
      rule).Definite) :
    net.parallelOutcome ((c'.analyse route).parallelSets c' resources) target rule
      = net.parallelOutcome ((c.analyse route).parallelSets c resources) target rule := by
  obtain ⟨hnone, hsome⟩ := h.parallelSets route resources
  cases hsets : (c.analyse route).parallelSets c resources with
  | none => rw [hnone hsets]
  | some found =>
      cases found with
      | error failure =>
          rw [hsets] at hdefinite
          exact absurd rfl (hdefinite _)
      | ok sets => rw [hsome sets hsets]

/-- The outcome for a formula stays, if it is definite. -/
theorem Loosens.outcome (h : c.Loosens c') {target : String} {rule : Rule} {pattern : Pattern}
    {f : StateFormula}
    (hdefinite : ((c.analyse route).outcome ((c.analyse route).parallelSets c resources) target rule
      pattern f).Definite) :
    (c'.analyse route).outcome ((c'.analyse route).parallelSets c' resources) target rule pattern f
      = (c.analyse route).outcome ((c.analyse route).parallelSets c resources) target rule pattern
        f := by
  have hroute : (c'.analyse route).route = (c.analyse route).route := rfl
  unfold Analysis.outcome at hdefinite ⊢
  cases hspace : (c.analyse route).stateSpace with
  | error failure =>
      rw [hspace] at hdefinite
      exact absurd rfl (hdefinite _)
  | ok space =>
      rw [hspace] at hdefinite
      rw [h.stateSpace hspace, hroute]
      dsimp only at hdefinite ⊢
      cases hverdict : f.verdict space.2 (c.analyse route).route.source with
      | error failure => rfl
      | ok verdict =>
          rw [hverdict] at hdefinite
          dsimp only at hdefinite ⊢
          split
          · rfl
          · rename_i hsatisfied
            rw [if_neg hsatisfied] at hdefinite
            split
            · rename_i hpattern
              rw [if_pos hpattern] at hdefinite
              exact h.parallelOutcome hdefinite
            · rfl

/-- The verdict on a rule stays, if its outcome is definite. -/
theorem Loosens.verdictOn (h : c.Loosens c') {resource : Resource} {rule : Rule}
    (hdefinite : (c.verdictOn request resource rule).outcome.Definite) :
    c'.verdictOn request resource rule = c.verdictOn request resource rule := by
  have hroute : (c'.analyse request.route).route = (c.analyse request.route).route := rfl
  unfold Config.verdictOn at hdefinite ⊢
  rw [h.dutyTags]
  cases hpattern : rule.pattern with
  | none => simp only [Analysis.verifyRule, hpattern]
  | some pattern =>
      cases hf : rule.formulaFor (c.analyse request.route).route.net pattern resource.id
          c.dutyTags with
      | error error => simp only [Analysis.verifyRule, hpattern, hroute, hf]
      | ok f =>
          rw [Analysis.outcome_verifyRule hpattern hf] at hdefinite
          simp only [Analysis.verifyRule, hpattern, hroute, hf, h.outcome hdefinite]

/-- The verdicts of a report are those on the rules, resource by resource. -/
theorem verdicts_eq (c : Config) (request : Request) : (c.verify request).verdicts =
    (request.resources.flatMap fun resource => resource.rules.map (resource, ·)).map
      fun x => c.verdictOn request x.1 x.2 := by
  rw [List.map_flatMap]
  simp only [List.map_map]
  rfl

end Config

/-- **Limits never change a definite verdict.** Under looser limits every verdict that is not
inconclusive stands at the same position of the report, with its pattern, its formula and its
outcome. And where the exploration of the net or the enumeration of its paths is cut off, every rule
that has a formula is inconclusive. -/
theorem verdicts_of_loosens {c c' : Config} (h : c.Loosens c') (request : Request) :
    (∀ (i : Nat) (v : RuleVerdict), (c.verify request).verdicts[i]? = some v → v.outcome.Definite →
      (c'.verify request).verdicts[i]? = some v) ∧
    ∀ failure, (c.analyse request.route).stateSpace = .error failure →
      ∀ v ∈ (c.verify request).verdicts, v.formula ≠ none →
        v.outcome = .inconclusive failure.message := by
  constructor
  · intro i v hv hdefinite
    rw [Config.verdicts_eq, List.getElem?_map, Option.map_eq_some_iff] at hv ⊢
    obtain ⟨⟨resource, rule⟩, hi, rfl⟩ := hv
    exact ⟨_, hi, h.verdictOn hdefinite⟩
  · intro failure hspace v hv hformula
    obtain ⟨resource, -, rule, -, rfl⟩ := Config.mem_verdicts_iff.mp hv
    unfold Config.verdictOn Analysis.verifyRule at hformula ⊢
    dsimp only at hformula ⊢
    split
    · rename_i hpattern
      simp [hpattern] at hformula
    · rename_i pattern hpattern
      split
      · rename_i error herror
        simp [hpattern, herror] at hformula
      · exact by simp only [Analysis.outcome, hspace]

/-- A small route is explored to the end under the standard limits, so the violation that they find
is found without limits. -/
theorem verdicts_of_loosens_handover :
    let c : Config := { Config.standard with stateLimit := none, pathLimit := none }
    Config.standard.Loosens c ∧ ∃ v, (Config.standard.verify handoverRequest).verdicts[0]? = some v ∧
      v.outcome = .violated (some "resource R is read") ∧
      (c.verify handoverRequest).verdicts[0]? = some v := by
  intro c
  have hloosens : Config.standard.Loosens c := ⟨loosens_none _, loosens_none _, rfl, rfl, rfl⟩
  have hverdict : (Config.standard.verify handoverRequest).verdicts[0]? = some ⟨"R", "never",
      some .prohibitAccess, some "(INV (NOT (MODAL (AF reads:R))))",
      .violated (some "resource R is read")⟩ := by
    rw [Config.verify, Config.analyse_eq_survey]
    decide +kernel
  have hdefinite : (Outcome.violated (some "resource R is read")).Definite := fun reason heq =>
    nomatch heq
  obtain ⟨hstays, -⟩ := verdicts_of_loosens hloosens handoverRequest
  exact ⟨hloosens, _, hverdict, rfl, hstays 0 _ hverdict hdefinite⟩

end RoutePolicy
