import RoutePolicy.Proofs.Verification.Limits

set_option autoImplicit false

/-! # Each verdict stands by itself

All verdicts of a report use one analysis, and the transitions that can run at once are only looked
for if some rule of the request bounds the number of uses. A rule that does not bound it has the same
verdict with and without them, and a rule that does sees to it that they are looked for. So a verdict
depends on its own rule only: a report puts together what the rules get one by one
(`verdicts_independent`). -/

namespace RoutePolicy

/-- A rule, the resource that it protects, and the kind of the list in which it stands. -/
structure Provision where
  resource : String
  kind : RuleKind
  rule : Rule

namespace Provision

/-- The rule as it is read: of the kind of its list. -/
def enacted (p : Provision) : Rule := { p.rule with kind := p.kind }

/-- The offer with this rule in its list, and with no other rule. -/
def offer (p : Provision) : ContractOffer :=
  match p.kind with
  | .permission => ⟨[p.rule], [], []⟩
  | .prohibition => ⟨[], [p.rule], []⟩
  | .obligation => ⟨[], [], [p.rule]⟩

/-- The resource with this rule only. -/
def alone (p : Provision) : Resource := ⟨p.resource, [p.offer]⟩

end Provision

/-- The rules of an offer with the lists they stand in: permissions, then prohibitions, then
obligations. -/
def ContractOffer.provisions (o : ContractOffer) (resource : String) : List Provision :=
  o.permissions.map (⟨resource, .permission, ·⟩) ++ o.prohibitions.map (⟨resource, .prohibition, ·⟩)
    ++ o.obligations.map (⟨resource, .obligation, ·⟩)

/-- The rules of resources in order, and in each resource offer by offer. -/
def provisions (resources : List Resource) : List Provision :=
  resources.flatMap fun resource =>
    resource.contractOffers.flatMap fun offer => offer.provisions resource.id

/-- The verdict that a rule gets where the transitions that can run at once are always looked for. -/
def Config.verdictFor (c : Config) (route : Route) (p : Provision) : RuleVerdict :=
  let a := c.analyse route
  let sets := if c.checkParallelReads then some (a.route.net.parallelSets c.stateLimit) else none
  a.verifyRule c.dutyTags sets p.resource p.enacted

section

variable {c : Config} {route : Route} {resources : List Resource}

theorem ContractOffer.map_enacted_provisions (o : ContractOffer) (resource : String) :
    (o.provisions resource).map Provision.enacted = o.rules := by
  simp only [provisions, List.map_append, List.map_map]
  rfl

theorem Provision.provisions_alone (p : Provision) : provisions [p.alone] = [p] := by
  obtain ⟨resource, kind, rule⟩ := p
  cases kind <;> rfl

/-- Only the verdict on a bound of the number of uses looks at the transitions that can run at
once. -/
theorem Analysis.verifyRule_congr {a : Analysis} {tags : DutyTags} {sets sets' : ParallelSets}
    {target : String} {rule : Rule} (h : rule.pattern = some .nTimesUsage → sets = sets') :
    a.verifyRule tags sets target rule = a.verifyRule tags sets' target rule := by
  by_cases hpattern : rule.pattern = some .nTimesUsage
  · rw [h hpattern]
  · unfold verifyRule
    split
    · rfl
    · rename_i pattern hsome
      have hne : pattern ≠ .nTimesUsage := fun heq => hpattern (heq ▸ hsome)
      simp only [Analysis.outcome, hne, if_false]

/-- A bound of the number of uses has the transitions that can run at once looked for. -/
theorem Config.parallelSets_analyse {rule : Rule}
    (hrule : rule ∈ resources.flatMap Resource.rules) (hpattern : rule.pattern = some .nTimesUsage) :
    (c.analyse route).parallelSets c resources = if c.checkParallelReads then
      some ((c.analyse route).route.net.parallelSets c.stateLimit) else none := by
  have hany : ((resources.flatMap Resource.rules).any fun r =>
      decide (r.pattern = some .nTimesUsage)) = true :=
    List.any_eq_true.mpr ⟨rule, hrule, decide_eq_true hpattern⟩
  rw [Analysis.parallelSets, hany, Bool.and_true]

/-- **The verdicts of a report are what its rules get one by one.** -/
theorem Config.verdicts_eq_map (c : Config) (route : Route) (resources : List Resource) :
    (c.verify ⟨route, resources⟩).verdicts = (provisions resources).map (c.verdictFor route) := by
  have hrules (resource : Resource) : resource.rules
      = (resource.contractOffers.flatMap (·.provisions resource.id)).map Provision.enacted := by
    rw [List.map_flatMap]
    exact List.flatMap_congr fun o _ => (o.map_enacted_provisions resource.id).symm
  rw [provisions, List.map_flatMap]
  show (resources.flatMap fun resource => resource.rules.map ((c.analyse route).verifyRule
    c.dutyTags ((c.analyse route).parallelSets c resources) resource.id)) = _
  refine List.flatMap_congr fun resource hresource => ?_
  rw [hrules, List.map_map]
  refine List.map_congr_left fun p hp => ?_
  -- the rule stands in an offer of this resource, so it protects the resource
  have hid : p.resource = resource.id := by
    obtain ⟨o, -, hp⟩ := List.mem_flatMap.mp hp
    simp only [ContractOffer.provisions, List.mem_append, List.mem_map] at hp
    obtain (⟨r, -, rfl⟩ | ⟨r, -, rfl⟩) | ⟨r, -, rfl⟩ := hp <;> rfl
  have hmem : p.enacted ∈ resources.flatMap Resource.rules :=
    List.mem_flatMap.mpr ⟨resource, hresource, hrules resource ▸ List.mem_map_of_mem hp⟩
  rw [Function.comp_apply, Config.verdictFor, hid]
  exact Analysis.verifyRule_congr (Config.parallelSets_analyse hmem)

theorem Config.verdicts_alone (c : Config) (route : Route) (p : Provision) :
    (c.verify ⟨route, [p.alone]⟩).verdicts = [c.verdictFor route p] := by
  rw [c.verdicts_eq_map, p.provisions_alone, List.map_singleton]

/-- A bound of the number of uses is kept only where the transitions that can run at once are
known. -/
theorem Analysis.exists_sets_of_satisfied {a : Analysis} {tags : DutyTags}
    {found : Except Failure (List (List String))} {target : String} {rule : Rule}
    (hpattern : rule.pattern = some .nTimesUsage)
    (hsat : (a.verifyRule tags (some found) target rule).outcome = .satisfied) :
    ∃ sets, found = .ok sets := by
  cases found with
  | ok sets => exact ⟨sets, rfl⟩
  | error failure =>
      unfold verifyRule at hsat
      simp only [hpattern] at hsat
      split at hsat
      · cases hsat
      · unfold Analysis.outcome at hsat
        simp only [if_true] at hsat
        split at hsat
        · cases hsat
        · split at hsat
          · cases hsat
          · split at hsat <;> cases hsat

end

/-- **Verdicts are independent of one another.** The verdicts of a report are those that each rule
gets in a request with this rule alone, one after the other. So other rules and resources that are
added, taken away or put elsewhere change none of them. And where concurrent reads are checked, a
bound of the number of uses is satisfied only if the transitions that can run at once have been found;
they are those of the report. -/
theorem verdicts_independent (c : Config) (route : Route) (resources : List Resource) :
    let verdicts (resources : List Resource) := (c.verify ⟨route, resources⟩).verdicts
    verdicts resources = (provisions resources).flatMap (fun p => verdicts [p.alone]) ∧
    (∀ p : Provision, ∃ v, verdicts [p.alone] = [v]) ∧
    (∀ others, (provisions resources).Sublist (provisions others) →
      (verdicts resources).Sublist (verdicts others)) ∧
    (∀ others, (provisions resources).Perm (provisions others) →
      (verdicts resources).Perm (verdicts others)) ∧
    (c.checkParallelReads = true → ∀ v ∈ verdicts resources, v.pattern = some .nTimesUsage →
      v.outcome = .satisfied → ∃ sets,
        (RouteNet.ofRoute route).net.parallelSets c.stateLimit = .ok sets ∧
        (c.verify ⟨route, resources⟩).parallelSets = sets) := by
  intro verdicts
  have hmap (resources : List Resource) : verdicts resources
      = (provisions resources).map (c.verdictFor route) := c.verdicts_eq_map route resources
  have halone (p : Provision) : verdicts [p.alone] = [c.verdictFor route p] :=
    c.verdicts_alone route p
  refine ⟨?_, fun p => ⟨_, halone p⟩, fun others h => ?_, fun others h => ?_, ?_⟩
  · simp only [halone, hmap]
    exact List.map_eq_flatMap
  · rw [hmap, hmap]
    exact h.map _
  · rw [hmap, hmap]
    exact h.map _
  · intro hcheck v hv hpattern hsat
    obtain ⟨resource, hresource, rule, hrule, rfl⟩ :=
      Config.mem_verdicts_iff.mp hv
    rw [Config.verdictOn, Analysis.pattern_verifyRule] at hpattern
    have hsets : (c.analyse route).parallelSets c resources
        = some ((c.analyse route).route.net.parallelSets c.stateLimit) := by
      rw [Config.parallelSets_analyse (List.mem_flatMap.mpr ⟨resource, hresource, hrule⟩) hpattern,
        hcheck, if_pos rfl]
    rw [Config.verdictOn] at hsat
    simp only [hsets] at hsat
    obtain ⟨sets, hfound⟩ := Analysis.exists_sets_of_satisfied hpattern hsat
    refine ⟨sets, hfound, ?_⟩
    simp only [Config.verify, Analysis.report, hsets, hfound]

/-- One use of what is handed over is allowed, and there is one. A prohibition before it does not
change this verdict, wherever the prohibition stands. -/
theorem verdicts_independent_handover :
    let verdicts (resources : List Resource) :=
      (Config.standard.verify ⟨handover, resources⟩).verdicts
    (∃ v ∈ verdicts [usedOnce], v.pattern = some .nTimesUsage ∧ v.outcome = .satisfied) ∧
    (verdicts [usedOnce]).Sublist (verdicts [neverRead, usedOnce]) ∧
    (verdicts [neverRead, usedOnce]).Perm (verdicts [usedOnce, neverRead]) ∧
    ∃ sets, (RouteNet.ofRoute handover).net.parallelSets Config.standard.stateLimit = .ok sets ∧
      (Config.standard.verify ⟨handover, [usedOnce]⟩).parallelSets = sets := by
  intro verdicts
  obtain ⟨-, -, hsublist, -, hcomplete⟩ := verdicts_independent .standard handover [usedOnce]
  obtain ⟨-, -, -, hperm, -⟩ := verdicts_independent .standard handover [neverRead, usedOnce]
  have hsat : ∃ v ∈ verdicts [usedOnce], v.pattern = some .nTimesUsage ∧ v.outcome = .satisfied := by
    refine ⟨Config.standard.verdictOn ⟨handover, [usedOnce]⟩ usedOnce once,
      Config.mem_verdicts_iff.mpr ⟨usedOnce, by decide, once, by decide, rfl⟩, ?_, ?_⟩
    · rw [Config.verdictOn, Analysis.pattern_verifyRule]
      rfl
    · have hrule : once ∈ [usedOnce].flatMap Resource.rules := by decide
      rw [Config.verdictOn, Config.parallelSets_analyse hrule rfl,
        Net.parallelSets_eq_survey, Config.analyse_eq_survey]
      decide +kernel
  obtain ⟨v, hv, hpattern, hsatisfied⟩ := hsat
  refine ⟨⟨v, hv, hpattern, hsatisfied⟩, hsublist _ (List.sublist_cons_self _ _),
    hperm _ (List.Perm.swap _ _ _), hcomplete rfl v hv hpattern hsatisfied⟩

end RoutePolicy
