import RoutePolicy.Proofs.Formula.Citations
import RoutePolicy.Proofs.Formula.Renumbering
import RoutePolicy.Proofs.Route.Relisting
import RoutePolicy.Proofs.Verification.Usage

set_option autoImplicit false

/-! # The report does not depend on the order of listing

The net of a relisted route is a renumbered net, with the source at its new number and under the same
identifier (`Route.Relisted.exists_renumbers`). The reports on routes with such nets are the same
(`RouteNet.Renumbers.report_eq`): the sizes of the nets and of their state spaces, the sets of
transitions that run at once, and all verdicts, with the facts that they rest on. So a route can be
relisted without a change in its report (`report_of_relisted`). -/

namespace RoutePolicy

/-! ## Evaluations in two nets -/

/-- Both evaluations give the same value, and the same reasons if it is false. -/
def Alike (x x' : Except Failure Evaluation) : Prop :=
  ∃ e e', x = .ok e ∧ x' = .ok e' ∧ e'.holds = e.holds ∧ (e.holds = false → e'.facts = e.facts)

section

variable {x x' y y' : Except Failure Evaluation} {P P' : Prop} {F : List String}

theorem Decides.alike (hx : Decides x P) (hx' : Decides x' P') (hP : P' ↔ P)
    (hF : RestsOn false F x) (hF' : RestsOn false F x') : Alike x x' := by
  obtain ⟨e, he, hiff⟩ := hx
  obtain ⟨e', he', hiff'⟩ := hx'
  have hholds : e'.holds = e.holds := Bool.eq_iff_iff.mpr (hiff'.trans (hP.trans hiff.symm))
  refine ⟨e, e', he, he', hholds, fun hfalse => ?_⟩
  rw [hF e he hfalse, hF' e' he' (hholds.trans hfalse)]

/-- Conjunctions of operands that are alike are alike. -/
theorem Alike.and (hx : Alike x x') (hy : Alike y y') :
    Alike (do (← x).and fun _ => y) (do (← x').and fun _ => y') := by
  obtain ⟨e, e', rfl, rfl, hholds, hfacts⟩ := hx
  obtain ⟨d, d', rfl, rfl, hholds', hfacts'⟩ := hy
  rw [ok_bind, ok_bind, Evaluation.and, Evaluation.and, hholds]
  cases he : e.holds with
  | false => exact ⟨e, e', rfl, rfl, hholds, hfacts⟩
  | true =>
      refine ⟨_, _, rfl, rfl, ?_⟩
      rw [hholds']
      cases hd : d.holds with
      | false => exact ⟨hholds', hfacts'⟩
      | true =>
          refine ⟨hholds, fun hfalse => ?_⟩
          have htrue : (e.absorb d).holds = true := he
          exact absurd (htrue.symm.trans hfalse) (by decide)

/-- Evaluations that are alike are reported alike. -/
theorem Alike.verdict_eq (h : Alike x x') :
    (do return (← x').verdict) = (do return (← x).verdict) := by
  obtain ⟨e, e', rfl, rfl, hholds, hfacts⟩ := h
  rw [ok_bind, ok_bind, Evaluation.verdict, Evaluation.verdict, hholds]
  cases he : e.holds with
  | true => rfl
  | false => rw [hfacts he]

end

/-! ## Formulas of rules -/

/-- The formula does not look at the arcs listed at a node, and where it is false it is so for the
same reasons at all nodes of all nets. -/
structure Formula.Uniform {k : Kind} (f : Formula k) : Prop where
  ignoresArcs : f.IgnoresArcs
  cites : ∃ F : List String, ∀ {g : StepGraph} {s : PathSet} {limit : Option Nat},
    g.net.WellFormed → g.pathSet limit = .ok s → f.Cites s false F

namespace Formula

variable {target tag : String}

theorem ignoresArcs_readsMoreThan (target : String) (n : Nat) :
    (readsMoreThan target n).IgnoresArcs := by
  induction n with
  | zero => exact fun _ => rfl
  | succ n ih => exact ⟨fun _ => rfl, ih⟩

theorem uniform_top {k : Kind} : (top : Formula k).Uniform :=
  ⟨trivial, [], fun _ _ => cites_top _ false⟩

theorem uniform_atMost (n : Nat) : (atMost n target).Uniform :=
  ⟨ignoresArcs_readsMoreThan target n, _, fun _ _ => cites_atMost _ target n⟩

theorem uniform_neverRead : (neverReachable (reads target)).Uniform :=
  ⟨fun _ => rfl, _, fun _ _ => cites_neverReachable (cites_reads _ target)⟩

theorem uniform_neverReadUntagged :
    (neverReachable (.and (reads target) (.not (tagged tag)))).Uniform :=
  ⟨⟨fun _ => rfl, fun _ => rfl⟩, _, fun _ _ =>
    cites_neverReachable ((cites_reads _ target).and (cites_not_tagged _ tag).not)⟩

theorem uniform_noReadAfterErasure : (neverReachable
    (.and (erases target) (.modal (.pos (.modal (reads target)))))).Uniform :=
  ⟨⟨fun _ => rfl, fun _ => rfl⟩, _, fun _ _ => cites_noReadAfterErasure _ target⟩

theorem uniform_readsErased : (everyReadFollowedBy target (erases target)).Uniform :=
  ⟨⟨fun _ => rfl, fun _ => rfl⟩, _, fun hg hs =>
    cites_everyReadFollowedBy hg hs (cites_erases _ target false) (List.nodup_singleton _)⟩

theorem uniform_readsTagged : (everyReadFollowedBy target (tagged tag)).Uniform :=
  ⟨⟨fun _ => rfl, fun _ => rfl⟩, _, fun hg hs =>
    cites_everyReadFollowedBy hg hs (cites_not_tagged _ tag) (List.nodup_singleton _)⟩

end Formula

namespace Net.Renumbers

variable {net net' : Net} {ρ : Renumbering} {g g' : StepGraph} {s s' : PathSet}
  {stepLimit stepLimit' pathLimit pathLimit' : Option Nat} {source source' : Option PlaceId}

section

variable (h : net.Renumbers ρ net')

include h

/-! ## Readers -/

/-- The same number of transitions reads a resource. -/
theorem readerCount (target : String) : net'.readerCount target = net.readerCount target := by
  have hcount (net : Net) : net.readerCount target = net.transitions.indices.countP
      fun t => (net.transitionData? t).any (·.hasContext (·.reads target)) := by
    rw [Net.readerCount, ← Arena.filterMap_get?_indices, List.countP_filterMap]
    refine List.countP_congr fun t _ => ?_
    unfold transitionData?
    cases net.transitions.get? t <;> rfl
  rw [hcount, hcount, ← h.perm_indices_transitions.countP_eq, List.countP_map]
  refine List.countP_congr fun t _ => ?_
  rw [Function.comp_apply, h.transition]

theorem readersAtOnce (hr : net.OfRoute source) (hr' : net'.OfRoute source') (target : String)
    (sets : List (List String)) :
    net'.readersAtOnce target sets = net.readersAtOnce target sets := by
  have hreads (net : Net) (id : String) : ((net.transitionById id).bind net.transitions.get?).any
      (·.hasContext (·.reads target)) = ((net.transitionById id).bind net.transitionData?).any
      (·.hasContext (·.reads target)) := by
    cases net.transitionById id with
    | none => rfl
    | some t =>
        rw [Option.bind_some, Option.bind_some, transitionData?]
        cases net.transitions.get? t <;> rfl
  have hcount : net'.readersIn target = net.readersIn target := by
    funext set
    rw [readersIn, readersIn]
    refine List.countP_congr fun id _ => ?_
    rw [hreads, hreads, h.transitionData?_transitionById hr hr']
  rw [Net.readersAtOnce, Net.readersAtOnce, hcount]

end

/-! ## Values of formulas -/

section

variable (h : net.Renumbers ρ net') (hnet : net.Ordinary) (hnet' : net'.Ordinary)
  (hg : net.stepGraph stepLimit = .ok g) (hg' : net'.stepGraph stepLimit' = .ok g')
  (hs : g.pathSet pathLimit = .ok s) (hs' : g'.pathSet pathLimit' = .ok s')

include h hnet hnet' hg hg' hs hs'

/-- A formula that is false for the same reasons everywhere has the same value for the same
reasons. -/
theorem alike_of_uniform {k : Kind} {f : Formula k} (hf : f.Uniform) {x : Handle k}
    (hx : net.contains x.node = true) (hx' : net'.contains (ρ k x).node = true) :
    Alike (f.explain s x) (f.explain s' (ρ k x)) := by
  have heq := net_of_stepGraph hg
  have heq' := net_of_stepGraph hg'
  have hwf := (hnet.of_stepGraph hg).wellFormed
  have hwf' := (hnet'.of_stepGraph hg').wellFormed
  obtain ⟨F, hcites⟩ := hf.cites
  exact (f.decides_explain hwf hs (heq ▸ hx)).alike (f.decides_explain hwf' hs' (heq' ▸ hx'))
    (h.holds_iff hnet hnet' hg hg' f hf.ignoresArcs x) (hcites hwf hs x) (hcites hwf' hs' (ρ k x))

/-- **The formula of a rule has the same value for the same reasons.** -/
theorem alike_of_formulaFor {rule : Rule} {pattern : Pattern} {target : String} {tags : DutyTags}
    {f : StateFormula} (hf : rule.formulaFor net pattern target tags = .ok f) {p : PlaceId}
    (hp : net.contains p.node = true) : Alike (f.explain s p) (f.explain s' (ρ .place p)) := by
  have huniform {f : StateFormula} (hf : f.Uniform) :
      Alike (f.explain s p) (f.explain s' (ρ .place p)) :=
    h.alike_of_uniform hnet hnet' hg hg' hs hs' hf hp ((h.contains_place p).mpr hp)
  cases pattern with
  | provideAccess =>
      obtain rfl := Except.ok.inj hf
      exact huniform Formula.uniform_top
  | prohibitAccess =>
      obtain rfl := Except.ok.inj hf
      exact huniform Formula.uniform_neverRead
  | nTimesUsage =>
      obtain ⟨b, -, -, rfl⟩ := Rule.usageFormula_eq_ok_iff.mp hf
      exact huniform (Formula.uniform_atMost _)
  | durationUsage | usageDuringInterval =>
      obtain rfl := Except.ok.inj hf
      exact huniform Formula.uniform_readsErased
  | usageUntilDeletion =>
      -- which half is false is the same in both nets, and so are its reasons
      obtain rfl := Except.ok.inj hf
      exact (huniform Formula.uniform_readsErased).and (huniform Formula.uniform_noReadAfterErasure)
  | usageLogging | usageNotification =>
      obtain rfl := Except.ok.inj hf
      exact huniform Formula.uniform_readsTagged
  | connectorRestrictedUsage =>
      rw [Rule.formulaFor, Rule.instantiate] at hf
      split at hf
      · cases hf
      · obtain rfl := Except.ok.inj hf
        exact huniform Formula.uniform_neverReadUntagged

end

end Net.Renumbers

/-! ## Reports -/

theorem Config.route_analyse (c : Config) (route : Route) :
    (c.analyse route).route = RouteNet.ofRoute route := rfl

/-- The net is renumbered, with the same identifier and with the source at its new number. -/
structure RouteNet.Renumbers (ρ : Renumbering) (b b' : RouteNet) : Prop where
  id : b'.net.id = b.net.id
  net : b.net.Renumbers ρ b'.net
  source : b'.source = ρ .place b.source

namespace RouteNet.Renumbers

variable {ρ : Renumbering} {c : Config} {route route' : Route} {limit : Nat}
  {resources : List Resource}

section

variable (h : (RouteNet.ofRoute route).Renumbers ρ (RouteNet.ofRoute route'))
  (hlimit : c.stateLimit = some limit) (hrange : limit < countRange)

include h hlimit hrange

/-- Both nets are explored to the end, with as many steps and paths, or both explorations meet the
same limit. -/
theorem stateSpace : (∃ g s g' s', (c.analyse route).Explored g s ∧
      (c.analyse route').Explored g' s' ∧ g'.stepCount = g.stepCount ∧ s'.size = s.size) ∨
    ∃ failure, (c.analyse route).stateSpace = .error failure ∧
      (c.analyse route').stateSpace = .error failure := by
  have hnet := ordinary_ofRoute route
  have hnet' := ordinary_ofRoute route'
  have hmax : max limit 1 < countRange := max_lt hrange (by decide)
  have hspace (route : Route) : (c.analyse route).stateSpace = do
      let g ← (ofRoute route).net.stepGraph (some limit)
      let s ← g.pathSet c.pathLimit
      return (g, s) := by
    rw [← hlimit]
    rfl
  have hfound {route : Route} {g : StepGraph} {s : PathSet}
      (hg : (ofRoute route).net.stepGraph (some limit) = .ok g)
      (hs : g.pathSet c.pathLimit = .ok s) : (c.analyse route).stateSpace = .ok (g, s) := by
    rw [hspace, hg, ok_bind, hs]
    rfl
  have hcut {route : Route} {g : StepGraph} {failure : Failure}
      (hg : (ofRoute route).net.stepGraph (some limit) = .ok g)
      (hs : g.pathSet c.pathLimit = .error failure) :
      (c.analyse route).stateSpace = .error failure := by
    rw [hspace, hg, ok_bind, hs]
    rfl
  rcases (h.net.matching hnet hnet').stepGraph hnet.wellFormed hnet'.wellFormed
      ((fillsSlowly_ofRoute route).firesBelow hnet.wellFormed hmax)
      ((fillsSlowly_ofRoute route').firesBelow hnet'.wellFormed hmax) with
    ⟨g, g', hg, hg', hsteps⟩ | ⟨failure, hg, hg'⟩
  · rcases h.net.pathSet hnet hnet' hg hg' c.pathLimit with
      ⟨s, s', hs, hs', hpaths⟩ | ⟨failure, hs, hs'⟩
    · exact Or.inl ⟨g, s, g', s', Config.explored_analyse (hfound hg hs),
        Config.explored_analyse (hfound hg' hs'), hsteps, hpaths⟩
    · exact Or.inr ⟨failure, hcut hg hs, hcut hg' hs'⟩
  · refine Or.inr ⟨failure, ?_, ?_⟩
    · rw [hspace, hg]
      rfl
    · rw [hspace, hg']
      rfl

theorem statistics : (c.analyse route').statistics = (c.analyse route).statistics := by
  unfold Analysis.statistics
  dsimp only
  rw [Config.route_analyse, Config.route_analyse, h.net.size_places, h.net.size_transitions,
    h.net.size_arcs (ordinary_ofRoute route) (ordinary_ofRoute route')]
  rcases h.stateSpace hlimit hrange with
    ⟨g, s, g', s', hexplored, hexplored', hsteps, hpaths⟩ | ⟨failure, hfailed, hfailed'⟩
  · rw [hexplored.space, hexplored'.space]
    simp only [Except.toOption, Option.map_some, hsteps, hpaths]
  · rw [hfailed, hfailed']

theorem parallelSets : (c.analyse route').parallelSets c resources
    = (c.analyse route).parallelSets c resources := by
  unfold Analysis.parallelSets
  split
  · exact congrArg some (hlimit ▸ h.net.parallelSets (ordinary_ofRoute route)
      (ordinary_ofRoute route') (sound_ofRoute route).net (sound_ofRoute route').net
      (fillsSlowly_ofRoute route) (fillsSlowly_ofRoute route') hrange)
  · rfl

omit hlimit hrange in
theorem parallelOutcome (sets : ParallelSets) (target : String) (rule : Rule) :
    (ofRoute route').net.parallelOutcome sets target rule
      = (ofRoute route).net.parallelOutcome sets target rule := by
  have hreaders := h.net.readersAtOnce (sound_ofRoute route).net (sound_ofRoute route').net target
  unfold Net.parallelOutcome
  simp only [hreaders]

/-- **The outcome for the formula of a rule is the same.** -/
theorem outcome {rule : Rule} {pattern : Pattern} {target : String} {tags : DutyTags}
    {f : StateFormula} (sets : ParallelSets)
    (hf : rule.formulaFor (ofRoute route).net pattern target tags = .ok f) :
    (c.analyse route').outcome sets target rule pattern f
      = (c.analyse route).outcome sets target rule pattern f := by
  unfold Analysis.outcome
  rw [Config.route_analyse, Config.route_analyse, h.parallelOutcome]
  rcases h.stateSpace hlimit hrange with
    ⟨g, s, g', s', hexplored, hexplored', -, -⟩ | ⟨failure, hfailed, hfailed'⟩
  · obtain ⟨_, hg⟩ := hexplored.steps
    obtain ⟨_, hg'⟩ := hexplored'.steps
    obtain ⟨_, hs⟩ := hexplored.paths
    obtain ⟨_, hs'⟩ := hexplored'.paths
    have halike := h.net.alike_of_formulaFor (ordinary_ofRoute route) (ordinary_ofRoute route') hg
      hg' hs hs' hf (sound_ofRoute route).source
    rw [← h.source] at halike
    rw [hexplored.space, hexplored'.space]
    simp only [Formula.verdict, halike.verdict_eq]
  · rw [hfailed, hfailed']

theorem verifyRule (tags : DutyTags) (sets : ParallelSets) (target : String) (rule : Rule) :
    (c.analyse route').verifyRule tags sets target rule
      = (c.analyse route).verifyRule tags sets target rule := by
  unfold Analysis.verifyRule
  cases rule.pattern with
  | none => rfl
  | some pattern =>
      have hsame : rule.formulaFor (ofRoute route').net pattern target tags
          = rule.formulaFor (ofRoute route).net pattern target tags := by
        rw [Rule.formulaFor, Rule.formulaFor, h.net.readerCount]
      dsimp only
      rw [Config.route_analyse, Config.route_analyse, hsame]
      cases hf : rule.formulaFor (ofRoute route).net pattern target tags with
      | error error => rfl
      | ok f => simp only [h.outcome hlimit hrange sets hf]

/-- **The reports on both routes are the same.** -/
theorem report_eq : c.verify ⟨route', resources⟩ = c.verify ⟨route, resources⟩ := by
  have hverdicts := fun target => funext
    (h.verifyRule hlimit hrange c.dutyTags ((c.analyse route).parallelSets c resources) target)
  unfold Config.verify Analysis.report
  dsimp only
  rw [h.parallelSets hlimit hrange, h.statistics hlimit hrange, Config.route_analyse,
    Config.route_analyse, h.id]
  simp only [hverdicts]

end

end RouteNet.Renumbers

/-- **The report does not depend on the order of listing.** Put the branches, the starting and the
ending endpoints and the outputs in another order, at any stages of a route whose stages have
identifiers of their own and whose endpoints are all processing steps: the sizes, the sets of
transitions that run at once, and each verdict with its formula, its outcome and its message stay as
they are, for all resources and all settings with a limit on the steps. A limit is a number of 64
bits. -/
theorem report_of_relisted {c : Config} {limit : Nat} (hlimit : c.stateLimit = some limit)
    (hrange : limit < countRange) {route route' : Route} (h : route.Relisted route')
    (hids : route.HasDistinctIds) (happ : OnlyProcesses route.allStages)
    (resources : List Resource) : c.verify ⟨route', resources⟩ = c.verify ⟨route, resources⟩ := by
  obtain ⟨ρ, hnet, hsource, hid⟩ := h.exists_renumbers hids happ
  exact RouteNet.Renumbers.report_eq ⟨hid, hnet, hsource⟩ hlimit hrange

/-- Two senders start a route that branches at the stage where they end. -/
def twoWay : Route :=
  .node ⟨"root", [.app "a", .app "b"], [.app "c", .app "d"], ["R", "S"]⟩
    [.node ⟨"left", [.app "c"], [.app "e"], ["R"]⟩ [],
      .node ⟨"right", [.app "d"], [.app "f"], ["S"]⟩ []]

/-- All lists of the root in another order. -/
def twoWayRelisted : Route :=
  .node ⟨"root", [.app "b", .app "a"], [.app "d", .app "c"], ["S", "R"]⟩
    [.node ⟨"right", [.app "d"], [.app "f"], ["S"]⟩ [],
      .node ⟨"left", [.app "c"], [.app "e"], ["R"]⟩ []]

/-- The transitions of the relisted route have other numbers, and the report is the same. -/
theorem report_of_relisted_twoWay :
    twoWay.Relisted twoWayRelisted ∧ twoWay.HasDistinctIds ∧
      OnlyProcesses twoWay.allStages ∧
      (RouteNet.ofRoute twoWayRelisted).net.transitionIds
        ≠ (RouteNet.ofRoute twoWay).net.transitionIds ∧
      Config.standard.verify ⟨twoWayRelisted, [⟨"R", [⟨[], [.prohibition "never"], []⟩]⟩]⟩
        = Config.standard.verify ⟨twoWay, [⟨"R", [⟨[], [.prohibition "never"], []⟩]⟩]⟩ := by
  have hleaf (s : Stage) : (Route.node s []).Relisted (.node s []) :=
    .node ⟨rfl, .refl _, .refl _, .refl _⟩ .nil .nil
  have hrelisted : twoWay.Relisted twoWayRelisted :=
    .node ⟨rfl, .swap .., .swap .., .swap ..⟩ (.cons (hleaf _) (.cons (hleaf _) .nil)) (.swap ..)
  have hids : twoWay.HasDistinctIds := by decide
  have happ : OnlyProcesses twoWay.allStages := by decide
  refine ⟨hrelisted, hids, happ, by decide +kernel, ?_⟩
  have hrange : 10000 < countRange := by decide
  exact report_of_relisted (c := .standard) rfl hrange hrelisted hids happ _

end RoutePolicy
