import RoutePolicy.Proofs.Verification.Usage

set_option autoImplicit false

/-! # Duties that follow on reads

A rule with a duty is satisfied when on every path along used arcs a read is followed by a transition
that discharges the duty. In a run of the net the marker that a firing puts is either taken by a later
firing, from which the path goes on, or it is still there in the end. When nothing is enabled in the
end, such a marker waits before a transition that lacks another one (`Net.WaitsAt`). So in a run that
has come to its end each read is discharged, by itself or later, unless the chain of firings after it
ends with a marker that waits (`duties_discharged`). Where no transition takes from two places nothing
waits. -/

namespace RoutePolicy

/-- The property of a context that discharges the duty of a rule with this pattern. -/
def Pattern.duty? (p : Pattern) (target : String) (tags : DutyTags) : Option (Context → Bool) :=
  match p with
  | .durationUsage | .usageDuringInterval => some (·.erases target)
  | .usageLogging => some (·.hasTag tags.logging)
  | .usageNotification => some (·.hasTag tags.notification)
  | _ => none

variable {net : Net} {m m' : Marking} {p : PlaceId} {t : TransitionId} {ts us : List TransitionId}

namespace Net

/-- The place is marked, and a transition after it that fires in some sequence lacks a marker in
another place. -/
def WaitsAt (net : Net) (m : Marking) (p : PlaceId) : Prop :=
  0 < m.tokens p ∧ ∃ (t : TransitionId) (q : PlaceId), net.Fires t ∧
    ⟨p.node, t.node⟩ ∈ net.arcs.toList ∧ ⟨q.node, t.node⟩ ∈ net.arcs.toList ∧ m.tokens q = 0

/-- From a firing of `t` a chain of the firings `us` leads to a marker that waits in the end. -/
def Stalls (net : Net) (t : TransitionId) (us : List TransitionId) (m : Marking) : Prop :=
  ∃ (chain : List TransitionId) (last : TransitionId) (p : PlaceId), chain.Sublist us ∧
    (t :: chain).IsChain net.Feeds ∧ (t :: chain).getLast? = some last ∧
    ⟨last.node, p.node⟩ ∈ net.arcs.toList ∧ net.WaitsAt m p

/-! ## Markers during a run -/

/-- Where a marker is, it stays until a firing takes from its place. -/
theorem WellFormed.marked_or_taken (h : net.WellFormed) (hrun : net.runAt m ts = .ok m')
    (hp : 0 < m.tokens p) : 0 < m'.tokens p ∨ ∃ us t vs m₁, ts = us ++ t :: vs ∧
      ⟨p.node, t.node⟩ ∈ net.arcs.toList ∧ net.runAt m us = .ok m₁ ∧
      net.runAt m₁ (t :: vs) = .ok m' := by
  induction ts generalizing m with
  | nil =>
      cases hrun
      exact Or.inl hp
  | cons t ts ih =>
      by_cases htakes : ⟨p.node, t.node⟩ ∈ net.arcs.toList
      · exact Or.inr ⟨[], t, ts, m, rfl, htakes, rfl, hrun⟩
      obtain ⟨m₁, hf, hrest⟩ := runAt_cons_eq_ok_iff.mp hrun
      have hkept : 0 < m₁.tokens p := by
        rw [h.tokens_fireAt hf, arcCount, List.count_eq_zero.mpr htakes]
        omega
      refine (ih hrest hkept).imp_right ?_
      rintro ⟨us, t', vs, m₂, rfl, htakes', hus, hvs⟩
      exact ⟨t :: us, t', vs, m₂, rfl, htakes', runAt_cons_eq_ok_iff.mpr ⟨m₁, hf, hus⟩, hvs⟩

/-- A marker before a transition that fires, but not now, waits. -/
theorem waitsAt_of_not_enables (hp : 0 < m.tokens p) (ht : net.Fires t)
    (harc : ⟨p.node, t.node⟩ ∈ net.arcs.toList) (hnot : ¬net.Enables m t) : net.WaitsAt m p := by
  obtain ⟨m₁, -, m₂, hf⟩ := fires_iff.mp ht
  have hin := contains_of_isEnabledAt (fireAt_eq_ok_iff.mp hf).1
  obtain ⟨q, hq, hzero⟩ : ∃ q : PlaceId, ⟨q.node, t.node⟩ ∈ net.arcs.toList ∧ m.tokens q = 0 := by
    by_contra hall
    refine hnot ⟨hin, fun q hq => Nat.pos_of_ne_zero fun hzero => hall ⟨q, hq, hzero⟩⟩
  exact ⟨hp, t, q, ht, harc, hq, hzero⟩

/-- What stalls after a later firing of the chain stalls. -/
theorem Stalls.of_feeds {t' : TransitionId} {vs : List TransitionId} (hfeeds : net.Feeds t t')
    (h : net.Stalls t' vs m) : net.Stalls t (us ++ t' :: vs) m := by
  obtain ⟨chain, last, p, hsub, hchain, hlast, hp, hwaits⟩ := h
  refine ⟨t' :: chain, last, p, ?_, ?_, ?_, hp, hwaits⟩
  · exact (hsub.cons_cons t').trans (List.sublist_append_right us _)
  · exact List.isChain_cons_cons.mpr ⟨hfeeds, hchain⟩
  · rw [List.getLast?_cons_cons, hlast]

/-- Where each transition takes from one place only, nothing waits. -/
theorem not_waitsAt (hone : ∀ t, net.Fires t → ∀ p q : PlaceId,
    ⟨p.node, t.node⟩ ∈ net.arcs.toList → ⟨q.node, t.node⟩ ∈ net.arcs.toList → p = q) :
    ¬net.WaitsAt m p := by
  rintro ⟨hp, t, q, ht, harc, hq, hzero⟩
  rw [hone t ht p q harc hq, hzero] at hp
  exact absurd hp (Nat.lt_irrefl 0)

end Net

variable {a : Analysis} {g : StepGraph} {s : PathSet} {f : TransitionFormula}

namespace Analysis.Explored

/-- The formula is still to come on every run from the transition. -/
theorem unavoidable_of_holds_ev (hev : (Formula.ev f).Holds g t) :
    Unavoidable g.Uses (IsAtKind (f.Holds g)) t.node := fun v hv => by
  obtain ⟨i, x, hi, hx⟩ := hev v hv
  exact ⟨i, x.node, hi, x, rfl, hx⟩

theorem not_isAtKind_place (p : PlaceId) : ¬IsAtKind (f.Holds g) p.node := by
  rintro ⟨t, heq, -⟩
  exact Net.node_ne_node p t heq

theorem isAtKind_iff : IsAtKind (f.Holds g) t.node ↔ f.Holds g t := by
  constructor
  · rintro ⟨t', heq, ht'⟩
    exact Handle.node_inj.mp heq ▸ ht'
  · intro ht
    exact ⟨t, rfl, ht⟩

/-- **What is still to come on every path comes in a run that ends, or a marker waits.** -/
theorem exists_holds_or_stalls (h : a.Explored g s) (hm : a.route.net.Reaches a.route.net.marking m)
    (hrun : a.route.net.runAt m (t :: us) = .ok m') (hdead : ∀ t, ¬a.route.net.Enables m' t)
    (hev : Unavoidable g.Uses (IsAtKind (f.Holds g)) t.node) :
    (∃ t' ∈ t :: us, f.Holds g t') ∨ a.route.net.Stalls t us m' := by
  obtain ⟨limit, hg⟩ := h.steps
  have hwf := h.sound.net.wellFormed
  -- induction on what is left of the run after the chain's next firing
  induction hlength : us.length using Nat.strong_induction_on generalizing t us m with
  | _ n ih =>
    by_cases hnow : f.Holds g t
    · exact Or.inl ⟨t, List.mem_cons_self, hnow⟩
    have hnot := mt isAtKind_iff.mp hnow
    obtain ⟨m₁, hf, hrest⟩ := Net.runAt_cons_eq_ok_iff.mp hrun
    -- the firing puts a marker into a place from which the formula is still to come
    obtain ⟨p, hused⟩ : ∃ p : PlaceId, g.Uses t.node p.node := by
      obtain ⟨n, hn⟩ := hev.exists_next hnot
      obtain ⟨p, rfl⟩ := hn.exists_place (h.net_eq ▸ hwf)
      exact ⟨p, hn⟩
    have hput : ⟨t.node, p.node⟩ ∈ a.route.net.arcs.toList := h.net_eq ▸ hused.1
    have hcoming := hev.next hnot hused
    have hmarked : 0 < m₁.tokens p := by
      rw [hwf.tokens_fireAt hf]
      exact Nat.add_pos_right _ (Net.arcCount_pos_iff.mpr hput)
    rcases hwf.marked_or_taken hrest hmarked with hleft | ⟨vs, t', ws, m₂, rfl, htake, hvs, hws⟩
    -- the marker is left, and what could take it does not
    · right
      obtain ⟨n, hn⟩ := hcoming.exists_next (not_isAtKind_place p)
      obtain ⟨t', rfl⟩ := hn.exists_transition (h.net_eq ▸ hwf)
      exact ⟨[], t, p, List.nil_sublist us, .singleton t, rfl, hput, Net.waitsAt_of_not_enables
        hleft (StepGraph.fires_of_uses hg hn) (h.net_eq ▸ hn.1) (hdead t')⟩
    -- a later firing takes from the place, and the formula is still to come there
    · have hm₂ : a.route.net.Reaches a.route.net.marking m₂ := (hm.tail hf).trans ⟨vs, hvs⟩
      have hfires : a.route.net.Fires t' := by
        obtain ⟨m₃, hf', -⟩ := Net.runAt_cons_eq_ok_iff.mp hws
        exact Net.fires_iff.mpr ⟨m₂, hm₂, m₃, hf'⟩
      have hnext := hcoming.next (not_isAtKind_place p)
        (StepGraph.uses_of_fires hg hfires htake (Or.inr rfl))
      have hless : ws.length < n := by
        rw [← hlength, List.length_append, List.length_cons]
        omega
      rcases ih ws.length hless hm₂ hws hnext rfl with ⟨t'', ht'', hholds⟩ | hstalls
      · exact Or.inl ⟨t'', List.mem_cons_of_mem _ (List.mem_append_right _ ht''), hholds⟩
      · exact Or.inr (hstalls.of_feeds ⟨p, hput, htake⟩)

/-- A read that can fire is followed by `f` on every path, if the formula says so at the source. -/
theorem holds_ev_of_everyReadFollowedBy (h : a.Explored g s) {target : String}
    (hholds : (Formula.everyReadFollowedBy target f).Holds g a.route.source)
    (ht : a.route.net.Fires t) (hread : a.route.net.HasContext t (·.reads target)) :
    (Formula.ev f).Holds g t := by
  by_contra hnot
  exact (h.holds_neverReachable_iff _).mp hholds t ht ⟨(h.holds_reads_iff target t).mpr hread, hnot⟩

end Analysis.Explored

/-! ## Rules with a duty -/

/-- A rule with a duty has the formula that every read is followed by what discharges it. -/
theorem Rule.exists_formulaFor_of_duty {pattern : Pattern} {target : String} {tags : DutyTags}
    {duty : Context → Bool} (hduty : pattern.duty? target tags = some duty) (rule : Rule)
    (net : Net) : ∃ f, rule.formulaFor net pattern target tags
      = .ok (.everyReadFollowedBy target f) ∧
      ∀ (g : StepGraph) (t : TransitionId), f.Holds g t ↔ g.net.HasContext t duty := by
  unfold Pattern.duty? at hduty
  split at hduty
  all_goals cases hduty
  · exact ⟨.erases target, rfl, fun g t => Iff.rfl⟩
  · exact ⟨.erases target, rfl, fun g t => Iff.rfl⟩
  · exact ⟨.tagged tags.logging, rfl, fun g t => Iff.rfl⟩
  · exact ⟨.tagged tags.notification, rfl, fun g t => Iff.rfl⟩

/-- A verdict is about the resource and the pattern of its rule. -/
theorem Analysis.verifyRule_spec (a : Analysis) (tags : DutyTags) (sets : ParallelSets)
    (target : String) (rule : Rule) : (a.verifyRule tags sets target rule).resource = target ∧
      (a.verifyRule tags sets target rule).pattern = rule.pattern :=
  ⟨resource_verifyRule, pattern_verifyRule⟩

/-- Where the net with a marking enables nothing, the marking enables nothing. -/
theorem Net.WellFormed.not_enables_of_enabled (h : net.WellFormed) (hm : m.size = net.places.size)
    (hend : (net.withMarking m).enabled = .ok []) (t : TransitionId) : ¬net.Enables m t := by
  rw [enabled, marking_withMarking hm] at hend
  rw [← h.isEnabledAt_eq_true_iff hm, ← isEnabledAt_withMarking hm, ← mem_enabledAt hend]
  exact List.not_mem_nil

/-- **A satisfied duty is discharged in every run that comes to its end**, by the reader itself or by
a later firing, unless firings that follow from the read have put a marker into a place where it waits
for others. In a route without joins it is always discharged. -/
theorem duties_discharged {c : Config} {request : Request} {v : RuleVerdict} {pattern : Pattern}
    {duty : Context → Bool} (hv : v ∈ (c.verify request).verdicts)
    (hpattern : v.pattern = some pattern)
    (hduty : pattern.duty? v.resource c.dutyTags = some duty) (hsat : v.outcome = .satisfied)
    {us vs : List TransitionId} {t : TransitionId} {net' : Net}
    (hrun : request.net.run (us ++ t :: vs) = .ok net') (hend : net'.enabled = .ok [])
    (hread : request.net.HasContext t (·.reads v.resource)) :
    ((∃ t' ∈ t :: vs, request.net.HasContext t' duty) ∨
      request.net.Stalls t vs net'.marking) ∧
    ((∀ t, request.net.Fires t → ∀ p q : PlaceId, ⟨p.node, t.node⟩ ∈ request.net.arcs.toList →
        ⟨q.node, t.node⟩ ∈ request.net.arcs.toList → p = q) →
      ∃ t' ∈ t :: vs, request.net.HasContext t' duty) := by
  obtain ⟨resource, -, rule, -, rfl⟩ := Config.mem_verdicts_iff.mp hv
  obtain ⟨hresource, hrule⟩ := (c.analyse request.route).verifyRule_spec c.dutyTags
    ((c.analyse request.route).parallelSets c request.resources) resource.id rule
  rw [Config.verdictOn, hresource] at hduty hread
  rw [Config.verdictOn, hrule] at hpattern
  obtain ⟨f, hf, hholds⟩ := Rule.exists_formulaFor_of_duty hduty rule
    (c.analyse request.route).route.net
  rw [Config.verdictOn, Analysis.outcome_verifyRule hpattern hf] at hsat
  obtain ⟨g, s, hspace⟩ := Analysis.exists_stateSpace hsat
  have hexplored := Config.explored_analyse hspace
  -- the run, on the markings of the net
  obtain ⟨m', hm', rfl⟩ := Net.run_eq_ok_iff.mp hrun
  have hsize : m'.size = request.net.places.size := (Net.size_runAt hm').trans request.net.size_marking
  obtain ⟨m, hm, hrest⟩ := Net.runAt_append_eq_ok_iff.mp hm'
  have hfires : request.net.Fires t := ⟨_, _, hrun, by simp⟩
  have hev := hexplored.holds_ev_of_everyReadFollowedBy (hexplored.holds_of_satisfied hsat) hfires
    hread
  have hdischarged : (∃ t' ∈ t :: vs, request.net.HasContext t' duty) ∨
      request.net.Stalls t vs m' := by
    have hcases := hexplored.exists_holds_or_stalls ⟨us, hm⟩ hrest
      (hexplored.sound.net.wellFormed.not_enables_of_enabled hsize hend)
      (Analysis.Explored.unavoidable_of_holds_ev hev)
    simp only [hholds, hexplored.net_eq] at hcases
    exact hcases
  rw [Net.marking_withMarking hsize]
  refine ⟨hdischarged, fun hone => hdischarged.resolve_right ?_⟩
  rintro ⟨chain, last, p, -, -, -, -, hwaits⟩
  exact Net.not_waitsAt hone hwaits

/-- A permission to use a resource when each use is logged. -/
def logged : Rule := ⟨"log", .permission, [], [.ofAction .log]⟩

/-- A resource whose uses are to be logged. -/
def usedLogged : Resource := ⟨"R", [⟨[logged], [], []⟩]⟩

/-- The reader hands over to a step that logs. -/
def protocolled : Request :=
  ⟨.node ⟨"data", [.app "a"], [.app "T"], ["R"]⟩
    [.node ⟨"work", [.app "T"], [⟨"L", ["logging"], .app⟩], []⟩ []], [usedLogged]⟩

/-- No step of it takes from two places, so the read is logged in the end. -/
theorem duties_discharged_protocolled :
    ∃ v ∈ (Config.standard.verify protocolled).verdicts, v.pattern = some .usageLogging ∧
      v.outcome = .satisfied ∧ ∃ net', protocolled.net.run [⟨0⟩, ⟨1⟩, ⟨2⟩] = .ok net' ∧
        net'.enabled = .ok [] ∧ protocolled.net.HasContext ⟨1⟩ (·.reads v.resource) ∧
        ∃ t' ∈ [⟨1⟩, ⟨2⟩], protocolled.net.HasContext t' (·.hasTag "logging") := by
  have hsat : (Config.standard.verdictOn protocolled usedLogged logged).outcome = .satisfied := by
    rw [Config.verdictOn, Config.analyse_eq_survey]
    decide +kernel
  have hv : Config.standard.verdictOn protocolled usedLogged logged
      ∈ (Config.standard.verify protocolled).verdicts :=
    Config.mem_verdicts_iff.mpr ⟨usedLogged, by decide, logged, by decide, rfl⟩
  have hend : (protocolled.net.run [⟨0⟩, ⟨1⟩, ⟨2⟩] >>= Net.enabled) = .ok [] := by decide +kernel
  obtain ⟨net', hrun, hend⟩ := bind_eq_ok_iff.mp hend
  have hread : protocolled.net.HasContext ⟨1⟩ (·.reads "R") := by
    rw [← Net.isReader_iff]
    decide +kernel
  have hone : ∀ arc ∈ protocolled.net.arcs.toList, ∀ arc' ∈ protocolled.net.arcs.toList,
      arc.target = arc'.target → arc.target.kind = .transition → arc.source = arc'.source := by
    decide +kernel
  refine ⟨_, hv, rfl, hsat, net', hrun, hend, hread, ?_⟩
  have hsplit : protocolled.net.run ([⟨0⟩] ++ ⟨1⟩ :: [⟨2⟩]) = .ok net' := hrun
  exact (duties_discharged hv rfl rfl hsat hsplit hend hread).2 fun t _ p q hp hq =>
    Handle.node_inj.mp (hone _ hp _ hq rfl rfl)

/-- The step that logs also waits for another one, in whose place a third step may come. -/
def escaped : Request :=
  ⟨.node ⟨"data", [.app "a"], [.app "T"], ["R"]⟩
    [.node ⟨"work", [.app "T"], [⟨"J", ["logging"], .app⟩], []⟩ [],
      .node ⟨"gate", [.app "a"], [.app "J", ⟨"Y", ["logging"], .app⟩], []⟩ []], [usedLogged]⟩

/-- **A satisfied duty need not be discharged where steps wait for each other.** The third step takes
the marker that the logging step needs; then the reader fires last, and its read is never logged. -/
theorem duty_left_undone :
    ∃ v ∈ (Config.standard.verify escaped).verdicts, v.pattern = some .usageLogging ∧
      v.outcome = .satisfied ∧ ∃ net', escaped.net.run [⟨0⟩, ⟨3⟩, ⟨1⟩] = .ok net' ∧
        net'.enabled = .ok [] ∧ escaped.net.HasContext ⟨1⟩ (·.reads v.resource) ∧
        ¬escaped.net.HasContext ⟨1⟩ (·.hasTag "logging") := by
  have hsat : (Config.standard.verdictOn escaped usedLogged logged).outcome = .satisfied := by
    rw [Config.verdictOn, Config.analyse_eq_survey]
    decide +kernel
  have hend : (escaped.net.run [⟨0⟩, ⟨3⟩, ⟨1⟩] >>= Net.enabled) = .ok [] := by decide +kernel
  obtain ⟨net', hrun, hend⟩ := bind_eq_ok_iff.mp hend
  refine ⟨_, Config.mem_verdicts_iff.mpr ⟨usedLogged, by decide, logged, by decide, rfl⟩, rfl, hsat,
    net', hrun, hend, ?_, ?_⟩
  · show escaped.net.HasContext ⟨1⟩ (·.reads "R")
    rw [← Net.isReader_iff]
    decide +kernel
  · rintro ⟨x, hx, htag⟩
    have hnone : (escaped.net.transitions.get? ⟨1⟩).all (!·.hasContext (·.hasTag "logging")) = true := by
      decide +kernel
    rw [hx, Option.all_some, htag] at hnone
    cases hnone

end RoutePolicy
