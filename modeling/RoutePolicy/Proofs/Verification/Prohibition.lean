import RoutePolicy.Proofs.Verification.Access
import RoutePolicy.Proofs.Verification.Usage

set_option autoImplicit false

/-! # Prohibitions in a report

A prohibition is a rule with the formula that the resource is never read. When the net of a route is
explored to the end, this formula is false at the source exactly if a transition that reads the
resource can fire, and then every prohibition of the resource is among the violations of the report
(`prohibited_reads`). A reader that no firing sequence gets to does not count
(`prohibited_read_unseen`). -/

namespace RoutePolicy

variable {c : Config} {request : Request} {resource : Resource} {rule : Rule} {target : String}

/-- Some firing sequence fires a transition that reads the resource. -/
def Net.CanRead (net : Net) (target : String) : Prop :=
  ∃ t, net.Fires t ∧ net.HasContext t (·.reads target)

/-- A violation of the report is a verdict on a rule of a resource. -/
theorem Config.verdictOn_mem_violations_iff (hresource : resource ∈ request.resources)
    (hrule : rule ∈ resource.rules) : c.verdictOn request resource rule ∈ (c.verify request).violations
      ↔ (c.verdictOn request resource rule).outcome.isViolation = true := by
  rw [Report.violations, List.mem_filter]
  exact and_iff_right (mem_verdicts_iff.mpr ⟨resource, hresource, rule, hrule, rfl⟩)

/-- The formula of a prohibition is false at the source exactly if the resource can be read. -/
theorem Analysis.Explored.evaluate_neverReachable_reads {a : Analysis} {g : StepGraph} {s : PathSet}
    (h : a.Explored g s) (target : String) {b : Bool} :
    (Formula.neverReachable (.reads target)).evaluate s a.route.source = .ok b ↔
      (b = true ↔ ¬a.route.net.CanRead target) := by
  obtain ⟨limit, hs⟩ := h.paths
  have hsource : g.net.contains a.route.source.node = true := h.net_eq ▸ h.sound.source
  have hwf : g.net.WellFormed := h.net_eq ▸ h.sound.net.wellFormed
  rw [Formula.evaluate_eq_ok_iff hwf hs _ hsource, h.holds_neverReachable_iff]
  simp only [h.holds_reads_iff, Net.CanRead, not_exists, not_and]

/-- **Prohibited reads are detected.** When the net of a route is explored to the end, each
prohibition has a formula that is false at the source if some firing sequence reads the resource, and
true otherwise; and each prohibition of the resource is reported as violated in the first case, and as
satisfied in the second. -/
theorem prohibited_reads {g : StepGraph} {s : PathSet}
    (h : (c.analyse request.route).stateSpace = .ok (g, s)) (target : String) :
    (∀ rule : Rule, ∃ f, rule.formulaFor request.net .prohibitAccess target c.dutyTags = .ok f ∧
      (f.evaluate s (RouteNet.ofRoute request.route).source = .ok false ↔
        request.net.CanRead target) ∧
      (f.evaluate s (RouteNet.ofRoute request.route).source = .ok true ↔
        ¬request.net.CanRead target)) ∧
    ∀ resource ∈ request.resources, resource.id = target → ∀ rule ∈ resource.rules,
      rule.pattern = some .prohibitAccess →
      (c.verdictOn request resource rule ∈ (c.verify request).violations ↔
        request.net.CanRead target) ∧
      ((c.verdictOn request resource rule).outcome = .satisfied ↔
        ¬request.net.CanRead target) := by
  have hexplored := Config.explored_analyse h
  constructor
  · intro rule
    have heval (b : Bool) : (Formula.neverReachable (.reads target)).evaluate s
        (RouteNet.ofRoute request.route).source = .ok b ↔
          (b = true ↔ ¬request.net.CanRead target) := hexplored.evaluate_neverReachable_reads target
    refine ⟨.neverReachable (.reads target), rfl, ?_, ?_⟩
    · rw [heval]
      simp
    · rw [heval]
      simp
  · rintro resource hresource rfl rule hrule hpattern
    obtain ⟨hviolated, hsatisfied⟩ := hexplored.tells_neverReachable
      ((c.analyse request.route).parallelSets c request.resources) resource.id rule .prohibitAccess
      (by simp) (.reads resource.id)
    simp only [hexplored.holds_reads_iff] at hviolated hsatisfied
    rw [Config.verdictOn_mem_violations_iff hresource hrule, Config.verdictOn,
      Analysis.outcome_verifyRule hpattern rfl]
    exact ⟨hviolated, hsatisfied⟩

/-- A resource that may not be read. -/
def neverRead : Resource := ⟨"R", [⟨[], [.prohibition "never"], []⟩]⟩

/-- What is handed over may not be read. -/
def handoverRequest : Request := ⟨handover, [neverRead]⟩

/-- It is read, so the prohibition is among the violations. -/
theorem prohibited_reads_handover : ∃ g s,
    (Config.standard.analyse handover).stateSpace = .ok (g, s) ∧
    handoverRequest.net.CanRead "R" ∧
    Config.standard.verdictOn handoverRequest neverRead (.prohibition "never")
      ∈ (Config.standard.verify handoverRequest).violations := by
  have hok : (Config.standard.analyse handover).stateSpace.isOk = true := by
    rw [Config.analyse_eq_survey]
    decide +kernel
  obtain ⟨⟨g, s⟩, h⟩ := exists_eq_ok hok
  have hviolation : Config.standard.verdictOn handoverRequest neverRead (.prohibition "never")
      ∈ (Config.standard.verify handoverRequest).violations := by
    rw [Config.verdictOn_mem_violations_iff (by decide) (by decide), Config.verdictOn,
      Config.analyse_eq_survey]
    decide +kernel
  have hspace : (Config.standard.analyse handoverRequest.route).stateSpace = .ok (g, s) := h
  obtain ⟨-, hreport⟩ := prohibited_reads hspace "R"
  obtain ⟨hiff, -⟩ := hreport neverRead (by decide) rfl (.prohibition "never") (by decide) rfl
  exact ⟨g, s, h, hiff.mp hviolation, hviolation⟩

/-- A stage that starts and ends at the same endpoint, which waits for a marker that only itself could
put. -/
def closedLoop : Route := .node ⟨"closed", [.app "x"], [.app "x"], ["R"]⟩ []

/-- What goes around there may not be read. -/
def closedLoopRequest : Request := ⟨closedLoop, [neverRead]⟩

/-- **A reader that cannot fire is not detected.** The endpoint is in the net and reads the resource;
the formula is true all the same, and the prohibition is satisfied. -/
theorem prohibited_read_unseen : ∃ g s,
    (Config.standard.analyse closedLoop).stateSpace = .ok (g, s) ∧
    closedLoopRequest.net.HasContext ⟨0⟩ (·.reads "R") ∧
    (Formula.neverReachable (.reads "R")).evaluate s (RouteNet.ofRoute closedLoop).source
      = .ok true ∧
    (Config.standard.verdictOn closedLoopRequest neverRead (.prohibition "never")).outcome
      = .satisfied := by
  have hvalue : ((Config.standard.analyse closedLoop).stateSpace >>= fun space =>
      (Formula.neverReachable (.reads "R")).evaluate space.2 (RouteNet.ofRoute closedLoop).source)
        = .ok true := by
    rw [Config.analyse_eq_survey]
    decide +kernel
  obtain ⟨⟨g, s⟩, h, hvalue⟩ := bind_eq_ok_iff.mp hvalue
  refine ⟨g, s, h, ?_, hvalue, ?_⟩
  · rw [← Net.isReader_iff]
    decide +kernel
  · rw [Config.verdictOn, Config.analyse_eq_survey]
    decide +kernel

end RoutePolicy
