import RoutePolicy.Document.Report
import RoutePolicy.Proofs.Document.Policy
import RoutePolicy.Proofs.Document.Route

set_option autoImplicit false

/-! # Requests and reports are read back from JSON

A request is read back from its text unless it nests too deeply, which only its route can do
(`returns_request`). A report never nests too deeply, so it is always read back, as long as its
counts have 64 bits (`returns_report`, `nesting_report_le`). -/

namespace RoutePolicy

/-- The counts fit 64 bits. -/
structure NetStatistics.Fits (s : NetStatistics) : Prop where
  places : s.places < countRange
  transitions : s.transitions < countRange
  arcs : s.arcs < countRange
  steps : ∀ n ∈ s.steps, n < countRange
  paths : ∀ n ∈ s.paths, n < countRange

namespace Json.Located

/-! ## Outcomes -/

theorem isReadable_of_text {v : Located} {s : String} (h : v.Shows (.text s)) :
    Json.Located.isReadable v.depth v.value = true := by
  rw [h.value_eq]
  rfl

theorem isReadable_of_option {v : Located} {o : Option String} (h : v.Shows (document o)) :
    Json.Located.isReadable v.depth v.value = true := by
  rw [h.value_eq]
  cases o <;> rfl

theorem returns_outcome (o : Outcome) : Returns Shows o := by
  intro v hv
  cases o with
  | satisfied =>
      obtain ⟨fields, hread, -⟩ := exists_tagged Outcome.fieldNames hv rfl rfl
        .nil List.not_mem_nil fun _ h => nomatch h
      exact bind_eq_some hread rfl
  | violated message =>
      obtain ⟨fields, hread, hshow⟩ := exists_tagged Outcome.fieldNames hv rfl rfl
        (by decide) (by decide) (List.forall_mem_singleton.mpr fun _ => isReadable_of_option)
      have hmessage := hshow.optional "message" rfl
        (returns_option keeps (o := message) (fun s _ => returns_string keeps s) fun _ => rfl)
      exact bind_eq_some hread (bind_eq_some hmessage rfl)
  | inconclusive reason =>
      obtain ⟨fields, hread, hshow⟩ := exists_tagged Outcome.fieldNames hv rfl rfl
        (by decide) (by decide) (List.forall_mem_singleton.mpr fun _ => isReadable_of_text)
      have hreason := hshow.required "reason" rfl (returns_string keeps reason)
      exact bind_eq_some hread (bind_eq_some hreason rfl)
  | skipped reason =>
      obtain ⟨fields, hread, hshow⟩ := exists_tagged Outcome.fieldNames hv rfl rfl
        (by decide) (by decide) (List.forall_mem_singleton.mpr fun _ => isReadable_of_text)
      have hreason := hshow.required "reason" rfl (returns_string keeps reason)
      exact bind_eq_some hread (bind_eq_some hreason rfl)

/-! ## Reports -/

theorem returns_ruleVerdict (r : RuleVerdict) : Returns Shows r := by
  intro v hv
  obtain ⟨fields, hread, hshow⟩ := keeps.record "RuleVerdict"
    ["resource", "rule", "pattern", "formula", "outcome"] rfl (by decide) hv
  have hresource := hshow.required "resource" rfl (returns_string keeps r.resource)
  have hrule := hshow.required "rule" rfl (returns_string keeps r.rule)
  have hpattern := hshow.optional "pattern" rfl
    (returns_option keeps (o := r.pattern) (fun p _ => returns_pattern keeps p) fun _ => rfl)
  have hformula := hshow.optional "formula" rfl
    (returns_option keeps (o := r.formula) (fun s _ => returns_string keeps s) fun _ => rfl)
  have houtcome := hshow.required "outcome" rfl (returns_outcome r.outcome)
  exact bind_eq_some hread (bind_eq_some hresource (bind_eq_some hrule (bind_eq_some hpattern
    (bind_eq_some hformula (bind_eq_some houtcome rfl)))))

theorem returns_netStatistics {s : NetStatistics} (hs : s.Fits) : Returns Shows s := by
  intro v hv
  obtain ⟨fields, hread, hshow⟩ := keeps.record "NetStatistics"
    ["places", "transitions", "arcs", "steps", "paths"] rfl (by decide) hv
  have hplaces := hshow.required "places" rfl (returns_count keeps hs.places)
  have htransitions := hshow.required "transitions" rfl (returns_count keeps hs.transitions)
  have harcs := hshow.required "arcs" rfl (returns_count keeps hs.arcs)
  have hsteps := hshow.optional "steps" rfl
    (returns_option keeps (fun n hn => returns_count keeps (hs.steps n hn)) fun _ => rfl)
  have hpaths := hshow.optional "paths" rfl
    (returns_option keeps (fun n hn => returns_count keeps (hs.paths n hn)) fun _ => rfl)
  exact bind_eq_some hread (bind_eq_some hplaces (bind_eq_some htransitions (bind_eq_some harcs
    (bind_eq_some hsteps (bind_eq_some hpaths rfl)))))

theorem returns_report {r : Report} (hr : r.net.Fits) : Returns Shows r := by
  intro v hv
  obtain ⟨fields, hread, hshow⟩ := keeps.record "VerificationReport"
    ["route", "net", "parallel_sets", "verdicts"] rfl (by decide) hv
  have hroute := hshow.required "route" rfl (returns_string keeps r.route)
  have hnet := hshow.required "net" rfl (returns_netStatistics hr)
  have hsets := hshow.required "parallel_sets" rfl (returns_list keeps (l := r.parallelSets)
    fun set _ => returns_list keeps fun (id : String) _ => returns_string keeps id)
  have hverdicts := hshow.required "verdicts" rfl
    (returns_list keeps fun v _ => returns_ruleVerdict v)
  exact bind_eq_some hread (bind_eq_some hroute (bind_eq_some hnet (bind_eq_some hsets
    (bind_eq_some hverdicts rfl))))

/-! ## Requests -/

theorem returns_request {r : Request} (hheight : r.route.height ≤ Route.maxHeight) :
    Returns Shows r := by
  intro v hv
  obtain ⟨fields, hread, hshow⟩ := keeps.record "VerificationRequest" ["route", "resources"] rfl
    (by decide) hv
  have hroute := hshow.required "route" rfl (returns_route keeps hheight)
  have hresources := hshow.withDefault "resources" rfl
    (returns_list keeps fun resource _ => returns_resource keeps resource) []
  exact bind_eq_some hread (bind_eq_some hroute (bind_eq_some hresources rfl))

end Json.Located

/-! ## Texts -/

theorem nesting_outcome_le (o : Outcome) : (document o).toJson.nesting ≤ 1 := by
  cases o with
  | satisfied => exact Nat.le_refl 1
  | violated message => cases message <;> exact Nat.le_refl 1
  | inconclusive reason => exact Nat.le_refl 1
  | skipped reason => exact Nat.le_refl 1

theorem nesting_ruleVerdict_le (v : RuleVerdict) : (document v).toJson.nesting ≤ 2 := by
  refine Document.nesting_record_le_iff.mpr ?_
  simp only [List.forall_mem_cons]
  exact ⟨Nat.zero_le 1, Nat.zero_le 1, Document.nesting_option_le fun _ _ => Nat.zero_le 1,
    Document.nesting_option_le fun _ _ => Nat.zero_le 1, nesting_outcome_le v.outcome,
    List.forall_mem_nil _⟩

theorem nesting_netStatistics_le (s : NetStatistics) : (document s).toJson.nesting ≤ 1 := by
  refine Document.nesting_record_le_iff.mpr ?_
  simp only [List.forall_mem_cons]
  exact ⟨Nat.zero_le 0, Nat.zero_le 0, Nat.zero_le 0,
    Document.nesting_option_le fun _ _ => Nat.zero_le 0,
    Document.nesting_option_le fun _ _ => Nat.zero_le 0, List.forall_mem_nil _⟩

theorem nesting_report_le (r : Report) : (document r).toJson.nesting ≤ 4 := by
  have hsets : (document r.parallelSets).toJson.nesting ≤ 2 :=
    Document.nesting_documents_le fun _ _ => Document.nesting_documents_le fun _ _ => Nat.zero_le 0
  refine Document.nesting_record_le_iff.mpr ?_
  simp only [List.forall_mem_cons]
  exact ⟨Nat.zero_le 3, (nesting_netStatistics_le r.net).trans (by decide), hsets.trans (by decide),
    Document.nesting_documents_le fun v _ => nesting_ruleVerdict_le v, List.forall_mem_nil _⟩

/-- A request nests at least as deeply as its route is high. -/
theorem height_le_nesting_request (r : Request) :
    r.route.height ≤ (document r).toJson.nesting := by
  have hroute : (document r.route).toJson.nesting ≤ (document r).toJson.nesting := by
    show _ ≤ max (document r.route).toJson.nesting _ + 1
    exact (Nat.le_max_left _ _).trans (Nat.le_succ _)
  exact r.route.height_le_nesting.trans hroute

/-- **Requests and reports are read back from their JSON texts**: every request that does not nest
too deeply for its reader, and every report, as long as its counts have 64 bits. -/
theorem json_returns_requests_and_reports :
    (∀ request : Request, (document request).toJson.nesting < Json.Located.maxDepth →
      ofJsonText? (toJsonText request) = some request) ∧
    ∀ report : Report, report.net.Fits → ofJsonText? (toJsonText report) = some report := by
  refine ⟨fun request hdepth => ?_, fun report hfits => ?_⟩
  · have hheight : request.route.height ≤ Route.maxHeight :=
      (height_le_nesting_request request).trans (Nat.le_of_lt hdepth)
    exact ofJsonText?_toJsonText (Json.Located.returns_request hheight) hdepth
  · have hdepth : (document report).toJson.nesting < Json.Located.maxDepth :=
      Nat.lt_of_le_of_lt (nesting_report_le report) (by decide)
    exact ofJsonText?_toJsonText (Json.Located.returns_report hfits) hdepth

/-- A route with a branch, and a rule all of whose words are unknown. -/
def unknownRequest : Request where
  route := .node ⟨"r\"1\"", [⟨"a", ["tag\\", "é\n"], .control⟩], [.app "b"], ["d\x01"]⟩
    [.node ⟨"", [], [], []⟩ []]
  resources := [⟨"d\x01", [⟨[], [⟨"rule", .prohibition, [⟨.unknown, .unknown, "\t/\x7f"⟩],
    [⟨[.unknown, .log], [⟨.count, .lteq, "1"⟩]⟩]⟩], []⟩]⟩]

/-- A report on a route whose exploration met a limit, with the greatest count there is. -/
def limitedReport : Report where
  route := "r\u2028"
  net := ⟨countRange - 1, 0, 3, none, some 0⟩
  parallelSets := [[], ["t\""]]
  verdicts := [⟨"d", "r1", none, some "a ∧ b", .violated none⟩,
    ⟨"d", "r2", some .usageLogging, none, .violated (some "\x00")⟩,
    ⟨"d", "r3", some .nTimesUsage, none, .inconclusive ""⟩,
    ⟨"d", "r4", none, none, .skipped "null"⟩, ⟨"", "", none, none, .satisfied⟩]

theorem json_returns_unknownRequest :
    (document unknownRequest).toJson.nesting < Json.Located.maxDepth ∧ limitedReport.net.Fits ∧
    ofJsonText? (toJsonText unknownRequest) = some unknownRequest ∧
    ofJsonText? (toJsonText limitedReport) = some limitedReport := by
  have hdepth : (document unknownRequest).toJson.nesting < Json.Located.maxDepth := by decide
  have hfits : limitedReport.net.Fits := ⟨by decide, by decide, by decide, by decide, by decide⟩
  exact ⟨hdepth, hfits, json_returns_requests_and_reports.1 _ hdepth,
    json_returns_requests_and_reports.2 _ hfits⟩

end RoutePolicy
