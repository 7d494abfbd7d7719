import Mathlib.Data.List.Nodup
import RoutePolicy.Proofs.StepGraph
import RoutePolicy.Proofs.Survey

set_option autoImplicit false

/-! # Steps, moves and table of the reachability graph

The steps of a step graph are the markings that the net can reach, each once, and its moves are
the firings between them (`StepGraph.IsReachabilityGraph`).

The search takes the steps in order and the transitions of a step in order. So the moves, read as
pairs of a step and a transition, are one list that is known beforehand (`departures`); that there
is one move for each enabled transition is counted in that list. -/

namespace RoutePolicy

variable {net : Net} {cap : Nat} {d d' : Discovery} {m : Marking} {t : TransitionId}
  {ts : List TransitionId}

/-- What leaves the steps: the number of each step with each transition that is enabled there. -/
def departures (steps : List Step) : List (Nat × TransitionId) :=
  steps.zipIdx.flatMap fun (s, i) => s.enabled.map (i, ·)

theorem departures_concat (steps : List Step) (s : Step) :
    departures (steps ++ [s]) = departures steps ++ s.enabled.map (steps.length, ·) := by
  simp [departures, List.zipIdx_append]

theorem count_map_pair (i j : Nat) (ts : List TransitionId) (t : TransitionId) :
    (ts.map (i, ·)).count (j, t) = if i = j then ts.count t else 0 := by
  rw [List.count, List.countP_map]
  split
  · rename_i h
    subst h
    refine List.countP_congr fun u _ => ?_
    simp
  · rename_i h
    refine List.countP_eq_zero.mpr fun u _ => ?_
    simp [h]

/-- A transition leaves a step as often as the step lists it. -/
theorem count_departures (steps : List Step) (i : Nat) (t : TransitionId) :
    (departures steps).count (i, t) = ((steps[i]?).map (·.enabled.count t)).getD 0 := by
  induction steps using List.reverseRecOn with
  | nil => rfl
  | append_singleton steps s ih =>
      rw [departures_concat, List.count_append, ih, count_map_pair]
      rcases Nat.lt_trichotomy i steps.length with hlt | rfl | hgt
      · rw [List.getElem?_append_left hlt, if_neg (Nat.ne_of_gt hlt), Nat.add_zero]
      · rw [List.getElem?_concat_length, List.getElem?_eq_none (Nat.le_refl _), if_pos rfl]
        simp
      · have hlength : (steps ++ [s]).length ≤ i := by
          rw [List.length_append, List.length_singleton]
          omega
        rw [List.getElem?_eq_none (Nat.le_of_lt hgt), List.getElem?_eq_none hlength,
          if_neg (Nat.ne_of_lt hgt), Nat.add_zero]

/-! ## The moves of a search -/

namespace Discovery

/-- The search has moved once along each departure from the steps it has left, in order. -/
structure Charted (net : Net) (d : Discovery) : Prop where
  moves : d.moves.toList.map (fun v => (v.source, v.transition)) = departures d.steps.toList
  label : ∀ v ∈ d.moves.toList, net.nodeName v.transition = .ok v.label

theorem Charted.start (net : Net) : (start net.marking).Charted net :=
  ⟨rfl, fun _ hv => absurd hv List.not_mem_nil⟩

/-- Expanding a step adds one move for each of the given transitions, in their order. -/
theorem moves_expand {source : Nat} (h : net.expand cap source m ts d = .ok d') :
    d'.steps = d.steps ∧ d'.moves.toList.map (fun v => (v.source, v.transition))
        = d.moves.toList.map (fun v => (v.source, v.transition)) ++ ts.map (source, ·) ∧
      ((∀ v ∈ d.moves.toList, net.nodeName v.transition = .ok v.label) →
        ∀ v ∈ d'.moves.toList, net.nodeName v.transition = .ok v.label) := by
  induction ts generalizing d with
  | nil =>
      cases h
      exact ⟨rfl, by simp, id⟩
  | cons t ts ih =>
      obtain ⟨next, d₁, target, label, -, hvisit, hlabel, h⟩ := Net.expand_cons_eq_ok_iff.mp h
      obtain ⟨hmoves₁, hsteps₁⟩ := visit_keeps hvisit
      obtain ⟨hsteps, hmoves, hlabels⟩ := ih h
      have hpush : (d₁.moves.push ⟨source, target, t, label⟩).toList
          = d.moves.toList ++ [⟨source, target, t, label⟩] := by
        rw [hmoves₁, Array.toList_push]
      refine ⟨hsteps.trans hsteps₁, ?_, fun hd => hlabels ?_⟩
      · rw [hmoves, hpush, List.map_append, List.append_assoc]
        rfl
      · rw [hpush]
        intro v hv
        rcases List.mem_append.mp hv with hv | hv
        · exact hd v hv
        · rw [List.mem_singleton.mp hv]
          exact hlabel

/-- Each step that the search leaves adds its departures. -/
theorem Charted.explore {fuel : Nat} (h : d.Charted net) (he : net.explore cap fuel d = .ok d') :
    d'.Charted net := by
  induction fuel generalizing d with
  | zero =>
      cases he
      exact h
  | succ fuel ih =>
      obtain ⟨-, rfl⟩ | ⟨m, enabled, d₁, -, -, hd₁, he⟩ := Net.explore_succ_eq_ok_iff.mp he
      · exact h
      · obtain ⟨hsteps, hmoves, hlabels⟩ := moves_expand hd₁
        refine ih (d := { d₁ with steps := d₁.steps.push ⟨d₁.steps.size, m, enabled⟩ }) ⟨?_, ?_⟩ he
        · rw [Array.toList_push, hsteps, departures_concat, ← h.moves]
          exact hmoves
        · exact hlabels h.label

end Discovery

/-! ## Step graphs -/

variable {limit : Option Nat} {g : StepGraph}

/-- The enabled transitions are listed by number. -/
theorem Net.pairwise_enabledAt (h : net.enabledAt m = .ok ts) :
    ts.Pairwise fun t u => t.index < u.index := by
  obtain ⟨-, rfl⟩ := filterM_eq_ok_iff.mp h
  exact net.transitions.pairwise_indices.filter _

theorem nodup_of_pairwise_index (h : ts.Pairwise fun t u => t.index < u.index) : ts.Nodup :=
  h.imp fun hlt heq => Nat.ne_of_lt hlt (congrArg Handle.index heq)

/-- A step graph is what a sound search has found, with the moves of its steps in order. -/
theorem exists_charted_of_stepGraph (hg : net.stepGraph limit = .ok g) :
    ∃ d : Discovery, d.Sound net ∧ d.Charted net ∧ d.steps.size = d.markings.size ∧
      g = ⟨net, d.steps, d.moves, d.numbers⟩ := by
  obtain ⟨d, hd, hsound, hsize, rfl⟩ := exists_explored_of_stepGraph hg
  exact ⟨d, hsound, (Discovery.Charted.start net).explore hd, hsize, rfl⟩

namespace Discovery

variable {s : Step} {i : Nat}

/-- A step lists the transitions that are enabled at its marking, by number. -/
theorem Sound.enabled_iff (h : net.WellFormed) (hd : d.Sound net) (hs : d.steps[i]? = some s) :
    (s.enabled.Pairwise fun t u => t.index < u.index) ∧
      ∀ t, t ∈ s.enabled ↔ net.Enables s.marking t := by
  obtain ⟨hm, hen⟩ := hd.step hs
  refine ⟨Net.pairwise_enabledAt hen, fun t => ?_⟩
  rw [Net.mem_enabledAt hen,
    h.isEnabledAt_eq_true_iff ((hd.reached hm).size_eq.trans net.size_marking)]

/-- The table gives each marking the number of its step. -/
theorem Sound.numbers_eq_some_iff (hd : d.Sound net) (hsize : d.steps.size = d.markings.size) :
    d.numbers[m]? = some i ↔ ∃ s : Step, d.steps[i]? = some s ∧ s.marking = m :=
  hd.numbered.trans (hd.markings_eq_some_iff hsize)

/-- Two steps of one marking have the number that the table gives it. -/
theorem Sound.nodup_markings (hd : d.Sound net) (hsize : d.steps.size = d.markings.size) :
    (d.steps.toList.map (·.marking)).Nodup := by
  refine List.nodup_iff_getElem?_ne_getElem?.mpr fun i j hij hj heq => ?_
  rw [List.length_map, Array.length_toList] at hj
  have hs : d.steps[j]? = some d.steps[j] := Array.getElem?_eq_getElem hj
  obtain ⟨s, hs', hm⟩ : ∃ s, d.steps[i]? = some s ∧ s.marking = d.steps[j].marking := by
    simpa [hs] using heq
  have hi := (hd.numbers_eq_some_iff hsize).mpr ⟨s, hs', hm⟩
  have hj := (hd.numbers_eq_some_iff hsize).mpr ⟨_, hs, rfl⟩
  exact Nat.ne_of_lt hij (Option.some_inj.mp (hi.symm.trans hj))

/-- A step has one move for each transition that it lists. -/
theorem Charted.countP_moves (hd : d.Charted net) (hs : d.steps[i]? = some s)
    (hnodup : s.enabled.Nodup) (t : TransitionId) :
    (d.moves.toList.countP fun v => v.source = i ∧ v.transition = t)
      = if t ∈ s.enabled then 1 else 0 := by
  have hcount := count_departures d.steps.toList i t
  rw [← hd.moves, List.count, List.countP_map, Array.getElem?_toList, hs] at hcount
  rw [← hnodup.count]
  refine Eq.trans (List.countP_congr fun v _ => ?_) hcount
  simp

end Discovery

/-- The step graph is the graph of the markings that the net can reach. -/
structure StepGraph.IsReachabilityGraph (g : StepGraph) (net : Net) : Prop where
  net_eq : g.net = net
  /-- The first step is the marking of the net itself. -/
  initial : ∃ s : Step, g.steps[0]? = some s ∧ s.marking = net.marking
  /-- No two steps have the same marking. -/
  distinct : (g.steps.toList.map (·.marking)).Nodup
  /-- The markings of the steps are those that the net can reach. -/
  reached : ∀ m, (∃ s ∈ g.steps.toList, s.marking = m) ↔ net.CanReach m
  /-- A step lists the transitions that are enabled at its marking, by number. -/
  enabled : ∀ s ∈ g.steps.toList, (s.enabled.Pairwise fun t u => t.index < u.index) ∧
    ∀ t, t ∈ s.enabled ↔ net.Enables s.marking t
  /-- From each step there is one move for each transition that is enabled there, and no other. -/
  departs : ∀ (i : Nat) (s : Step), g.steps[i]? = some s → ∀ t, (g.moves.toList.countP fun v =>
    v.source = i ∧ v.transition = t) = if t ∈ s.enabled then 1 else 0
  /-- A move leads from its step to the one whose marking its transition leads to. -/
  leads : ∀ v ∈ g.moves.toList, ∃ s s' : Step, g.steps[v.source]? = some s ∧
    g.steps[v.target]? = some s' ∧ net.fireAt s.marking v.transition = .ok s'.marking ∧
    net.nodeName v.transition = .ok v.label
  /-- The table gives each marking the number of its step, and has no other entry. -/
  numbered : ∀ (m : Marking) (i : Nat),
    g.numbers[m]? = some i ↔ ∃ s : Step, g.steps[i]? = some s ∧ s.marking = m
  /-- A marking is found exactly if the net can reach it. -/
  contains : ∀ m, g.containsMarking m = true ↔ net.CanReach m
  /-- The terminal steps are listed once, and their markings are those that the net can reach at
  which no transition is enabled. -/
  terminal : g.terminal.Nodup ∧ ∀ m, (∃ i ∈ g.terminal, ∃ s : Step, g.steps[i]? = some s ∧
    s.marking = m) ↔ net.CanReach m ∧ ∀ t, ¬net.Enables m t
  /-- The fired transitions are listed once, and are those enabled at some marking that the net
  can reach. -/
  fired : g.fired.Nodup ∧ ∀ t, t ∈ g.fired ↔ ∃ m, net.CanReach m ∧ net.Enables m t

/-- The terminal steps are those that list no enabled transition. -/
theorem StepGraph.mem_terminal_iff {i : Nat} :
    i ∈ g.terminal ↔ ∃ s : Step, g.steps[i]? = some s ∧ s.enabled = [] := by
  simp only [terminal, List.mem_map, List.mem_filter, Prod.exists, exists_eq_right,
    List.mk_mem_zipIdx_iff_getElem?, Array.getElem?_toList, List.isEmpty_iff]

theorem StepGraph.nodup_terminal (g : StepGraph) : g.terminal.Nodup := by
  refine List.Nodup.sublist (List.filter_sublist.map _) ?_
  rw [List.zipIdx_map_snd]
  exact List.nodup_range'

/-- The markings of the terminal steps are those of the steps at which nothing is enabled. -/
theorem StepGraph.exists_terminal_iff (henabled : ∀ (i : Nat) (s : Step), g.steps[i]? = some s →
    ∀ t, t ∈ s.enabled ↔ net.Enables s.marking t) :
    (∃ i ∈ g.terminal, ∃ s : Step, g.steps[i]? = some s ∧ s.marking = m) ↔
      (∃ (i : Nat) (s : Step), g.steps[i]? = some s ∧ s.marking = m) ∧ ∀ t, ¬net.Enables m t := by
  constructor
  · rintro ⟨i, hi, s, hs, rfl⟩
    obtain ⟨s', hs', hnone⟩ := mem_terminal_iff.mp hi
    obtain rfl := Option.some_inj.mp (hs.symm.trans hs')
    refine ⟨⟨i, s, hs, rfl⟩, fun t ht => ?_⟩
    have := (henabled i s hs t).mpr ht
    rw [hnone] at this
    exact absurd this List.not_mem_nil
  · rintro ⟨⟨i, s, hs, rfl⟩, hdead⟩
    refine ⟨i, mem_terminal_iff.mpr ⟨s, hs, ?_⟩, s, hs, rfl⟩
    exact List.eq_nil_iff_forall_not_mem.mpr fun t ht => hdead t ((henabled i s hs t).mp ht)

/-- The fired transitions are those that are enabled at a marking that is reached. -/
theorem StepGraph.mem_fired_iff_enables (h : net.WellFormed) (hg : net.stepGraph limit = .ok g) :
    t ∈ g.fired ↔ ∃ m, net.CanReach m ∧ net.Enables m t := by
  rw [mem_fired_iff, exists_move_iff_fires hg]
  refine exists_congr fun m => ?_
  rw [Net.canReach_iff]
  refine and_congr_right fun hm => ?_
  -- what is enabled at a marking that is reached can fire there
  rw [← h.isEnabledAt_eq_true_iff (hm.size_eq.trans net.size_marking)]
  exact ⟨fun ⟨m', hm'⟩ => (Net.fireAt_eq_ok_iff.mp hm').1, fireAt_of_enabled hg hm⟩

/-- **A step graph is the reachability graph of its net.** -/
theorem isReachabilityGraph_of_stepGraph (h : net.WellFormed) (hg : net.stepGraph limit = .ok g) :
    g.IsReachabilityGraph net := by
  have hreach (x : Marking) : (∃ s ∈ g.steps.toList, s.marking = x) ↔ net.CanReach x :=
    (exists_step_iff_reaches hg).trans Net.canReach_iff.symm
  have hfired (u : TransitionId) := StepGraph.mem_fired_iff_enables (t := u) h hg
  obtain ⟨d, hsound, hcharted, hsize, rfl⟩ := exists_charted_of_stepGraph hg
  have hindex (x : Marking) :
      (∃ (i : Nat) (s : Step), d.steps[i]? = some s ∧ s.marking = x) ↔ net.CanReach x :=
    exists_mem_toList_iff.symm.trans (hreach x)
  have hnumbered (x : Marking) (i : Nat) :
      d.numbers[x]? = some i ↔ ∃ s : Step, d.steps[i]? = some s ∧ s.marking = x :=
    hsound.numbers_eq_some_iff hsize
  constructor
  case net_eq => rfl
  case initial => exact (hsound.markings_eq_some_iff hsize).mp hsound.first
  case distinct => exact hsound.nodup_markings hsize
  case reached => exact hreach
  case enabled =>
    intro s hs
    obtain ⟨i, hi⟩ := Array.mem_iff_getElem?.mp (Array.mem_toList_iff.mp hs)
    exact hsound.enabled_iff h hi
  case departs =>
    intro i s hs t
    exact hcharted.countP_moves hs (nodup_of_pairwise_index (hsound.enabled_iff h hs).1) t
  case leads =>
    intro v hv
    obtain ⟨m, m', hm, hm', hf⟩ := hsound.move v hv
    obtain ⟨s, hs, rfl⟩ := (hsound.markings_eq_some_iff hsize).mp hm
    obtain ⟨s', hs', rfl⟩ := (hsound.markings_eq_some_iff hsize).mp hm'
    exact ⟨s, s', hs, hs', hf, hcharted.label v hv⟩
  case numbered => exact hnumbered
  case contains =>
    intro m
    rw [StepGraph.containsMarking, Std.HashMap.contains_eq_isSome_getElem?,
      Option.isSome_iff_exists, ← hindex]
    exact exists_congr (hnumbered m)
  case terminal =>
    refine ⟨StepGraph.nodup_terminal _, fun m => ?_⟩
    rw [← hindex]
    exact StepGraph.exists_terminal_iff fun i s hs => (hsound.enabled_iff h hs).2
  case fired => exact ⟨nodup_eraseDups _, hfired⟩

/-- Two markers that go one way each, in either order. -/
def crossing : Net :=
  (((((((((Net.empty "crossing").addPlace (.plain "north" 1)).addPlace (.plain "west" 1)
    ).addPlace (.plain "south" 0)).addPlace (.plain "east" 0)
    ).addTransition (.bare "down" none)).addTransition (.bare "across" none)
    ).join ⟨⟨.place, 0⟩, ⟨.transition, 0⟩⟩).join ⟨⟨.transition, 0⟩, ⟨.place, 2⟩⟩
    ).join ⟨⟨.place, 1⟩, ⟨.transition, 1⟩⟩ |>.join ⟨⟨.transition, 1⟩, ⟨.place, 3⟩⟩

theorem crossing_made : crossing.Made := by
  refine .join (.join (.join (.join (.addTransition (.addTransition (.addPlace (.addPlace (.addPlace
    (.addPlace (.empty "crossing") ?_) ?_) ?_) ?_))) rfl) rfl) rfl) rfl
  all_goals decide

theorem isReachabilityGraph_crossing : ∃ g, crossing.stepGraph none = .ok g ∧
    g.stepCount = 4 ∧ g.moveCount = 4 ∧ g.IsReachabilityGraph crossing := by
  have hsurvey : (crossing.survey none).toOption.map (fun g => (g.stepCount, g.moveCount))
      = some (4, 4) := by
    decide +kernel
  obtain ⟨g, hg, hcounts⟩ := exists_ok_of_map hsurvey
  rw [← Net.stepGraph_eq_survey] at hg
  obtain ⟨hsteps, hmoves⟩ := Prod.mk.inj hcounts
  exact ⟨g, hg, hsteps, hmoves, isReachabilityGraph_of_stepGraph crossing_made.wellFormed hg⟩

end RoutePolicy
