import RoutePolicy.Proofs.StateLimit

set_option autoImplicit false

/-! # Steps by their distance

The distance of a marking is the least number of firings that lead to it. The steps of a step graph
are numbered by the distance of their markings, and the moves come by the step that they leave and then
by their transition (`StepGraph.IsByDistance`).

The search fires from the steps in order. So the move that first met a marking leaves a step no later
than every move to the same marking or to one with a higher number (`Discovery.InOrder`). From this, by
induction on the number of firings, a marking that few firings lead to has only markings before it that
are as near (`Discovery.InOrder.reachesWithin_of_le`). -/

namespace RoutePolicy

variable {net : Net} {cap n : Nat} {d d' : Discovery} {m m' : Marking} {t : TransitionId}

namespace Net

/-- The least number of firings that lead to the marking. -/
noncomputable def distance (net : Net) (m : Marking) : Nat :=
  sInf {n | ∃ ts : List TransitionId, ts.length = n ∧ net.runAt net.marking ts = .ok m}

/-- As many firings as the distance lead to the marking, and no fewer. -/
theorem Reaches.distance_spec (h : net.Reaches net.marking m) :
    (∃ ts : List TransitionId, ts.length = net.distance m ∧ net.runAt net.marking ts = .ok m) ∧
      ∀ ts, net.runAt net.marking ts = .ok m → net.distance m ≤ ts.length := by
  obtain ⟨ts, hts⟩ := h
  have hne : {n | ∃ us : List TransitionId, us.length = n ∧
      net.runAt net.marking us = .ok m}.Nonempty := ⟨ts.length, ts, rfl, hts⟩
  exact ⟨Nat.sInf_mem hne, fun us hus => Nat.sInf_le ⟨us, rfl, hus⟩⟩

theorem Reaches.distance_le_iff (h : net.Reaches net.marking m) :
    net.distance m ≤ n ↔ net.ReachesWithin n m := by
  obtain ⟨⟨ts, hlength, hts⟩, hleast⟩ := h.distance_spec
  constructor
  · intro hle
    exact ⟨ts, hlength ▸ hle, hts⟩
  · rintro ⟨us, hle, hus⟩
    exact (hleast us hus).trans hle

theorem reachesWithin_marking (net : Net) (n : Nat) : net.ReachesWithin n net.marking :=
  ⟨[], Nat.zero_le n, net.runAt_nil _⟩

theorem reachesWithin_zero_iff : net.ReachesWithin 0 m ↔ m = net.marking := by
  constructor
  · rintro ⟨ts, hlength, hts⟩
    obtain rfl := List.length_eq_zero_iff.mp (Nat.le_zero.mp hlength)
    cases hts
    rfl
  · rintro rfl
    exact net.reachesWithin_marking 0

/-- What at most one firing more leads to is the first marking, or the last of the firings leads to
it. -/
theorem ReachesWithin.cases_succ (h : net.ReachesWithin (n + 1) m) :
    m = net.marking ∨ ∃ x t, net.ReachesWithin n x ∧ net.fireAt x t = .ok m := by
  obtain ⟨ts, hlength, hts⟩ := h
  rcases List.eq_nil_or_concat ts with rfl | ⟨us, t, rfl⟩
  · cases hts
    exact Or.inl rfl
  · rw [List.concat_eq_append] at hlength hts
    obtain ⟨x, hx, hrun⟩ := runAt_append_eq_ok_iff.mp hts
    obtain ⟨m', hf, hnil⟩ := runAt_cons_eq_ok_iff.mp hrun
    cases hnil
    rw [List.length_append, List.length_singleton] at hlength
    exact Or.inr ⟨x, t, ⟨us, by omega, hx⟩, hf⟩

/-- The last of as few firings as possible leads on from a marking that is nearer by one. -/
theorem Reaches.exists_nearer (h : net.Reaches net.marking m) (hne : m ≠ net.marking) :
    ∃ x t, net.Reaches net.marking x ∧ net.fireAt x t = .ok m ∧
      net.distance x + 1 = net.distance m := by
  have hwithin := h.distance_le_iff.mp le_rfl
  cases hdistance : net.distance m with
  | zero =>
      rw [hdistance] at hwithin
      exact absurd (reachesWithin_zero_iff.mp hwithin) hne
  | succ n =>
      rw [hdistance] at hwithin
      obtain ⟨x, t, hx, hf⟩ := hwithin.cases_succ.resolve_left hne
      have hle : net.distance x ≤ n := hx.reaches.distance_le_iff.mpr hx
      have hge : net.distance m ≤ net.distance x + 1 :=
        h.distance_le_iff.mpr ((hx.reaches.distance_le_iff.mp le_rfl).tail hf)
      exact ⟨x, t, hx.reaches, hf, by omega⟩

end Net

/-! ## The order of the search -/

namespace Discovery

/-- The markings are numbered in the order in which the search meets them: it first meets a marking from
a step with a lower number, and no move to this marking or to a later one leaves an earlier step. -/
structure InOrder (d : Discovery) : Prop where
  numbered : ∀ {m : Marking} {i : Nat}, d.numbers[m]? = some i ↔ d.markings[i]? = some m
  source : ∀ v ∈ d.moves.toList, v.source ≤ d.steps.size
  target : ∀ v ∈ d.moves.toList, v.target < d.markings.size
  first : ∀ i, 0 < i → i < d.markings.size → ∃ v ∈ d.moves.toList, v.target = i ∧ v.source < i ∧
    ∀ w ∈ d.moves.toList, i ≤ w.target → v.source ≤ w.source

theorem inOrder_start (net : Net) : (start net.marking).InOrder := by
  have hnone (v : Move) (hv : v ∈ (start net.marking).moves.toList) : False := List.not_mem_nil hv
  refine ⟨(Sound.start net).numbered, fun v hv => (hnone v hv).elim,
    fun v hv => (hnone v hv).elim, fun i hpos hi => ?_⟩
  have hi : i < 1 := hi
  omega

/-- The marking that is looked up has a number then, and it is the only one that may be new. -/
theorem numbered_visit {i : Nat}
    (h : ∀ {x : Marking} {j : Nat}, d.numbers[x]? = some j ↔ d.markings[j]? = some x)
    (hvisit : d.visit cap m = .ok (d', i)) :
    (∀ {x : Marking} {j : Nat}, d'.numbers[x]? = some j ↔ d'.markings[j]? = some x) ∧
      d.markings.size ≤ d'.markings.size ∧ i < d'.markings.size ∧
      ∀ j < d'.markings.size, j < d.markings.size ∨ j = i ∧ d.markings.size ≤ i := by
  rcases visit_cases hvisit with ⟨hi, rfl⟩ | ⟨hnone, -, rfl, rfl⟩
  · have hi : i < d'.markings.size := (Array.getElem?_eq_some_iff.mp (h.mp hi)).1
    exact ⟨h, Nat.le_refl _, hi, fun j hj => Or.inl hj⟩
  · refine ⟨numbered_push h hnone, ?_⟩
    simp only [Array.size_push]
    exact ⟨Nat.le_succ _, Nat.lt_succ_self _, fun j hj => by omega⟩

/-- A move from the step that is being left keeps the order, whether it meets a new marking or not. -/
theorem InOrder.move {i : Nat} (h : d.InOrder) (hleft : d.steps.size < d.markings.size)
    (hvisit : d.visit cap m = .ok (d', i)) (label : String) :
    InOrder { d' with moves := d'.moves.push ⟨d.steps.size, i, t, label⟩ } := by
  obtain ⟨hmoves, hsteps⟩ := visit_keeps hvisit
  have hmem (v : Move) : v ∈ (d'.moves.push ⟨d.steps.size, i, t, label⟩).toList ↔
      v ∈ d.moves.toList ∨ v = ⟨d.steps.size, i, t, label⟩ := by
    rw [hmoves, Array.toList_push, List.mem_append, List.mem_singleton]
  obtain ⟨hnumbered, hsize, hi, hnew⟩ := numbered_visit h.numbered hvisit
  constructor
  case numbered => exact hnumbered
  case source =>
    intro v hv
    show v.source ≤ d'.steps.size
    rw [hsteps]
    rcases (hmem v).mp hv with hv | rfl
    · exact h.source v hv
    · exact Nat.le_refl _
  case target =>
    intro v hv
    rcases (hmem v).mp hv with hv | rfl
    · exact (h.target v hv).trans_le hsize
    · exact hi
  case first =>
    intro j hpos hj
    rcases hnew j hj with hj | ⟨rfl, hnew⟩
    · obtain ⟨v, hv, htarget, hsource, hfirst⟩ := h.first j hpos hj
      refine ⟨v, (hmem v).mpr (Or.inl hv), htarget, hsource, fun w hw hjw => ?_⟩
      rcases (hmem w).mp hw with hw | rfl
      · exact hfirst w hw hjw
      · exact h.source v hv
    · refine ⟨_, (hmem _).mpr (Or.inr rfl), rfl, hleft.trans_le hnew, fun w hw hjw => ?_⟩
      rcases (hmem w).mp hw with hw | rfl
      -- no earlier move leads as far as the new marking
      · have := h.target w hw
        omega
      · exact Nat.le_refl _

theorem InOrder.explore {fuel : Nat} (h : d.InOrder) (he : net.explore cap fuel d = .ok d') :
    d'.InOrder := by
  refine invariant_of_explore (P := InOrder) (fun label h hm _ hvisit => ?_) (fun enabled h hm => ?_)
    h he
  · exact h.move (Array.getElem?_eq_some_iff.mp hm).1 hvisit label
  · refine ⟨h.numbered, fun v hv => ?_, h.target, h.first⟩
    simp only [Array.size_push]
    exact (h.source v hv).trans (Nat.le_succ _)

/-- The steps carry their numbers. -/
theorem index_of_explore {fuel : Nat} (he : net.explore cap fuel (start net.marking) = .ok d')
    {i : Nat} {s : Step} (hs : d'.steps[i]? = some s) : s.index = i := by
  refine invariant_of_explore (P := fun d => ∀ (j : Nat) (x : Step), d.steps[j]? = some x →
    x.index = j) (fun label h _ _ hvisit j x hx => ?_) (fun enabled h _ j x hx => ?_)
    (fun j x hx => ?_) he i s hs
  · exact h j x ((visit_keeps hvisit).2 ▸ hx)
  · rcases getElem?_push_eq_some_iff.mp hx with ⟨rfl, rfl⟩ | hx
    · rfl
    · exact h j x hx
  · exact absurd hx (by simp [start])

/-- **A marking that few firings lead to has only markings before it that are as near.** -/
theorem InOrder.reachesWithin_of_le {i j : Nat} (h : d.InOrder) (hd : d.Sound net)
    (hsize : d.steps.size = d.markings.size) (hm : d.markings[i]? = some m)
    (hm' : d.markings[j]? = some m') (hij : i ≤ j) (hn : net.ReachesWithin n m') :
    net.ReachesWithin n m := by
  induction n generalizing i j m m' with
  | zero =>
      obtain rfl := Net.reachesWithin_zero_iff.mp hn
      have hj := hd.eq_of_marking hm' hd.first
      obtain rfl : i = 0 := by omega
      obtain rfl := Option.some_inj.mp (hd.first.symm.trans hm)
      exact hn
  | succ n ih =>
      rcases Nat.eq_zero_or_pos i with rfl | hpos
      · obtain rfl := Option.some_inj.mp (hd.first.symm.trans hm)
        exact net.reachesWithin_marking _
      rcases hn.cases_succ with rfl | ⟨x, t, hx, hf⟩
      · have hj := hd.eq_of_marking hm' hd.first
        omega
      obtain ⟨k, hk⟩ := (hd.exists_marking_iff_reaches hsize).mpr hx.reaches
      obtain ⟨w, hw, rfl, -, hwm⟩ := hd.exists_move hsize hk hf
      obtain rfl := hd.eq_of_marking hwm hm'
      obtain ⟨v, hv, rfl, -, hfirst⟩ := h.first i hpos (Array.getElem?_eq_some_iff.mp hm).1
      obtain ⟨y, y', hy, hy', hfv⟩ := hd.move v hv
      obtain rfl := Option.some_inj.mp (hy'.symm.trans hm)
      -- the earlier marking is first met from a step as near as the one before the last firing
      exact (ih hy hk (hfirst w hw hij) hx).tail hfv

end Discovery

/-! ## Step graphs -/

variable {limit : Option Nat} {g : StepGraph}

/-- The steps are numbered by the distance of their markings, and the moves come in the order of the
steps that they leave. -/
structure StepGraph.IsByDistance (g : StepGraph) (net : Net) : Prop where
  /-- A step carries its position as its number, which is also that of its marking in the table. -/
  index : ∀ (i : Nat) (s : Step), g.steps[i]? = some s → s.index = i ∧ g.numbers[s.marking]? = some i
  /-- The first step is the marking of the net itself. -/
  initial : ∃ s : Step, g.steps[0]? = some s ∧ s.marking = net.marking
  /-- As many firings as the distance lead to the marking of a step, and no fewer. -/
  attained : ∀ s ∈ g.steps.toList, (∃ ts : List TransitionId,
    ts.length = net.distance s.marking ∧ net.runAt net.marking ts = .ok s.marking) ∧
    ∀ ts, net.runAt net.marking ts = .ok s.marking → net.distance s.marking ≤ ts.length
  /-- No step is further away than a later one. -/
  ascending : ∀ (i j : Nat) (s s' : Step), i ≤ j → g.steps[i]? = some s → g.steps[j]? = some s' →
    net.distance s.marking ≤ net.distance s'.marking
  /-- The moves come by the step that they leave, and those of one step by transition. -/
  moves : g.moves.toList.Pairwise fun v w => v.source < w.source ∨
    v.source = w.source ∧ v.transition.index < w.transition.index
  /-- To each step but the first one leads a move from an earlier step that is nearer by one
  firing. -/
  nearer : ∀ (i : Nat) (s : Step), 0 < i → g.steps[i]? = some s → ∃ v ∈ g.moves.toList,
    v.target = i ∧ v.source < i ∧ ∃ s' : Step, g.steps[v.source]? = some s' ∧
      net.distance s'.marking + 1 = net.distance s.marking

/-- What leaves the steps comes by step, and then by transition. -/
theorem pairwise_departures {steps : List Step}
    (h : ∀ s ∈ steps, s.enabled.Pairwise fun t u => t.index < u.index) :
    (departures steps).Pairwise fun x y => x.1 < y.1 ∨ x.1 = y.1 ∧ x.2.index < y.2.index := by
  induction steps using List.reverseRecOn with
  | nil => exact List.Pairwise.nil
  | append_singleton steps s ih =>
      rw [departures_concat]
      refine List.pairwise_append.mpr
        ⟨ih fun x hx => h x (List.mem_append_left _ hx), ?_, fun x hx y hy => Or.inl ?_⟩
      · refine List.pairwise_map.mpr ((h s (by simp)).imp fun hlt => Or.inr ⟨rfl, hlt⟩)
      · obtain ⟨u, -, rfl⟩ := List.mem_map.mp hy
        obtain ⟨⟨s', i⟩, hs', hx⟩ := List.mem_flatMap.mp hx
        obtain ⟨u', -, rfl⟩ := List.mem_map.mp hx
        exact List.snd_lt_of_mem_zipIdx hs'

/-- **The steps of a step graph come by distance.** -/
theorem steps_by_distance (hg : net.stepGraph limit = .ok g) : g.IsByDistance net := by
  obtain ⟨d, hexplore, hd, hsize, rfl⟩ := exists_explored_of_stepGraph hg
  have horder := (Discovery.inOrder_start net).explore hexplore
  have hcharted := (Discovery.Charted.start net).explore hexplore
  have hmarking {m : Marking} {i : Nat} :
      d.markings[i]? = some m ↔ ∃ s, d.steps[i]? = some s ∧ s.marking = m :=
    hd.markings_eq_some_iff hsize
  have hreach {i : Nat} {s : Step} (hs : d.steps[i]? = some s) :
      net.Reaches net.marking s.marking := hd.reached (hd.step hs).1
  have hascending (i j : Nat) (s s' : Step) (hij : i ≤ j) (hs : d.steps[i]? = some s)
      (hs' : d.steps[j]? = some s') : net.distance s.marking ≤ net.distance s'.marking := by
    refine (hreach hs).distance_le_iff.mpr ?_
    exact horder.reachesWithin_of_le hd hsize (hd.step hs).1 (hd.step hs').1 hij
      ((hreach hs').distance_le_iff.mp le_rfl)
  constructor
  case index =>
    intro i s hs
    exact ⟨Discovery.index_of_explore hexplore hs,
      (hd.numbers_eq_some_iff hsize).mpr ⟨s, hs, rfl⟩⟩
  case initial => exact hmarking.mp hd.first
  case attained =>
    intro s hs
    obtain ⟨i, hi⟩ := Array.mem_iff_getElem?.mp (Array.mem_toList_iff.mp hs)
    exact (hreach hi).distance_spec
  case ascending => exact hascending
  case moves =>
    have hlisted (s : Step) (hs : s ∈ d.steps.toList) :
        s.enabled.Pairwise fun t u => t.index < u.index := by
      obtain ⟨i, hi⟩ := Array.mem_iff_getElem?.mp (Array.mem_toList_iff.mp hs)
      exact Net.pairwise_enabledAt (hd.step hi).2
    have hpairwise := pairwise_departures hlisted
    rw [← hcharted.moves] at hpairwise
    exact List.pairwise_map.mp hpairwise
  case nearer =>
    intro i s hpos hs
    have hne : s.marking ≠ net.marking := fun heq =>
      Nat.ne_of_gt hpos (hd.eq_of_marking (hd.step hs).1 (heq ▸ hd.first))
    obtain ⟨x, t, hx, hf, hdistance⟩ := (hreach hs).exists_nearer hne
    obtain ⟨k, hk⟩ := (hd.exists_marking_iff_reaches hsize).mpr hx
    obtain ⟨v, hv, rfl, -, hvm⟩ := hd.exists_move hsize hk hf
    obtain ⟨s', hs', rfl⟩ := hmarking.mp hk
    refine ⟨v, hv, hd.eq_of_marking hvm (hd.step hs).1, ?_, s', hs', hdistance⟩
    -- a later step would be at least as far away
    by_contra hlater
    have hle := hascending i v.source s s' (Nat.le_of_not_lt hlater) hs hs'
    omega

/-- A way of two firings to the bridge, and one of a single firing. -/
def shortcut : Net :=
  (((((((((((Net.empty "shortcut").addPlace (.plain "home" 1)).addPlace (.plain "road" 0)
    ).addPlace (.plain "bridge" 0)).addTransition (.bare "leave" none)
    ).addTransition (.bare "walk" none)).addTransition (.bare "ride" none)
    ).join ⟨⟨.place, 0⟩, ⟨.transition, 0⟩⟩).join ⟨⟨.transition, 0⟩, ⟨.place, 1⟩⟩
    ).join ⟨⟨.place, 1⟩, ⟨.transition, 1⟩⟩).join ⟨⟨.transition, 1⟩, ⟨.place, 2⟩⟩
    ).join ⟨⟨.place, 0⟩, ⟨.transition, 2⟩⟩ |>.join ⟨⟨.transition, 2⟩, ⟨.place, 2⟩⟩

theorem steps_by_distance_shortcut : ∃ g, shortcut.stepGraph none = .ok g ∧
    g.steps.toList.map (·.index) = [0, 1, 2] ∧
    g.moves.toList.map (fun v => (v.source, v.target)) = [(0, 1), (0, 2), (1, 2)] ∧
    g.IsByDistance shortcut := by
  have hsurvey : (shortcut.survey none).toOption.map (fun g => (g.steps.toList.map (·.index),
      g.moves.toList.map (fun v => (v.source, v.target))))
      = some ([0, 1, 2], [(0, 1), (0, 2), (1, 2)]) := by
    decide +kernel
  obtain ⟨g, hg, hlists⟩ := exists_ok_of_map hsurvey
  rw [← Net.stepGraph_eq_survey] at hg
  obtain ⟨hindex, hmoves⟩ := Prod.mk.inj hlists
  exact ⟨g, hg, hindex, hmoves, steps_by_distance hg⟩

end RoutePolicy
