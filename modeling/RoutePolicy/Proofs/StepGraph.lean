import Mathlib.Data.List.Nodup
import RoutePolicy.Proofs.Net.Firing
import RoutePolicy.StepGraph

set_option autoImplicit false

/-! # The step graph is the reachability graph

What one step of the search does is said once (`Discovery.visit_cases`, `Net.expand_cons_eq_ok_iff`,
`Net.explore_succ_eq_ok_iff`), and what each of them keeps the search keeps
(`Discovery.invariant_of_explore`).

`Discovery.Sound` is what the search keeps: the table numbers the markings it has met, all of them
are reached by firing sequences, and its moves are firings, one for each enabled transition of
each step it has left. A search that ends has left all markings it has met, so these are all that
are reached (`exists_step_iff_reaches`), and the transitions of its moves are those that fire in
some sequence (`exists_move_iff_fires`). -/

namespace RoutePolicy

variable {net : Net} {cap : Nat} {d d' : Discovery}

theorem getElem?_push_eq_some_iff {α : Type} {xs : Array α} {a x : α} {i : Nat} :
    (xs.push a)[i]? = some x ↔ (i = xs.size ∧ x = a) ∨ xs[i]? = some x := by
  rw [Array.getElem?_push]
  split
  · rename_i hi
    simp [hi, eq_comm]
  · rename_i hi
    simp [hi]

/-! ## One step of the search -/

/-- A marking that was met before has its number already; a new one gets the next, if there is room
for it. -/
theorem Discovery.visit_cases {m : Marking} {i : Nat} (h : d.visit cap m = .ok (d', i)) :
    (d.numbers[m]? = some i ∧ d' = d) ∨
    (d.numbers[m]? = none ∧ d.markings.size < cap ∧ i = d.markings.size ∧
      d' = { d with
        markings := d.markings.push m
        numbers := d.numbers.insert m d.markings.size }) := by
  unfold Discovery.visit at h
  split at h
  · rename_i j hj
    cases h
    exact Or.inl ⟨hj, rfl⟩
  · rename_i hnone
    dsimp only at h
    split at h
    · cases h
    · rename_i hcap
      cases h
      exact Or.inr ⟨hnone, Nat.lt_of_not_le hcap, rfl, rfl⟩

/-- Looking a marking up adds no move and no step. -/
theorem Discovery.visit_keeps {m : Marking} {i : Nat} (h : d.visit cap m = .ok (d', i)) :
    d'.moves = d.moves ∧ d'.steps = d.steps := by
  obtain ⟨-, rfl⟩ | ⟨-, -, -, rfl⟩ := visit_cases h
  · exact ⟨rfl, rfl⟩
  · exact ⟨rfl, rfl⟩

/-- A transition is fired, its marking is looked up, and the move to it is added before the next
transition. -/
theorem Net.expand_cons_eq_ok_iff {source : Nat} {m : Marking} {t : TransitionId}
    {ts : List TransitionId} : net.expand cap source m (t :: ts) d = .ok d' ↔
      ∃ next d₁ target label, net.fireAt m t = .ok next ∧ d.visit cap next = .ok (d₁, target) ∧
        net.nodeName t = .ok label ∧ net.expand cap source m ts
          { d₁ with moves := d₁.moves.push ⟨source, target, t, label⟩ } = .ok d' := by
  simp only [Net.expand, bind_eq_ok_iff, Prod.exists]
  constructor
  · rintro ⟨next, hnext, d₁, target, hvisit, label, hlabel, he⟩
    exact ⟨next, d₁, target, label, hnext, hvisit, hlabel, he⟩
  · rintro ⟨next, d₁, target, label, hnext, hvisit, hlabel, he⟩
    exact ⟨next, hnext, d₁, target, hvisit, label, hlabel, he⟩

/-- The search is over, or it expands the first step that waits and leaves it. -/
theorem Net.explore_succ_eq_ok_iff {fuel : Nat} : net.explore cap (fuel + 1) d = .ok d' ↔
    (d.markings[d.steps.size]? = none ∧ d' = d) ∨
    ∃ m enabled d₁, d.markings[d.steps.size]? = some m ∧ net.enabledAt m = .ok enabled ∧
      net.expand cap d.steps.size m enabled d = .ok d₁ ∧ net.explore cap fuel
        { d₁ with steps := d₁.steps.push ⟨d₁.steps.size, m, enabled⟩ } = .ok d' := by
  rw [Net.explore]
  cases d.markings[d.steps.size]? with
  | none => simp [eq_comm]
  | some m => simp [bind_eq_ok_iff]

/-- What every move and every leaving of a step keeps is kept by the search. -/
theorem Discovery.invariant_of_explore {P : Discovery → Prop}
    (hmove : ∀ {d d₁ : Discovery} {m next : Marking} {t : TransitionId} {i : Nat} (label : String),
      P d → d.markings[d.steps.size]? = some m → net.fireAt m t = .ok next →
      d.visit cap next = .ok (d₁, i) →
      P { d₁ with moves := d₁.moves.push ⟨d.steps.size, i, t, label⟩ })
    (hleave : ∀ {d : Discovery} {m : Marking} (enabled : List TransitionId),
      P d → d.markings[d.steps.size]? = some m →
      P { d with steps := d.steps.push ⟨d.steps.size, m, enabled⟩ })
    {fuel : Nat} (hd : P d) (he : net.explore cap fuel d = .ok d') : P d' := by
  -- the marking of the step that is being left stays where it is
  have hexpand {m : Marking} {ts : List TransitionId} {source : Nat} {d d' : Discovery}
      (he : net.expand cap source m ts d = .ok d') (hsource : d.steps.size = source) (hd : P d)
      (hm : d.markings[source]? = some m) :
      P d' ∧ d'.steps.size = source ∧ d'.markings[source]? = some m := by
    induction ts generalizing d with
    | nil =>
        cases he
        exact ⟨hd, hsource, hm⟩
    | cons t ts ih =>
        obtain ⟨next, d₁, target, label, hnext, hvisit, -, he⟩ := Net.expand_cons_eq_ok_iff.mp he
        subst hsource
        have hsteps : d₁.steps.size = d.steps.size := by rw [(visit_keeps hvisit).2]
        refine ih he hsteps (hmove label hd hm hnext hvisit) ?_
        obtain ⟨-, rfl⟩ | ⟨-, -, -, rfl⟩ := visit_cases hvisit
        · exact hm
        · exact getElem?_push_eq_some_iff.mpr (Or.inr hm)
  induction fuel generalizing d with
  | zero =>
      cases he
      exact hd
  | succ fuel ih =>
      obtain ⟨-, rfl⟩ | ⟨m, enabled, d₁, hm, -, hd₁, he⟩ := Net.explore_succ_eq_ok_iff.mp he
      · exact hd
      · obtain ⟨h₁, hsource, hm₁⟩ := hexpand hd₁ rfl hd hm
        exact ih (hleave enabled h₁ (hsource ▸ hm₁)) he

/-! ## What the search keeps -/

/-- What the search has found is right. -/
structure Discovery.Sound (net : Net) (d : Discovery) : Prop where
  numbered : ∀ {m : Marking} {i : Nat}, d.numbers[m]? = some i ↔ d.markings[i]? = some m
  first : d.markings[0]? = some net.marking
  reached : ∀ {m : Marking} {i : Nat}, d.markings[i]? = some m → net.Reaches net.marking m
  step : ∀ {s : Step} {i : Nat}, d.steps[i]? = some s →
    d.markings[i]? = some s.marking ∧ net.enabledAt s.marking = .ok s.enabled
  move : ∀ v ∈ d.moves.toList, ∃ m m', d.markings[v.source]? = some m ∧
    d.markings[v.target]? = some m' ∧ net.fireAt m v.transition = .ok m'
  left : ∀ {s : Step} {i : Nat}, d.steps[i]? = some s →
    ∀ t ∈ s.enabled, ∃ v ∈ d.moves.toList, v.source = i ∧ v.transition = t

/-- Markings and moves are only added, and no marking beyond the cap. -/
structure Discovery.Grows (cap : Nat) (d d' : Discovery) : Prop where
  steps : d'.steps = d.steps
  markings : ∀ {m : Marking} {i : Nat}, d.markings[i]? = some m → d'.markings[i]? = some m
  moves : ∀ v ∈ d.moves.toList, v ∈ d'.moves.toList
  size : d'.markings.size ≤ max d.markings.size cap

namespace Discovery

theorem Grows.refl (cap : Nat) (d : Discovery) : d.Grows cap d :=
  ⟨rfl, id, fun _ => id, Nat.le_max_left _ _⟩

theorem Grows.trans {d'' : Discovery} (h : d.Grows cap d') (h' : d'.Grows cap d'') :
    d.Grows cap d'' := by
  refine ⟨h'.steps.trans h.steps, h'.markings ∘ h.markings,
    fun v hv => h'.moves v (h.moves v hv), ?_⟩
  have := h.size
  have := h'.size
  omega

theorem Sound.start (net : Net) : (start net.marking).Sound net := by
  have hmarkings (i : Nat) (m : Marking) :
      (#[net.marking] : Array Marking)[i]? = some m ↔ i = 0 ∧ net.marking = m := by
    rw [Array.getElem?_singleton]
    split <;> simp [*]
  refine ⟨fun {m i} => ?_, rfl, fun {m i} hm => ?_, fun {s i} hs => ?_, fun v hv => ?_,
    fun {s i} hs => ?_⟩
  · show ((∅ : Std.HashMap Marking Nat).insert net.marking 0)[m]? = some i ↔ _
    rw [Std.HashMap.getElem?_insert, Discovery.start, hmarkings]
    split
    · rename_i h
      simp [eq_of_beq h, eq_comm]
    · rename_i h
      simpa using fun _ heq => h (beq_iff_eq.mpr heq)
  · obtain ⟨-, rfl⟩ := (hmarkings i m).mp hm
    exact .refl net net.marking
  · simp [Discovery.start] at hs
  · simp [Discovery.start] at hv
  · simp [Discovery.start] at hs

/-- A table that numbers the markings numbers one more, if it is new. -/
theorem numbered_push {table : Std.HashMap Marking Nat} {ms : Array Marking} {m : Marking}
    (h : ∀ {x : Marking} {j : Nat}, table[x]? = some j ↔ ms[j]? = some x) (hm : table[m]? = none)
    {x : Marking} {j : Nat} :
    (table.insert m ms.size)[x]? = some j ↔ (ms.push m)[j]? = some x := by
  rw [Std.HashMap.getElem?_insert, getElem?_push_eq_some_iff, ← h]
  by_cases hmx : m = x
  · subst hmx
    simp [hm, eq_comm]
  · simp [hmx, Ne.symm hmx]

/-- Visiting a marking that is reached gives it its number. -/
theorem Sound.visit {m : Marking} {i : Nat} (h : d.Sound net) (hm : net.Reaches net.marking m)
    (hv : d.visit cap m = .ok (d', i)) :
    d'.Sound net ∧ d.Grows cap d' ∧ d'.moves = d.moves ∧ d'.markings[i]? = some m := by
  obtain ⟨hi, rfl⟩ | ⟨hnone, hcap, rfl, rfl⟩ := visit_cases hv
  · exact ⟨h, .refl cap d', rfl, h.numbered.mp hi⟩
  have hold {x : Marking} {j : Nat} (hx : d.markings[j]? = some x) :
      (d.markings.push m)[j]? = some x := getElem?_push_eq_some_iff.mpr (Or.inr hx)
  refine ⟨⟨numbered_push h.numbered hnone, hold h.first, fun {x j} hx => ?_, fun {s j} hs => ?_,
    fun v hv => ?_, fun {s j} hs => h.left hs⟩, ⟨rfl, hold, fun _ => id, ?_⟩, rfl,
    getElem?_push_eq_some_iff.mpr (Or.inl ⟨rfl, rfl⟩)⟩
  · rcases getElem?_push_eq_some_iff.mp hx with ⟨-, rfl⟩ | hx
    · exact hm
    · exact h.reached hx
  · exact ⟨hold (h.step hs).1, (h.step hs).2⟩
  · obtain ⟨x, x', hx, hx', hf⟩ := h.move v hv
    exact ⟨x, x', hold hx, hold hx', hf⟩
  · simp only [Array.size_push]
    omega

/-- Expanding a step adds the moves of the given transitions from it. -/
theorem Sound.expand {source : Nat} {m : Marking} {ts : List TransitionId} (h : d.Sound net)
    (hm : d.markings[source]? = some m) (he : net.expand cap source m ts d = .ok d') :
    d'.Sound net ∧ d.Grows cap d' ∧
      ∀ t ∈ ts, ∃ v ∈ d'.moves.toList, v.source = source ∧ v.transition = t := by
  induction ts generalizing d with
  | nil =>
      cases he
      exact ⟨h, .refl cap _, by simp⟩
  | cons t ts ih =>
      obtain ⟨next, d₁, target, label, hnext, hvisit, -, he⟩ := Net.expand_cons_eq_ok_iff.mp he
      obtain ⟨h₁, hgrow, hmoves, htarget⟩ := h.visit ((h.reached hm).tail hnext) hvisit
      -- the move is added after the marking it leads to
      have hpush (v : Move) : v ∈ (d₁.moves.push ⟨source, target, t, label⟩).toList ↔
          v ∈ d₁.moves.toList ∨ v = ⟨source, target, t, label⟩ := by
        rw [Array.toList_push, List.mem_append, List.mem_singleton]
      have h₂ : Discovery.Sound net
          { d₁ with moves := d₁.moves.push ⟨source, target, t, label⟩ } := by
        refine ⟨h₁.numbered, h₁.first, h₁.reached, h₁.step, fun v hv => ?_, fun {s i} hs u hu => ?_⟩
        · rcases (hpush v).mp hv with hv | rfl
          · exact h₁.move v hv
          · exact ⟨m, next, hgrow.markings hm, htarget, hnext⟩
        · obtain ⟨v, hv, hvu⟩ := h₁.left hs u hu
          exact ⟨v, (hpush v).mpr (Or.inl hv), hvu⟩
      have hgrow₂ : d.Grows cap { d₁ with moves := d₁.moves.push ⟨source, target, t, label⟩ } :=
        ⟨hgrow.steps, hgrow.markings, fun v hv => (hpush v).mpr (Or.inl (hgrow.moves v hv)),
          hgrow.size⟩
      obtain ⟨h', hgrow', hts⟩ := ih h₂ (hgrow.markings hm) he
      refine ⟨h', hgrow₂.trans hgrow', List.forall_mem_cons.mpr ⟨?_, hts⟩⟩
      exact ⟨_, hgrow'.moves _ ((hpush _).mpr (Or.inr rfl)), rfl, rfl⟩

/-- A search with enough fuel leaves every marking that it meets. -/
theorem Sound.explore {fuel : Nat} (h : d.Sound net) (hsteps : d.steps.size ≤ d.markings.size)
    (hsize : d.markings.size ≤ max cap 1) (hfuel : max cap 1 ≤ d.steps.size + fuel)
    (he : net.explore cap fuel d = .ok d') :
    d'.Sound net ∧ d'.steps.size = d'.markings.size := by
  induction fuel generalizing d with
  | zero =>
      cases he
      exact ⟨h, by omega⟩
  | succ fuel ih =>
      obtain ⟨hnone, rfl⟩ | ⟨m, enabled, d₁, hm, henabled, hd₁, he⟩ :=
        Net.explore_succ_eq_ok_iff.mp he
      · have := Array.getElem?_eq_none_iff.mp hnone
        exact ⟨h, by omega⟩
      · obtain ⟨h₁, hgrow, hmoves⟩ := h.expand hm hd₁
        have hm₁ := hgrow.markings hm
        have hlt := (Array.getElem?_eq_some_iff.mp hm₁).1
        -- the marking that was expanded becomes the next step
        have hpush {s : Step} {i : Nat} : (d₁.steps.push ⟨d₁.steps.size, m, enabled⟩)[i]? = some s ↔
            (i = d.steps.size ∧ s = ⟨d₁.steps.size, m, enabled⟩) ∨ d₁.steps[i]? = some s := by
          rw [getElem?_push_eq_some_iff, hgrow.steps]
        refine ih (d := { d₁ with steps := d₁.steps.push ⟨d₁.steps.size, m, enabled⟩ })
          ⟨h₁.numbered, h₁.first, h₁.reached, fun {s i} hs => ?_, h₁.move,
            fun {s i} hs => ?_⟩ ?_ ?_ ?_ he
        · rcases hpush.mp hs with ⟨rfl, rfl⟩ | hs
          · exact ⟨hm₁, henabled⟩
          · exact h₁.step hs
        · rcases hpush.mp hs with ⟨rfl, rfl⟩ | hs
          · exact hmoves
          · exact h₁.left hs
        · simp only [Array.size_push, hgrow.steps]
          omega
        · have := hgrow.size
          show d₁.markings.size ≤ _
          omega
        · simp only [Array.size_push, hgrow.steps]
          omega

end Discovery

/-- One more element stays if it is not there yet. -/
theorem eraseDups_concat {α : Type} [DecidableEq α] (l : List α) (a : α) :
    (l ++ [a]).eraseDups = if a ∈ l then l.eraseDups else l.eraseDups ++ [a] := by
  rw [List.eraseDups_append]
  split
  · rename_i ha
    have hnone : [a].removeAll l = [] := by simp [List.removeAll, ha]
    rw [hnone, List.eraseDups_nil, List.append_nil]
  · rename_i ha
    have hnew : [a].removeAll l = [a] := by simp [List.removeAll, ha]
    rw [hnew]
    rfl

/-- Erasing repetitions leaves each element once. -/
theorem nodup_eraseDups {α : Type} [DecidableEq α] (l : List α) : l.eraseDups.Nodup := by
  induction l using List.reverseRecOn with
  | nil => exact List.nodup_nil
  | append_singleton l a ih =>
      rw [eraseDups_concat]
      split
      · exact ih
      · rename_i ha
        rw [← List.concat_eq_append]
        exact ih.concat (by rwa [List.mem_eraseDups])

/-- What an array holds it holds at some number. -/
theorem exists_mem_toList_iff {α : Type} {xs : Array α} {P : α → Prop} :
    (∃ x ∈ xs.toList, P x) ↔ ∃ (i : Nat) (x : α), xs[i]? = some x ∧ P x := by
  rw [exists_comm]
  simp only [Array.mem_toList_iff, Array.mem_iff_getElem?, exists_and_right]

/-! ## Step graphs -/

variable {limit : Option Nat} {g : StepGraph} {m m' : Marking} {t : TransitionId}

/-- When the search has left all markings, the steps have the numbers of their markings. -/
theorem Discovery.Sound.markings_eq_some_iff (h : d.Sound net)
    (hsize : d.steps.size = d.markings.size) {i : Nat} :
    d.markings[i]? = some m ↔ ∃ s, d.steps[i]? = some s ∧ s.marking = m := by
  constructor
  · intro hm
    have hlt : i < d.steps.size := hsize ▸ (Array.getElem?_eq_some_iff.mp hm).1
    have hs : d.steps[i]? = some d.steps[i] := Array.getElem?_eq_getElem hlt
    exact ⟨_, hs, Option.some_inj.mp ((h.step hs).1.symm.trans hm)⟩
  · rintro ⟨s, hs, rfl⟩
    exact (h.step hs).1

/-- A transition that can fire is one of the enabled transitions, in their list. -/
theorem Net.mem_enabledAt {ts : List TransitionId} (hts : net.enabledAt m = .ok ts) :
    t ∈ ts ↔ net.isEnabledAt m t = .ok true := by
  rw [mem_of_filterM_eq_ok hts, Arena.mem_indices_iff, and_iff_right_iff_imp]
  exact contains_of_isEnabledAt

/-- Two numbers of one marking are the same. -/
theorem Discovery.Sound.eq_of_marking (h : d.Sound net) {i j : Nat} (hi : d.markings[i]? = some m)
    (hj : d.markings[j]? = some m) : i = j :=
  Option.some_inj.mp ((h.numbered.mpr hi).symm.trans (h.numbered.mpr hj))

/-- Each transition that is enabled at a step fires along one of the moves. -/
theorem Discovery.Sound.exists_move_of_enabled (h : d.Sound net)
    (hsize : d.steps.size = d.markings.size) {i : Nat} (hm : d.markings[i]? = some m)
    (ht : net.isEnabledAt m t = .ok true) :
    ∃ v ∈ d.moves.toList, v.source = i ∧ v.transition = t ∧
      ∃ m', d.markings[v.target]? = some m' ∧ net.fireAt m t = .ok m' := by
  obtain ⟨s, hs, rfl⟩ := (h.markings_eq_some_iff hsize).mp hm
  obtain ⟨v, hv, rfl, rfl⟩ := h.left hs t ((Net.mem_enabledAt (h.step hs).2).mpr ht)
  obtain ⟨x, x', hx, hx', hf⟩ := h.move v hv
  obtain rfl := Option.some_inj.mp (hx.symm.trans hm)
  exact ⟨v, hv, rfl, rfl, x', hx', hf⟩

/-- Each firing from a step is one of the moves. -/
theorem Discovery.Sound.exists_move (h : d.Sound net) (hsize : d.steps.size = d.markings.size)
    {i : Nat} (hm : d.markings[i]? = some m) (hf : net.fireAt m t = .ok m') :
    ∃ v ∈ d.moves.toList, v.source = i ∧ v.transition = t ∧ d.markings[v.target]? = some m' := by
  obtain ⟨v, hv, hsource, htransition, x, hx, hf'⟩ :=
    h.exists_move_of_enabled hsize hm (Net.fireAt_eq_ok_iff.mp hf).1
  obtain rfl := Except.ok.inj (hf'.symm.trans hf)
  exact ⟨v, hv, hsource, htransition, hx⟩

/-- When the search has left all markings, it has met those that firing sequences reach. -/
theorem Discovery.Sound.exists_marking_iff_reaches (h : d.Sound net)
    (hsize : d.steps.size = d.markings.size) :
    (∃ i : Nat, d.markings[i]? = some m) ↔ net.Reaches net.marking m := by
  constructor
  · rintro ⟨i, hi⟩
    exact h.reached hi
  · intro hm
    refine hm.induction (P := fun m => ∃ i : Nat, d.markings[i]? = some m) ⟨0, h.first⟩ ?_
    -- firing leads from one marking met to another
    rintro m₁ t m₂ - ⟨i, hi⟩ hf
    obtain ⟨v, -, -, -, hv⟩ := h.exists_move hsize hi hf
    exact ⟨v.target, hv⟩

/-- A step graph is what the search ends with, which is sound and has left all markings it met. -/
theorem exists_explored_of_stepGraph (hg : net.stepGraph limit = .ok g) :
    ∃ d : Discovery, net.explore (limit.getD net.markingCount)
        (max (limit.getD net.markingCount) 1) (.start net.marking) = .ok d ∧
      d.Sound net ∧ d.steps.size = d.markings.size ∧ g = ⟨net, d.steps, d.moves, d.numbers⟩ := by
  obtain ⟨d, hd, hg⟩ := bind_eq_ok_iff.mp hg
  obtain ⟨hsound, hsize⟩ := (Discovery.Sound.start net).explore (by simp [Discovery.start])
    (Nat.le_max_right _ _) (by omega) hd
  cases hg
  exact ⟨d, hd, hsound, hsize, rfl⟩

/-- A step graph is what a sound search has found that has left all markings it met. -/
theorem exists_discovery_of_stepGraph (hg : net.stepGraph limit = .ok g) :
    ∃ d : Discovery, d.Sound net ∧ d.steps.size = d.markings.size ∧
      g = ⟨net, d.steps, d.moves, d.numbers⟩ :=
  (exists_explored_of_stepGraph hg).imp fun _ => And.right

theorem net_of_stepGraph (hg : net.stepGraph limit = .ok g) : g.net = net := by
  obtain ⟨d, -, -, rfl⟩ := exists_discovery_of_stepGraph hg
  rfl

/-- **The markings of the steps are those that firing sequences reach.** -/
theorem exists_step_iff_reaches (hg : net.stepGraph limit = .ok g) :
    (∃ s ∈ g.steps.toList, s.marking = m) ↔ net.Reaches net.marking m := by
  obtain ⟨d, hd, hsize, rfl⟩ := exists_discovery_of_stepGraph hg
  rw [exists_mem_toList_iff, ← hd.exists_marking_iff_reaches hsize]
  exact exists_congr fun i => (hd.markings_eq_some_iff hsize).symm

/-- At every marking that is reached all enabled transitions can fire. -/
theorem fireAt_of_enabled (hg : net.stepGraph limit = .ok g) (hm : net.Reaches net.marking m)
    (ht : net.isEnabledAt m t = .ok true) : ∃ m', net.fireAt m t = .ok m' := by
  obtain ⟨d, hd, hsize, rfl⟩ := exists_discovery_of_stepGraph hg
  obtain ⟨i, hi⟩ := (hd.exists_marking_iff_reaches hsize).mpr hm
  obtain ⟨-, -, -, -, m', -, hf⟩ := hd.exists_move_of_enabled hsize hi ht
  exact ⟨m', hf⟩

theorem StepGraph.mem_fired_iff : t ∈ g.fired ↔ ∃ v ∈ g.moves.toList, v.transition = t := by
  rw [fired, List.mem_eraseDups, List.mem_map]

/-- **The transitions of the moves are those that fire at some marking that is reached.** -/
theorem exists_move_iff_fires (hg : net.stepGraph limit = .ok g) :
    (∃ v ∈ g.moves.toList, v.transition = t) ↔
      ∃ m, net.Reaches net.marking m ∧ ∃ m', net.fireAt m t = .ok m' := by
  obtain ⟨d, hd, hsize, rfl⟩ := exists_discovery_of_stepGraph hg
  constructor
  · rintro ⟨v, hv, rfl⟩
    obtain ⟨m, m', hm, -, hf⟩ := hd.move v hv
    exact ⟨m, hd.reached hm, m', hf⟩
  · rintro ⟨m, hm, m', hf⟩
    obtain ⟨i, hi⟩ := (hd.exists_marking_iff_reaches hsize).mpr hm
    obtain ⟨v, hv, -, hvt, -⟩ := hd.exists_move hsize hi hf
    exact ⟨v, hv, hvt⟩

end RoutePolicy
