import RoutePolicy.Proofs.FiringDistance

set_option autoImplicit false

/-! # The counts that a search computes

The search is written once more so that it keeps a record of all markings it computes, also of the one
that the limit rejects (`Net.recordedGraph`). Apart from the record it is the same search
(`Net.result_recordedGraph`). It fires only from the markings that it has numbered, so as many firings
as the limit lead to every marking of the record (`Net.reachesWithin_of_recorded`).

In the nets of routes and in their unfolded nets no place holds more markers than there were firings, or
one if there was none. So no count that the search computes is larger than the limit, and no count goes
beyond its range (`marker_counts`). -/

namespace RoutePolicy

/-! ## Computations with a record -/

/-- A computation that may fail, and the markings that it has computed until its end. -/
structure Recorded (α : Type) where
  markings : List Marking
  result : Except Failure α

namespace Recorded

variable {α β : Type}

/-- A computation of which nothing is recorded. -/
def ofExcept (x : Except Failure α) : Recorded α := ⟨[], x⟩

/-- The marking is recorded. -/
def record (m : Marking) : Recorded Unit := ⟨[m], .ok ()⟩

/-- The second computation goes on with the result of the first one, and adds to its record. -/
def bind (x : Recorded α) (f : α → Recorded β) : Recorded β :=
  match x.result with
  | .error e => ⟨x.markings, .error e⟩
  | .ok a => ⟨x.markings ++ (f a).markings, (f a).result⟩

instance : Monad Recorded where
  pure a := .ofExcept (.ok a)
  bind := bind

@[simp] theorem result_ofExcept (x : Except Failure α) : (ofExcept x).result = x := rfl

@[simp] theorem markings_ofExcept (x : Except Failure α) : (ofExcept x).markings = [] := rfl

@[simp] theorem result_pure (a : α) : (pure a : Recorded α).result = .ok a := rfl

@[simp] theorem result_record (m : Marking) : (record m).result = .ok () := rfl

@[simp] theorem markings_record (m : Marking) : (record m).markings = [m] := rfl

/-- Without the record the computations follow one another as they do. -/
@[simp] theorem result_bind (x : Recorded α) (f : α → Recorded β) :
    (x >>= f).result = x.result >>= fun a => (f a).result := by
  show (bind x f).result = _
  unfold bind
  cases x.result <;> rfl

theorem mem_markings_bind {x : Recorded α} {f : α → Recorded β} {m : Marking} :
    m ∈ (x >>= f).markings ↔
      m ∈ x.markings ∨ ∃ a, x.result = .ok a ∧ m ∈ (f a).markings := by
  show m ∈ (bind x f).markings ↔ _
  unfold bind
  cases x.result <;> simp

theorem mem_markings_ofExcept_bind {x : Except Failure α} {f : α → Recorded β} {m : Marking} :
    m ∈ (ofExcept x >>= f).markings ↔ ∃ a, x = .ok a ∧ m ∈ (f a).markings := by
  simp [mem_markings_bind]

theorem mem_markings_record_bind {f : Unit → Recorded β} {m m' : Marking} :
    m ∈ (record m' >>= f).markings ↔ m = m' ∨ m ∈ (f ()).markings := by
  rw [mem_markings_bind, markings_record, List.mem_singleton]
  exact or_congr_right ⟨fun h => h.elim fun _ h => h.2, fun h => ⟨(), rfl, h⟩⟩

end Recorded

variable {net u : Net} {cap limit n source fuel : Nat} {d d' : Discovery} {m x : Marking}
  {t : TransitionId} {ts : List TransitionId}

/-! ## The recorded search -/

namespace Net

open Recorded

/-- The moves of the step `source`, with a record of the markings to which they lead. -/
def recordedExpand (net : Net) (cap source : Nat) (m : Marking) :
    List TransitionId → Discovery → Recorded Discovery
  | [], d => pure d
  | t :: ts, d => do
    let next ← ofExcept (net.fireAt m t)
    record next
    let (d, target) ← ofExcept (d.visit cap next)
    let label ← ofExcept (net.nodeName t)
    net.recordedExpand cap source m ts { d with moves := d.moves.push ⟨source, target, t, label⟩ }

/-- At most `fuel` waiting steps, with a record. -/
def recordedExplore (net : Net) (cap : Nat) : Nat → Discovery → Recorded Discovery
  | 0, d => pure d
  | fuel + 1, d =>
    match d.markings[d.steps.size]? with
    | none => pure d
    | some m => do
      let enabled ← ofExcept (net.enabledAt m)
      let d ← net.recordedExpand cap d.steps.size m enabled d
      net.recordedExplore cap fuel { d with steps := d.steps.push ⟨d.steps.size, m, enabled⟩ }

/-- The step graph of the net, with a record of all markings that are computed on the way. -/
def recordedGraph (net : Net) (limit : Option Nat) : Recorded StepGraph := do
  let cap := limit.getD net.markingCount
  record net.marking
  let d ← net.recordedExplore cap (max cap 1) (.start net.marking)
  return ⟨net, d.steps, d.moves, d.numbers⟩

theorem result_recordedExpand :
    (net.recordedExpand cap source m ts d).result = net.expand cap source m ts d := by
  induction ts generalizing d with
  | nil => rfl
  | cons t ts ih =>
      simp only [recordedExpand, expand, result_bind, result_ofExcept, result_record, ok_bind]
      simp only [ih]

theorem result_recordedExplore :
    (net.recordedExplore cap fuel d).result = net.explore cap fuel d := by
  induction fuel generalizing d with
  | zero => rfl
  | succ fuel ih =>
      rw [recordedExplore, explore]
      cases d.markings[d.steps.size]? with
      | none => rfl
      | some m => simp only [result_bind, result_ofExcept, result_recordedExpand, ih]

/-- **The recorded search is the search**, apart from its record. -/
theorem result_recordedGraph (net : Net) (limit : Option Nat) :
    (net.recordedGraph limit).result = net.stepGraph limit := by
  simp only [recordedGraph, stepGraph, result_bind, result_record, ok_bind, result_recordedExplore,
    result_pure]
  rfl

end Net

/-! ## What is recorded -/

open Recorded

namespace Discovery

theorem Near.of_visit {i : Nat} (h : d.Near net cap) (hsource : source < d.markings.size)
    (hm : net.ReachesWithin (source + 1) m) (hvisit : d.visit cap m = .ok (d', i)) :
    d'.Near net cap ∧ source < d'.markings.size := by
  refine ⟨?_, Nat.lt_of_lt_of_le hsource (visit_of_size_le hvisit).1.size⟩
  rcases h.visit hsource hm with ⟨d₁, j, hfound, h₁⟩ | ⟨herror, -⟩
  · rw [hvisit] at hfound
    cases hfound
    exact h₁
  · rw [hvisit] at herror
    cases herror

/-- One firing from the step `source` leads to each marking that is recorded. -/
theorem Near.recordedExpand (h : d.Near net cap) (hsource : source < d.markings.size)
    (hm : net.ReachesWithin source m) (ts : List TransitionId) :
    (∀ x ∈ (net.recordedExpand cap source m ts d).markings, net.ReachesWithin (source + 1) x) ∧
      ∀ d', net.expand cap source m ts d = .ok d' → d'.Near net cap := by
  induction ts generalizing d with
  | nil =>
      refine ⟨fun x hx => (List.not_mem_nil hx).elim, fun d' hd' => ?_⟩
      cases hd'
      exact h
  | cons t ts ih =>
      -- after the firing, the other transitions are tried with one more move
      have hrest {next : Marking} {d₁ : Discovery} {target : Nat} {label : String}
          (hnext : net.fireAt m t = .ok next) (hvisit : d.visit cap next = .ok (d₁, target)) :=
        have hfound := h.of_visit hsource (hm.tail hnext) hvisit
        ih (d := { d₁ with moves := d₁.moves.push ⟨source, target, t, label⟩ })
          (hfound.1.congr rfl rfl) hfound.2
      constructor
      · intro x hx
        simp only [Net.recordedExpand, mem_markings_ofExcept_bind, mem_markings_record_bind] at hx
        obtain ⟨next, hnext, rfl | ⟨⟨d₁, target⟩, hvisit, label, -, hx⟩⟩ := hx
        · exact hm.tail hnext
        · exact (hrest hnext hvisit).1 x hx
      · intro d' hd'
        obtain ⟨next, d₁, target, label, hnext, hvisit, -, hd'⟩ := Net.expand_cons_eq_ok_iff.mp hd'
        exact (hrest hnext hvisit).2 d' hd'

/-- No marking that a search records is further away than there may be steps. -/
theorem Near.recordedExplore (h : d.Near net cap)
    (hx : x ∈ (net.recordedExplore cap fuel d).markings) : net.ReachesWithin (max cap 1) x := by
  induction fuel generalizing d with
  | zero => exact (List.not_mem_nil hx).elim
  | succ fuel ih =>
      rw [Net.recordedExplore] at hx
      cases hm : d.markings[d.steps.size]? with
      | none =>
          rw [hm] at hx
          exact (List.not_mem_nil hx).elim
      | some m =>
          have hsource : d.steps.size < d.markings.size := (Array.getElem?_eq_some_iff.mp hm).1
          -- a step that is taken has a number, and there are no more numbers than the limit allows
          have hlimit : d.steps.size + 1 ≤ max cap 1 := hsource.trans_le h.capped
          simp only [hm, mem_markings_ofExcept_bind] at hx
          obtain ⟨enabled, -, hx⟩ := hx
          obtain ⟨hrecorded, hnear⟩ := h.recordedExpand hsource (h.near hm) enabled
          rcases mem_markings_bind.mp hx with hx | ⟨d₁, hd₁, hx⟩
          · exact (hrecorded x hx).mono hlimit
          · rw [Net.result_recordedExpand] at hd₁
            have h₁ := hnear d₁ hd₁
            exact ih (d := { d₁ with steps := d₁.steps.push ⟨d₁.steps.size, m, enabled⟩ })
              (h₁.congr rfl rfl) hx

/-- What gets a number while a step is taken is recorded. -/
theorem mem_recordedExpand {i : Nat} (he : net.expand cap source m ts d = .ok d')
    (hx : d'.markings[i]? = some x) :
    d.markings[i]? = some x ∨ x ∈ (net.recordedExpand cap source m ts d).markings := by
  induction ts generalizing d with
  | nil =>
      cases he
      exact Or.inl hx
  | cons t ts ih =>
      obtain ⟨next, d₁, target, label, hnext, hvisit, hlabel, he⟩ := Net.expand_cons_eq_ok_iff.mp he
      simp only [Net.recordedExpand, mem_markings_ofExcept_bind, mem_markings_record_bind]
      rcases ih he with hfound | hrecorded
      -- it had its number before the next firing, which may have been what gave it one
      · obtain ⟨-, rfl⟩ | ⟨-, -, -, rfl⟩ := visit_cases hvisit
        · exact Or.inl hfound
        · rcases getElem?_push_eq_some_iff.mp hfound with ⟨-, rfl⟩ | hold
          · exact Or.inr ⟨_, hnext, Or.inl rfl⟩
          · exact Or.inl hold
      · exact Or.inr ⟨next, hnext, Or.inr ⟨(d₁, target), hvisit, label, hlabel, hrecorded⟩⟩

/-- What gets a number in a search is recorded. -/
theorem mem_recordedExplore {i : Nat} (he : net.explore cap fuel d = .ok d')
    (hx : d'.markings[i]? = some x) :
    d.markings[i]? = some x ∨ x ∈ (net.recordedExplore cap fuel d).markings := by
  induction fuel generalizing d with
  | zero =>
      cases he
      exact Or.inl hx
  | succ fuel ih =>
      rw [Net.recordedExplore]
      obtain ⟨hnone, rfl⟩ | ⟨m, enabled, d₁, hm, henabled, hexpand, he⟩ :=
        Net.explore_succ_eq_ok_iff.mp he
      · exact Or.inl hx
      · simp only [hm, mem_markings_ofExcept_bind]
        rcases ih he with hfound | hrecorded
        · exact (mem_recordedExpand hexpand hfound).imp_right fun hrecorded =>
            ⟨enabled, henabled, mem_markings_bind.mpr (Or.inl hrecorded)⟩
        · refine Or.inr ⟨enabled, henabled, mem_markings_bind.mpr (Or.inr ⟨d₁, ?_, hrecorded⟩)⟩
          rwa [Net.result_recordedExpand]

end Discovery

namespace Net

/-- **Every marking that a search with a limit computes is within reach of as many firings**, also the
one that the limit rejects. -/
theorem reachesWithin_of_recorded (hx : x ∈ (net.recordedGraph (some limit)).markings) :
    net.ReachesWithin (max limit 1) x := by
  simp only [recordedGraph, mem_markings_record_bind] at hx
  rcases hx with rfl | hx
  · exact net.reachesWithin_marking _
  · rcases mem_markings_bind.mp hx with hx | ⟨d, -, hx⟩
    · exact (Discovery.near_start net limit).recordedExplore hx
    · exact (List.not_mem_nil hx).elim

/-- A search that ends has computed the markings that can be reached, and no others. -/
theorem mem_recordedGraph_iff {g : StepGraph} (hg : net.stepGraph (some limit) = .ok g) :
    x ∈ (net.recordedGraph (some limit)).markings ↔ net.Reaches net.marking x := by
  refine ⟨fun hx => (reachesWithin_of_recorded hx).reaches, fun hx => ?_⟩
  obtain ⟨d, hd, hsound, hsize, -⟩ := exists_explored_of_stepGraph hg
  obtain ⟨i, hi⟩ := (hsound.exists_marking_iff_reaches hsize).mpr hx
  simp only [recordedGraph, mem_markings_record_bind]
  rcases Discovery.mem_recordedExplore hd hi with hfirst | hrecorded
  · exact Or.inl (Array.mem_singleton.mp (Array.mem_of_getElem? hfirst))
  · exact Or.inr (mem_markings_bind.mpr (Or.inl hrecorded))

/-! ## Counts -/

/-- A place holds no more markers than in the beginning, or than there were firings. -/
theorem FillsSlowly.tokens_le_max (hs : net.FillsSlowly) (h : net.WellFormed)
    (hm : net.ReachesWithin n m) (p : PlaceId) : m.tokens p ≤ max (net.marking.tokens p) n := by
  obtain ⟨ts, hlength, hts⟩ := hm
  rcases Nat.eq_zero_or_pos (net.marking.tokens p) with hzero | hpos
  · have hle := hs.tokens_runAt_le h hts p
    omega
  · have hle := hs.tokens_runAt_le_start h hpos hts
    omega

/-- In the beginning no place of the net holds more than one marker, and those that hold one get no
more. -/
structure StartsSafe (net : Net) : Prop where
  wellFormed : net.WellFormed
  fillsSlowly : net.FillsSlowly
  one : ∀ p, net.marking.tokens p ≤ 1

namespace StartsSafe

theorem tokens_le (hs : net.StartsSafe) (hm : net.ReachesWithin n m) (p : PlaceId) :
    m.tokens p ≤ max 1 n :=
  (hs.fillsSlowly.tokens_le_max hs.wellFormed hm p).trans (max_le_max_right n (hs.one p))

theorem unfolded (hs : net.StartsSafe) (hu : net.UnfoldsTo u) : u.StartsSafe where
  wellFormed := hu.wellFormed
  fillsSlowly := hs.fillsSlowly.unfolded hu
  one p := (hu.tokens p).trans_le (hs.one p)

/-- Within a limit that is a count itself, the search meets no count beyond its range. -/
theorem stepGraph_of_lt (hs : net.StartsSafe) (hlimit : limit < countRange) :
    (∃ g, net.stepGraph (some limit) = .ok g) ∨
      net.stepGraph (some limit) = .error (.tooManySteps limit (max limit 1)) := by
  have hrange : max limit 1 < countRange := max_lt hlimit (by decide)
  obtain ⟨hok, herror⟩ := hs.wellFormed.stepGraph_of_limit
    (hs.fillsSlowly.firesBelow hs.wellFormed hrange)
  by_cases hexceeds : net.Exceeds limit
  · exact Or.inr (herror hexceeds)
  · exact Or.inl (hok hexceeds)

end StartsSafe

end Net

/-- Only the source of a route is marked in the beginning, with one marker. -/
theorem RouteNet.startsSafe_ofRoute (route : Route) : (RouteNet.ofRoute route).net.StartsSafe where
  wellFormed := (sound_ofRoute route).net.wellFormed
  fillsSlowly := fillsSlowly_ofRoute route
  one p := by
    rw [(sound_ofRoute route).tokens]
    split <;> decide

/-- **Exploring a route never overflows a count.** In the net of a route and in its unfolded net a place
holds at most one marker, or as many as firings are needed to reach the marking. Whatever the limit,
every marking that the search computes, also the one that the limit rejects, has at most as many markers
in each place as the limit allows steps. So with a limit of 64 bits no firing of the search fails: the
search ends, or finds more steps than the limit allows. -/
theorem marker_counts (route : Route) :
    ∃ u, (RouteNet.ofRoute route).net.unfold = .ok u ∧
      ∀ net ∈ [(RouteNet.ofRoute route).net, u],
        (∀ m, net.CanReach m → ∀ p, m.tokens p ≤ max 1 (net.distance m)) ∧
        ∀ limit,
          (net.recordedGraph (some limit)).result = net.stepGraph (some limit) ∧
          (∀ g, net.stepGraph (some limit) = .ok g →
            ∀ m, m ∈ (net.recordedGraph (some limit)).markings ↔ net.CanReach m) ∧
          (∀ m ∈ (net.recordedGraph (some limit)).markings, ∀ p, m.tokens p ≤ max 1 limit) ∧
          (limit < countRange → (∃ g, net.stepGraph (some limit) = .ok g) ∨
            net.stepGraph (some limit) = .error (.tooManySteps limit (max 1 limit))) := by
  have hroute := RouteNet.startsSafe_ofRoute route
  obtain ⟨u, hunfold, hu⟩ := Net.exists_unfoldsTo hroute.wellFormed
  refine ⟨u, hunfold, fun net hnet => ?_⟩
  have hs : net.StartsSafe := by
    rcases List.mem_cons.mp hnet with rfl | hnet
    · exact hroute
    · exact List.mem_singleton.mp hnet ▸ hroute.unfolded hu
  refine ⟨fun m hm p => ?_, fun limit => ⟨net.result_recordedGraph _, fun g hg m => ?_,
    fun m hm p => ?_, fun hlimit => ?_⟩⟩
  · exact hs.tokens_le ((Net.canReach_iff.mp hm).distance_le_iff.mp le_rfl) p
  · rw [Net.canReach_iff]
    exact Net.mem_recordedGraph_iff hg
  · have hle := hs.tokens_le (Net.reachesWithin_of_recorded hm) p
    omega
  · rw [max_comm]
    exact hs.stepGraph_of_lt hlimit

/-- With the limit 1 the search of the relayed route stops at the second marking that it computes, where
no place holds more than one marker either. -/
theorem marker_counts_relayed :
    (RouteNet.ofRoute relayed).net.stepGraph (some 1) = .error (.tooManySteps 1 1) ∧
    ∀ m ∈ ((RouteNet.ofRoute relayed).net.recordedGraph (some 1)).markings,
      ∀ p, m.tokens p ≤ 1 := by
  have hone : ((RouteNet.ofRoute relayed).net.stepGraph (some 1)).isOk = false := by
    rw [Net.stepGraph_eq_survey]
    decide +kernel
  obtain ⟨u, -, hnets⟩ := marker_counts relayed
  obtain ⟨-, hsearch⟩ := hnets _ List.mem_cons_self
  obtain ⟨-, -, hcounts, hends⟩ := hsearch 1
  refine ⟨(hends (by decide)).resolve_left ?_, hcounts⟩
  rintro ⟨g, hg⟩
  rw [hg] at hone
  cases hone

end RoutePolicy
