import RoutePolicy.Proofs.Net.Steps

set_option autoImplicit false

/-! # Batched steps and the order of firings

If every place holds a marker for each arc into the transitions that are to fire, then no firing keeps
another from happening, and all orders lead to the same counts (`Net.WellFormed.exists_runAt`). A
batched step leads there too, as long as the counts stay in the range of signed numbers
(`Net.batched_step_interleaves`).

A batched step reads counts as signed numbers. So the counts after it are the exact ones, stopped at
zero, where the count before is less than half of the range. A place with more markers is emptied
(`Net.batched_step_counts`). -/

namespace RoutePolicy

variable {net : Net} {m m' : Marking} {t : TransitionId} {ts us : List TransitionId} {p : PlaceId}

namespace Net

/-! ## Firing one after the other -/

/-- The number of arcs from a place into the transitions. -/
def taken (net : Net) (ts : List TransitionId) (p : PlaceId) : Nat :=
  (ts.map fun t => net.arcCount p.node t.node).sum

/-- The number of arcs from the transitions into a place. -/
def given (net : Net) (ts : List TransitionId) (p : PlaceId) : Nat :=
  (ts.map fun t => net.arcCount t.node p.node).sum

theorem batchSum_eq_given_sub_taken (net : Net) (ts : List TransitionId) (p : PlaceId) :
    net.batchSum ts p = net.given ts p - net.taken ts p := rfl

theorem taken_cons (net : Net) (t : TransitionId) (ts : List TransitionId) (p : PlaceId) :
    net.taken (t :: ts) p = net.arcCount p.node t.node + net.taken ts p := rfl

theorem given_cons (net : Net) (t : TransitionId) (ts : List TransitionId) (p : PlaceId) :
    net.given (t :: ts) p = net.arcCount t.node p.node + net.given ts p := rfl

theorem taken_perm (h : ts.Perm us) (p : PlaceId) : net.taken ts p = net.taken us p :=
  (h.map _).sum_eq

theorem given_perm (h : ts.Perm us) (p : PlaceId) : net.given ts p = net.given us p :=
  (h.map _).sum_eq

/-- **Transitions that find a marker for each arc fire one after the other.** None of them needs what
another one takes. -/
theorem WellFormed.exists_runAt (h : net.WellFormed) (hm : m.size = net.places.size)
    (hts : ∀ t ∈ ts, net.contains t.node = true) (htaken : ∀ p, net.taken ts p ≤ m.tokens p)
    (hgiven : ∀ p, m.tokens p + net.given ts p < countRange) :
    ∃ m', net.runAt m ts = .ok m' ∧
      ∀ p, m'.tokens p + net.taken ts p = m.tokens p + net.given ts p := by
  induction ts generalizing m with
  | nil => exact ⟨m, rfl, fun p => rfl⟩
  | cons t ts ih =>
      simp only [taken_cons] at htaken
      simp only [given_cons] at hgiven
      obtain ⟨ht, hts⟩ := List.forall_mem_cons.mp hts
      have hen : net.Enables m t := ⟨ht, fun p hp => by
        have hpos := arcCount_pos_iff.mpr hp
        have := htaken p
        omega⟩
      obtain ⟨m₁, hfire⟩ := (h.exists_fireAt_iff hm).mpr ⟨hen, fun p _ => by
        have := hgiven p
        omega⟩
      have htokens := h.tokens_fireAt hfire
      -- what the other transitions take is still there
      obtain ⟨m', hrun, hcount⟩ := ih ((size_fireAt hfire).trans hm) hts
        (fun p => by
          have := htaken p
          have := htokens p
          omega)
        (fun p => by
          have := hgiven p
          have := htokens p
          omega)
      refine ⟨m', runAt_cons_eq_ok_iff.mpr ⟨m₁, hfire, hrun⟩, fun p => ?_⟩
      have := htaken p
      have := htokens p
      have := hcount p
      rw [taken_cons, given_cons]
      omega

/-- Only places of the net have arcs to or from transitions. -/
theorem WellFormed.taken_given_eq_zero (h : net.WellFormed) (hp : ¬net.contains p.node = true) :
    net.taken ts p = 0 ∧ net.given ts p = 0 := by
  have hzero (t : TransitionId) := h.arcCount_eq_zero hp t.node
  constructor
  · exact List.sum_eq_zero fun n hn => by
      obtain ⟨t, -, rfl⟩ := List.mem_map.mp hn
      exact (hzero t).1
  · exact List.sum_eq_zero fun n hn => by
      obtain ⟨t, -, rfl⟩ := List.mem_map.mp hn
      exact (hzero t).2

/-- What such a run leaves in the places does not depend on its order. -/
theorem WellFormed.runAt_eq_markingOf (h : net.WellFormed) (hm : m.size = net.places.size)
    (hts : ∀ t ∈ ts, net.contains t.node = true)
    (htaken : ∀ p, net.contains p.node = true → net.taken ts p ≤ m.tokens p)
    (hgiven : ∀ p, net.contains p.node = true → m.tokens p + net.given ts p < countRange) :
    net.runAt m ts =
      .ok (net.markingOf fun p => m.tokens p + net.given ts p - net.taken ts p) := by
  obtain ⟨m', hrun, hcount⟩ := h.exists_runAt hm hts
    (fun p => by
      by_cases hp : net.contains p.node = true
      · exact htaken p hp
      · rw [(h.taken_given_eq_zero hp).1]
        exact Nat.zero_le _)
    (fun p => by
      by_cases hp : net.contains p.node = true
      · exact hgiven p hp
      · rw [(h.taken_given_eq_zero hp).2,
          Marking.tokens_eq_zero fun hin => hp ((contains_iff_of_size hm).mp hin)]
        decide)
  rw [hrun, eq_markingOf ((size_runAt hrun).trans hm) fun p _ => Nat.eq_sub_of_add_eq (hcount p)]

/-! ## Counts read as signed numbers -/

theorem signedCount_of_lt {n : Nat} (h : n < signedRange) : signedCount n = n := by
  simp only [signedRange] at h
  simp only [signedCount, Int.bmod, countRange]
  omega

theorem signedCount_of_le {n : Nat} (h : signedRange ≤ n) (hn : n < countRange) :
    signedCount n = (n : Int) - countRange := by
  simp only [signedRange] at h
  simp only [countRange] at hn
  simp only [signedCount, Int.bmod, countRange]
  omega

/-- The count of a place and all that the transitions put and take, as a number without bounds. -/
def exactCount (net : Net) (ts : List TransitionId) (p : PlaceId) : Int :=
  (net.marking.tokens p : Int) + net.given ts p - net.taken ts p

/-- The same number where the count is read as a signed one. -/
def signedTotal (net : Net) (ts : List TransitionId) (p : PlaceId) : Int :=
  if net.marking.tokens p < signedRange then net.exactCount ts p
  else net.exactCount ts p - countRange

/-- It is a signed number of 64 bits. -/
def StepFits (net : Net) (ts : List TransitionId) (p : PlaceId) : Prop :=
  -(signedRange : Int) ≤ net.signedTotal ts p ∧ net.signedTotal ts p < signedRange

instance (net : Net) (ts : List TransitionId) (p : PlaceId) : Decidable (net.StepFits ts p) :=
  inferInstanceAs (Decidable (_ ∧ _))

theorem signedCount_add_batchSum (hp : net.marking.tokens p < countRange) :
    signedCount (net.marking.tokens p) + net.batchSum ts p = net.signedTotal ts p := by
  rw [batchSum_eq_given_sub_taken, signedTotal, exactCount]
  split
  · rw [signedCount_of_lt ‹_›]
    omega
  · rw [signedCount_of_le (Nat.le_of_not_lt ‹_›) hp]
    omega

/-- **What a batched step does to a net**, and when it fails. -/
theorem WellFormed.fireAll (h : net.WellFormed)
    (hcount : ∀ p, net.contains p.node = true → net.marking.tokens p < countRange) :
    ∃ fired, net.enabled = .ok fired ∧ (∀ t, t ∈ fired ↔ net.Enables net.marking t) ∧
      fired.Nodup ∧
      ((∀ p, net.contains p.node = true → net.StepFits fired p) →
        net.fireAll = .ok (net.withMarking (net.markingOf fun p =>
          (net.signedTotal fired p).toNat), fired)) ∧
      ((∃ p, net.contains p.node = true ∧ ¬net.StepFits fired p) →
        net.fireAll = .error .overflow) := by
  obtain ⟨fired, hfired, hmem, hnodup, hok, herror⟩ := h.fireAllAt net.size_marking
  have hfits (p : PlaceId) (hp : net.contains p.node = true) :
      FitsSigned (net.marking.tokens p) (net.batchSum fired p) ↔ net.StepFits fired p := by
    rw [StepFits, ← signedCount_add_batchSum (hcount p hp)]
    exact ⟨fun hfits => ⟨hfits.1, hfits.2⟩, fun hfits => ⟨hfits.1, hfits.2⟩⟩
  refine ⟨fired, hfired, hmem, hnodup, fun hall => ?_, fun hsome => ?_⟩
  · have hmarking : (net.markingOf fun p =>
        (signedCount (net.marking.tokens p) + net.batchSum fired p).toNat)
          = net.markingOf fun p => (net.signedTotal fired p).toNat := by
      refine eq_markingOf (net.size_markingOf _) fun p hp => ?_
      rw [tokens_markingOf, if_pos hp, signedCount_add_batchSum (hcount p hp)]
    rw [Net.fireAll, hok fun p hp => (hfits p hp).mpr (hall p hp), hmarking]
    rfl
  · obtain ⟨p, hp, hno⟩ := hsome
    rw [Net.fireAll, herror ⟨p, hp, fun hfit => hno ((hfits p hp).mp hfit)⟩]
    rfl

/-! ## Batched steps without conflicts -/

/-- **A batched step without conflicts is any order of its firings.** If every place holds a marker for
each arc into the enabled transitions, and all counts stay in the range of signed numbers, then these
transitions fire one after the other in every order, and come to the net that a batched step makes. -/
theorem batched_step_interleaves (h : net.WellFormed)
    (hlow : ∀ p, net.contains p.node = true → net.marking.tokens p < signedRange) :
    ∃ fired, net.enabled = .ok fired ∧ (∀ t, t ∈ fired ↔ net.Enables net.marking t) ∧
      fired.Nodup ∧
      ((∀ p, net.contains p.node = true → net.taken fired p ≤ net.marking.tokens p) →
        (∀ p, net.contains p.node = true →
          net.marking.tokens p + net.given fired p - net.taken fired p < signedRange) →
        ∃ net', net.fireAll = .ok (net', fired) ∧
          ∀ ts, ts.Perm fired → net.run ts = .ok net') := by
  have hrange : signedRange + signedRange = countRange := rfl
  obtain ⟨fired, hfired, hmem, hnodup, hok, -⟩ := h.fireAll fun p hp => by
    have := hlow p hp
    omega
  refine ⟨fired, hfired, hmem, hnodup, fun htaken hafter => ?_⟩
  have htotal (p : PlaceId) (hp : net.contains p.node = true) : net.signedTotal fired p =
      ((net.marking.tokens p + net.given fired p - net.taken fired p : Nat) : Int) := by
    have := htaken p hp
    rw [signedTotal, if_pos (hlow p hp), exactCount]
    omega
  refine ⟨_, hok fun p hp => ?_, fun ts hts => run_eq_ok_iff.mpr ⟨_, ?_, rfl⟩⟩
  · have := hafter p hp
    rw [StepFits, htotal p hp]
    omega
  -- the conditions on counts do not depend on the order
  rw [h.runAt_eq_markingOf net.size_marking (fun t ht => ((hmem t).mp (hts.mem_iff.mp ht)).1)
    (fun p hp => taken_perm hts p ▸ htaken p hp) fun p hp => by
      have := htaken p hp
      have := hafter p hp
      have := hlow p hp
      rw [given_perm hts]
      omega]
  refine congrArg Except.ok (eq_markingOf (net.size_markingOf _) fun p hp => ?_)
  rw [tokens_markingOf, if_pos hp, htotal p hp, Int.toNat_natCast, taken_perm hts, given_perm hts]

/-- A copy takes two sheets of paper. Binding takes one, and needs the press meanwhile. -/
def printing : Net :=
  Net.empty "printing" |>.addPlace (.plain "paper" 3) |>.addPlace (.plain "press" 1)
    |>.addPlace (.plain "copies" 0) |>.addTransition (.bare "copy" none)
    |>.addTransition (.bare "bind" none)
    |>.join ⟨⟨.place, 0⟩, ⟨.transition, 0⟩⟩ |>.join ⟨⟨.place, 0⟩, ⟨.transition, 0⟩⟩
    |>.join ⟨⟨.place, 0⟩, ⟨.transition, 1⟩⟩ |>.join ⟨⟨.place, 1⟩, ⟨.transition, 1⟩⟩
    |>.join ⟨⟨.transition, 1⟩, ⟨.place, 1⟩⟩ |>.join ⟨⟨.transition, 0⟩, ⟨.place, 2⟩⟩
    |>.join ⟨⟨.transition, 1⟩, ⟨.place, 2⟩⟩

theorem printing_made : printing.Made :=
  Made.empty "printing" |>.addPlace (by decide) |>.addPlace (by decide) |>.addPlace (by decide)
    |>.addTransition |>.addTransition |>.join rfl |>.join rfl |>.join rfl |>.join rfl |>.join rfl
    |>.join rfl |>.join rfl

theorem batched_step_interleaves_printing : printing.WellFormed ∧
    printing.enabled = .ok [⟨0⟩, ⟨1⟩] ∧ ∃ net', printing.fireAll = .ok (net', [⟨0⟩, ⟨1⟩]) ∧
      net'.marking.toList = [0, 1, 2] ∧
      printing.run [⟨0⟩, ⟨1⟩] = .ok net' ∧ printing.run [⟨1⟩, ⟨0⟩] = .ok net' := by
  have h := printing_made.wellFormed
  have henabled : printing.enabled = .ok [⟨0⟩, ⟨1⟩] := by decide +kernel
  have hplaces : ∀ p ∈ printing.places.indices, printing.marking.tokens p < signedRange ∧
      printing.taken [⟨0⟩, ⟨1⟩] p ≤ printing.marking.tokens p ∧
      printing.marking.tokens p + printing.given [⟨0⟩, ⟨1⟩] p - printing.taken [⟨0⟩, ⟨1⟩] p
        < signedRange := by
    decide +kernel
  simp only [Arena.mem_indices_iff] at hplaces
  obtain ⟨fired, hfired, -, -, hsame⟩ := batched_step_interleaves h fun p hp => (hplaces p hp).1
  obtain rfl := Except.ok.inj (henabled.symm.trans hfired)
  obtain ⟨net', hstep, hruns⟩ := hsame (fun p hp => (hplaces p hp).2.1) fun p hp =>
    (hplaces p hp).2.2
  have hcounts : printing.fireAll.toOption.map (·.1.marking.toList) = some [0, 1, 2] := by
    decide +kernel
  rw [hstep] at hcounts
  exact ⟨h, henabled, net', hstep, Option.some.inj hcounts, hruns _ (.refl _),
    hruns _ (.swap _ _ _)⟩

/-! ## Counts of half the range and more -/

/-- **The counts after a batched step.** In a place with less than half as many markers as can be counted
the new count is the exact one, or none. A place with more markers is emptied, whether or not there are
arcs to it, unless so many are put that the count would exceed its range. The step fails exactly if a
count passes half of the range or falls as far below zero. -/
theorem batched_step_counts (h : net.WellFormed)
    (hcount : ∀ p, net.contains p.node = true → net.marking.tokens p < countRange) :
    ∃ fired, net.enabled = .ok fired ∧ (∀ t, t ∈ fired ↔ net.Enables net.marking t) ∧
      fired.Nodup ∧
      ((∀ p, net.contains p.node = true → net.StepFits fired p) →
        ∃ m, m.size = net.places.size ∧ net.fireAll = .ok (net.withMarking m, fired) ∧
          ∀ p, net.contains p.node = true →
            (net.marking.tokens p < signedRange →
              (m.tokens p : Int) = max 0 (net.exactCount fired p)) ∧
            (signedRange ≤ net.marking.tokens p → net.exactCount fired p < countRange →
              m.tokens p = 0)) ∧
      ((∃ p, net.contains p.node = true ∧ ¬net.StepFits fired p) →
        net.fireAll = .error .overflow) := by
  obtain ⟨fired, hfired, hmem, hnodup, hok, herror⟩ := h.fireAll hcount
  refine ⟨fired, hfired, hmem, hnodup, fun hall =>
    ⟨_, net.size_markingOf _, hok hall, fun p hp => ?_⟩, herror⟩
  rw [tokens_markingOf, if_pos hp, signedTotal]
  constructor
  · intro hlow
    rw [if_pos hlow]
    omega
  · intro hhigh hexact
    rw [if_neg (Nat.not_lt.mpr hhigh)]
    omega

/-- Two guests for one seat, and a vault that neither of them has to do with. -/
def hotel : Net :=
  Net.empty "hotel" |>.addPlace (.plain "seat" 1) |>.addPlace (.plain "bills" 3)
    |>.addPlace (.plain "vault" 9223372036854775808) |>.addTransition (.bare "guest" none)
    |>.addTransition (.bare "other" none)
    |>.join ⟨⟨.place, 0⟩, ⟨.transition, 0⟩⟩ |>.join ⟨⟨.place, 0⟩, ⟨.transition, 1⟩⟩
    |>.join ⟨⟨.transition, 0⟩, ⟨.place, 1⟩⟩ |>.join ⟨⟨.transition, 1⟩, ⟨.place, 1⟩⟩

theorem hotel_made : hotel.Made :=
  Made.empty "hotel" |>.addPlace (by decide) |>.addPlace (by decide) |>.addPlace (by decide)
    |>.addTransition |>.addTransition |>.join rfl |>.join rfl |>.join rfl |>.join rfl

theorem batched_step_counts_hotel : hotel.WellFormed ∧
    (∀ p, hotel.contains p.node = true → hotel.marking.tokens p < countRange) ∧
    ∃ m, hotel.fireAll = .ok (hotel.withMarking m, [⟨0⟩, ⟨1⟩]) ∧
      hotel.exactCount [⟨0⟩, ⟨1⟩] ⟨0⟩ = -1 ∧ m.tokens ⟨0⟩ = 0 ∧
      hotel.exactCount [⟨0⟩, ⟨1⟩] ⟨1⟩ = 5 ∧ m.tokens ⟨1⟩ = 5 ∧
      hotel.exactCount [⟨0⟩, ⟨1⟩] ⟨2⟩ = 9223372036854775808 ∧ m.tokens ⟨2⟩ = 0 := by
  have h := hotel_made.wellFormed
  have henabled : hotel.enabled = .ok [⟨0⟩, ⟨1⟩] := by decide +kernel
  have hplaces : ∀ p ∈ hotel.places.indices, hotel.marking.tokens p < countRange ∧
      hotel.StepFits [⟨0⟩, ⟨1⟩] p := by
    decide +kernel
  simp only [Arena.mem_indices_iff] at hplaces
  obtain ⟨fired, hfired, -, -, hok, -⟩ := batched_step_counts h fun p hp => (hplaces p hp).1
  obtain rfl := Except.ok.inj (henabled.symm.trans hfired)
  obtain ⟨m, -, hstep, hcounts⟩ := hok fun p hp => (hplaces p hp).2
  have hseat : hotel.exactCount [⟨0⟩, ⟨1⟩] ⟨0⟩ = -1 := by decide +kernel
  have hbills : hotel.exactCount [⟨0⟩, ⟨1⟩] ⟨1⟩ = 5 := by decide +kernel
  have hseats := (hcounts ⟨0⟩ rfl).1 (by decide +kernel)
  have hbilled := (hcounts ⟨1⟩ rfl).1 (by decide +kernel)
  have hlost := (hcounts ⟨2⟩ rfl).2 (by decide +kernel) (by decide +kernel)
  rw [hseat] at hseats
  rw [hbills] at hbilled
  exact ⟨h, fun p hp => (hplaces p hp).1, m, hstep, hseat, by omega, hbills, by omega,
    by decide +kernel, hlost⟩

/-- A single place with as many markers as half of the range of counts. -/
def vault : Net := Net.empty "vault" |>.addPlace (.plain "vault" 9223372036854775808)

/-- Nothing is enabled there, and its markers are lost all the same. -/
theorem batched_step_empties_vault : vault.WellFormed ∧ vault.marking.toList = [9223372036854775808] ∧
    vault.enabled = .ok [] ∧ vault.exactCount [] ⟨0⟩ = 9223372036854775808 ∧
    vault.fireAll.toOption.map (·.1.marking.toList) = some [0] :=
  ⟨(Made.empty "vault" |>.addPlace (by decide)).wellFormed, by decide +kernel⟩

end Net

end RoutePolicy
