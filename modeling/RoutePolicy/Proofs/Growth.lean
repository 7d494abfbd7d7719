import RoutePolicy.Proofs.StateLimit

set_option autoImplicit false

/-! # Nets whose markers grow

More markers disable no transition, and a move changes the counts in the same way wherever it is made
(`Net.Ordinary.exists_moves_of_le`). So moves that lead from a marking to one with more markers can be
repeated from there again and again (`Net.Ordinary.leads_repeated`). Such a net leads to infinitely many
markings, while a step graph has all markings that its net leads to: no limit lets the search end with
one (`growth_never_finite`). -/

namespace RoutePolicy

variable {net : Net} {m m' m₁ : Marking} {t : TransitionId}

namespace Net

/-! ## Moves from larger markings -/

/-- A transition can make its move from a larger marking too, and changes the counts there as it does
from the smaller one. -/
theorem Ordinary.exists_moves_of_le (h : net.Ordinary) (hmoves : net.Moves m t m')
    (hsize : m₁.size = net.places.size) (hle : ∀ p, m.tokens p ≤ m₁.tokens p) :
    ∃ m₁', net.Moves m₁ t m₁' ∧
      ∀ p, m₁'.tokens p + m.tokens p = m₁.tokens p + m'.tokens p := by
  have hen : net.Enables m₁ t :=
    ⟨hmoves.enabled.1, fun p hp => (hmoves.enabled.2 p hp).trans_le (hle p)⟩
  obtain ⟨m₁', hmoves₁⟩ := h.wellFormed.exists_moves hsize hen
  refine ⟨m₁', hmoves₁, fun p => ?_⟩
  have htaken := h.arcCount_le hmoves.enabled p
  have htokens := hmoves.tokens p
  have htokens₁ := hmoves₁.tokens p
  have hlep := hle p
  omega

/-- Whole sequences of moves can be made from larger markings too. -/
theorem Ordinary.exists_leads_of_le (h : net.Ordinary) (hlead : net.Leads m m')
    (hsize : m₁.size = net.places.size) (hle : ∀ p, m.tokens p ≤ m₁.tokens p) :
    ∃ m₁', net.Leads m₁ m₁' ∧
      ∀ p, m₁'.tokens p + m.tokens p = m₁.tokens p + m'.tokens p := by
  induction hlead with
  | refl => exact ⟨m₁, .refl, fun _ => rfl⟩
  | @tail x m' _ hstep ih =>
      obtain ⟨t, hmoves⟩ := hstep
      obtain ⟨x₁, hlead₁, hx₁⟩ := ih
      have hlex (p : PlaceId) : x.tokens p ≤ x₁.tokens p := by
        have hlep := hle p
        have hxp := hx₁ p
        omega
      obtain ⟨m₁', hmoves₁, hm₁'⟩ :=
        h.exists_moves_of_le hmoves (hlead₁.size_eq.trans hsize) hlex
      refine ⟨m₁', hlead₁.tail_moves hmoves₁, fun p => ?_⟩
      have hxp := hx₁ p
      have hmp := hm₁' p
      omega

/-- **What grows once grows again**: moves to a larger marking can be repeated, each time with the same
gain. -/
theorem Ordinary.leads_repeated (h : net.Ordinary) (hm : m.size = net.places.size)
    (hlead : net.Leads m m') (hle : ∀ p, m.tokens p ≤ m'.tokens p) (n : Nat) :
    ∃ x, net.Leads m x ∧ ∀ p, x.tokens p = m.tokens p + n * (m'.tokens p - m.tokens p) := by
  induction n with
  | zero => exact ⟨m, .refl, fun p => by rw [Nat.zero_mul, Nat.add_zero]⟩
  | succ n ih =>
      obtain ⟨x, hx, htokens⟩ := ih
      have hlex (p : PlaceId) : m.tokens p ≤ x.tokens p := htokens p ▸ Nat.le_add_right _ _
      obtain ⟨x', hx', htokens'⟩ := h.exists_leads_of_le hlead (hx.size_eq.trans hm) hlex
      refine ⟨x', Relation.ReflTransGen.trans hx hx', fun p => ?_⟩
      have htokensp := htokens p
      have htokensp' := htokens' p
      have hlep := hle p
      rw [Nat.succ_mul]
      omega

/-- A net whose markers grow leads to infinitely many markings. -/
theorem Ordinary.infinite_leads (h : net.Ordinary) (hm : net.Leads net.marking m)
    (hm' : net.Leads m m') (hle : ∀ p, m.tokens p ≤ m'.tokens p) (hne : m ≠ m') :
    {x | net.Leads net.marking x}.Infinite := by
  intro hfinite
  obtain ⟨bound, hbound⟩ := Marking.exists_bound hfinite
  have hsize : m.size = net.places.size := hm.size_eq.trans net.size_marking
  -- some place gains a marker each time
  obtain ⟨p, hp⟩ : ∃ p, m.tokens p < m'.tokens p := by
    by_contra hnone
    refine hne (Marking.ext_tokens hm'.size_eq.symm fun p => ?_)
    exact Nat.le_antisymm (hle p) (Nat.le_of_not_lt fun hlt => hnone ⟨p, hlt⟩)
  obtain ⟨x, hx, htokens⟩ := h.leads_repeated hsize hm' hle (bound + 1)
  have hgain : bound + 1 ≤ (bound + 1) * (m'.tokens p - m.tokens p) :=
    Nat.le_mul_of_pos_right _ (Nat.sub_pos_of_lt hp)
  have hlep := hbound x (Relation.ReflTransGen.trans hm hx) p
  rw [htokens p] at hlep
  omega

end Net

/-! ## Searches in nets whose markers grow -/

/-- A net with a step graph leads to finitely many markings. -/
theorem finite_leads_of_stepGraph {limit : Option Nat} {g : StepGraph} (h : net.WellFormed)
    (hg : net.stepGraph limit = .ok g) : {m | net.Leads net.marking m}.Finite := by
  refine (g.steps.toList.map (·.marking)).finite_toSet.subset fun m hm => ?_
  have hreach := (reaches_iff_leads_of_stepGraph h hg).mpr hm
  exact List.mem_map.mpr ((exists_step_iff_reaches hg).mpr hreach)

/-- **Growing markers are never taken for finitely many steps.** If the net leads to a marking, as it
does to all that firings reach, and from there to another one that has at least as many markers in each
place, then the search ends with a step graph neither under a limit nor without one. Under a limit within
which no firing goes beyond the range of the counts it fails because of the limit. -/
theorem growth_never_finite (h : net.Ordinary) (hm : net.Leads net.marking m)
    (hm' : net.Leads m m') (hle : ∀ p, m.tokens p ≤ m'.tokens p) (hne : m ≠ m') :
    (∀ limit g, net.stepGraph limit ≠ .ok g) ∧
    ∀ limit, net.FiresBelow (max limit 1) →
      net.stepGraph (some limit) = .error (.tooManySteps limit (max limit 1)) := by
  have hnever (limit : Option Nat) (g : StepGraph) : net.stepGraph limit ≠ .ok g := fun hg =>
    h.infinite_leads hm hm' hle hne (finite_leads_of_stepGraph h.wellFormed hg)
  refine ⟨hnever, fun limit hfire => ?_⟩
  obtain ⟨hok, herror⟩ := h.wellFormed.stepGraph_of_limit hfire
  refine herror (by_contra fun hnot => ?_)
  obtain ⟨g, hg⟩ := hok hnot
  exact hnever _ g hg

/-- An order is accepted once, and then one piece after the other is made for the stock. -/
def workshop : Net :=
  (((((((((((((Net.empty "workshop").addPlace (.plain "order" 1)).addPlace (.plain "bench" 0)
    ).addPlace (.plain "shelf" 0)).addPlace (.plain "stock" 0)
    ).addTransition (.bare "accept" none)).addTransition (.bare "make" none)
    ).addTransition (.bare "clear" none)).join ⟨⟨.place, 0⟩, ⟨.transition, 0⟩⟩
    ).join ⟨⟨.transition, 0⟩, ⟨.place, 1⟩⟩).join ⟨⟨.place, 1⟩, ⟨.transition, 1⟩⟩
    ).join ⟨⟨.transition, 1⟩, ⟨.place, 2⟩⟩).join ⟨⟨.transition, 1⟩, ⟨.place, 3⟩⟩
    ).join ⟨⟨.place, 2⟩, ⟨.transition, 2⟩⟩ |>.join ⟨⟨.transition, 2⟩, ⟨.place, 1⟩⟩

theorem workshop_made : workshop.Made := by
  refine .join (.join (.join (.join (.join (.join (.join (.addTransition (.addTransition
    (.addTransition (.addPlace (.addPlace (.addPlace (.addPlace (.empty "workshop")
    ?_) ?_) ?_) ?_)))) rfl) rfl) rfl) rfl) rfl) rfl) rfl
  all_goals decide

/-- Firing leads from an empty stock to a piece in it, with all else as before. -/
theorem growth_never_finite_workshop :
    workshop.CanReach (.ofList [0, 1, 0, 0]) ∧
      workshop.Reaches (.ofList [0, 1, 0, 0]) (.ofList [0, 1, 0, 1]) ∧
      (∀ limit g, workshop.stepGraph limit ≠ .ok g) ∧
      ∀ limit < countRange,
        workshop.stepGraph (some limit) = .error (.tooManySteps limit (max limit 1)) := by
  have h : workshop.Ordinary := {
    wellFormed := workshop_made.wellFormed
    nodup := by decide +kernel
    start := fun p => (workshop.marking.tokens_le_sum p).trans_lt (by decide +kernel) }
  have hfills : workshop.FillsSlowly := .of_arcs h.nodup (by decide +kernel)
  have hreach : workshop.Reaches workshop.marking (.ofList [0, 1, 0, 0]) :=
    ⟨[⟨0⟩], by decide +kernel⟩
  have hgrow : workshop.Reaches (.ofList [0, 1, 0, 0]) (.ofList [0, 1, 0, 1]) :=
    ⟨[⟨1⟩, ⟨2⟩], by decide +kernel⟩
  have hle (p : PlaceId) : Marking.tokens (.ofList [0, 1, 0, 0]) p
      ≤ Marking.tokens (.ofList [0, 1, 0, 1]) p := by
    obtain ⟨i⟩ := p
    match i with
    | 0 | 1 | 2 | 3 => decide
    | i + 4 => exact Nat.le_refl 0
  have hsize := hreach.size_eq.trans workshop.size_marking
  obtain ⟨hnever, hlimit⟩ := growth_never_finite h
    (h.wellFormed.leads_of_reaches workshop.size_marking hreach)
    (h.wellFormed.leads_of_reaches hsize hgrow) hle (by decide)
  refine ⟨Net.canReach_iff.mpr hreach, hgrow, hnever, fun limit hlt => hlimit limit ?_⟩
  exact hfills.firesBelow h.wellFormed (max_lt hlt (by decide))

end RoutePolicy
