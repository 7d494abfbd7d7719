import RoutePolicy.Proofs.PathSet
import RoutePolicy.Proofs.Route.RouteNet

set_option autoImplicit false

/-! # What fires in the net of a route is what the source leads to

A marker is only found where used arcs lead from the source, and each transition has a place
before it. So the transitions that can fire are those that can be reached from the source along
used arcs (`RouteNet.Sound.reachable_iff_fires`). -/

namespace RoutePolicy

variable {net : Net} {limit : Option Nat} {g : StepGraph} {m m' : Marking} {t : TransitionId}

/-- A transition of the moves of a step graph is one that fires. -/
theorem exists_move_iff (hg : net.stepGraph limit = .ok g) :
    (∃ v ∈ g.moves.toList, v.transition = t) ↔ net.Fires t := by
  rw [exists_move_iff_fires hg, Net.fires_iff]

/-- The arcs at a transition that fires are used. -/
theorem StepGraph.uses_of_fires (hg : net.stepGraph limit = .ok g) (ht : net.Fires t)
    {n n' : Node} (harc : ⟨n, n'⟩ ∈ net.arcs.toList) (hat : t.node = n ∨ t.node = n') :
    g.Uses n n' := by
  obtain ⟨v, hv, rfl⟩ := (exists_move_iff hg).mpr ht
  exact ⟨net_of_stepGraph hg ▸ harc, v, hv, hat⟩

/-- The transition at a used arc from a place fires. -/
theorem StepGraph.fires_of_uses (hg : net.stepGraph limit = .ok g) {p : PlaceId}
    (h : g.Uses p.node t.node) : net.Fires t := by
  obtain ⟨-, v, hv, hat | hat⟩ := h
  · exact absurd hat.symm (Net.node_ne_node p _)
  · exact (exists_move_iff hg).mp ⟨v, hv, Handle.node_inj.mp hat⟩

/-- Used arcs lead from transitions to places, and from places to transitions. -/
theorem StepGraph.Uses.exists_place (hwf : g.net.WellFormed) {n : Node} (h : g.Uses t.node n) :
    ∃ p : PlaceId, n = p.node := by
  obtain ⟨p, harc⟩ := hwf.exists_eq_from h.1 rfl
  exact ⟨p, (Arc.mk.inj harc).2⟩

theorem StepGraph.Uses.exists_transition (hwf : g.net.WellFormed) {p : PlaceId} {n : Node}
    (h : g.Uses p.node n) : ∃ t : TransitionId, n = t.node := by
  rcases hwf.exists_ends h.1 with ⟨p', t, harc⟩ | ⟨t, p', harc⟩
  · exact ⟨t, (Arc.mk.inj harc).2⟩
  · exact absurd (Arc.mk.inj harc).1 (Net.node_ne_node p t)

/-- What leads to a transition leads to a place from which it is used. -/
theorem StepGraph.exists_uses_of_reaches (hwf : g.net.WellFormed) {p : PlaceId}
    (h : Relation.ReflTransGen g.Uses p.node t.node) : ∃ q : PlaceId,
      Relation.ReflTransGen g.Uses p.node q.node ∧ g.Uses q.node t.node := by
  rcases Relation.ReflTransGen.cases_tail h with heq | ⟨n, hreach, hlast⟩
  · exact absurd heq.symm (Net.node_ne_node p t)
  · obtain ⟨q, harc⟩ := hwf.exists_eq_into hlast.1 rfl
    obtain ⟨rfl, -⟩ := Arc.mk.inj harc
    exact ⟨q, hreach, hlast⟩

namespace RouteNet.Sound

variable {b : RouteNet}

/-- Every marked place is one that the source leads to. -/
theorem reachable_of_marked (h : b.Sound) (hg : b.net.stepGraph limit = .ok g)
    (hm : b.net.Reaches b.net.marking m) {p : PlaceId} (hp : 0 < m.tokens p) :
    Relation.ReflTransGen g.Uses b.source.node p.node := by
  have hwf := h.net.wellFormed
  refine hm.induction (P := fun m => ∀ p, 0 < m.tokens p →
    Relation.ReflTransGen g.Uses b.source.node p.node) ?_ ?_ p hp
  · intro p hp
    rw [h.tokens] at hp
    split at hp
    · rename_i heq
      rw [heq]
    · exact absurd hp (Nat.lt_irrefl 0)
  · intro m₁ t m₂ hm₁ ih hf q hq
    have ht : b.net.Fires t := Net.fires_iff.mpr ⟨m₁, hm₁, m₂, hf⟩
    rw [hwf.tokens_fireAt hf] at hq
    by_cases hold : 0 < m₁.tokens q
    · exact ih q hold
    -- the marker was put there by the transition, which took one from a place before it
    · have harc : ⟨t.node, q.node⟩ ∈ b.net.arcs.toList := by
        by_contra hnone
        have : b.net.arcCount t.node q.node = 0 := List.count_eq_zero.mpr hnone
        omega
      obtain ⟨p, hp⟩ :=
        h.input t (Net.contains_of_isEnabledAt (Net.fireAt_eq_ok_iff.mp hf).1)
      have hmarked := hwf.marked_of_fireAt (hm₁.size_eq.trans b.net.size_marking) hf hp
      exact ((ih p hmarked).tail (StepGraph.uses_of_fires hg ht hp (Or.inr rfl))).tail
        (StepGraph.uses_of_fires hg ht harc (Or.inl rfl))

/-- A transition that fires is used from a place that the source leads to. -/
theorem exists_uses_of_fires (h : b.Sound) (hg : b.net.stepGraph limit = .ok g)
    (ht : b.net.Fires t) : ∃ p : PlaceId,
      Relation.ReflTransGen g.Uses b.source.node p.node ∧ g.Uses p.node t.node := by
  obtain ⟨m, hm, m', hf⟩ := Net.fires_iff.mp ht
  obtain ⟨p, hp⟩ := h.input t (Net.contains_of_isEnabledAt (Net.fireAt_eq_ok_iff.mp hf).1)
  have hmarked := h.net.wellFormed.marked_of_fireAt
    (hm.size_eq.trans b.net.size_marking) hf hp
  exact ⟨p, h.reachable_of_marked hg hm hmarked, StepGraph.uses_of_fires hg ht hp (Or.inr rfl)⟩

/-- **The transitions that can fire are those that used arcs lead to from the source.** -/
theorem reachable_iff_fires (h : b.Sound) (hg : b.net.stepGraph limit = .ok g) :
    Relation.ReflTransGen g.Uses b.source.node t.node ↔ b.net.Fires t := by
  constructor
  · intro hreach
    obtain ⟨q, -, hlast⟩ :=
      StepGraph.exists_uses_of_reaches (net_of_stepGraph hg ▸ h.net.wellFormed) hreach
    exact StepGraph.fires_of_uses hg hlast
  · intro ht
    obtain ⟨p, hp, hlast⟩ := h.exists_uses_of_fires hg ht
    exact hp.tail hlast

end RouteNet.Sound

end RoutePolicy
