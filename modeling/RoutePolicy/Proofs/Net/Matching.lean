import RoutePolicy.Proofs.Net.Progress
import RoutePolicy.Proofs.StateLimit

set_option autoImplicit false

/-! # Nets that match up to the numbers of their nodes

The places of two nets are matched one to one, and so are their transitions, such that matched nodes
have as many arcs between them and matched places start with as many markers (`Net.Matching`). A
firing in one net is then a firing in the other, so markings that correspond to each other are
reached in both, and there are as many of them (`Net.Matching.encard_eq`). Under a limit both nets
are explored to the end with as many steps, or fail alike (`Net.Matching.stepGraph`). -/

namespace RoutePolicy

variable {net net' u u' : Net} {P : PlaceId → PlaceId → Prop}
  {T : TransitionId → TransitionId → Prop} {m m' m₁ m₁' : Marking} {t t' : TransitionId}
  {limit : Nat}

namespace Net

/-- Each place of one net is matched with one place of the other, each transition with some
transition, and matched nodes have the same arcs and markers. -/
structure Matching (net net' : Net) (P : PlaceId → PlaceId → Prop)
    (T : TransitionId → TransitionId → Prop) : Prop where
  places : ∀ {p p'}, P p p' → net.contains p.node = true ∧ net'.contains p'.node = true
  unique : ∀ {p q p' q'}, P p p' → P q q' → (p = q ↔ p' = q')
  right : ∀ p : PlaceId, net.contains p.node = true → ∃ p', P p p'
  left : ∀ p' : PlaceId, net'.contains p'.node = true → ∃ p, P p p'
  transitions : ∀ {t t'}, T t t' → net.contains t.node = true ∧ net'.contains t'.node = true
  rightTransition : ∀ t : TransitionId, net.contains t.node = true → ∃ t', T t t'
  leftTransition : ∀ t' : TransitionId, net'.contains t'.node = true → ∃ t, T t t'
  takes : ∀ {p p' t t'}, P p p' → T t t' →
    net'.arcCount p'.node t'.node = net.arcCount p.node t.node
  puts : ∀ {p p' t t'}, P p p' → T t t' →
    net'.arcCount t'.node p'.node = net.arcCount t.node p.node
  tokens : ∀ {p p'}, P p p' → net'.marking.tokens p' = net.marking.tokens p

/-- The markings count the places of their nets, and matched places have as many markers. -/
structure Corresponds (net net' : Net) (P : PlaceId → PlaceId → Prop) (m m' : Marking) : Prop where
  size : m.size = net.places.size
  size' : m'.size = net'.places.size
  tokens : ∀ {p p'}, P p p' → m'.tokens p' = m.tokens p

namespace Matching

theorem symm (h : net.Matching net' P T) : net'.Matching net (flip P) (flip T) where
  places hp := (h.places hp).symm
  unique hp hq := (h.unique hp hq).symm
  right := h.left
  left := h.right
  transitions ht := (h.transitions ht).symm
  rightTransition := h.leftTransition
  leftTransition := h.rightTransition
  takes hp ht := (h.takes hp ht).symm
  puts hp ht := (h.puts hp ht).symm
  tokens hp := (h.tokens hp).symm

/-- A marking corresponds to one marking only. -/
theorem corresponds_unique (h : net.Matching net' P T) (hm : net.Corresponds net' P m m')
    (hm₁ : net.Corresponds net' P m m₁') : m' = m₁' := by
  refine Marking.ext_tokens (hm.size'.trans hm₁.size'.symm) fun p' => ?_
  by_cases hp' : net'.contains p'.node = true
  · obtain ⟨p, hp⟩ := h.left p' hp'
    rw [hm.tokens hp, hm₁.tokens hp]
  · rw [Marking.tokens_eq_zero fun hin => hp' ((contains_iff_of_size hm.size').mp hin),
      Marking.tokens_eq_zero fun hin => hp' ((contains_iff_of_size hm₁.size').mp hin)]

theorem corresponds_marking (h : net.Matching net' P T) :
    net.Corresponds net' P net.marking net'.marking :=
  ⟨net.size_marking, net'.size_marking, h.tokens⟩

/-! ## Firing -/

section

variable (h : net.Matching net' P T) (hnet : net.WellFormed) (hnet' : net'.WellFormed)

include h hnet'

theorem enables (ht : T t t') (hm : net.Corresponds net' P m m') (hen : net.Enables m t) :
    net'.Enables m' t' := by
  refine ⟨(h.transitions ht).2, fun p' hp' => ?_⟩
  obtain ⟨p, hp⟩ := h.left p' (hnet'.source _ hp')
  rw [hm.tokens hp]
  exact hen.2 p (arcCount_pos_iff.mp (h.takes hp ht ▸ arcCount_pos_iff.mpr hp'))

include hnet

/-- A firing in one net is a firing in the other. -/
theorem exists_fireAt (ht : T t t') (hm : net.Corresponds net' P m m')
    (hf : net.fireAt m t = .ok m₁) :
    ∃ m₁', net'.fireAt m' t' = .ok m₁' ∧ net.Corresponds net' P m₁ m₁' := by
  obtain ⟨hen, hrange⟩ := (hnet.exists_fireAt_iff hm.size).mp ⟨m₁, hf⟩
  obtain ⟨m₁', hf'⟩ := (hnet'.exists_fireAt_iff hm.size').mpr
    ⟨h.enables hnet' ht hm hen, fun p' hp' => by
      obtain ⟨p, hp⟩ := h.left p' (hnet'.target _ (arcCount_pos_iff.mp hp'))
      rw [hm.tokens hp, h.takes hp ht, h.puts hp ht]
      exact hrange p (h.puts hp ht ▸ hp')⟩
  refine ⟨m₁', hf', (size_fireAt hf).trans hm.size, (size_fireAt hf').trans hm.size', ?_⟩
  intro p p' hp
  rw [hnet.tokens_fireAt hf, hnet'.tokens_fireAt hf', hm.tokens hp, h.takes hp ht, h.puts hp ht]

/-- **Markings that correspond to each other are reached in both nets.** -/
theorem exists_reaches (hm : net.Reaches net.marking m) :
    ∃ m', net'.Reaches net'.marking m' ∧ net.Corresponds net' P m m' := by
  refine hm.induction (P := fun m => ∃ m', net'.Reaches net'.marking m' ∧
    net.Corresponds net' P m m') ⟨net'.marking, .refl net' _, h.corresponds_marking⟩ ?_
  rintro m₁ t m₂ - ⟨m₁', hm₁', hcorr⟩ hf
  have ht : net.contains t.node = true := contains_of_isEnabledAt (fireAt_eq_ok_iff.mp hf).1
  obtain ⟨t', ht'⟩ := h.rightTransition t ht
  obtain ⟨m₂', hf', hcorr'⟩ := h.exists_fireAt hnet hnet' ht' hcorr hf
  exact ⟨m₂', hm₁'.tail hf', hcorr'⟩

/-- No more markings are reached than in the other net. -/
theorem encard_le : {m | net.Reaches net.marking m}.encard
    ≤ {m | net'.Reaches net'.marking m}.encard := by
  choose! f hf using fun m (hm : net.Reaches net.marking m) => h.exists_reaches hnet hnet' hm
  refine Set.encard_le_encard_of_injOn (f := f) (fun m hm => (hf m hm).1) fun m hm m₁ hm₁ heq => ?_
  have hback {m : Marking} (hm : net.Reaches net.marking m) :
      net'.Corresponds net (flip P) (f m) m :=
    ⟨(hf m hm).2.size', (hf m hm).2.size, fun hp => ((hf m hm).2.tokens hp).symm⟩
  exact h.symm.corresponds_unique (hback hm) (heq ▸ hback hm₁)

/-- **As many markings are reached in both nets.** -/
theorem encard_eq : {m | net.Reaches net.marking m}.encard
    = {m | net'.Reaches net'.marking m}.encard :=
  le_antisymm (h.encard_le hnet hnet') (h.symm.encard_le hnet' hnet)

/-- **Under a limit both nets have as many steps, or both fail alike.** -/
theorem stepGraph (hfire : net.FiresBelow (max limit 1)) (hfire' : net'.FiresBelow (max limit 1)) :
    (∃ g g', net.stepGraph (some limit) = .ok g ∧ net'.stepGraph (some limit) = .ok g' ∧
      g'.stepCount = g.stepCount) ∨
    ∃ failure, net.stepGraph (some limit) = .error failure ∧
      net'.stepGraph (some limit) = .error failure := by
  have hencard := h.encard_eq hnet hnet'
  have hiff : net'.Exceeds limit ↔ net.Exceeds limit := by rw [Exceeds, Exceeds, hencard]
  obtain ⟨hok, herror⟩ := hnet.stepGraph_of_limit hfire
  obtain ⟨hok', herror'⟩ := hnet'.stepGraph_of_limit hfire'
  by_cases hexceeds : net.Exceeds limit
  · exact Or.inr ⟨_, herror hexceeds, herror' (hiff.mpr hexceeds)⟩
  · obtain ⟨g, hg⟩ := hok hexceeds
    obtain ⟨g', hg'⟩ := hok' fun hexceeds' => hexceeds (hiff.mp hexceeds')
    rw [(encard_of_stepGraph hnet hg).1, (encard_of_stepGraph hnet' hg').1] at hencard
    exact Or.inl ⟨g, g', hg, hg', (Nat.cast_inj.mp hencard).symm⟩

end

end Matching

end Net

end RoutePolicy
