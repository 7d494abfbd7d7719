import Mathlib.Logic.Equiv.Basic
import RoutePolicy.Proofs.Net.Matching
import RoutePolicy.Proofs.Simulation

set_option autoImplicit false

/-! # Nets with their nodes and arcs numbered in another way

A renumbering permutes the numbers of each kind. A net is renumbered when the nodes hold under their
new numbers what they held under the old ones, and the arcs lead between the same nodes, in whatever
order (`Net.Renumbers`). Then both nets match (`Net.Renumbers.matching`), and so do their unfolded
nets (`Net.Renumbers.unfolded`). -/

namespace RoutePolicy

/-- A permutation of the numbers of each kind. -/
abbrev Renumbering := (k : Kind) → Equiv.Perm (Handle k)

namespace Renumbering

/-- The renumbering that undoes another one. -/
def symm (ρ : Renumbering) : Renumbering := fun k => (ρ k).symm

/-- The renumbering of nodes of both kinds. -/
def node (ρ : Renumbering) : Equiv.Perm Node where
  toFun n := (ρ n.kind ⟨n.index⟩).node
  invFun n := ((ρ n.kind).symm ⟨n.index⟩).node
  left_inv n := congrArg Handle.node ((ρ n.kind).symm_apply_apply ⟨n.index⟩)
  right_inv n := congrArg Handle.node ((ρ n.kind).apply_symm_apply ⟨n.index⟩)

/-- The renumbering of arcs, by the nodes at their ends. -/
def arc (ρ : Renumbering) : Equiv.Perm Arc where
  toFun a := ⟨ρ.node a.source, ρ.node a.target⟩
  invFun a := ⟨ρ.node.symm a.source, ρ.node.symm a.target⟩
  left_inv a := by simp
  right_inv a := by simp

variable (ρ : Renumbering)

@[simp] theorem node_handle {k : Kind} (h : Handle k) : ρ.node h.node = (ρ k h).node := rfl

@[simp] theorem node_symm_apply (n : Node) : ρ.symm.node (ρ.node n) = n :=
  ρ.node.symm_apply_apply n

@[simp] theorem symm_apply_apply {k : Kind} (h : Handle k) : ρ.symm k (ρ k h) = h :=
  (ρ k).symm_apply_apply h

@[simp] theorem apply_symm_apply {k : Kind} (h : Handle k) : ρ k (ρ.symm k h) = h :=
  (ρ k).apply_symm_apply h

@[simp] theorem arc_symm_apply (a : Arc) : ρ.symm.arc (ρ.arc a) = a := ρ.arc.symm_apply_apply a

@[simp] theorem arc_apply_symm (a : Arc) : ρ.arc (ρ.symm.arc a) = a := ρ.arc.apply_symm_apply a

end Renumbering

variable {net net' u u' : Net} {ρ : Renumbering} {p : PlaceId} {t : TransitionId}

namespace Net

/-- Under the new numbers the nodes of the second net hold what those of the first one hold, and the
arcs lead between the same nodes. -/
structure Renumbers (ρ : Renumbering) (net net' : Net) : Prop where
  place : ∀ p, net'.placeData? (ρ .place p) = net.placeData? p
  transition : ∀ t, net'.transitionData? (ρ .transition t) = net.transitionData? t
  arcs : ∀ a, ρ.arc a ∈ net'.arcs.toList ↔ a ∈ net.arcs.toList

/-- The places of the unfolded nets: those of the nets, and inner places. -/
inductive InnerMatch (ρ : Renumbering) (net net' : Net) : PlaceId → PlaceId → Prop
  | kept (p : PlaceId) : net.contains p.node = true → InnerMatch ρ net net' p (ρ .place p)
  | inner (t : TransitionId) : net.IsApp t →
      InnerMatch ρ net net' (net.innerOf t) (net'.innerOf (ρ .transition t))

/-- The transitions of the unfolded nets: the starts and the ends. -/
inductive EndMatch (ρ : Renumbering) (net net' : Net) : TransitionId → TransitionId → Prop
  | start (t : TransitionId) : net.contains t.node = true →
      EndMatch ρ net net' (net.startOf t) (net'.startOf (ρ .transition t))
  | finish (t : TransitionId) : net.contains t.node = true →
      EndMatch ρ net net' (net.endOf t) (net'.endOf (ρ .transition t))

namespace Renumbers

theorem symm (h : net.Renumbers ρ net') : net'.Renumbers ρ.symm net where
  place p := by rw [← h.place, ρ.apply_symm_apply]
  transition t := by rw [← h.transition, ρ.apply_symm_apply]
  arcs a := by rw [← h.arcs, ρ.arc_apply_symm]

section

variable (h : net.Renumbers ρ net')

include h

theorem contains_place (p : PlaceId) :
    net'.contains (ρ .place p).node = true ↔ net.contains p.node = true := by
  rw [contains_iff_placeData?, contains_iff_placeData?, h.place]

theorem contains_transition (t : TransitionId) :
    net'.contains (ρ .transition t).node = true ↔ net.contains t.node = true := by
  rw [contains_iff_transitionData?, contains_iff_transitionData?, h.transition]

theorem tokens (p : PlaceId) : net'.marking.tokens (ρ .place p) = net.marking.tokens p := by
  rw [tokens_marking, tokens_marking, h.place]

theorem exists_get? {x : Transition} (hx : net.transitions.get? t = some x) :
    ∃ x', net'.transitions.get? (ρ .transition t) = some x' ∧ x'.data = x.data :=
  transitionData?_eq_some_iff.mp ((h.transition t).trans (by rw [transitionData?, hx]; rfl))

/-- The role of a transition is part of what it holds. -/
theorem exists_role (ht : net.contains t.node = true) :
    ∃ x x', net.transitions.get? t = some x ∧
      net'.transitions.get? (ρ .transition t) = some x' ∧ x'.role = x.role := by
  obtain ⟨x, hx⟩ := Arena.contains_iff_exists.mp ht
  obtain ⟨x', hx', hdata⟩ := h.exists_get? hx
  exact ⟨x, x', hx, hx', show x'.data.role = x.data.role from congrArg Transition.role hdata⟩

theorem isApp (ht : net.IsApp t) : net'.IsApp (ρ .transition t) := by
  obtain ⟨x, x', hx, hx', hrole⟩ := h.exists_role ht.contains
  obtain ⟨y, hy, happ⟩ := ht
  obtain rfl := Option.some.inj (hx.symm.trans hy)
  exact ⟨x', hx', hrole.trans happ⟩

variable (hnet : net.Ordinary) (hnet' : net'.Ordinary)

include hnet hnet'

theorem arcCount (n n' : Node) :
    net'.arcCount (ρ.node n) (ρ.node n') = net.arcCount n n' := by
  rw [Net.arcCount, Net.arcCount, hnet'.nodup.count, hnet.nodup.count]
  exact if_congr (h.arcs ⟨n, n'⟩) rfl rfl

/-- **A net and its renumbered net match.** -/
theorem matching : net.Matching net' (fun p p' => net.contains p.node = true ∧ p' = ρ .place p)
    (fun t t' => net.contains t.node = true ∧ t' = ρ .transition t) where
  places := by
    rintro p _ ⟨hp, rfl⟩
    exact ⟨hp, (h.contains_place p).mpr hp⟩
  unique := by
    rintro p q _ _ ⟨-, rfl⟩ ⟨-, rfl⟩
    exact (ρ .place).apply_eq_iff_eq.symm
  right p hp := ⟨_, hp, rfl⟩
  left p' hp' := ⟨ρ.symm .place p', by
    rw [← h.contains_place, ρ.apply_symm_apply]
    exact hp', (ρ.apply_symm_apply p').symm⟩
  transitions := by
    rintro t _ ⟨ht, rfl⟩
    exact ⟨ht, (h.contains_transition t).mpr ht⟩
  rightTransition t ht := ⟨_, ht, rfl⟩
  leftTransition t' ht' := ⟨ρ.symm .transition t', by
    rw [← h.contains_transition, ρ.apply_symm_apply]
    exact ht', (ρ.apply_symm_apply t').symm⟩
  takes := by
    rintro p _ t _ ⟨-, rfl⟩ ⟨-, rfl⟩
    exact h.arcCount hnet hnet' p.node t.node
  puts := by
    rintro p _ t _ ⟨-, rfl⟩ ⟨-, rfl⟩
    exact h.arcCount hnet hnet' t.node p.node
  tokens := by
    rintro p _ ⟨-, rfl⟩
    exact h.tokens p

end

/-! ## Unfolded nets -/

theorem innerMatch_unique (h : net.Renumbers ρ net') {p q p' q' : PlaceId}
    (hp : InnerMatch ρ net net' p p') (hq : InnerMatch ρ net net' q q') : p = q ↔ p' = q' := by
  cases hp with
  | kept p hp =>
      cases hq with
      | kept q hq => exact (ρ .place).apply_eq_iff_eq.symm
      | inner s hs =>
          exact iff_of_false (ne_innerOf hp s) (ne_innerOf ((h.contains_place p).mpr hp) _)
  | inner t ht =>
      cases hq with
      | kept q hq =>
          exact iff_of_false (ne_innerOf hq t).symm
            (ne_innerOf ((h.contains_place q).mpr hq) _).symm
      | inner s hs =>
          rw [ht.innerOf_inj hs, (h.isApp ht).innerOf_inj (h.isApp hs)]
          exact (ρ .transition).apply_eq_iff_eq.symm

section

variable (h : net.Renumbers ρ net') (hnet : net.Ordinary) (hnet' : net'.Ordinary)

include h hnet hnet'

/-- No arc of the nets is at an inner place. -/
theorem arcCount_of_innerMatch {p p' : PlaceId} (hp : InnerMatch ρ net net' p p')
    (t : TransitionId) :
    net'.arcCount p'.node (ρ .transition t).node = net.arcCount p.node t.node ∧
      net'.arcCount (ρ .transition t).node p'.node = net.arcCount t.node p.node := by
  cases hp with
  | kept p _ =>
      exact ⟨h.arcCount hnet hnet' p.node t.node, h.arcCount hnet hnet' t.node p.node⟩
  | inner s _ =>
      obtain ⟨hinto, hfrom⟩ := hnet.wellFormed.arcCount_eq_zero (not_contains_innerOf net s) t.node
      obtain ⟨hinto', hfrom'⟩ := hnet'.wellFormed.arcCount_eq_zero
        (not_contains_innerOf net' (ρ .transition s)) (ρ .transition t).node
      exact ⟨hinto'.trans hinto.symm, hfrom'.trans hfrom.symm⟩

variable (hu : net.UnfoldsTo u) (hu' : net'.UnfoldsTo u')

include hu hu'

/-- The starts take in what the transitions do, and the ends of processing steps what their inner
places hold. -/
theorem takes_of_endMatch {p p' : PlaceId} {v v' : TransitionId}
    (hp : InnerMatch ρ net net' p p') (hv : EndMatch ρ net net' v v') :
    u'.arcCount p'.node v'.node = u.arcCount p.node v.node := by
  have hstart (t : TransitionId) (ht : net.contains t.node = true) :
      u'.arcCount p'.node (net'.startOf (ρ .transition t)).node
        = u.arcCount p.node (net.startOf t).node := by
    rw [hu.takes t ht, hu'.takes _ ((h.contains_transition t).mpr ht),
      (h.arcCount_of_innerMatch hnet hnet' hp t).1]
  cases hv with
  | start t ht => exact hstart t ht
  | finish t ht =>
      obtain ⟨x, x', hx, hx', hrole'⟩ := h.exists_role ht
      cases hrole : x.role with
      | control =>
          rw [← hu.control t x hx hrole, ← hu'.control _ x' hx' (hrole'.trans hrole)]
          exact hstart t ht
      | app =>
          rw [hu.finishes t x hx hrole, hu'.finishes _ x' hx' (hrole'.trans hrole)]
          exact if_congr (h.innerMatch_unique hp (.inner t ⟨x, hx, hrole⟩)).symm rfl rfl

/-- The ends put out what the transitions do, and the starts of processing steps what goes into their
inner places. -/
theorem puts_of_endMatch {p p' : PlaceId} {v v' : TransitionId}
    (hp : InnerMatch ρ net net' p p') (hv : EndMatch ρ net net' v v') :
    u'.arcCount v'.node p'.node = u.arcCount v.node p.node := by
  have hend (t : TransitionId) (ht : net.contains t.node = true) :
      u'.arcCount (net'.endOf (ρ .transition t)).node p'.node
        = u.arcCount (net.endOf t).node p.node := by
    rw [hu.puts t ht, hu'.puts _ ((h.contains_transition t).mpr ht),
      (h.arcCount_of_innerMatch hnet hnet' hp t).2]
  cases hv with
  | finish t ht => exact hend t ht
  | start t ht =>
      obtain ⟨x, x', hx, hx', hrole'⟩ := h.exists_role ht
      cases hrole : x.role with
      | control =>
          rw [hu.control t x hx hrole, hu'.control _ x' hx' (hrole'.trans hrole)]
          exact hend t ht
      | app =>
          rw [hu.begins t x hx hrole, hu'.begins _ x' hx' (hrole'.trans hrole)]
          exact if_congr (h.innerMatch_unique hp (.inner t ⟨x, hx, hrole⟩)).symm rfl rfl

omit hnet hnet' in
theorem contains_of_endMatch {v v' : TransitionId} (hv : EndMatch ρ net net' v v') :
    u.contains v.node = true ∧ u'.contains v'.node = true := by
  cases hv with
  | start t ht => exact ⟨hu.hasStart t ht, hu'.hasStart _ ((h.contains_transition t).mpr ht)⟩
  | finish t ht => exact ⟨hu.hasEnd t ht, hu'.hasEnd _ ((h.contains_transition t).mpr ht)⟩

omit hnet hnet' in
theorem tokens_of_innerMatch {p p' : PlaceId} (hp : InnerMatch ρ net net' p p') :
    u'.marking.tokens p' = u.marking.tokens p := by
  rw [hu.tokens, hu'.tokens]
  cases hp with
  | kept p _ => exact h.tokens p
  | inner t _ => rw [tokens_innerOf net.size_marking, tokens_innerOf net'.size_marking]

/-- **The unfolded nets of a net and of its renumbered net match.** -/
theorem unfolded (ha : net.AddsInner u) (ha' : net'.AddsInner u') :
    u.Matching u' (InnerMatch ρ net net') (EndMatch ρ net net') where
  places := by
    intro p p' hp
    cases hp with
    | kept _ hp =>
        have hp' := (h.contains_place p).mpr hp
        rw [contains_iff_placeData?, contains_iff_placeData?, ha.kept p hp, ha'.kept _ hp',
          ← contains_iff_placeData?, ← contains_iff_placeData?]
        exact ⟨hp, hp'⟩
    | inner t ht =>
        obtain ⟨x, hx, happ⟩ := ht
        obtain ⟨x', hx', happ'⟩ := h.isApp ⟨x, hx, happ⟩
        exact ⟨contains_iff_placeData?.mpr ⟨_, hu.inner t x hx happ⟩,
          contains_iff_placeData?.mpr ⟨_, hu'.inner _ x' hx' happ'⟩⟩
  unique := h.innerMatch_unique
  right p hp := by
    rcases ha.only p hp with hp | ⟨t, ht, rfl⟩
    · exact ⟨_, .kept p hp⟩
    · exact ⟨_, .inner t ht⟩
  left p' hp' := by
    rcases ha'.only p' hp' with hp' | ⟨t', ht', rfl⟩
    · obtain ⟨p, rfl⟩ := (ρ .place).surjective p'
      exact ⟨_, .kept p ((h.contains_place p).mp hp')⟩
    · obtain ⟨t, rfl⟩ := (ρ .transition).surjective t'
      have ht := h.symm.isApp ht'
      rw [ρ.symm_apply_apply] at ht
      exact ⟨_, .inner t ht⟩
  transitions := h.contains_of_endMatch hu hu'
  rightTransition v hv := by
    obtain ⟨t, ht, rfl | rfl⟩ := hu.covers v hv
    · exact ⟨_, .start t ht⟩
    · exact ⟨_, .finish t ht⟩
  leftTransition v' hv' := by
    obtain ⟨t', ht', hv'⟩ := hu'.covers v' hv'
    obtain ⟨t, rfl⟩ := (ρ .transition).surjective t'
    have ht := (h.contains_transition t).mp ht'
    rcases hv' with rfl | rfl
    · exact ⟨_, .start t ht⟩
    · exact ⟨_, .finish t ht⟩
  takes := h.takes_of_endMatch hnet hnet' hu hu'
  puts := h.puts_of_endMatch hnet hnet' hu hu'
  tokens := h.tokens_of_innerMatch hu hu'

end

end Renumbers

end Net

end RoutePolicy
