import Mathlib.Logic.Relation
import RoutePolicy.Proofs.Net.Firing

set_option autoImplicit false

/-! # Firing without a limit on the counts

A firing fails when a place gets more markers than can be counted in 64 bits. What a transition does
apart from this limit is a move (`Net.Moves`), and a net leads to a marking when moves do
(`Net.Leads`). A firing is a move to counts within the limit (`Net.WellFormed.fireAt_eq_ok_iff_moves`).
So a net leads to all markings that it reaches, and reaches all that it leads to if none of them
exceeds the limit. -/

namespace RoutePolicy

variable {net : Net} {m m' : Marking} {t : TransitionId} {f : PlaceId → Nat}

namespace Marking

theorem get?_eq_some_tokens {p : PlaceId} (hp : m.contains p = true) :
    m.get? p = some (m.tokens p) := by
  obtain ⟨n, hn⟩ := Arena.contains_iff_exists.mp hp
  rw [tokens, hn, Option.getD_some]

theorem tokens_eq_zero {p : PlaceId} (hp : ¬m.contains p = true) : m.tokens p = 0 := by
  rw [tokens, Arena.get?_eq_none_iff.mpr (Bool.not_eq_true _ ▸ hp), Option.getD_none]

/-- A marking is known by the number of places that it counts and by their markers. -/
theorem ext_tokens (hsize : m.size = m'.size) (h : ∀ p, m.tokens p = m'.tokens p) : m = m' := by
  obtain ⟨xs⟩ := m
  obtain ⟨ys⟩ := m'
  refine congrArg Arena.mk (Array.ext hsize fun i hi hi' => ?_)
  have hp := h ⟨i⟩
  rwa [tokens, tokens, Arena.get?, Arena.get?, show Index.position (⟨i⟩ : PlaceId) = i from rfl,
    Array.getElem?_eq_getElem hi, Array.getElem?_eq_getElem hi'] at hp

end Marking

namespace Net

/-- The marking of the net's places in which each holds as many markers as it is given. -/
def markingOf (net : Net) (f : PlaceId → Nat) : Marking := .ofList (net.places.indices.map f)

/-- The transition is enabled, takes one marker along each arc into it, and puts one along each arc
out of it. The counts may be of any size. -/
structure Moves (net : Net) (m : Marking) (t : TransitionId) (m' : Marking) : Prop where
  enabled : net.Enables m t
  size : m'.size = m.size
  tokens : ∀ p : PlaceId,
    m'.tokens p = m.tokens p - net.arcCount p.node t.node + net.arcCount t.node p.node

/-- Moves lead from one marking to the other. -/
def Leads (net : Net) : Marking → Marking → Prop :=
  Relation.ReflTransGen fun m m' => ∃ t, net.Moves m t m'

/-- No place into which the transition puts markers holds more than can be counted. -/
def InRange (net : Net) (t : TransitionId) (m : Marking) : Prop :=
  ∀ p : PlaceId, 0 < net.arcCount t.node p.node → m.tokens p < countRange

/-! ## Markings by their counts -/

theorem size_markingOf (net : Net) (f : PlaceId → Nat) :
    (net.markingOf f).size = net.places.size := by
  simp [markingOf, Arena.ofList, Arena.size, Arena.indices]

theorem contains_iff_of_size (hm : m.size = net.places.size) {p : PlaceId} :
    m.contains p = true ↔ net.contains p.node = true := by
  rw [Arena.contains_iff, hm]
  exact Arena.contains_iff.symm

theorem tokens_markingOf (net : Net) (f : PlaceId → Nat) (p : PlaceId) :
    (net.markingOf f).tokens p = if net.contains p.node = true then f p else 0 := by
  have hget : (net.markingOf f).get? p = (net.places.indices.map f)[p.index]? := by
    rw [markingOf, Arena.ofList, Arena.get?, List.getElem?_toArray]
    rfl
  split
  · rename_i hp
    have hp : p.index < net.places.size := Arena.contains_iff.mp hp
    rw [Marking.tokens, hget, List.getElem?_map, Arena.indices, List.getElem?_map,
      List.getElem?_range hp]
    rfl
  · rename_i hp
    refine Marking.tokens_eq_zero fun hin => hp ?_
    exact (contains_iff_of_size (net.size_markingOf f)).mp hin

theorem eq_markingOf (hm : m.size = net.places.size)
    (h : ∀ p : PlaceId, net.contains p.node = true → m.tokens p = f p) : m = net.markingOf f := by
  refine Marking.ext_tokens (hm.trans (net.size_markingOf f).symm) fun p => ?_
  rw [tokens_markingOf]
  split
  · rename_i hp
    exact h p hp
  · rename_i hp
    exact Marking.tokens_eq_zero fun hin => hp ((contains_iff_of_size hm).mp hin)

/-! ## Moves and firings -/

/-- Arcs lead only to and from nodes of the net. -/
theorem WellFormed.arcCount_eq_zero (h : net.WellFormed) {n : Node} (hn : ¬net.contains n = true)
    (n' : Node) : net.arcCount n n' = 0 ∧ net.arcCount n' n = 0 := by
  constructor
  · exact List.count_eq_zero.mpr fun hmem => hn (h.source _ hmem)
  · exact List.count_eq_zero.mpr fun hmem => hn (h.target _ hmem)

theorem Moves.eq {m'' : Marking} (h : net.Moves m t m') (h' : net.Moves m t m'') : m' = m'' :=
  Marking.ext_tokens (h.size.trans h'.size.symm) fun p => (h.tokens p).trans (h'.tokens p).symm

/-- An enabled transition can always move. -/
theorem WellFormed.exists_moves (h : net.WellFormed) (hm : m.size = net.places.size)
    (hen : net.Enables m t) : ∃ m', net.Moves m t m' := by
  refine ⟨net.markingOf fun p =>
    m.tokens p - net.arcCount p.node t.node + net.arcCount t.node p.node, hen,
    (net.size_markingOf _).trans hm.symm, fun p => ?_⟩
  rw [tokens_markingOf]
  split
  · rfl
  · rename_i hp
    obtain ⟨hfrom, hto⟩ := h.arcCount_eq_zero hp t.node
    rw [Marking.tokens_eq_zero fun hin => hp ((contains_iff_of_size hm).mp hin), hfrom, hto]

/-- **A firing is a move to counts within the limit.** -/
theorem WellFormed.fireAt_eq_ok_iff_moves (h : net.WellFormed) (hm : m.size = net.places.size) :
    net.fireAt m t = .ok m' ↔ net.Moves m t m' ∧ net.InRange t m' := by
  have hiff := h.exists_fireAt_iff (t := t) hm
  constructor
  · intro hf
    obtain ⟨hen, hrange⟩ := hiff.mp ⟨m', hf⟩
    have htokens := h.tokens_fireAt hf
    exact ⟨⟨hen, size_fireAt hf, htokens⟩, fun p hp => htokens p ▸ hrange p hp⟩
  · rintro ⟨hmoves, hrange⟩
    obtain ⟨m'', hf⟩ := hiff.mpr ⟨hmoves.enabled, fun p hp => hmoves.tokens p ▸ hrange p hp⟩
    obtain rfl : m'' = m' :=
      Moves.eq ⟨hmoves.enabled, size_fireAt hf, h.tokens_fireAt hf⟩ hmoves
    exact hf

theorem WellFormed.moves_of_fireAt (h : net.WellFormed) (hm : m.size = net.places.size)
    (hf : net.fireAt m t = .ok m') : net.Moves m t m' :=
  ((h.fireAt_eq_ok_iff_moves hm).mp hf).1

theorem Leads.size_eq (h : net.Leads m m') : m'.size = m.size := by
  induction h with
  | refl => rfl
  | tail _ hstep ih =>
      obtain ⟨t, hmoves⟩ := hstep
      exact hmoves.size.trans ih

theorem Leads.tail_moves {m₁ : Marking} (h : net.Leads m m₁) (hmoves : net.Moves m₁ t m') :
    net.Leads m m' := Relation.ReflTransGen.tail h ⟨t, hmoves⟩

theorem WellFormed.leads_of_reaches (h : net.WellFormed) (hm : m.size = net.places.size)
    (hreach : net.Reaches m m') : net.Leads m m' := by
  refine hreach.induction (P := net.Leads m) .refl fun m₁ t m₂ hm₁ hlead hf => ?_
  exact hlead.tail_moves (h.moves_of_fireAt (hm₁.size_eq.trans hm) hf)

/-- As long as every move can be fired, a net reaches what it leads to. -/
theorem Leads.reaches (hlead : net.Leads m m') (hfire : ∀ m₁ t m₂, net.Reaches m m₁ →
    net.Moves m₁ t m₂ → net.fireAt m₁ t = .ok m₂) : net.Reaches m m' := by
  induction hlead with
  | refl => exact .refl net m
  | tail _ hstep ih =>
      obtain ⟨t, hmoves⟩ := hstep
      exact ih.tail (hfire _ t _ ih hmoves)

/-- **Without counts beyond the limit a net reaches exactly what it leads to.** -/
theorem WellFormed.reaches_iff_leads (h : net.WellFormed) (hm : m.size = net.places.size)
    (hrange : ∀ m₁, net.Leads m m₁ → ∀ p, m₁.tokens p < countRange) :
    net.Reaches m m' ↔ net.Leads m m' := by
  refine ⟨h.leads_of_reaches hm, fun hlead => hlead.reaches fun m₁ t m₂ hm₁ hmoves => ?_⟩
  have hlead := (h.leads_of_reaches hm hm₁).tail_moves hmoves
  exact (h.fireAt_eq_ok_iff_moves (hm₁.size_eq.trans hm)).mpr ⟨hmoves, fun p _ => hrange _ hlead p⟩

/-! ## Nets with single arcs -/

/-- A net in which at most one arc leads from one node to another, with markers that can be
counted. -/
structure Ordinary (net : Net) : Prop where
  wellFormed : net.WellFormed
  nodup : net.arcs.toList.Nodup
  start : ∀ p, net.marking.tokens p < countRange

theorem Ordinary.arcCount_le_one (h : net.Ordinary) (n n' : Node) : net.arcCount n n' ≤ 1 :=
  List.nodup_iff_count_le_one.mp h.nodup _

/-- With single arcs an enabled transition finds all the markers that it takes. -/
theorem arcCount_le_tokens (hnodup : net.arcs.toList.Nodup) (hen : net.Enables m t) (p : PlaceId) :
    net.arcCount p.node t.node ≤ m.tokens p := by
  rcases Nat.eq_zero_or_pos (net.arcCount p.node t.node) with hzero | hpos
  · rw [hzero]
    exact Nat.zero_le _
  · calc net.arcCount p.node t.node ≤ 1 := List.nodup_iff_count_le_one.mp hnodup _
      _ ≤ m.tokens p := hen.2 p (arcCount_pos_iff.mp hpos)

theorem Ordinary.arcCount_le (h : net.Ordinary) (hen : net.Enables m t) (p : PlaceId) :
    net.arcCount p.node t.node ≤ m.tokens p := arcCount_le_tokens h.nodup hen p

/-- No firing leads to more markers in a place than can be counted. -/
theorem WellFormed.tokens_lt (h : net.WellFormed)
    (hstart : ∀ p, net.marking.tokens p < countRange) (hm : net.Reaches net.marking m)
    (p : PlaceId) : m.tokens p < countRange := by
  refine hm.induction (P := fun m => m.tokens p < countRange) (hstart p) ?_
  intro m₁ t m₂ hm₁ hlt hf
  obtain ⟨-, hrange⟩ := (h.exists_fireAt_iff (hm₁.size_eq.trans net.size_marking)).mp ⟨m₂, hf⟩
  rw [h.tokens_fireAt hf]
  rcases Nat.eq_zero_or_pos (net.arcCount t.node p.node) with hzero | hpos
  · omega
  · exact hrange p hpos

end Net

end RoutePolicy
