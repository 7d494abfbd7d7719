import Mathlib.Data.Set.Finite.Lattice
import RoutePolicy.Proofs.Concurrency
import RoutePolicy.Proofs.Limits
import RoutePolicy.Proofs.Route.RouteNet

set_option autoImplicit false

/-! # Unfolding keeps what a net can do

A marking of the net is a marking of the unfolded net in which nothing is at work (`Net.idle`). In
the other direction all that is at work is completed (`Net.completed`): each marker in an inner place
becomes what the end of its processing step puts. A move of the net is then one move of the unfolded
net or two, and a move of the unfolded net is one move of the net or none (`Net.Works.completed`).
So the markings that are reached correspond to each other (`Net.Mirrors`), with counts of any size as
well as with counts of 64 bits (`unfolding_mirrors`). -/

namespace RoutePolicy

variable {net u : Net} {m m' μ μ' : Marking} {t : TransitionId} {S T : Set Marking}

namespace Marking

/-- The markers in one place are some of all markers. -/
theorem tokens_le_sum (m : Marking) (p : PlaceId) : m.tokens p ≤ m.toList.sum := by
  by_cases hp : m.contains p = true
  · exact List.le_sum_of_mem (Arena.mem_of_get? (get?_eq_some_tokens hp))
  · rw [tokens_eq_zero hp]
    exact Nat.zero_le _

/-- Finitely many markings share a bound on their counts. -/
theorem exists_bound (hS : S.Finite) : ∃ n, ∀ m ∈ S, ∀ p, m.tokens p ≤ n := by
  obtain ⟨n, hn⟩ := (hS.image fun m => m.toList.sum).bddAbove
  exact ⟨n, fun m hm p => (m.tokens_le_sum p).trans (hn (Set.mem_image_of_mem _ hm))⟩

end Marking

namespace Net

/-- The places of the unfolded net are those of the net and an inner place for each processing
step. -/
structure AddsInner (net u : Net) : Prop where
  kept : ∀ p : PlaceId, net.contains p.node = true → u.placeData? p = net.placeData? p
  inner : ∀ t x, net.transitions.get? t = some x → x.role = .app →
    u.placeData? (net.innerOf t) = some (.inner (x.id ++ "#inner") x.id)
  only : ∀ p : PlaceId, u.contains p.node = true →
    net.contains p.node = true ∨ ∃ t, net.IsApp t ∧ p = net.innerOf t

/-- The marking of the unfolded net that has the markers of a marking of the net, and none in the
inner places. -/
def idle (net u : Net) (m : Marking) : Marking :=
  u.markingOf fun p => if net.contains p.node = true then m.tokens p else 0

/-- No processing step is at work. -/
def AtRest (net : Net) (μ : Marking) : Prop := ∀ t, net.IsApp t → μ.tokens (net.innerOf t) = 0

/-- The marking of the net after all that is at work has been completed. -/
def completed (net : Net) (μ : Marking) : Marking :=
  net.markingOf fun p => μ.tokens p + net.atWorkSum μ fun t => net.arcCount t.node p.node

/-- Markings of the net and markings of the unfolded net that correspond to each other. -/
structure Mirrors (net u : Net) (S T : Set Marking) : Prop where
  idle : ∀ m ∈ S, net.idle u m ∈ T
  completed : ∀ μ ∈ T, net.completed μ ∈ S
  atRest : {μ ∈ T | net.AtRest μ} = net.idle u '' S
  finite : T.Finite ↔ S.Finite

/-- Only finitely many markings of a net stay below a bound. -/
theorem finite_of_bound (net : Net) (n : Nat) :
    {m : Marking | m.size = net.places.size ∧ ∀ p, m.tokens p ≤ n}.Finite := by
  -- such a marking is given by a number up to the bound for each place
  let count (c : Fin net.places.size → Fin (n + 1)) (p : PlaceId) : Nat :=
    if h : p.index < net.places.size then c ⟨p.index, h⟩ else 0
  refine (Set.finite_range fun c => net.markingOf (count c)).subset ?_
  rintro m ⟨hm, hle⟩
  refine ⟨fun i => ⟨m.tokens ⟨i⟩, Nat.lt_succ_of_le (hle _)⟩, (eq_markingOf hm fun p hp => ?_).symm⟩
  have hp : p.index < net.places.size := Arena.contains_iff.mp hp
  simp only [count, dif_pos hp]

/-- The unfolded net has the inner places that it should have. -/
theorem UnfoldsTo.addsInner (hu : net.UnfoldsTo u) (hunfold : net.unfold = .ok u) :
    net.AddsInner u := by
  have hplace (p : PlaceId) (x : Place) (hx : u.placeData? p = some x) :
      net.placeData? p = some x ∨ ∃ t, net.IsApp t ∧ p = net.innerOf t := by
    refine (hu.place p x hx).imp_right ?_
    rintro ⟨t, y, hy, hrole, rfl⟩
    exact ⟨t, ⟨y, hy, hrole⟩, rfl⟩
  constructor
  case kept =>
    intro p hp
    obtain ⟨x, hx⟩ := contains_iff_placeData?.mp (contains_of_unfold hunfold hp)
    rcases hplace p x hx with hplain | ⟨t, -, rfl⟩
    · rw [hx, hplain]
    · exact absurd hp (not_contains_innerOf net t)
  case inner => exact hu.inner
  case only =>
    intro p hp
    obtain ⟨x, hx⟩ := contains_iff_placeData?.mp hp
    exact (hplace p x hx).imp_left fun hplain => contains_iff_placeData?.mpr ⟨x, hplain⟩

/-! ## Nothing at work -/

theorem size_idle (net u : Net) (m : Marking) : (net.idle u m).size = u.places.size :=
  u.size_markingOf _

theorem size_completed (net : Net) (μ : Marking) : (net.completed μ).size = net.places.size :=
  net.size_markingOf _

theorem tokens_completed {p : PlaceId} (hp : net.contains p.node = true) :
    (net.completed μ).tokens p
      = μ.tokens p + net.atWorkSum μ fun t => net.arcCount t.node p.node := by
  rw [completed, tokens_markingOf, if_pos hp]

section

variable (ha : net.AddsInner u)

include ha

theorem tokens_idle (hm : m.size = net.places.size) (p : PlaceId) :
    (net.idle u m).tokens p = m.tokens p := by
  rw [idle, tokens_markingOf]
  by_cases hp : net.contains p.node = true
  · obtain ⟨x, hx⟩ := contains_iff_placeData?.mp hp
    rw [if_pos (contains_iff_placeData?.mpr ⟨x, (ha.kept p hp).trans hx⟩), if_pos hp]
  · rw [if_neg hp, ite_self, Marking.tokens_eq_zero fun hin => hp ((contains_iff_of_size hm).mp hin)]

theorem eq_idle (hμ : μ.size = u.places.size) (hm : m.size = net.places.size)
    (h : ∀ p, μ.tokens p = m.tokens p) : μ = net.idle u m :=
  Marking.ext_tokens (hμ.trans (size_idle net u m).symm) fun p =>
    (h p).trans (tokens_idle ha hm p).symm

theorem atRest_idle (hm : m.size = net.places.size) : net.AtRest (net.idle u m) := fun t _ => by
  rw [tokens_idle ha hm, tokens_innerOf hm]

theorem completed_idle (hm : m.size = net.places.size) : net.completed (net.idle u m) = m := by
  refine (eq_markingOf hm fun p _ => ?_).symm
  rw [tokens_idle ha hm, atWorkSum_eq_zero (atRest_idle ha hm), Nat.add_zero]

/-- With nothing at work there is nothing to complete. -/
theorem idle_completed (hμ : μ.size = u.places.size) (hrest : net.AtRest μ) :
    net.idle u (net.completed μ) = μ := by
  refine (eq_idle ha hμ (size_completed net μ) fun p => ?_).symm
  by_cases hp : net.contains p.node = true
  · rw [tokens_completed hp, atWorkSum_eq_zero hrest, Nat.add_zero]
  · have hout : ¬(net.completed μ).contains p = true := fun hin =>
      hp ((contains_iff_of_size (size_completed net μ)).mp hin)
    rw [Marking.tokens_eq_zero hout]
    by_cases hpu : u.contains p.node = true
    · obtain ⟨t, ht, rfl⟩ := (ha.only p hpu).resolve_left hp
      exact hrest t ht
    · exact Marking.tokens_eq_zero fun hin => hpu ((contains_iff_of_size hμ).mp hin)

/-! ## From the net to the unfolded net -/

theorem idle_marking (hu : net.UnfoldsTo u) : net.idle u net.marking = u.marking :=
  (eq_idle ha u.size_marking net.size_marking hu.tokens).symm

/-- A move of the net is a start, which puts a single marker, and an end, or it is a structural
step. -/
theorem exists_idle_moves (hu : net.UnfoldsTo u)
    (hm : m.size = net.places.size) (hmoves : net.Moves m t m') :
    ∃ μ, (μ = net.idle u m ∨ ∃ v, u.Moves (net.idle u m) v μ ∧ u.InRange v μ) ∧
      ∃ v, u.Moves μ v (net.idle u m') ∧ (net.InRange t m' → u.InRange v (net.idle u m')) := by
  have ht := hmoves.enabled.1
  have hm' : m'.size = net.places.size := hmoves.size.trans hm
  have hidle := tokens_idle ha hm
  have hidle' := tokens_idle ha hm'
  obtain ⟨x, hx⟩ := Arena.contains_iff_exists.mp ht
  have hstart : u.Enables (net.idle u m) (net.startOf t) := by
    refine ⟨hu.hasStart t ht, fun p hp => ?_⟩
    rw [hidle]
    refine hmoves.enabled.2 p (arcCount_pos_iff.mp ?_)
    rw [← hu.takes t ht]
    exact arcCount_pos_iff.mpr hp
  have hrange (hin : net.InRange t m') : u.InRange (net.endOf t) (net.idle u m') := fun p hp => by
    rw [hidle']
    exact hin p (hu.puts t ht p ▸ hp)
  obtain ⟨μ, hμ⟩ := hu.wellFormed.exists_moves (size_idle net u m) hstart
  have hsize : μ.size = u.places.size := hμ.size.trans (size_idle net u m)
  cases hrole : x.role with
  | control =>
      have hcontrol := hu.control t x hx hrole
      refine ⟨net.idle u m, Or.inl rfl, net.startOf t, ?_, fun hin => hcontrol ▸ hrange hin⟩
      obtain rfl : μ = net.idle u m' := eq_idle ha hsize hm' fun p => by
        rw [hμ.tokens, hmoves.tokens, hidle, hu.takes t ht, hcontrol, hu.puts t ht]
      exact hμ
  | app =>
      have htokens (p : PlaceId) : μ.tokens p
          = m.tokens p - net.arcCount p.node t.node + if p = net.innerOf t then 1 else 0 := by
        rw [hμ.tokens, hidle, hu.takes t ht, hu.begins t x hx hrole]
      have hone (p : PlaceId) (hp : p = net.innerOf t) : μ.tokens p = 1 := by
        rw [htokens, if_pos hp, hp, tokens_innerOf hm, Nat.zero_sub]
      have hend : u.Enables μ (net.endOf t) := by
        refine ⟨hu.hasEnd t ht, fun p hp => ?_⟩
        have hpos := arcCount_pos_iff.mpr hp
        rw [hu.finishes t x hx hrole] at hpos
        rw [hone p (by by_contra hne; simp [hne] at hpos)]
        exact Nat.one_pos
      obtain ⟨μ', hμ'⟩ := hu.wellFormed.exists_moves hsize hend
      obtain rfl : μ' = net.idle u m' := eq_idle ha (hμ'.size.trans hsize) hm' fun p => by
        rw [hμ'.tokens, htokens, hmoves.tokens, hu.puts t ht, hu.finishes t x hx hrole,
          Nat.add_sub_cancel]
      refine ⟨μ, Or.inr ⟨net.startOf t, hμ, fun p hp => ?_⟩, net.endOf t, hμ', hrange⟩
      rw [hu.begins t x hx hrole] at hp
      rw [hone p (by by_contra hne; simp [hne] at hp)]
      decide

/-- **What the net leads to the unfolded net leads to**, with nothing at work. -/
theorem leads_idle (hu : net.UnfoldsTo u) (hm : net.Leads net.marking m) :
    u.Leads u.marking (net.idle u m) := by
  induction hm with
  | refl =>
      rw [idle_marking ha hu]
      exact .refl
  | tail hm hstep ih =>
      obtain ⟨t, hmoves⟩ := hstep
      obtain ⟨μ, hfirst, v, hlast, -⟩ :=
        exists_idle_moves ha hu ((Leads.size_eq hm).trans net.size_marking) hmoves
      rcases hfirst with rfl | ⟨w, hfirst, -⟩
      · exact ih.tail_moves hlast
      · exact (ih.tail_moves hfirst).tail_moves hlast

theorem reaches_idle (h : net.WellFormed) (hu : net.UnfoldsTo u)
    (hm : net.Reaches net.marking m) : u.Reaches u.marking (net.idle u m) := by
  refine hm.induction (P := fun m => u.Reaches u.marking (net.idle u m)) ?_ ?_
  · rw [idle_marking ha hu]
    exact .refl u _
  · intro m₁ t m₂ hm₁ ih hf
    have hsize := hm₁.size_eq.trans net.size_marking
    obtain ⟨hmoves, hrange⟩ := (h.fireAt_eq_ok_iff_moves hsize).mp hf
    obtain ⟨μ, hfirst, v, hlast, hin⟩ := exists_idle_moves ha hu hsize hmoves
    -- what was reached before the last of the moves
    have hμ : u.Reaches u.marking μ := by
      rcases hfirst with rfl | ⟨w, hfirst, hw⟩
      · exact ih
      · exact ih.tail ((hu.wellFormed.fireAt_eq_ok_iff_moves (size_idle net u m₁)).mpr ⟨hfirst, hw⟩)
    exact hμ.tail ((hu.wellFormed.fireAt_eq_ok_iff_moves (hμ.size_eq.trans u.size_marking)).mpr
      ⟨hlast, hin hrange⟩)

end

/-! ## From the unfolded net to the net -/

/-- The net can do what is enabled in the unfolded net after all that is at work is completed. -/
theorem moves_completed (h : net.WellFormed) (hen : net.Enables μ t)
    (htokens : ∀ p : PlaceId, net.contains p.node = true → (net.completed μ').tokens p
      = (net.completed μ).tokens p - net.arcCount p.node t.node + net.arcCount t.node p.node) :
    net.Moves (net.completed μ) t (net.completed μ') := by
  refine ⟨⟨hen.1, fun p hp => ?_⟩,
    (size_completed net μ').trans (size_completed net μ).symm, fun p => ?_⟩
  · rw [tokens_completed (h.source _ hp)]
    exact Nat.add_pos_left (hen.2 p hp) _
  · by_cases hp : net.contains p.node = true
    · exact htokens p hp
    · obtain ⟨hfrom, hto⟩ := h.arcCount_eq_zero hp t.node
      rw [completed, completed, tokens_markingOf, tokens_markingOf, if_neg hp, if_neg hp, hfrom, hto]

/-- **A move of the unfolded net is one move of the net or none**, after all that is at work is
completed. The start of a processing step is its whole move, and the end adds nothing to it. -/
theorem Works.completed (h : net.Ordinary) (hworks : net.Works μ μ') :
    net.completed μ' = net.completed μ ∨
      ∃ t, net.Moves (net.completed μ) t (net.completed μ') := by
  cases hworks with
  | start t app enabled places inner =>
      refine Or.inr ⟨t, moves_completed h.wellFormed enabled fun p hp => ?_⟩
      have hle := h.arcCount_le enabled p
      rw [tokens_completed hp, tokens_completed hp, places p hp, atWorkSum_add app inner]
      omega
  | finish t app places inner =>
      refine Or.inl (eq_markingOf (size_completed net μ') fun p hp => ?_)
      rw [tokens_completed hp, places p hp, atWorkSum_add app inner]
      omega
  | control t enabled places inner =>
      refine Or.inr ⟨t, moves_completed h.wellFormed enabled fun p hp => ?_⟩
      have hle := h.arcCount_le enabled p
      rw [tokens_completed hp, tokens_completed hp, places p hp, atWorkSum_congr inner]
      omega

/-- **What the unfolded net leads to is led to by the net** when it is completed. -/
theorem leads_completed (h : net.Ordinary) (hu : net.UnfoldsTo u) (ha : net.AddsInner u)
    (hμ : u.Leads u.marking μ) : net.Leads net.marking (net.completed μ) := by
  induction hμ with
  | refl =>
      rw [← idle_marking ha hu, completed_idle ha net.size_marking]
      exact .refl
  | tail _ hstep ih =>
      obtain ⟨v, hmoves⟩ := hstep
      rcases (hu.works h.wellFormed hmoves).completed h with heq | ⟨t, ht⟩
      · rw [heq]
        exact ih
      · exact ih.tail_moves ht

/-! ## Both directions -/

/-- No place of the unfolded net holds more markers than some place after completion. -/
theorem exists_tokens_le_completed (ha : net.AddsInner u)
    (houtput : ∀ t, net.IsApp t → ∃ p : PlaceId, 0 < net.arcCount t.node p.node)
    (h : net.WellFormed) (hμ : μ.size = u.places.size) (p : PlaceId) :
    ∃ q, μ.tokens p ≤ (net.completed μ).tokens q := by
  by_cases hp : net.contains p.node = true
  · exact ⟨p, tokens_completed hp ▸ Nat.le_add_right _ _⟩
  by_cases hpu : u.contains p.node = true
  -- what is at work will put its markers somewhere
  · obtain ⟨t, ht, rfl⟩ := (ha.only p hpu).resolve_left hp
    obtain ⟨q, hq⟩ := houtput t ht
    have hqin : net.contains q.node = true := h.target _ (arcCount_pos_iff.mp hq)
    refine ⟨q, ?_⟩
    calc μ.tokens (net.innerOf t)
        ≤ μ.tokens (net.innerOf t) * net.arcCount t.node q.node := Nat.le_mul_of_pos_right _ hq
      _ ≤ net.atWorkSum μ fun t => net.arcCount t.node q.node :=
          le_atWorkSum ht fun t => net.arcCount t.node q.node
      _ ≤ (net.completed μ).tokens q := tokens_completed hqin ▸ Nat.le_add_left _ _
  · rw [Marking.tokens_eq_zero fun hin => hpu ((contains_iff_of_size hμ).mp hin)]
    exact ⟨p, Nat.zero_le _⟩

/-- Sets of markings mirror each other when the two translations lead from one to the other. -/
theorem AddsInner.mirrors (ha : net.AddsInner u) (h : net.WellFormed)
    (houtput : ∀ t, net.IsApp t → ∃ p : PlaceId, 0 < net.arcCount t.node p.node)
    (hS : ∀ m ∈ S, m.size = net.places.size) (hT : ∀ μ ∈ T, μ.size = u.places.size)
    (hidle : ∀ m ∈ S, net.idle u m ∈ T) (hcompleted : ∀ μ ∈ T, net.completed μ ∈ S) :
    net.Mirrors u S T := by
  constructor
  case idle => exact hidle
  case completed => exact hcompleted
  case atRest =>
    ext μ
    constructor
    · rintro ⟨hμ, hrest⟩
      exact ⟨net.completed μ, hcompleted μ hμ, idle_completed ha (hT μ hμ) hrest⟩
    · rintro ⟨m, hm, rfl⟩
      exact ⟨hidle m hm, atRest_idle ha (hS m hm)⟩
  case finite =>
    constructor
    · intro hfinite
      refine (hfinite.image net.completed).subset fun m hm => ?_
      exact ⟨net.idle u m, hidle m hm, completed_idle ha (hS m hm)⟩
    · intro hfinite
      obtain ⟨n, hn⟩ := Marking.exists_bound hfinite
      refine (u.finite_of_bound n).subset fun μ hμ => ⟨hT μ hμ, fun p => ?_⟩
      obtain ⟨q, hq⟩ := exists_tokens_le_completed ha houtput h (hT μ hμ) p
      exact hq.trans (hn _ (hcompleted μ hμ) q)

/-- **The markings of a net and of its unfolded net mirror each other.** -/
theorem mirrors_leads (h : net.Ordinary) (hu : net.UnfoldsTo u) (ha : net.AddsInner u)
    (houtput : ∀ t, net.IsApp t → ∃ p : PlaceId, 0 < net.arcCount t.node p.node) :
    net.Mirrors u {m | net.Leads net.marking m} {μ | u.Leads u.marking μ} :=
  ha.mirrors h.wellFormed houtput (fun _ hm => hm.size_eq.trans net.size_marking)
    (fun _ hμ => hμ.size_eq.trans u.size_marking) (fun _ hm => leads_idle ha hu hm)
    (fun _ hμ => leads_completed h hu ha hμ)

/-- When the net leads to no counts beyond the limit, the unfolded net does not either. -/
theorem tokens_lt_of_unfolded (h : net.Ordinary) (hu : net.UnfoldsTo u) (ha : net.AddsInner u)
    (houtput : ∀ t, net.IsApp t → ∃ p : PlaceId, 0 < net.arcCount t.node p.node)
    (hrange : ∀ m, net.Leads net.marking m → ∀ p, m.tokens p < countRange)
    (hμ : u.Leads u.marking μ) (p : PlaceId) : μ.tokens p < countRange := by
  obtain ⟨q, hq⟩ :=
    exists_tokens_le_completed ha houtput h.wellFormed (hμ.size_eq.trans u.size_marking) p
  exact hq.trans_lt (hrange _ (leads_completed h hu ha hμ) q)

theorem setOf_canReach_eq (h : net.WellFormed)
    (hrange : ∀ m, net.Leads net.marking m → ∀ p, m.tokens p < countRange) :
    {m | net.CanReach m} = {m | net.Leads net.marking m} := by
  ext m
  exact canReach_iff.trans (h.reaches_iff_leads net.size_marking hrange)

/-- A net whose steps can be explored leads to no counts beyond the limit. -/
theorem WellFormed.tokens_lt_of_leads {limit : Option Nat} {g : StepGraph} (h : net.WellFormed)
    (hg : net.stepGraph limit = .ok g) (hstart : ∀ p, net.marking.tokens p < countRange)
    (hm : net.Leads net.marking m) (p : PlaceId) : m.tokens p < countRange := by
  exact h.tokens_lt hstart ((reaches_iff_leads_of_stepGraph h hg).mpr hm) p

end Net

/-- In the net of a route every transition puts a marker somewhere. -/
theorem RouteNet.exists_arcCount_pos (route : Route) (t : TransitionId)
    (ht : (RouteNet.ofRoute route).net.IsApp t) :
    ∃ p : PlaceId, 0 < (RouteNet.ofRoute route).net.arcCount t.node p.node := by
  obtain ⟨p, hp⟩ := exists_output_ofStages _ _ t ht.contains
  exact ⟨p, Net.arcCount_pos_iff.mpr hp⟩

/-- **Unfolding keeps what the net of a route can do.** The net can be unfolded, which adds an inner
place for each processing step. With counts of any size, every marking that the net leads to is led
to by the unfolded net with all inner places empty, and every marking that the unfolded net leads to
becomes one of the net when all that is at work is completed; so with all inner places empty these
are exactly the markings of the net, and they are finitely many together. The net's firings with
counts of 64 bits are always found in the unfolded net, and the rest holds for them as well if no
count goes beyond the limit. -/
theorem unfolding_mirrors (route : Route) :
    let net := (RouteNet.ofRoute route).net
    ∃ u, net.unfold = .ok u ∧ net.AddsInner u ∧
      net.Mirrors u {m | net.Leads net.marking m} {μ | u.Leads u.marking μ} ∧
      (∀ m, net.CanReach m → u.CanReach (net.idle u m)) ∧
      ((∀ m, net.Leads net.marking m → ∀ p, m.tokens p < countRange) →
        net.Mirrors u {m | net.CanReach m} {μ | u.CanReach μ}) := by
  intro net
  have h : net.Ordinary := RouteNet.ordinary_ofRoute route
  have houtput := RouteNet.exists_arcCount_pos route
  obtain ⟨u, hunfold, hu⟩ := Net.exists_unfoldsTo h.wellFormed
  have ha := hu.addsInner hunfold
  have hmirrors := Net.mirrors_leads h hu ha houtput
  refine ⟨u, hunfold, ha, hmirrors, fun m hm => ?_, fun hrange => ?_⟩
  · exact Net.canReach_iff.mpr (Net.reaches_idle ha h.wellFormed hu (Net.canReach_iff.mp hm))
  · have hrange' (μ : Marking) (hμ : u.Leads u.marking μ) (p : PlaceId) : μ.tokens p < countRange :=
      Net.tokens_lt_of_unfolded h hu ha houtput hrange hμ p
    rw [Net.setOf_canReach_eq h.wellFormed hrange, Net.setOf_canReach_eq hu.wellFormed hrange']
    exact hmirrors

/-- A sender, a structural step and a receiver. -/
def relayed : Route :=
  .node ⟨"relayed", [.app "sender"], [.control "relay"], ["R"]⟩
    [.node ⟨"hop", [.control "relay"], [.app "receiver"], ["R"]⟩ []]

/-- Its firings are mirrored. -/
theorem unfolding_mirrors_relayed :
    let net := (RouteNet.ofRoute relayed).net
    ∃ u, net.unfold = .ok u ∧ net.Mirrors u {m | net.CanReach m} {μ | u.CanReach μ} := by
  intro net
  have hok : (net.stepGraph none).isOk = true := by
    rw [Net.stepGraph_eq_survey]
    decide +kernel
  obtain ⟨g, hg⟩ := exists_eq_ok hok
  have h : net.Ordinary := RouteNet.ordinary_ofRoute relayed
  obtain ⟨u, hunfold, -, -, -, hmirrors⟩ := unfolding_mirrors relayed
  exact ⟨u, hunfold, hmirrors fun m hm => h.wellFormed.tokens_lt_of_leads hg h.start hm⟩

end RoutePolicy
