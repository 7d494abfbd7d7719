import Mathlib.Algebra.BigOperators.Ring.Finset
import Mathlib.Algebra.Order.BigOperators.Group.Finset
import Mathlib.Data.List.Chain
import Mathlib.Order.Lattice.Nat
import RoutePolicy.Proofs.Net.Weights
import RoutePolicy.Proofs.Route.RouteNet

set_option autoImplicit false

/-! # Firings that follow from each other

A firing follows from another one when it takes what that one has put (`Net.Feeds`). Each firing
goes on with the chain of a marker that it takes, and only a transition that puts several markers
starts new chains. So what is bounded along each chain is bounded in a whole run, by the number of
chains (`RouteNet.Sound.countP_le_of_run`). For the proof each marker weighs the most that a chain
from its place can count. -/

namespace RoutePolicy

namespace Net

/-- The second transition takes from a place into which the first one puts. -/
def Feeds (net : Net) (t t' : TransitionId) : Prop :=
  ∃ p : PlaceId, ⟨t.node, p.node⟩ ∈ net.arcs.toList ∧ ⟨p.node, t'.node⟩ ∈ net.arcs.toList

/-- The number of arcs out of a transition. -/
def fanOut (net : Net) (t : TransitionId) : Nat :=
  net.arcs.toList.countP fun arc => arc.source = t.node

/-- The number of markers that the firings put beyond the first one of each firing. -/
def surplus (net : Net) (ts : List TransitionId) : Nat := (ts.map fun t => net.fanOut t - 1).sum

/-- Along each chain of transitions that fire, `f` counts at most `n`. -/
def BoundsChains (net : Net) (f : TransitionId → Bool) (n : Nat) : Prop :=
  ∀ us : List TransitionId, (∀ t ∈ us, net.Fires t) → us.IsChain net.Feeds → us.countP f ≤ n

/-- A chain of transitions that fire, the first of which takes from the place. -/
structure IsChainFrom (net : Net) (p : PlaceId) (us : List TransitionId) : Prop where
  fires : ∀ t ∈ us, net.Fires t
  chain : us.IsChain net.Feeds
  first : ∀ t ∈ us.head?, ⟨p.node, t.node⟩ ∈ net.arcs.toList

/-- What the chains from the place count. -/
def countsFrom (net : Net) (f : TransitionId → Bool) (p : PlaceId) : Set Nat :=
  {k | ∃ us, net.IsChainFrom p us ∧ us.countP f = k}

/-- The most that a chain from the place counts. -/
noncomputable def mostFrom (net : Net) (f : TransitionId → Bool) (p : PlaceId) : Nat :=
  sSup (net.countsFrom f p)

/-- What the chains from all markers count. -/
noncomputable def weight (net : Net) (f : TransitionId → Bool) (m : Marking) : Nat :=
  ∑ i ∈ Finset.range net.places.size, m.tokens ⟨i⟩ * net.mostFrom f ⟨i⟩

section

variable {net : Net} {f : TransitionId → Bool} {n : Nat} {m m' : Marking} {p q : PlaceId}
  {t : TransitionId} {ts us : List TransitionId}

/-! ## Chains from a place -/

theorem IsChainFrom.nil (net : Net) (p : PlaceId) : net.IsChainFrom p [] :=
  ⟨fun _ ht => absurd ht List.not_mem_nil, .nil, fun _ ht => absurd ht (by simp)⟩

/-- A transition comes before what is done with one of the markers it puts. -/
theorem IsChainFrom.cons (h : net.IsChainFrom q us) (ht : net.Fires t)
    (hp : ⟨p.node, t.node⟩ ∈ net.arcs.toList) (hq : ⟨t.node, q.node⟩ ∈ net.arcs.toList) :
    net.IsChainFrom p (t :: us) where
  fires := List.forall_mem_cons.mpr ⟨ht, h.fires⟩
  chain := List.isChain_cons.mpr ⟨fun t' ht' => ⟨q, hq, h.first t' ht'⟩, h.chain⟩
  first := fun t' ht' => by
    obtain rfl := Option.some_inj.mp ht'
    exact hp

theorem bddAbove_countsFrom (hn : net.BoundsChains f n) (p : PlaceId) :
    BddAbove (net.countsFrom f p) := by
  refine ⟨n, ?_⟩
  rintro k ⟨us, hus, rfl⟩
  exact hn us hus.fires hus.chain

theorem countP_le_mostFrom (hn : net.BoundsChains f n) (h : net.IsChainFrom p us) :
    us.countP f ≤ net.mostFrom f p := le_csSup (bddAbove_countsFrom hn p) ⟨us, h, rfl⟩

theorem exists_countP_eq_mostFrom (hn : net.BoundsChains f n) (p : PlaceId) :
    ∃ us, net.IsChainFrom p us ∧ us.countP f = net.mostFrom f p := by
  have hnonempty : (net.countsFrom f p).Nonempty := ⟨0, [], .nil net p, rfl⟩
  exact Nat.sSup_mem hnonempty (bddAbove_countsFrom hn p)

theorem mostFrom_le (hn : net.BoundsChains f n) (p : PlaceId) : net.mostFrom f p ≤ n := by
  obtain ⟨us, hus, heq⟩ := exists_countP_eq_mostFrom hn p
  exact heq ▸ hn us hus.fires hus.chain

/-- A firing counts as part of a chain from the place it takes from. -/
theorem count_le_mostFrom (hn : net.BoundsChains f n) (ht : net.Fires t)
    (hp : ⟨p.node, t.node⟩ ∈ net.arcs.toList) : [t].countP f ≤ net.mostFrom f p := by
  refine countP_le_mostFrom hn ⟨List.forall_mem_singleton.mpr ht, .singleton t, fun t' ht' => ?_⟩
  obtain rfl := Option.some_inj.mp ht'
  exact hp

/-- What is counted after a firing is counted in addition to it. -/
theorem mostFrom_add_count_le (hn : net.BoundsChains f n) (ht : net.Fires t)
    (hp : ⟨p.node, t.node⟩ ∈ net.arcs.toList) (hq : ⟨t.node, q.node⟩ ∈ net.arcs.toList) :
    net.mostFrom f q + [t].countP f ≤ net.mostFrom f p := by
  obtain ⟨us, hus, heq⟩ := exists_countP_eq_mostFrom hn q
  have hle := countP_le_mostFrom hn (hus.cons ht hp hq)
  rwa [← List.singleton_append, List.countP_append, heq, Nat.add_comm] at hle

/-! ## What a firing does to the weight -/

/-- The arcs from a transition to places are among the arcs out of it. -/
theorem sum_arcCount_le_fanOut (net : Net) (t : TransitionId) (k : Nat) :
    ∑ i ∈ Finset.range k, net.arcCount t.node (⟨i⟩ : PlaceId).node ≤ net.fanOut t := by
  have hcount (arcs : List Arc) : (arcs.map fun a => if a.source = t.node then 1 else 0).sum
      = arcs.countP fun a => a.source = t.node := by
    induction arcs with
    | nil => rfl
    | cons arc arcs ih =>
        rw [List.map_cons, List.sum_cons, ih, List.countP_cons, Nat.add_comm]
        simp
  simpa [hcount, fanOut] using net.sum_arcCount_mul_le (fun _ => 1) t.node k

/-- The weight of the markers that a firing puts. -/
theorem sum_put_le (hn : net.BoundsChains f n) (ht : net.Fires t)
    (hp : ⟨p.node, t.node⟩ ∈ net.arcs.toList) (k : Nat) :
    ∑ i ∈ Finset.range k, net.arcCount t.node (⟨i⟩ : PlaceId).node * net.mostFrom f ⟨i⟩
      ≤ net.fanOut t * (net.mostFrom f p - [t].countP f) := by
  have hplace (i : Nat) : net.arcCount t.node (⟨i⟩ : PlaceId).node * net.mostFrom f ⟨i⟩
      ≤ net.arcCount t.node (⟨i⟩ : PlaceId).node * (net.mostFrom f p - [t].countP f) := by
    rcases Nat.eq_zero_or_pos (net.arcCount t.node (⟨i⟩ : PlaceId).node) with hzero | hpos
    · rw [hzero, Nat.zero_mul, Nat.zero_mul]
    · have := mostFrom_add_count_le hn ht hp (arcCount_pos_iff.mp hpos)
      exact Nat.mul_le_mul_left _ (by omega)
  calc ∑ i ∈ Finset.range k, net.arcCount t.node (⟨i⟩ : PlaceId).node * net.mostFrom f ⟨i⟩
      ≤ ∑ i ∈ Finset.range k, net.arcCount t.node (⟨i⟩ : PlaceId).node
          * (net.mostFrom f p - [t].countP f) := Finset.sum_le_sum fun i _ => hplace i
    _ = (∑ i ∈ Finset.range k, net.arcCount t.node (⟨i⟩ : PlaceId).node)
          * (net.mostFrom f p - [t].countP f) := (Finset.sum_mul _ _ _).symm
    _ ≤ net.fanOut t * (net.mostFrom f p - [t].countP f) :=
        Nat.mul_le_mul_right _ (sum_arcCount_le_fanOut net t k)

/-- A firing takes away the weight of a marker in each place before it. -/
theorem WellFormed.weight_add_mostFrom_le (h : net.WellFormed) (hm : m.size = net.places.size)
    (hf : net.fireAt m t = .ok m') (hp : ⟨p.node, t.node⟩ ∈ net.arcs.toList) :
    net.weight f m' + net.mostFrom f p ≤ net.weight f m
      + ∑ i ∈ Finset.range net.places.size,
          net.arcCount t.node (⟨i⟩ : PlaceId).node * net.mostFrom f ⟨i⟩ :=
  h.weigh_add_le (net.mostFrom f) (h.moves_of_fireAt hm hf) hp

/-- **A firing counts against the weight**, which grows only by the markers that it puts beyond the
first one. -/
theorem WellFormed.weight_fireAt (h : net.WellFormed) (hn : net.BoundsChains f n)
    (hm : m.size = net.places.size) (ht : net.Fires t) (hf : net.fireAt m t = .ok m')
    (hp : ⟨p.node, t.node⟩ ∈ net.arcs.toList) :
    net.weight f m' + [t].countP f ≤ net.weight f m + n * (net.fanOut t - 1) := by
  have hweight := h.weight_add_mostFrom_le (f := f) hm hf hp
  have hput := sum_put_le hn ht hp net.places.size
  have hcount := count_le_mostFrom hn ht hp
  have hmost := mostFrom_le hn p
  cases hout : net.fanOut t with
  | zero =>
      rw [hout, Nat.zero_mul] at hput
      omega
  | succ k =>
      have hmore : k * (net.mostFrom f p - [t].countP f) ≤ n * k := by
        rw [Nat.mul_comm n]
        exact Nat.mul_le_mul_left k (by omega)
      rw [hout, Nat.succ_mul] at hput
      rw [Nat.add_sub_cancel]
      omega

/-- What a run counts is bounded by the weight it starts from and the markers it puts in
addition. -/
theorem WellFormed.countP_le_of_runAt (h : net.WellFormed) (hn : net.BoundsChains f n)
    (hinput : ∀ t : TransitionId, net.contains t.node = true →
      ∃ p : PlaceId, ⟨p.node, t.node⟩ ∈ net.arcs.toList)
    (hm : net.Reaches net.marking m) (hrun : net.runAt m ts = .ok m') :
    ts.countP f ≤ net.weight f m + n * net.surplus ts := by
  induction ts generalizing m with
  | nil => exact Nat.zero_le _
  | cons t ts ih =>
      obtain ⟨m₁, hm₁, hrun⟩ := runAt_cons_eq_ok_iff.mp hrun
      obtain ⟨p, hp⟩ := hinput t (contains_of_isEnabledAt (fireAt_eq_ok_iff.mp hm₁).1)
      have hstep := h.weight_fireAt hn (hm.size_eq.trans net.size_marking)
        (fires_iff.mpr ⟨m, hm, m₁, hm₁⟩) hm₁ hp
      have hrest := ih (hm.tail hm₁) hrun
      rw [← List.singleton_append, List.countP_append, surplus, List.singleton_append,
        List.map_cons, List.sum_cons, Nat.mul_add]
      rw [surplus] at hrest
      omega

end

end Net

/-- **A bound along each chain of firings bounds a run** by as many chains as there are markers:
the one in the source, and those that firings put beyond the first one each. -/
theorem RouteNet.Sound.countP_le_of_run {b : RouteNet} (h : b.Sound) {f : TransitionId → Bool}
    {n : Nat} (hn : b.net.BoundsChains f n) {ts : List TransitionId} {net' : Net}
    (hrun : b.net.run ts = .ok net') : ts.countP f ≤ n * (1 + b.net.surplus ts) := by
  obtain ⟨m', hm', -⟩ := Net.run_eq_ok_iff.mp hrun
  -- at the start there is one marker, which weighs at most as much as a chain can count
  have hstart : b.net.weight f b.net.marking ≤ n := by
    have hplace (i : Nat) : b.net.marking.tokens ⟨i⟩ * b.net.mostFrom f ⟨i⟩
        ≤ if b.source.index = i then n else 0 := by
      rw [h.tokens]
      by_cases hi : (⟨i⟩ : PlaceId) = b.source
      · rw [if_pos hi, if_pos (congrArg Handle.index hi).symm, Nat.one_mul]
        exact Net.mostFrom_le hn _
      · rw [if_neg hi, Nat.zero_mul]
        exact Nat.zero_le _
    refine (Finset.sum_le_sum fun i _ => hplace i).trans ?_
    rw [Finset.sum_ite_eq]
    split <;> omega
  calc ts.countP f
      ≤ b.net.weight f b.net.marking + n * b.net.surplus ts :=
        h.net.wellFormed.countP_le_of_runAt hn h.input (.refl b.net _) hm'
    _ ≤ n + n * b.net.surplus ts := Nat.add_le_add_right hstart _
    _ = n * (1 + b.net.surplus ts) := by rw [Nat.mul_add, Nat.mul_one]

end RoutePolicy
