import Mathlib.Algebra.BigOperators.Ring.Finset
import Mathlib.Algebra.Order.BigOperators.Group.Finset
import RoutePolicy.Proofs.Net.Moves

set_option autoImplicit false

/-! # Markers with weights

To bound what a net can do, each marker is given the weight of its place. A move takes a marker from
every place before the transition, so together the markers lose one of these weights, and gain those of
the places that the transition puts into (`Net.WellFormed.weigh_add_le`). -/

namespace RoutePolicy

variable {net : Net} {m m' : Marking} {t : TransitionId} {p : PlaceId}

namespace Net

/-- All markers together, each with the weight of its place. -/
def weigh (net : Net) (w : PlaceId → Nat) (m : Marking) : Nat :=
  ∑ i ∈ Finset.range net.places.size, m.tokens ⟨i⟩ * w ⟨i⟩

/-- The markers in one place weigh no more than all of them. -/
theorem tokens_mul_le_weigh (w : PlaceId → Nat) (hm : m.size = net.places.size) (p : PlaceId) :
    m.tokens p * w p ≤ net.weigh w m := by
  by_cases hp : net.contains p.node = true
  · have hin : p.index ∈ Finset.range net.places.size :=
      Finset.mem_range.mpr (Arena.contains_iff.mp hp)
    exact Finset.single_le_sum (f := fun i => m.tokens ⟨i⟩ * w ⟨i⟩)
      (fun _ _ => Nat.zero_le _) hin
  · rw [Marking.tokens_eq_zero fun hin => hp ((contains_iff_of_size hm).mp hin), Nat.zero_mul]
    exact Nat.zero_le _

/-- **A move takes the weight of a marker in each place before it**, and adds at most that of the
markers it puts. -/
theorem WellFormed.weigh_add_le (h : net.WellFormed) (w : PlaceId → Nat) (hmoves : net.Moves m t m')
    (hp : ⟨p.node, t.node⟩ ∈ net.arcs.toList) : net.weigh w m' + w p ≤ net.weigh w m
      + ∑ i ∈ Finset.range net.places.size, net.arcCount t.node (⟨i⟩ : PlaceId).node * w ⟨i⟩ := by
  have hin : p.index ∈ Finset.range net.places.size :=
    Finset.mem_range.mpr (Arena.contains_iff.mp (h.source _ hp))
  have hmarked : 0 < m.tokens ⟨p.index⟩ := hmoves.enabled.2 p hp
  have htaken : 0 < net.arcCount (⟨p.index⟩ : PlaceId).node t.node := arcCount_pos_iff.mpr hp
  have hplace (i : Nat) : m'.tokens ⟨i⟩ * w ⟨i⟩ + (if p.index = i then w ⟨i⟩ else 0)
      ≤ m.tokens ⟨i⟩ * w ⟨i⟩ + net.arcCount t.node (⟨i⟩ : PlaceId).node * w ⟨i⟩ := by
    rw [hmoves.tokens, ← Nat.add_mul]
    split
    · rename_i hi
      subst hi
      rw [← Nat.succ_mul]
      exact Nat.mul_le_mul_right _ (by omega)
    · exact Nat.mul_le_mul_right _ (by omega)
  have hsum := Finset.sum_le_sum fun i (_ : i ∈ Finset.range net.places.size) => hplace i
  rwa [Finset.sum_add_distrib, Finset.sum_add_distrib, Finset.sum_ite_eq, if_pos hin] at hsum

/-- The weights of the places that arcs lead to from a node, each counted once for each arc, are among
those of all nodes that arcs lead to from it. -/
theorem sum_arcCount_mul_le (net : Net) (w : Node → Nat) (n : Node) (k : Nat) :
    ∑ i ∈ Finset.range k, net.arcCount n (⟨i⟩ : PlaceId).node * w (⟨i⟩ : PlaceId).node
      ≤ (net.arcs.toList.map fun a => if a.source = n then w a.target else 0).sum := by
  unfold arcCount
  induction net.arcs.toList with
  | nil => simp
  | cons arc arcs ih =>
      simp only [List.count_cons, Nat.add_mul, Finset.sum_add_distrib, List.map_cons, List.sum_cons]
      rw [Nat.add_comm]
      refine Nat.add_le_add ?_ ih
      -- the arc leads to one place at most
      have hone (i : Nat) :
          (if (arc == ⟨n, (⟨i⟩ : PlaceId).node⟩) = true then 1 else 0) * w (⟨i⟩ : PlaceId).node
            ≤ if arc.target.index = i then (if arc.source = n then w arc.target else 0) else 0 := by
        by_cases harc : arc = ⟨n, (⟨i⟩ : PlaceId).node⟩
        · subst harc
          simp [Handle.node]
        · simp [harc]
      refine (Finset.sum_le_sum fun i _ => hone i).trans ?_
      rw [Finset.sum_ite_eq]
      split <;> simp

end Net

end RoutePolicy
