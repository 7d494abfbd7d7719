import Mathlib.Algebra.BigOperators.Ring.Finset
import Mathlib.Algebra.Order.BigOperators.Group.Finset
import RoutePolicy.Proofs.Net.Moves
import RoutePolicy.Proofs.Net.Unfolding

set_option autoImplicit false

/-! # Processing steps at work

In the unfolded net a marker in the inner place of a processing step stands for one execution that
was started and not yet ended. What one move of the unfolded net does is said in terms of the net
that it comes from (`Net.Works`): a processing step starts, a processing step ends, or a structural
step happens as a whole (`Net.UnfoldsTo.works`). Sums over what is at work (`Net.atWorkSum`) change
with a start and an end by one summand. -/

namespace RoutePolicy

variable {net u : Net} {m μ μ' : Marking} {t v : TransitionId} {f : TransitionId → Nat}

namespace Net

/-- The transition is a processing step of the net. -/
def IsApp (net : Net) (t : TransitionId) : Prop :=
  ∃ x, net.transitions.get? t = some x ∧ x.role = .app

/-- The processing steps of the net. -/
def apps (net : Net) : List TransitionId :=
  net.transitions.indices.filter fun t => (net.transitions.get? t).any (·.role = .app)

/-- What is given for each processing step, added up over all that is at work. -/
def atWorkSum (net : Net) (μ : Marking) (f : TransitionId → Nat) : Nat :=
  (net.apps.map fun t => μ.tokens (net.innerOf t) * f t).sum

/-- What one move of the unfolded net does to the places of the net and to the inner places. -/
inductive Works (net : Net) (μ μ' : Marking) : Prop where
  | start (t : TransitionId) (app : net.IsApp t) (enabled : net.Enables μ t)
      (places : ∀ p : PlaceId, net.contains p.node = true →
        μ'.tokens p = μ.tokens p - net.arcCount p.node t.node)
      (inner : ∀ t', net.IsApp t' →
        μ'.tokens (net.innerOf t') = μ.tokens (net.innerOf t') + if t' = t then 1 else 0)
  | finish (t : TransitionId) (app : net.IsApp t)
      (places : ∀ p : PlaceId, net.contains p.node = true →
        μ'.tokens p = μ.tokens p + net.arcCount t.node p.node)
      (inner : ∀ t', net.IsApp t' →
        μ.tokens (net.innerOf t') = μ'.tokens (net.innerOf t') + if t' = t then 1 else 0)
  | control (t : TransitionId) (enabled : net.Enables μ t)
      (places : ∀ p : PlaceId, net.contains p.node = true →
        μ'.tokens p = μ.tokens p - net.arcCount p.node t.node + net.arcCount t.node p.node)
      (inner : ∀ t', net.IsApp t' → μ'.tokens (net.innerOf t') = μ.tokens (net.innerOf t'))

/-! ## Processing steps and their inner places -/

theorem IsApp.contains (h : net.IsApp t) : net.contains t.node = true := by
  obtain ⟨x, hx, -⟩ := h
  exact Arena.contains_of_get? hx

theorem mem_apps_iff : t ∈ net.apps ↔ net.IsApp t := by
  rw [apps, List.mem_filter, Arena.mem_indices_iff, Option.any_eq_true]
  simp only [decide_eq_true_eq]
  exact ⟨And.right, fun h => ⟨h.contains, h⟩⟩

theorem nodup_apps (net : Net) : net.apps.Nodup := (Arena.nodup_indices _).filter _

/-- An inner place is not a place of the net. -/
theorem not_contains_innerOf (net : Net) (t : TransitionId) :
    ¬net.contains (net.innerOf t).node = true := fun hin =>
  absurd (Arena.contains_iff.mp hin) (Nat.not_lt.mpr (Nat.le_add_right _ _))

theorem ne_innerOf {p : PlaceId} (hp : net.contains p.node = true) (t : TransitionId) :
    p ≠ net.innerOf t := by
  rintro rfl
  exact not_contains_innerOf net t hp

/-- The markings of the net do not count the inner places. -/
theorem tokens_innerOf (hm : m.size = net.places.size) (t : TransitionId) :
    m.tokens (net.innerOf t) = 0 :=
  Marking.tokens_eq_zero fun hin => not_contains_innerOf net t ((contains_iff_of_size hm).mp hin)

/-- Different processing steps have different inner places. -/
theorem IsApp.innerOf_inj {t' : TransitionId} (ht : net.IsApp t) (ht' : net.IsApp t') :
    net.innerOf t = net.innerOf t' ↔ t = t' := by
  constructor
  · intro h
    obtain ⟨x, hx, hrole⟩ := ht
    obtain ⟨x', hx', hrole'⟩ := ht'
    exact Arena.position_inj.mp (innerAt_inj (Arena.get?_eq_some_iff.mp hx) hrole
      (Arena.get?_eq_some_iff.mp hx') hrole' h)
  · rintro rfl
    rfl

/-! ## Sums over what is at work -/

/-- A sum over a list without repetitions that counts only one of its members. -/
theorem sum_map_ite_eq_of_mem {α : Type} [DecidableEq α] {l : List α} {a : α} (hl : l.Nodup)
    (ha : a ∈ l) (f : α → Nat) : (l.map fun x => if x = a then f x else 0).sum = f a := by
  rw [← List.sum_toFinset _ hl, Finset.sum_ite_eq', if_pos (List.mem_toFinset.mpr ha)]

/-- With nothing at work there is nothing to add. -/
theorem atWorkSum_eq_zero (h : ∀ t, net.IsApp t → μ.tokens (net.innerOf t) = 0)
    (f : TransitionId → Nat) : net.atWorkSum μ f = 0 := by
  refine List.sum_eq_zero fun n hn => ?_
  obtain ⟨t, ht, rfl⟩ := List.mem_map.mp hn
  rw [h t (mem_apps_iff.mp ht), Nat.zero_mul]

theorem atWorkSum_congr
    (h : ∀ t, net.IsApp t → μ'.tokens (net.innerOf t) = μ.tokens (net.innerOf t))
    (f : TransitionId → Nat) : net.atWorkSum μ' f = net.atWorkSum μ f := by
  unfold atWorkSum
  congr 1
  refine List.map_congr_left fun t ht => ?_
  rw [h t (mem_apps_iff.mp ht)]

/-- One more transition at work is one more summand. -/
theorem atWorkSum_add (ht : net.IsApp t) (h : ∀ t', net.IsApp t' →
    μ'.tokens (net.innerOf t') = μ.tokens (net.innerOf t') + if t' = t then 1 else 0)
    (f : TransitionId → Nat) : net.atWorkSum μ' f = net.atWorkSum μ f + f t := by
  have hone := sum_map_ite_eq_of_mem net.nodup_apps (mem_apps_iff.mpr ht) f
  rw [← hone, atWorkSum, atWorkSum, ← List.sum_map_add]
  congr 1
  refine List.map_congr_left fun t' ht' => ?_
  rw [h t' (mem_apps_iff.mp ht'), Nat.add_mul, ite_mul, Nat.one_mul, Nat.zero_mul]

/-- What is at work adds at least its own summand for each execution. -/
theorem le_atWorkSum (ht : net.IsApp t) (f : TransitionId → Nat) :
    μ.tokens (net.innerOf t) * f t ≤ net.atWorkSum μ f :=
  List.le_sum_of_mem (List.mem_map_of_mem (mem_apps_iff.mpr ht))

/-! ## Moves of the unfolded net -/

namespace UnfoldsTo

/-- Where the start of a transition is enabled, the transition is. -/
theorem enables_of_start (hu : net.UnfoldsTo u) (ht : net.contains t.node = true)
    (hen : u.Enables μ (net.startOf t)) : net.Enables μ t := by
  refine ⟨ht, fun p hp => hen.2 p (arcCount_pos_iff.mp ?_)⟩
  rw [hu.takes t ht]
  exact arcCount_pos_iff.mpr hp

/-- The start of a processing step takes what the step takes, and puts a marker into its inner
place. -/
theorem works_start (h : net.WellFormed) (hu : net.UnfoldsTo u) (ht : net.IsApp t)
    (hmoves : u.Moves μ (net.startOf t) μ') : net.Works μ μ' := by
  have ⟨x, hx, hrole⟩ := ht
  have htokens (p : PlaceId) : μ'.tokens p
      = μ.tokens p - net.arcCount p.node t.node + if p = net.innerOf t then 1 else 0 := by
    rw [hmoves.tokens, hu.takes t ht.contains, hu.begins t x hx hrole]
  refine .start t ht (hu.enables_of_start ht.contains hmoves.enabled) ?_ ?_
  · intro p hp
    rw [htokens, if_neg (ne_innerOf hp t), Nat.add_zero]
  · intro t' ht'
    rw [htokens, (h.arcCount_eq_zero (net.not_contains_innerOf t') t.node).1, Nat.sub_zero,
      if_congr (ht'.innerOf_inj ht) rfl rfl]

/-- The end of a processing step takes the marker from its inner place, and puts what the step
puts. -/
theorem works_finish (h : net.WellFormed) (hu : net.UnfoldsTo u) (ht : net.IsApp t)
    (hmoves : u.Moves μ (net.endOf t) μ') : net.Works μ μ' := by
  have ⟨x, hx, hrole⟩ := ht
  have htokens (p : PlaceId) : μ'.tokens p
      = μ.tokens p - (if p = net.innerOf t then 1 else 0) + net.arcCount t.node p.node := by
    rw [hmoves.tokens, hu.puts t ht.contains, hu.finishes t x hx hrole]
  refine .finish t ht ?_ ?_
  · intro p hp
    rw [htokens, if_neg (ne_innerOf hp t), Nat.sub_zero]
  · intro t' ht'
    rw [htokens, (h.arcCount_eq_zero (net.not_contains_innerOf t') t.node).2, Nat.add_zero,
      if_congr (ht'.innerOf_inj ht) rfl rfl]
    split
    · rename_i heq
      subst heq
      have hmarked : 0 < μ.tokens (net.innerOf t') := by
        refine hmoves.enabled.2 _ (arcCount_pos_iff.mp ?_)
        rw [hu.finishes t' x hx hrole, if_pos rfl]
        exact Nat.one_pos
      omega
    · rfl

/-- A structural step is one transition of the unfolded net, and leaves the inner places alone. -/
theorem works_control (h : net.WellFormed) (hu : net.UnfoldsTo u) {x : Transition}
    (hx : net.transitions.get? t = some x) (hrole : x.role = .control)
    (hmoves : u.Moves μ (net.startOf t) μ') : net.Works μ μ' := by
  have ht := Arena.contains_of_get? hx
  have htokens (p : PlaceId) : μ'.tokens p
      = μ.tokens p - net.arcCount p.node t.node + net.arcCount t.node p.node := by
    rw [hmoves.tokens, hu.takes t ht, hu.control t x hx hrole, hu.puts t ht]
  refine .control t (hu.enables_of_start ht hmoves.enabled) (fun p _ => htokens p) fun t' _ => ?_
  obtain ⟨hfrom, hto⟩ := h.arcCount_eq_zero (net.not_contains_innerOf t') t.node
  rw [htokens, hfrom, hto, Nat.sub_zero, Nat.add_zero]

/-- **What a move of the unfolded net does.** -/
theorem works (h : net.WellFormed) (hu : net.UnfoldsTo u) (hmoves : u.Moves μ v μ') :
    net.Works μ μ' := by
  obtain ⟨t, ht, hv⟩ := hu.covers v hmoves.enabled.1
  obtain ⟨x, hx⟩ := Arena.contains_iff_exists.mp ht
  cases hrole : x.role with
  | app =>
      rcases hv with rfl | rfl
      · exact hu.works_start h ⟨x, hx, hrole⟩ hmoves
      · exact hu.works_finish h ⟨x, hx, hrole⟩ hmoves
  | control =>
      -- the start and the end are the same transition
      obtain rfl : v = net.startOf t := by
        rcases hv with rfl | rfl
        · rfl
        · exact (hu.control t x hx hrole).symm
      exact hu.works_control h hx hrole hmoves

end UnfoldsTo

end Net

end RoutePolicy
