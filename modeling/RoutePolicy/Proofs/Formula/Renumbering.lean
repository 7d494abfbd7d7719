import RoutePolicy.Proofs.Formula.Semantics
import RoutePolicy.Proofs.Renumbering

set_option autoImplicit false

/-! # Formulas on renumbered nets

A formula whose leaves look at what a node holds, and not at the arcs listed at it, holds at a node
exactly if it holds at the renumbered node of the renumbered net (`Net.Renumbers.holds_iff`). -/

namespace RoutePolicy

/-- What a node holds, without the arcs at it. -/
def Kind.data : (k : Kind) → k.Content → k.Content
  | .place => Place.data
  | .transition => Transition.data

/-- The test does not look at the arcs listed at the node. -/
def Leaf.IgnoresArcs {k : Kind} (p : Leaf k) : Prop := ∀ x, p.test (k.data x) = p.test x

/-- No leaf looks at the arcs listed at a node. -/
def Formula.IgnoresArcs : {k : Kind} → Formula k → Prop
  | _, .top | _, .bottom => True
  | _, .leaf p => p.IgnoresArcs
  | _, .not f | _, .ev f | _, .pos f | _, .inv f => f.IgnoresArcs
  | _, .modal f | _, .existNext f | _, .forallNext f => f.IgnoresArcs
  | _, .and f f' | _, .or f f' | _, .existUntil f f' | _, .forallUntil f f' =>
    f.IgnoresArcs ∧ f'.IgnoresArcs
  | _, .existModal next between | _, .forallModal next between =>
    next.IgnoresArcs ∧ between.IgnoresArcs

variable {net net' : Net} {ρ : Renumbering} {g g' : StepGraph}
  {stepLimit stepLimit' : Option Nat}

namespace Net.Renumbers

section

variable (h : net.Renumbers ρ net')

include h

theorem content?_data {k : Kind} (x : Handle k) :
    (net'.content? k (ρ k x)).map k.data = (net.content? k x).map k.data := by
  cases k with
  | place => exact h.place x
  | transition => exact h.transition x

/-- A leaf that does not look at the arcs has the same value. -/
theorem test_iff {k : Kind} {p : Leaf k} (hp : p.IgnoresArcs) (x : Handle k) :
    (∃ y, net'.content? k (ρ k x) = some y ∧ p.test y = true) ↔
      ∃ y, net.content? k x = some y ∧ p.test y = true := by
  have hdata (net : Net) (x : Handle k) : (∃ y, net.content? k x = some y ∧ p.test y = true) ↔
      ((net.content? k x).map k.data).any p.test = true := by
    rw [Option.any_map, Option.any_eq_true]
    simp only [hp _]
  rw [hdata, hdata, h.content?_data]

variable (hnet : net.Ordinary) (hnet' : net'.Ordinary)
  (hg : net.stepGraph stepLimit = .ok g) (hg' : net'.stepGraph stepLimit' = .ok g')

include hnet hnet' hg hg'

/-- Some node that a used arc leads to has a property. -/
theorem exists_next_iff {j k : Kind} {P P' : Handle k → Prop} (hP : ∀ x, P' (ρ k x) ↔ P x)
    (x : Handle j) : (∃ y : Handle k, g'.Uses (ρ j x).node y.node ∧ P' y) ↔
      ∃ y : Handle k, g.Uses x.node y.node ∧ P y := by
  rw [← (ρ k).exists_congr_right]
  exact exists_congr fun y =>
    and_congr (h.uses_iff hnet hnet' hg hg' (n := x.node) (m := y.node)) (hP y)

/-- All nodes that a used arc leads to have a property. -/
theorem forall_next_iff {j k : Kind} {P P' : Handle k → Prop} (hP : ∀ x, P' (ρ k x) ↔ P x)
    (x : Handle j) : (∀ y : Handle k, g'.Uses (ρ j x).node y.node → P' y) ↔
      ∀ y : Handle k, g.Uses x.node y.node → P y := by
  rw [← (ρ k).forall_congr_right]
  exact forall_congr' fun y =>
    imp_congr (h.uses_iff hnet hnet' hg hg' (n := x.node) (m := y.node)) (hP y)

/-- A node that is reached has a property. -/
theorem exists_reached_iff {k : Kind} {P P' : Handle k → Prop} (hP : ∀ x, P' (ρ k x) ↔ P x)
    (x : Handle k) :
    (∃ y : Handle k, Relation.ReflTransGen g'.Uses (ρ k x).node y.node ∧ P' y) ↔
      ∃ y : Handle k, Relation.ReflTransGen g.Uses x.node y.node ∧ P y := by
  rw [← (ρ k).exists_congr_right]
  exact exists_congr fun y =>
    and_congr (reflTransGen_map_iff (h.usesIso hnet hnet' hg hg') (a := x.node) (b := y.node)) (hP y)

/-- All nodes that are reached have a property. -/
theorem forall_reached_iff {k : Kind} {P P' : Handle k → Prop} (hP : ∀ x, P' (ρ k x) ↔ P x)
    (x : Handle k) :
    (∀ y : Handle k, Relation.ReflTransGen g'.Uses (ρ k x).node y.node → P' y) ↔
      ∀ y : Handle k, Relation.ReflTransGen g.Uses x.node y.node → P y := by
  rw [← (ρ k).forall_congr_right]
  exact forall_congr' fun y =>
    imp_congr (reflTransGen_map_iff (h.usesIso hnet hnet' hg hg') (a := x.node) (b := y.node)) (hP y)

/-- On some walk one property holds until the other does. -/
theorem exists_until_iff {k : Kind} {P P' Q Q' : Handle k → Prop} (hP : ∀ x, P' (ρ k x) ↔ P x)
    (hQ : ∀ x, Q' (ρ k x) ↔ Q x) (x : Handle k) :
    (∃ w, ∃ y : Handle k, IsWalk g'.Uses (ρ k x).node (w ++ [y.node]) ∧ Q' y ∧
        ∀ z : Handle k, z.node ∈ w → P' z) ↔
      ∃ w, ∃ y : Handle k, IsWalk g.Uses x.node (w ++ [y.node]) ∧ Q y ∧
        ∀ z : Handle k, z.node ∈ w → P z := by
  rw [← (Equiv.listEquivOfEquiv ρ.node).exists_congr_right]
  refine exists_congr fun w => ?_
  rw [← (ρ k).exists_congr_right]
  refine exists_congr fun y => and_congr ?_ (and_congr (hQ y) ?_)
  · rw [← isWalk_map_iff (h.usesIso hnet hnet' hg hg'), List.map_append]
    rfl
  · rw [← (ρ k).forall_congr_right]
    refine forall_congr' fun z => imp_congr ?_ (hP z)
    exact List.mem_map_of_injective ρ.node.injective (a := z.node) (l := w)

/-- On every run one property holds until the other does. -/
theorem forall_until_iff {k : Kind} (P P' : Handle k → Prop) {Q Q' : Handle k → Prop}
    (hP : ∀ x, P' (ρ k x) ↔ P x) (hQ : ∀ x, Q' (ρ k x) ↔ Q x) (x : Handle k) :
    (∀ v, IsMaximalRun g'.Uses (ρ k x).node v → ∃ i, ∃ y : Handle k, v i = some y.node ∧ Q' y ∧
        ∀ j, j < i → ∀ z : Handle k, v j = some z.node → P' z) ↔
      ∀ v, IsMaximalRun g.Uses x.node v → ∃ i, ∃ y : Handle k, v i = some y.node ∧ Q y ∧
        ∀ j, j < i → ∀ z : Handle k, v j = some z.node → P z := by
  have hat (v : Nat → Option Node) (i : Nat) (y : Handle k) :
      runEquiv (h.usesIso hnet hnet' hg hg') v i = some (ρ k y).node ↔ v i = some y.node := by
    rw [runEquiv_apply, Option.map_eq_some_iff]
    constructor
    · rintro ⟨n, hn, heq⟩
      rw [hn, ρ.node.injective (show ρ.node n = ρ.node y.node from heq)]
    · intro hy
      exact ⟨_, hy, rfl⟩
  rw [← (runEquiv (h.usesIso hnet hnet' hg hg')).forall_congr_right]
  refine forall_congr' fun v =>
    imp_congr (isMaximalRun_map_iff (h.usesIso hnet hnet' hg hg') (a := x.node))
      (exists_congr fun i => ?_)
  rw [← (ρ k).exists_congr_right]
  refine exists_congr fun y => and_congr (hat v i y) (and_congr (hQ y) ?_)
  refine forall_congr' fun j => imp_congr_right fun _ => ?_
  rw [← (ρ k).forall_congr_right]
  exact forall_congr' fun z => imp_congr (hat v j z) (hP z)

/-- **A formula holds at a node exactly if it holds at the renumbered node.** The induction is on the
formula; walks and runs are taken to walks and runs along the renumbered nodes. -/
theorem holds_iff {k : Kind} (f : Formula k) (hf : f.IgnoresArcs) (x : Handle k) :
    f.Holds g' (ρ k x) ↔ f.Holds g x := by
  induction f with
  | top => rfl
  | bottom => rfl
  | leaf p =>
      have htest := h.test_iff hf x
      rwa [← net_of_stepGraph hg, ← net_of_stepGraph hg'] at htest
  | and f f' ih ih' => exact and_congr (ih hf.1 x) (ih' hf.2 x)
  | or f f' ih ih' => exact or_congr (ih hf.1 x) (ih' hf.2 x)
  | not f ih => exact not_congr (ih hf x)
  | modal f ih => exact h.exists_next_iff hnet hnet' hg hg' (ih hf) x
  | existNext f ih => exact h.exists_next_iff hnet hnet' hg hg' (ih hf) x
  | forallNext f ih => exact h.forall_next_iff hnet hnet' hg hg' (ih hf) x
  | existModal next between ih ih' =>
      exact h.exists_next_iff hnet hnet' hg hg' (fun y => and_congr (ih' hf.2 y)
        (h.exists_next_iff hnet hnet' hg hg' (ih hf.1) y)) x
  | forallModal next between ih ih' =>
      exact h.forall_next_iff hnet hnet' hg hg' (fun y => and_congr (ih' hf.2 y)
        (h.forall_next_iff hnet hnet' hg hg' (ih hf.1) y)) x
  | existUntil hold reach ih ih' =>
      exact h.exists_until_iff hnet hnet' hg hg' (ih hf.1) (ih' hf.2) x
  | forallUntil hold reach ih ih' =>
      exact h.forall_until_iff hnet hnet' hg hg' _ _ (ih hf.1) (ih' hf.2) x
  | ev f ih =>
      have huntil := h.forall_until_iff hnet hnet' hg hg' (fun _ => True) (fun _ => True)
        (fun _ => Iff.rfl) (ih hf) x
      simpa only [Formula.Holds, implies_true, and_true] using huntil
  | pos f ih => exact h.exists_reached_iff hnet hnet' hg hg' (ih hf) x
  | inv f ih => exact h.forall_reached_iff hnet hnet' hg hg' (ih hf) x

end

end Net.Renumbers

end RoutePolicy
