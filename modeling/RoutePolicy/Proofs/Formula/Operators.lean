import RoutePolicy.Proofs.Formula.Semantics
import RoutePolicy.Proofs.Survey

set_option autoImplicit false

/-! # The path operators of nets that are made by the checked operations

For a net made from the empty one, the truth value of a path operator at a node is given by the
truth values of its operands at the nodes of the same kind:

* some walk along used arcs for the existential operators (`truth_existential`);
* every maximal run along used arcs for the universal ones (`truth_universal`).

A walk may repeat nodes and a run may go on for ever; the evaluation has seen neither. -/

namespace RoutePolicy

namespace Formula

/-- The formula is true at the node. -/
def IsTrueAt {k : Kind} (s : PathSet) (f : Formula k) (h : Handle k) : Prop :=
  f.evaluate s h = .ok true

/-- The formula has a truth value at the node, which is true exactly if the statement is. -/
def HasTruth {k : Kind} (s : PathSet) (f : Formula k) (h : Handle k) (P : Prop) : Prop :=
  ∃ b, f.evaluate s h = .ok b ∧ (b = true ↔ P)

section

variable {g : StepGraph} {limit : Option Nat} {s : PathSet} {k : Kind} {f : Formula k}
  {h : Handle k} {P : Prop}

theorem isTrueAt_iff (hg : g.net.WellFormed) (hs : g.pathSet limit = .ok s)
    (hh : g.net.contains h.node = true) : f.IsTrueAt s h ↔ f.Holds g h := by
  rw [IsTrueAt, evaluate_eq_ok_iff hg hs f hh]
  simp

theorem hasTruth_of_holds_iff (hg : g.net.WellFormed) (hs : g.pathSet limit = .ok s)
    (hh : g.net.contains h.node = true) (hP : f.Holds g h ↔ P) : f.HasTruth s h P := by
  classical
  refine ⟨decide P, (evaluate_eq_ok_iff hg hs f hh).mpr ?_, decide_eq_true_iff⟩
  rw [decide_eq_true_iff, hP]

/-- What is reached from a node of the net is in the net. -/
theorem contains_of_reaches (hg : g.net.WellFormed) {n m : Node} (hn : g.net.contains n = true)
    (hm : Relation.ReflTransGen g.Uses n m) : g.net.contains m = true := by
  induction hm with
  | refl => exact hn
  | tail _ hused _ => exact hused.contains hg

/-- A run from a node of the net stays in the net. -/
theorem contains_of_mem_run (hg : g.net.WellFormed) {n : Node} {v : Nat → Option Node}
    (hn : g.net.contains n = true) (hv : IsMaximalRun g.Uses n v) {i : Nat} {m : Node}
    (hm : v i = some m) : g.net.contains m = true := by
  cases i with
  | zero =>
      rw [hv.start, Option.some_inj] at hm
      exact hm ▸ hn
  | succ i =>
      cases hi : v i with
      | none => rw [hv.ended hi] at hm; cases hm
      | some n' => exact (hv.step hi hm).contains hg

end

/-! ## A net with a cycle -/

/-- A marker goes from one place to another and back, for ever. -/
def shuttle : Net :=
  (((((((Net.empty "shuttle").addPlace (.plain "here" 1)).addPlace (.plain "there" 0)
    ).addTransition (.bare "go" none)).addTransition (.bare "return" none)
    ).join ⟨⟨.place, 0⟩, ⟨.transition, 0⟩⟩).join ⟨⟨.transition, 0⟩, ⟨.place, 1⟩⟩
    ).join ⟨⟨.place, 1⟩, ⟨.transition, 1⟩⟩ |>.join ⟨⟨.transition, 1⟩, ⟨.place, 0⟩⟩

theorem shuttle_made : shuttle.Made := by
  refine .join (.join (.join (.join (.addTransition (.addTransition (.addPlace (.addPlace
    (.empty "shuttle") ?_) ?_))) rfl) rfl) rfl) rfl
  · decide
  · decide

/-- Its steps and paths are found without meeting a limit. -/
theorem exists_pathSet_shuttle : ∃ g s, shuttle.stepGraph none = .ok g ∧
    g.pathSet none = .ok s := by
  rw [Net.stepGraph_eq_survey]
  have h : (shuttle.survey none >>= (·.pathSet none)).isOk = true := by decide +kernel
  obtain ⟨s, hs⟩ := exists_eq_ok h
  obtain ⟨g, hg, hs⟩ := bind_eq_ok_iff.mp hs
  exact ⟨g, s, hg, hs⟩

/-! ## Existential operators -/

/-- **Until on some path is until on some walk**; on some path is at some node that can be reached,
and on every path at all nodes is at all of these. -/
theorem truth_existential {net : Net} (hnet : net.Made) {g : StepGraph} {s : PathSet}
    {stepLimit pathLimit : Option Nat} (hg : net.stepGraph stepLimit = .ok g)
    (hs : g.pathSet pathLimit = .ok s) {k : Kind} {h : Handle k}
    (hh : net.contains h.node = true) (hold reach : Formula k) :
    (existUntil hold reach).HasTruth s h (∃ w, ∃ x : Handle k,
      IsWalk g.Uses h.node (w ++ [x.node]) ∧ reach.IsTrueAt s x ∧
        ∀ y : Handle k, y.node ∈ w → hold.IsTrueAt s y) ∧
    (pos reach).HasTruth s h (∃ x : Handle k,
      Relation.ReflTransGen g.Uses h.node x.node ∧ reach.IsTrueAt s x) ∧
    (inv reach).HasTruth s h (∀ x : Handle k,
      Relation.ReflTransGen g.Uses h.node x.node → reach.IsTrueAt s x) := by
  obtain rfl := net_of_stepGraph hg
  have hwf := hnet.wellFormed
  -- the operands are looked at in nodes of the net only
  have hreach {x : Handle k} (hx : Relation.ReflTransGen g.Uses h.node x.node) :
      reach.IsTrueAt s x ↔ reach.Holds g x :=
    isTrueAt_iff hwf hs (contains_of_reaches hwf hh hx)
  refine ⟨hasTruth_of_holds_iff hwf hs hh ?_, hasTruth_of_holds_iff hwf hs hh ?_,
    hasTruth_of_holds_iff hwf hs hh ?_⟩
  · refine exists_congr fun w => exists_congr fun x => and_congr_right fun hw => ?_
    rw [hreach hw.reflTransGen]
    refine and_congr_right fun _ => forall_congr' fun y => imp_congr_right fun hy => ?_
    exact (isTrueAt_iff hwf hs (contains_of_mem_walk hwf hh hw y.node
      (List.mem_append_left _ hy))).symm
  · exact exists_congr fun x => and_congr_right fun hx => (hreach hx).symm
  · exact forall_congr' fun x => imp_congr_right fun hx => (hreach hx).symm

/-- The place `there` is one that can be reached from `here`. -/
theorem truth_existential_shuttle : ∃ g s, shuttle.stepGraph none = .ok g ∧
    g.pathSet none = .ok s ∧ (pos (.leaf (.placeId "there"))).HasTruth s (⟨0⟩ : PlaceId)
      (∃ x : PlaceId, Relation.ReflTransGen g.Uses ⟨.place, 0⟩ x.node ∧
        (leaf (.placeId "there")).IsTrueAt s x) := by
  obtain ⟨g, s, hg, hs⟩ := exists_pathSet_shuttle
  exact ⟨g, s, hg, hs, (truth_existential shuttle_made hg hs (by decide +kernel) .top _).2.1⟩

/-! ## Universal operators -/

/-- **Until on every path is until on every maximal run**, also on those that go round cycles for
ever; and so for a formula that is met on every path. -/
theorem truth_universal {net : Net} (hnet : net.Made) {g : StepGraph} {s : PathSet}
    {stepLimit pathLimit : Option Nat} (hg : net.stepGraph stepLimit = .ok g)
    (hs : g.pathSet pathLimit = .ok s) {k : Kind} {h : Handle k}
    (hh : net.contains h.node = true) (hold reach : Formula k) :
    (forallUntil hold reach).HasTruth s h (∀ v, IsMaximalRun g.Uses h.node v →
      ∃ i, ∃ x : Handle k, v i = some x.node ∧ reach.IsTrueAt s x ∧
        ∀ j, j < i → ∀ y : Handle k, v j = some y.node → hold.IsTrueAt s y) ∧
    (ev reach).HasTruth s h (∀ v, IsMaximalRun g.Uses h.node v →
      ∃ i, ∃ x : Handle k, v i = some x.node ∧ reach.IsTrueAt s x) := by
  obtain rfl := net_of_stepGraph hg
  have hwf := hnet.wellFormed
  -- a run does not leave the net either
  have hat {v : Nat → Option Node} (hv : IsMaximalRun g.Uses h.node v) (f : Formula k) {i : Nat}
      {x : Handle k} (hx : v i = some x.node) : f.IsTrueAt s x ↔ f.Holds g x :=
    isTrueAt_iff hwf hs (contains_of_mem_run hwf hh hv hx)
  refine ⟨hasTruth_of_holds_iff hwf hs hh ?_, hasTruth_of_holds_iff hwf hs hh ?_⟩
  · refine forall_congr' fun v => imp_congr_right fun hv => exists_congr fun i =>
      exists_congr fun x => and_congr_right fun hx => ?_
    rw [hat hv reach hx]
    exact and_congr_right fun _ => forall_congr' fun j => imp_congr_right fun _ =>
      forall_congr' fun y => imp_congr_right fun hy => (hat hv hold hy).symm
  · exact forall_congr' fun v => imp_congr_right fun hv => exists_congr fun i =>
      exists_congr fun x => and_congr_right fun hx => (hat hv reach hx).symm

/-- The place `there` is one that every run from `here` comes to. -/
theorem truth_universal_shuttle : ∃ g s, shuttle.stepGraph none = .ok g ∧
    g.pathSet none = .ok s ∧ (ev (.leaf (.placeId "there"))).HasTruth s (⟨0⟩ : PlaceId)
      (∀ v, IsMaximalRun g.Uses ⟨.place, 0⟩ v → ∃ i, ∃ x : PlaceId, v i = some x.node ∧
        (leaf (.placeId "there")).IsTrueAt s x) := by
  obtain ⟨g, s, hg, hs⟩ := exists_pathSet_shuttle
  exact ⟨g, s, hg, hs, (truth_universal shuttle_made hg hs (by decide +kernel) .top _).2⟩

end Formula

end RoutePolicy
