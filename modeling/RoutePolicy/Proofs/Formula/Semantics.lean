import RoutePolicy.Formula.Evaluation
import RoutePolicy.Proofs.PathSet

set_option autoImplicit false

/-! # Formulas mean what holds on walks and runs

The meaning of a formula at a node is given without paths (`Formula.Holds`): the existential path
operators speak of all walks along used arcs, and the universal ones of all maximal runs, of which
most go on for ever. Evaluation on the enumerated paths gives a truth value at every node of the
net, and it is the meaning of the formula (`Formula.decides_explain`). -/

namespace RoutePolicy

/-! ## Until conditions on lists -/

section

variable {α β : Type} {P Q : α → Prop} {x : α} {l : List α}

theorem untilOn_nil_iff : UntilOn P Q [] ↔ False := by
  rw [iff_false]
  rintro ⟨p, x, q, h, -⟩
  simp at h

theorem untilOn_cons_iff : UntilOn P Q (x :: l) ↔ Q x ∨ P x ∧ UntilOn P Q l := by
  constructor
  · rintro ⟨_ | ⟨y, p⟩, z, q, heq, hQ, hP⟩
    · obtain ⟨rfl, rfl⟩ := List.cons.inj heq
      exact Or.inl hQ
    · obtain ⟨rfl, rfl⟩ := List.cons.inj heq
      obtain ⟨hPx, hPp⟩ := List.forall_mem_cons.mp hP
      exact Or.inr ⟨hPx, p, z, q, rfl, hQ, hPp⟩
  · rintro (hQ | ⟨hPx, p, z, q, rfl, hQ, hP⟩)
    · exact ⟨[], x, l, rfl, hQ, by simp⟩
    · exact ⟨x :: p, z, q, rfl, hQ, List.forall_mem_cons.mpr ⟨hPx, hP⟩⟩

/-- Elements that are left out of a list are neither reached nor have to hold. -/
theorem untilOn_filterMap_iff {f : α → Option β} {P Q : β → Prop} :
    UntilOn P Q (l.filterMap f) ↔
      UntilOn (fun a => ∀ b, f a = some b → P b) (fun a => ∃ b, f a = some b ∧ Q b) l := by
  induction l with
  | nil => rw [List.filterMap_nil, untilOn_nil_iff, untilOn_nil_iff]
  | cons a l ih =>
      rw [List.filterMap_cons, untilOn_cons_iff, ← ih]
      cases f a with
      | none => simp
      | some b => simp [untilOn_cons_iff]

end

/-! ## Evaluations that decide a statement -/

/-- The evaluation gives a truth value, and it is that of the statement. -/
def Decides (x : Except Failure Evaluation) (P : Prop) : Prop :=
  ∃ e, x = .ok e ∧ (e.holds = true ↔ P)

section

variable {x y : Except Failure Evaluation} {P Q : Prop}

theorem Decides.congr (h : Decides x P) (hPQ : P ↔ Q) : Decides x Q := by
  obtain ⟨e, he, hP⟩ := h
  exact ⟨e, he, hP.trans hPQ⟩

theorem decides_constant (b : Bool) : Decides (.ok (.constant b)) (b = true) := ⟨_, rfl, .rfl⟩

theorem Decides.and (hx : Decides x P) (hy : Decides y Q) :
    Decides (do (← x).and fun _ => y) (P ∧ Q) := by
  obtain ⟨e, rfl, hP⟩ := hx
  obtain ⟨e', rfl, hQ⟩ := hy
  rw [ok_bind, Evaluation.and, ← hP, ← hQ]
  cases he : e.holds with
  | false => exact ⟨e, rfl, by simp [he]⟩
  | true =>
      refine ⟨if !e'.holds then e' else e.absorb e', rfl, ?_⟩
      cases he' : e'.holds <;> simp [he, he', Evaluation.absorb]

theorem Decides.or (hx : Decides x P) (hy : Decides y Q) :
    Decides (do (← x).or fun _ => y) (P ∨ Q) := by
  obtain ⟨e, rfl, hP⟩ := hx
  obtain ⟨e', rfl, hQ⟩ := hy
  rw [ok_bind, Evaluation.or, ← hP, ← hQ]
  cases he : e.holds with
  | true => exact ⟨e, rfl, by simp [he]⟩
  | false =>
      refine ⟨if e'.holds then e' else e.absorb e', rfl, ?_⟩
      cases he' : e'.holds <;> simp [he, he', Evaluation.absorb]

theorem Decides.negate (hx : Decides x P) : Decides (do return (← x).negate) (¬P) := by
  obtain ⟨e, rfl, hP⟩ := hx
  refine ⟨e.negate, rfl, ?_⟩
  rw [← hP, Evaluation.negate, Bool.not_eq_true', Bool.not_eq_true]

end

section

variable {α : Type} {f hold reach : α → Except Failure Evaluation} {P Q : α → Prop} {l : List α}

theorem decides_anyFrom {failed : Evaluation} (hfailed : failed.holds = false)
    (h : ∀ x ∈ l, Decides (f x) (P x)) :
    Decides (Evaluation.anyFrom f failed l) (∃ x ∈ l, P x) := by
  induction l generalizing failed with
  | nil => exact ⟨failed, rfl, by simp [hfailed]⟩
  | cons x l ih =>
      obtain ⟨⟨e, hx, hP⟩, hl⟩ := List.forall_mem_cons.mp h
      rw [Evaluation.anyFrom, hx, ok_bind]
      simp only [List.exists_mem_cons_iff, ← hP]
      cases he : e.holds with
      | true => exact ⟨e, rfl, by simp [he]⟩
      | false => simpa using ih (by simpa [Evaluation.absorb] using hfailed) hl

theorem decides_any (h : ∀ x ∈ l, Decides (f x) (P x)) :
    Decides (Evaluation.any f l) (∃ x ∈ l, P x) := decides_anyFrom rfl h

theorem decides_allFrom {held : Evaluation} (hheld : held.holds = true)
    (h : ∀ x ∈ l, Decides (f x) (P x)) :
    Decides (Evaluation.allFrom f held l) (∀ x ∈ l, P x) := by
  induction l generalizing held with
  | nil => exact ⟨held, rfl, by simp [hheld]⟩
  | cons x l ih =>
      obtain ⟨⟨e, hx, hP⟩, hl⟩ := List.forall_mem_cons.mp h
      rw [Evaluation.allFrom, hx, ok_bind]
      simp only [List.forall_mem_cons, ← hP]
      cases he : e.holds with
      | false => exact ⟨e, rfl, by simp [he]⟩
      | true => simpa using ih (by simpa [Evaluation.absorb] using hheld) hl

theorem decides_all (h : ∀ x ∈ l, Decides (f x) (P x)) :
    Decides (Evaluation.all f l) (∀ x ∈ l, P x) := decides_allFrom rfl h

theorem decides_scanFrom {missed : Evaluation} (hmissed : missed.holds = false)
    (hP : ∀ x ∈ l, Decides (hold x) (P x)) (hQ : ∀ x ∈ l, Decides (reach x) (Q x)) :
    Decides (Evaluation.scanFrom hold reach missed l) (UntilOn P Q l) := by
  induction l generalizing missed with
  | nil => exact ⟨missed, rfl, by simp [hmissed, untilOn_nil_iff]⟩
  | cons x l ih =>
      obtain ⟨⟨e, hx, hPx⟩, hPl⟩ := List.forall_mem_cons.mp hP
      obtain ⟨⟨e', hx', hQx⟩, hQl⟩ := List.forall_mem_cons.mp hQ
      rw [Evaluation.scanFrom, hx', ok_bind, untilOn_cons_iff, ← hPx, ← hQx]
      cases he' : e'.holds with
      | true => exact ⟨e', rfl, by simp [he']⟩
      | false =>
          rw [if_neg Bool.false_ne_true, hx]
          show Decides (if !e.holds then pure e else _) _
          cases he : e.holds with
          | false => exact ⟨e, rfl, by simp [he]⟩
          | true => simpa using ih (by simpa [Evaluation.absorb] using hmissed) hPl hQl

theorem decides_scan (hP : ∀ x ∈ l, Decides (hold x) (P x)) (hQ : ∀ x ∈ l, Decides (reach x) (Q x)) :
    Decides (Evaluation.scan hold reach l) (UntilOn P Q l) := decides_scanFrom rfl hP hQ

theorem decides_always (x : α) : Decides (always x) True :=
  (decides_constant true).congr (by simp)

end

/-! ## The meaning of formulas -/

/-- What a node of the net holds. -/
def Net.content? (net : Net) : (k : Kind) → Handle k → Option k.Content
  | .place, p => net.places.get? p
  | .transition, t => net.transitions.get? t

theorem Net.exists_content? {net : Net} {k : Kind} {h : Handle k}
    (hh : net.contains h.node = true) : ∃ x, net.content? k h = some x := by
  cases k <;> exact Arena.contains_iff_exists.mp hh

/-- The formula holds at the node, by the walks and the runs along used arcs. -/
def Formula.Holds (g : StepGraph) : {k : Kind} → Formula k → Handle k → Prop
  | _, .top, _ => True
  | _, .bottom, _ => False
  | k, .leaf p, h => ∃ x, g.net.content? k h = some x ∧ p.test x = true
  | _, .and f f', h => f.Holds g h ∧ f'.Holds g h
  | _, .or f f', h => f.Holds g h ∨ f'.Holds g h
  | _, .not f, h => ¬f.Holds g h
  | k, .modal f, h => ∃ x : Handle k.other, g.Uses h.node x.node ∧ f.Holds g x
  | k, .existNext f, h => ∃ x : Handle k.other, g.Uses h.node x.node ∧ f.Holds g x
  | k, .forallNext f, h => ∀ x : Handle k.other, g.Uses h.node x.node → f.Holds g x
  | k, .existModal next between, h => ∃ x : Handle k.other, g.Uses h.node x.node ∧
      between.Holds g x ∧ ∃ y : Handle k, g.Uses x.node y.node ∧ next.Holds g y
  | k, .forallModal next between, h => ∀ x : Handle k.other, g.Uses h.node x.node →
      between.Holds g x ∧ ∀ y : Handle k, g.Uses x.node y.node → next.Holds g y
  | k, .existUntil hold reach, h => ∃ w, ∃ x : Handle k, IsWalk g.Uses h.node (w ++ [x.node]) ∧
      reach.Holds g x ∧ ∀ y : Handle k, y.node ∈ w → hold.Holds g y
  | k, .forallUntil hold reach, h => ∀ v, IsMaximalRun g.Uses h.node v →
      ∃ i, ∃ x : Handle k, v i = some x.node ∧ reach.Holds g x ∧
        ∀ j, j < i → ∀ y : Handle k, v j = some y.node → hold.Holds g y
  | k, .ev f, h => ∀ v, IsMaximalRun g.Uses h.node v →
      ∃ i, ∃ x : Handle k, v i = some x.node ∧ f.Holds g x
  | k, .pos f, h => ∃ x : Handle k, Relation.ReflTransGen g.Uses h.node x.node ∧ f.Holds g x
  | k, .inv f, h => ∀ x : Handle k, Relation.ReflTransGen g.Uses h.node x.node → f.Holds g x

/-! ## Path operators -/

section

variable {k : Kind} {g : StepGraph} {limit : Option Nat} {s : PathSet} {h : Handle k}

/-- **An until operator looks at the maximal paths from its node, each cut down to the nodes of
one kind.** -/
theorem mem_runsFrom_iff {k : Kind} (hg : g.net.WellFormed) (hs : g.pathSet limit = .ok s)
    {h : Handle k} {l : List (Handle k)} : l ∈ s.runsFrom h ↔
      ∃ w, IsMaximalPath g.Uses h.node w ∧ w.filterMap (Node.handle? k) = l := by
  have hpaths (w : List Node) := PathSet.exists_startingAt_iff hg hs (n := h.node) (w := w)
  rw [PathSet.runsFrom]
  split
  · rename_i hnil
    have hstuck := (PathSet.startingAt_eq_nil_iff hg hs).mp hnil
    have hsingle : [h.node].filterMap (Node.handle? k) = [h] := by simp
    rw [List.mem_singleton]
    constructor
    · rintro rfl
      exact ⟨_, (PathSet.isMaximalPath_short_iff.mpr ⟨hstuck, rfl⟩).1, hsingle⟩
    · rintro ⟨w, hw, rfl⟩
      by_cases hlen : w.length < 2
      · obtain ⟨-, rfl⟩ := PathSet.isMaximalPath_short_iff.mp ⟨hw, hlen⟩
        exact hsingle
      · obtain ⟨p, hp, -⟩ := (hpaths w).mpr ⟨hw, Nat.le_of_not_lt hlen⟩
        rw [hnil] at hp
        exact absurd hp List.not_mem_nil
  · rename_i hne
    rw [List.mem_map]
    constructor
    · rintro ⟨p, hp, rfl⟩
      exact ⟨p.nodes, ((hpaths p.nodes).mp ⟨p, hp, rfl⟩).1, rfl⟩
    · rintro ⟨w, hw, rfl⟩
      by_cases hlen : w.length < 2
      · exact absurd ((PathSet.startingAt_eq_nil_iff hg hs).mpr (PathSet.isMaximalPath_short_iff.mp ⟨hw, hlen⟩).1) hne
      · obtain ⟨p, hp, rfl⟩ := (hpaths w).mpr ⟨hw, Nat.le_of_not_lt hlen⟩
        exact ⟨p, hp, rfl⟩

/-- Along used arcs one stays in the net. -/
theorem StepGraph.Uses.contains (hg : g.net.WellFormed) {n m : Node} (h : g.Uses n m) :
    g.net.contains m = true := hg.target _ h.1

theorem contains_of_mem_walk (hg : g.net.WellFormed) {n : Node} {w : List Node}
    (hn : g.net.contains n = true) (hw : IsWalk g.Uses n w) : ∀ m ∈ w, g.net.contains m = true := by
  intro m hm
  cases w with
  | nil => exact absurd rfl hw.ne_nil
  | cons n' w =>
      obtain rfl : n' = n := by simpa using hw.start
      rcases List.mem_cons.mp hm with rfl | hm
      · exact hn
      · obtain ⟨n'', hused⟩ := exists_rel_of_mem_tail hw.chain m hm
        exact hused.contains hg

variable {hold reach : Handle k → Except Failure Evaluation} {P Q : Handle k → Prop}

/-- The condition `P` for the nodes of the kind; other nodes need not satisfy it. -/
def AtKind (P : Handle k → Prop) (n : Node) : Prop := ∀ x : Handle k, n = x.node → P x

/-- The node is of the kind and satisfies `Q`. -/
def IsAtKind (Q : Handle k → Prop) (n : Node) : Prop := ∃ x : Handle k, n = x.node ∧ Q x

/-- On a path that starts at the node an until operator has a truth value. -/
theorem decides_scan_of_mem_runsFrom (hg : g.net.WellFormed) (hs : g.pathSet limit = .ok s)
    (hh : g.net.contains h.node = true)
    (hP : ∀ x, g.net.contains x.node = true → Decides (hold x) (P x))
    (hQ : ∀ x, g.net.contains x.node = true → Decides (reach x) (Q x))
    {l : List (Handle k)} (hl : l ∈ s.runsFrom h) :
    Decides (Evaluation.scan hold reach l) (UntilOn P Q l) := by
  obtain ⟨w, hw, rfl⟩ := (mem_runsFrom_iff hg hs).mp hl
  have hin : ∀ x ∈ w.filterMap (Node.handle? k), g.net.contains x.node = true := by
    intro x hx
    obtain ⟨n, hn, hnx⟩ := List.mem_filterMap.mp hx
    rw [Node.handle?_eq_some_iff] at hnx
    exact hnx ▸ contains_of_mem_walk hg hh hw.walk n hn
  exact decides_scan (fun x hx => hP x (hin x hx)) fun x hx => hQ x (hin x hx)

theorem untilOn_handles_iff {w : List Node} : UntilOn P Q (w.filterMap (Node.handle? k)) ↔
    UntilOn (AtKind P) (IsAtKind Q) w := by
  simp only [untilOn_filterMap_iff, Node.handle?_eq_some_iff]
  rfl

/-- **On some of the paths means on some walk.** -/
theorem decides_untilAt_someOf (hg : g.net.WellFormed) (hs : g.pathSet limit = .ok s)
    (hh : g.net.contains h.node = true)
    (hP : ∀ x, g.net.contains x.node = true → Decides (hold x) (P x))
    (hQ : ∀ x, g.net.contains x.node = true → Decides (reach x) (Q x)) :
    Decides (s.untilAt .someOf hold reach h)
      (∃ w, ∃ x : Handle k, IsWalk g.Uses h.node (w ++ [x.node]) ∧ Q x ∧
        ∀ y : Handle k, y.node ∈ w → P y) := by
  refine (decides_any fun l hl => decides_scan_of_mem_runsFrom hg hs hh hP hQ hl).congr ?_
  -- the nodes of the other kind are no obstacle on the way
  have hwalk := exists_walk_until_iff (R := g.Uses) (P := AtKind P) (Q := IsAtKind Q)
    (a := h.node) fun _ _ => StepGraph.Uses.mem_targets
  constructor
  · rintro ⟨l, hl, huntil⟩
    obtain ⟨w, hw, rfl⟩ := (mem_runsFrom_iff hg hs).mp hl
    obtain ⟨w', _, hw', ⟨x, rfl, hQx⟩, hPw'⟩ :=
      hwalk.mpr ⟨w, hw, untilOn_handles_iff.mp huntil⟩
    exact ⟨w', x, hw', hQx, fun y hy => hPw' y.node hy y rfl⟩
  · rintro ⟨w, x, hw, hQx, hPw⟩
    obtain ⟨w', hw', huntil⟩ := hwalk.mp ⟨w, x.node, hw, ⟨x, rfl, hQx⟩, fun n hn y hny =>
      hPw y (hny ▸ hn)⟩
    exact ⟨_, (mem_runsFrom_iff hg hs).mpr ⟨w', hw', rfl⟩, untilOn_handles_iff.mpr huntil⟩

/-- **On all of the paths means on all maximal runs.** -/
theorem decides_untilAt_allOf (hg : g.net.WellFormed) (hs : g.pathSet limit = .ok s)
    (hh : g.net.contains h.node = true)
    (hP : ∀ x, g.net.contains x.node = true → Decides (hold x) (P x))
    (hQ : ∀ x, g.net.contains x.node = true → Decides (reach x) (Q x)) :
    Decides (s.untilAt .allOf hold reach h)
      (∀ v, IsMaximalRun g.Uses h.node v → ∃ i, ∃ x : Handle k, v i = some x.node ∧ Q x ∧
        ∀ j, j < i → ∀ y : Handle k, v j = some y.node → P y) := by
  refine (decides_all fun l hl => decides_scan_of_mem_runsFrom hg hs hh hP hQ hl).congr ?_
  have hrun := forall_run_until_iff (R := g.Uses) (P := AtKind P) (Q := IsAtKind Q)
    (a := h.node) fun _ _ => StepGraph.Uses.mem_targets
  have halong (v : Nat → Option Node) : UntilAlong (AtKind P) (IsAtKind Q) v ↔
      ∃ i, ∃ x : Handle k, v i = some x.node ∧ Q x ∧
        ∀ j, j < i → ∀ y : Handle k, v j = some y.node → P y := by
    constructor
    · rintro ⟨i, _, hi, ⟨x, rfl, hQx⟩, hPi⟩
      exact ⟨i, x, hi, hQx, fun j hj y hy => hPi j hj y.node hy y rfl⟩
    · rintro ⟨i, x, hi, hQx, hPi⟩
      exact ⟨i, x.node, hi, ⟨x, rfl, hQx⟩, fun j hj n hn y hny => hPi j hj y (hny ▸ hn)⟩
  simp only [halong] at hrun
  rw [hrun]
  constructor
  · intro hl w hw
    exact untilOn_handles_iff.mp (hl _ ((mem_runsFrom_iff hg hs).mpr ⟨w, hw, rfl⟩))
  · intro hw l hl
    obtain ⟨w, hw', rfl⟩ := (mem_runsFrom_iff hg hs).mp hl
    exact untilOn_handles_iff.mpr (hw w hw')

/-- Some node that can be reached satisfies `Q`. -/
theorem decides_reachable (hg : g.net.WellFormed) (hs : g.pathSet limit = .ok s)
    (hh : g.net.contains h.node = true)
    (hQ : ∀ x, g.net.contains x.node = true → Decides (reach x) (Q x)) :
    Decides (s.untilAt .someOf always reach h)
      (∃ x : Handle k, Relation.ReflTransGen g.Uses h.node x.node ∧ Q x) := by
  refine (decides_untilAt_someOf hg hs hh (fun x _ => decides_always x) hQ).congr ?_
  constructor
  · rintro ⟨w, x, hw, hQx, -⟩
    exact ⟨x, hw.reflTransGen, hQx⟩
  · rintro ⟨x, hx, hQx⟩
    obtain ⟨w, hw⟩ := exists_walk_of_reflTransGen hx
    exact ⟨w, x, hw, hQx, fun _ _ => trivial⟩

end

/-! ## Evaluation -/

namespace Formula

variable {g : StepGraph} {limit : Option Nat} {s : PathSet}

/-- Over the nodes that used arcs lead to. -/
theorem decides_any_next {j k : Kind} (hg : g.net.WellFormed) (hs : g.pathSet limit = .ok s)
    {h : Handle j} {f : Handle k → Except Failure Evaluation} {P : Handle k → Prop}
    (hf : ∀ x, g.net.contains x.node = true → Decides (f x) (P x)) :
    Decides (Evaluation.any f (s.next k h)) (∃ x : Handle k, g.Uses h.node x.node ∧ P x) := by
  refine (decides_any fun x hx => hf x ?_).congr (exists_congr fun x => ?_)
  · exact ((PathSet.mem_next_iff hs).mp hx).contains hg
  · rw [PathSet.mem_next_iff hs]

theorem decides_all_next {j k : Kind} (hg : g.net.WellFormed) (hs : g.pathSet limit = .ok s)
    {h : Handle j} {f : Handle k → Except Failure Evaluation} {P : Handle k → Prop}
    (hf : ∀ x, g.net.contains x.node = true → Decides (f x) (P x)) :
    Decides (Evaluation.all f (s.next k h)) (∀ x : Handle k, g.Uses h.node x.node → P x) := by
  refine (decides_all fun x hx => hf x ?_).congr (forall_congr' fun x => ?_)
  · exact ((PathSet.mem_next_iff hs).mp hx).contains hg
  · rw [PathSet.mem_next_iff hs]

/-- **Evaluation on the enumerated paths decides what holds on walks and runs.** -/
theorem decides_explain (hg : g.net.WellFormed) (hs : g.pathSet limit = .ok s) {k : Kind}
    (f : Formula k) {h : Handle k} (hh : g.net.contains h.node = true) :
    Decides (f.explain s h) (f.Holds g h) := by
  induction f with
  | top => exact (decides_constant true).congr (by simp [Holds])
  | bottom => exact (decides_constant false).congr (by simp [Holds])
  | @leaf k p =>
      obtain ⟨x, hx⟩ := Net.exists_content? hh
      -- the path set keeps the net of the step graph
      have hsx : s.content? k h = some x := by
        rw [← hx, ← (PathSet.eq_of_pathSet hs).1]
        cases k <;> rfl
      refine ⟨p.explain x, by rw [explain, hsx], ?_⟩
      simp only [Holds, hx, Option.some.injEq, exists_eq_left']
      cases hp : p.test x <;> simp [Leaf.explain, hp, Evaluation.ofFact]
  | and f f' ihf ihf' => exact (ihf hh).and (ihf' hh)
  | or f f' ihf ihf' => exact (ihf hh).or (ihf' hh)
  | not f ih => exact (ih hh).negate
  | modal f ih => exact decides_any_next hg hs fun x hx => ih hx
  | existNext f ih => exact decides_any_next hg hs fun x hx => ih hx
  | forallNext f ih =>
      refine (decides_any_next hg hs fun x hx => (ih hx).negate).negate.congr ?_
      simp only [not_exists, not_and, not_not]
      rfl
  | existModal next between ihn ihb =>
      exact decides_any_next hg hs fun x hx =>
        (ihb hx).and (decides_any_next hg hs fun y hy => ihn hy)
  | forallModal next between ihn ihb =>
      exact decides_all_next hg hs fun x hx =>
        (ihb hx).and (decides_all_next hg hs fun y hy => ihn hy)
  | existUntil hold reach ihh ihr =>
      exact decides_untilAt_someOf hg hs hh (fun x hx => ihh hx) fun x hx => ihr hx
  | forallUntil hold reach ihh ihr =>
      exact decides_untilAt_allOf hg hs hh (fun x hx => ihh hx) fun x hx => ihr hx
  | ev f ih =>
      refine (decides_untilAt_allOf hg hs hh (fun x _ => decides_always x) fun x hx =>
        ih hx).congr ?_
      simp only [implies_true, and_true]
      rfl
  | pos f ih => exact decides_reachable hg hs hh fun x hx => ih hx
  | inv f ih =>
      refine (decides_reachable hg hs hh fun x hx => (ih hx).negate).negate.congr ?_
      simp only [not_exists, not_and, not_not]
      rfl

/-- The truth value of a formula is true exactly where it holds, and there is one at every node of
the net. -/
theorem evaluate_eq_ok_iff (hg : g.net.WellFormed) (hs : g.pathSet limit = .ok s) {k : Kind}
    (f : Formula k) {h : Handle k} (hh : g.net.contains h.node = true) {b : Bool} :
    f.evaluate s h = .ok b ↔ (b = true ↔ f.Holds g h) := by
  obtain ⟨e, he, hiff⟩ := decides_explain hg hs f hh
  rw [evaluate, he, ← hiff]
  show Except.ok e.holds = .ok b ↔ _
  rw [Except.ok.injEq]
  cases b <;> cases e.holds <;> simp

end Formula

end RoutePolicy
