import RoutePolicy.Proofs.Formula.Citations
import RoutePolicy.Proofs.Formula.Operators

set_option autoImplicit false

/-! # What the facts of a value prove

The facts of an evaluation are texts of leaves at nodes that were looked at. In a formula without until
operators each of them is stated once, by a leaf at a node that can be reached from the node in question.
And they suffice: another truth of the leaves, at any nodes and even from one occurrence to the next,
gives the same value as long as it is the old one wherever a fact is stated
(`Formula.facts_grounded_and_sufficient`).

Both are shown for two evaluations side by side (`Accounts`). Whatever an operator takes over of the facts
of its operands is enough to know its value in the other evaluation. -/

namespace RoutePolicy

/-! ## Leaves with another truth -/

namespace Leaf

variable {k : Kind}

/-- The fact that the leaf states of a node: its message where it holds, else its negation. -/
def fact (p : Leaf k) (x : k.Content) : String := if p.test x then p.message else p.negation

theorem explain_eq (p : Leaf k) (x : k.Content) : p.explain x = .ofFact (p.test x) (p.fact x) := by
  rw [explain, fact]
  cases p.test x <;> rfl

/-- The second leaf has the texts of the first, and the given truth at the nodes of the net. -/
def Retested (net : Net) (v : Handle k → Bool) (p q : Leaf k) : Prop :=
  p.agrees q = true ∧ ∀ n x, net.content? k n = some x → q.test x = v n

/-- This truth is that of the leaf at each node of which the leaf states one of the facts. -/
def KeptBy (net : Net) (facts : List String) (v : Handle k → Bool) (p : Leaf k) : Prop :=
  ∀ n x, net.content? k n = some x → p.fact x ∈ facts → v n = p.test x

end Leaf

namespace Formula

/-- There is no until operator in the formula. -/
def UntilFree : {k : Kind} → Formula k → Prop
  | _, .top | _, .bottom | _, .leaf _ => True
  | _, .not f | _, .ev f | _, .pos f | _, .inv f => f.UntilFree
  | _, .modal f | _, .existNext f | _, .forallNext f => f.UntilFree
  | _, .and f g | _, .or f g => f.UntilFree ∧ g.UntilFree
  | _, .existModal next between | _, .forallModal next between =>
    next.UntilFree ∧ between.UntilFree
  | _, .existUntil _ _ | _, .forallUntil _ _ => False

/-- The leaves from left to right, with their kinds. -/
def leaves : {k : Kind} → Formula k → List ((j : Kind) × Leaf j)
  | _, .top | _, .bottom => []
  | k, .leaf p => [⟨k, p⟩]
  | _, .not f | _, .ev f | _, .pos f | _, .inv f => f.leaves
  | _, .modal f | _, .existNext f | _, .forallNext f => f.leaves
  | _, .and f g | _, .or f g | _, .existUntil f g | _, .forallUntil f g => f.leaves ++ g.leaves
  | _, .existModal next between | _, .forallModal next between => next.leaves ++ between.leaves

/-- The same operators at all positions, and related leaves. -/
inductive Alike (R : (k : Kind) → Leaf k → Leaf k → Prop) :
    {k : Kind} → Formula k → Formula k → Prop
  | top {k : Kind} : Alike R (.top : Formula k) .top
  | bottom {k : Kind} : Alike R (.bottom : Formula k) .bottom
  | leaf {k : Kind} {p q : Leaf k} (h : R k p q) : Alike R (.leaf p) (.leaf q)
  | and {k : Kind} {f g f' g' : Formula k} (hf : Alike R f f') (hg : Alike R g g') :
      Alike R (.and f g) (.and f' g')
  | or {k : Kind} {f g f' g' : Formula k} (hf : Alike R f f') (hg : Alike R g g') :
      Alike R (.or f g) (.or f' g')
  | not {k : Kind} {f f' : Formula k} (hf : Alike R f f') : Alike R (.not f) (.not f')
  | modal {k : Kind} {f f' : Formula k.other} (hf : Alike R f f') :
      Alike R (.modal f) (.modal f')
  | existNext {k : Kind} {f f' : Formula k.other} (hf : Alike R f f') :
      Alike R (.existNext f) (.existNext f')
  | forallNext {k : Kind} {f f' : Formula k.other} (hf : Alike R f f') :
      Alike R (.forallNext f) (.forallNext f')
  | existModal {k : Kind} {f f' : Formula k} {g g' : Formula k.other} (hf : Alike R f f')
      (hg : Alike R g g') : Alike R (.existModal f g) (.existModal f' g')
  | forallModal {k : Kind} {f f' : Formula k} {g g' : Formula k.other} (hf : Alike R f f')
      (hg : Alike R g g') : Alike R (.forallModal f g) (.forallModal f' g')
  | existUntil {k : Kind} {f g f' g' : Formula k} (hf : Alike R f f') (hg : Alike R g g') :
      Alike R (.existUntil f g) (.existUntil f' g')
  | forallUntil {k : Kind} {f g f' g' : Formula k} (hf : Alike R f f') (hg : Alike R g g') :
      Alike R (.forallUntil f g) (.forallUntil f' g')
  | ev {k : Kind} {f f' : Formula k} (hf : Alike R f f') : Alike R (.ev f) (.ev f')
  | pos {k : Kind} {f f' : Formula k} (hf : Alike R f f') : Alike R (.pos f) (.pos f')
  | inv {k : Kind} {f f' : Formula k} (hf : Alike R f f') : Alike R (.inv f) (.inv f')

/-- If each leaf of the formula is related to some leaf, then so is the formula to some formula. -/
theorem exists_alike {R : (k : Kind) → Leaf k → Leaf k → Prop} {k : Kind} {f : Formula k}
    (h : ∀ x ∈ f.leaves, ∃ q, R x.1 x.2 q) : ∃ f', f.Alike R f' := by
  induction f with
  | top => exact ⟨_, .top⟩
  | bottom => exact ⟨_, .bottom⟩
  | leaf p =>
      obtain ⟨q, hq⟩ := h _ (List.mem_singleton_self _)
      exact ⟨_, .leaf hq⟩
  | not f ih => exact (ih h).imp' _ fun _ => .not
  | modal f ih => exact (ih h).imp' _ fun _ => .modal
  | existNext f ih => exact (ih h).imp' _ fun _ => .existNext
  | forallNext f ih => exact (ih h).imp' _ fun _ => .forallNext
  | ev f ih => exact (ih h).imp' _ fun _ => .ev
  | pos f ih => exact (ih h).imp' _ fun _ => .pos
  | inv f ih => exact (ih h).imp' _ fun _ => .inv
  | and f g ihf ihg =>
      obtain ⟨hf, hg⟩ := List.forall_mem_append.mp h
      obtain ⟨f', hf'⟩ := ihf hf
      obtain ⟨g', hg'⟩ := ihg hg
      exact ⟨_, .and hf' hg'⟩
  | or f g ihf ihg =>
      obtain ⟨hf, hg⟩ := List.forall_mem_append.mp h
      obtain ⟨f', hf'⟩ := ihf hf
      obtain ⟨g', hg'⟩ := ihg hg
      exact ⟨_, .or hf' hg'⟩
  | existUntil f g ihf ihg =>
      obtain ⟨hf, hg⟩ := List.forall_mem_append.mp h
      obtain ⟨f', hf'⟩ := ihf hf
      obtain ⟨g', hg'⟩ := ihg hg
      exact ⟨_, .existUntil hf' hg'⟩
  | forallUntil f g ihf ihg =>
      obtain ⟨hf, hg⟩ := List.forall_mem_append.mp h
      obtain ⟨f', hf'⟩ := ihf hf
      obtain ⟨g', hg'⟩ := ihg hg
      exact ⟨_, .forallUntil hf' hg'⟩
  | existModal f g ihf ihg =>
      obtain ⟨hf, hg⟩ := List.forall_mem_append.mp h
      obtain ⟨f', hf'⟩ := ihf hf
      obtain ⟨g', hg'⟩ := ihg hg
      exact ⟨_, .existModal hf' hg'⟩
  | forallModal f g ihf ihg =>
      obtain ⟨hf, hg⟩ := List.forall_mem_append.mp h
      obtain ⟨f', hf'⟩ := ihf hf
      obtain ⟨g', hg'⟩ := ihg hg
      exact ⟨_, .forallModal hf' hg'⟩

end Formula

/-! ## Evaluations in two worlds -/

namespace Evaluation

/-- The conjunction of two values is true if both are. -/
theorem exists_and (e r : Evaluation) :
    ∃ a, (e.and fun _ => .ok r) = .ok a ∧ a.holds = (e.holds && r.holds) := by
  rw [and]
  cases he : e.holds with
  | false => exact ⟨e, rfl, he⟩
  | true =>
      refine ⟨if !r.holds then r else e.absorb r, rfl, ?_⟩
      cases hr : r.holds with
      | false => exact hr
      | true => exact he

/-- The opposite of the value that comes, for the same reasons. -/
def negated (x : Except Failure Evaluation) : Except Failure Evaluation := do return (← x).negate

/-- A disjunction is the opposite of the conjunction of the opposites, for the same reasons. -/
theorem or_eq_negated (x y : Except Failure Evaluation) :
    (do (← x).or fun _ => y) = negated (do (← negated x).and fun _ => negated y) := by
  cases x with
  | error failure => rfl
  | ok e =>
      obtain ⟨b, facts⟩ := e
      cases y with
      | error failure => cases b <;> rfl
      | ok r =>
          obtain ⟨b', facts'⟩ := r
          cases b <;> cases b' <;> rfl

/-- The first of the values decides if it is true; else the others do. -/
theorem anyFrom_cons {α : Type} {f : α → Except Failure Evaluation} {failed e r : Evaluation} {x : α}
    {l : List α} (hx : f x = .ok r) (hl : anyFrom f (failed.absorb r) l = .ok e) :
    anyFrom f failed (x :: l) = .ok (if r.holds then r else e) := by
  rw [anyFrom, hx, ok_bind, hl]
  cases r.holds <;> rfl

/-- That all values are true is the opposite of that some of the opposites is, for the same reasons. -/
theorem allFrom_eq_negated {α : Type} (f : α → Except Failure Evaluation) (held : Evaluation)
    (l : List α) :
    allFrom f held l = negated (anyFrom (fun x => negated (f x)) held.negate l) := by
  induction l generalizing held with
  | nil =>
      obtain ⟨b, facts⟩ := held
      cases b <;> rfl
  | cons x l ih =>
      rw [allFrom, anyFrom]
      cases f x with
      | error failure => rfl
      | ok e =>
          obtain ⟨b, facts⟩ := e
          cases b with
          | false => rfl
          | true => exact ih (held.absorb ⟨true, facts⟩)

/-- On a path on which nothing has to hold before, the value is that of any position. -/
theorem scanFrom_always {α : Type} (reach : α → Except Failure Evaluation) (missed : Evaluation)
    (l : List α) : scanFrom always reach missed l = anyFrom reach missed l := by
  induction l generalizing missed with
  | nil => rfl
  | cons x l ih =>
      rw [scanFrom, anyFrom]
      cases reach x with
      | error failure => rfl
      | ok e =>
          rw [ok_bind, ok_bind, ← ih]
          rfl

end Evaluation

/-- Both evaluations give a value. The facts of the first one are all different and among the `G`; and
if `K` holds of them, then the second one has the same truth value. -/
def Accounts (G : String → Prop) (K : List String → Prop) (x y : Except Failure Evaluation) :
    Prop :=
  ∃ e e', x = .ok e ∧ y = .ok e' ∧ e.facts.Nodup ∧ (∀ fact ∈ e.facts, G fact) ∧
    (K e.facts → e'.holds = e.holds)

namespace Accounts

variable {G : String → Prop} {K : List String → Prop} {x y x' y' : Except Failure Evaluation}

theorem constant (b : Bool) :
    Accounts G K (.ok (.constant b)) (.ok (.constant b)) :=
  ⟨_, _, rfl, rfl, List.nodup_nil, by simp [Evaluation.constant], fun _ => rfl⟩

theorem negate (h : Accounts G K x y) :
    Accounts G K (Evaluation.negated x) (Evaluation.negated y) := by
  obtain ⟨e, e', rfl, rfl, hnodup, hG, hsame⟩ := h
  exact ⟨e.negate, e'.negate, rfl, rfl, hnodup, hG, fun hK => by
    rw [Evaluation.negate, Evaluation.negate, hsame hK]⟩

variable (hK : ∀ {F F' : List String}, F ⊆ F' → K F' → K F)

include hK

/-- A false operand decides with its own facts, two true ones with those of both. -/
theorem and (hx : Accounts G K x y) (hx' : Accounts G K x' y') :
    Accounts G K (do (← x).and fun _ => x') (do (← y).and fun _ => y') := by
  obtain ⟨e, e', rfl, rfl, hnodup, hG, hsame⟩ := hx
  obtain ⟨r, r', rfl, rfl, hnodup', hG', hsame'⟩ := hx'
  obtain ⟨a', ha', hholds⟩ := Evaluation.exists_and e' r'
  rw [ok_bind, ok_bind, ha', Evaluation.and]
  cases he : e.holds with
  | false =>
      refine ⟨e, a', rfl, rfl, hnodup, hG, fun hkept => ?_⟩
      rw [hholds, hsame hkept, he, Bool.false_and]
  | true =>
      refine ⟨if !r.holds then r else e.absorb r, a', rfl, rfl, ?_⟩
      cases hr : r.holds with
      | false =>
          refine ⟨hnodup', hG', fun hkept => ?_⟩
          have hfalse : r'.holds = false := (hsame' hkept).trans hr
          exact hholds.trans (by rw [hfalse, Bool.and_false]; exact hr.symm)
      | true =>
          refine ⟨Evaluation.nodup_merge hnodup, fun fact hfact => ?_, fun hkept => ?_⟩
          · exact (Evaluation.mem_merge_iff.mp hfact).elim (hG fact) (hG' fact)
          · have hkept₁ := hK (fun x hx => Evaluation.mem_merge_iff.mpr (Or.inl hx)) hkept
            have hkept₂ := hK (fun x hx => Evaluation.mem_merge_iff.mpr (Or.inr hx)) hkept
            show a'.holds = e.holds
            rw [hholds, hsame hkept₁, hsame' hkept₂, he, hr, Bool.and_self]

theorem or (hx : Accounts G K x y) (hx' : Accounts G K x' y') :
    Accounts G K (do (← x).or fun _ => x') (do (← y).or fun _ => y') := by
  rw [Evaluation.or_eq_negated, Evaluation.or_eq_negated]
  exact (hx.negate.and hK hx'.negate).negate

section

variable {α : Type} {f f' : α → Except Failure Evaluation} {l : List α}

/-- The first true value decides with its own facts; if none is true, all facts are collected. -/
theorem anyFrom (failed failed' : Evaluation) (hfailed : failed.holds = false)
    (hfailed' : failed'.holds = false) (hnodup : failed.facts.Nodup)
    (hG : ∀ fact ∈ failed.facts, G fact) (h : ∀ x ∈ l, Accounts G K (f x) (f' x)) :
    ∃ e e', Evaluation.anyFrom f failed l = .ok e ∧ Evaluation.anyFrom f' failed' l = .ok e' ∧
      e.facts.Nodup ∧ (∀ fact ∈ e.facts, G fact) ∧ (K e.facts → e'.holds = e.holds) ∧
      (e.holds = false → failed.facts ⊆ e.facts) := by
  induction l generalizing failed failed' with
  | nil =>
      exact ⟨failed, failed', rfl, rfl, hnodup, hG, fun _ => hfailed'.trans hfailed.symm,
        fun _ => List.Subset.refl _⟩
  | cons x l ih =>
      obtain ⟨⟨r, r', hx, hx', hr, hrG, hsame⟩, hl⟩ := List.forall_mem_cons.mp h
      obtain ⟨e, e', he, he', hnodup', hG', hsame', hsub⟩ := ih (failed.absorb r)
        (failed'.absorb r') hfailed hfailed' (Evaluation.nodup_merge hnodup)
        (fun fact hfact => (Evaluation.mem_merge_iff.mp hfact).elim (hG fact) (hrG fact)) hl
      refine ⟨_, _, Evaluation.anyFrom_cons hx he, Evaluation.anyFrom_cons hx' he', ?_⟩
      cases htrue : r.holds with
      | true =>
          refine ⟨hr, hrG, fun hkept => ?_, fun hfalse => ?_⟩
          · have htrue' : r'.holds = true := (hsame hkept).trans htrue
            rw [if_pos htrue', if_pos rfl, htrue', htrue]
          · rw [if_pos rfl, htrue] at hfalse
            cases hfalse
      | false =>
          rw [if_neg Bool.false_ne_true]
          refine ⟨hnodup', hG', fun hkept => ?_, fun hfalse fact hfact =>
            hsub hfalse (Evaluation.mem_merge_iff.mpr (Or.inl hfact))⟩
          have hlater := hsame' hkept
          by_cases htrue' : r'.holds = true
          · -- then this value was not kept, so a later one was true
            rw [if_pos htrue', htrue']
            by_contra hfalse
            have hsubset := hsub (Bool.eq_false_iff.mpr (Ne.symm hfalse))
            have hkept' := hK (fun fact hfact =>
              hsubset (Evaluation.mem_merge_iff.mpr (Or.inr hfact))) hkept
            rw [hsame hkept', htrue] at htrue'
            cases htrue'
          · rw [if_neg htrue', hlater]

theorem any (h : ∀ x ∈ l, Accounts G K (f x) (f' x)) :
    Accounts G K (Evaluation.any f l) (Evaluation.any f' l) := by
  obtain ⟨e, e', he, he', hnodup, hG, hsame, -⟩ := anyFrom hK (.constant false)
    (.constant false) rfl rfl List.nodup_nil (by simp [Evaluation.constant]) h
  exact ⟨e, e', he, he', hnodup, hG, hsame⟩

theorem all (h : ∀ x ∈ l, Accounts G K (f x) (f' x)) :
    Accounts G K (Evaluation.all f l) (Evaluation.all f' l) := by
  rw [Evaluation.all, Evaluation.all, Evaluation.allFrom_eq_negated, Evaluation.allFrom_eq_negated]
  exact (any hK fun x hx => (h x hx).negate).negate

theorem scan_always (h : ∀ x ∈ l, Accounts G K (f x) (f' x)) :
    Accounts G K (Evaluation.scan always f l) (Evaluation.scan always f' l) := by
  rw [Evaluation.scan, Evaluation.scan, Evaluation.scanFrom_always, Evaluation.scanFrom_always]
  exact any hK h

end

end Accounts

/-! ## Nodes of the other world -/

namespace Net

/-- The net with the number of each node as its identifier. -/
def numbered (net : Net) : Net :=
  { net with
    places := ⟨net.places.entries.mapIdx fun i x => { x with id := toString i }⟩
    transitions := ⟨net.transitions.entries.mapIdx fun i x => { x with id := toString i }⟩ }

theorem contains_numbered (net : Net) (n : Node) : net.numbered.contains n = net.contains n := by
  obtain ⟨k, i⟩ := n
  cases k <;> exact congrArg (fun size => decide (i < size)) Array.size_mapIdx

/-- The numbers tell the nodes apart. -/
theorem eq_of_content?_numbered {net : Net} {k : Kind} {n n' : Handle k} {x : k.Content}
    (h : net.numbered.content? k n = some x) (h' : net.numbered.content? k n' = some x) : n = n' := by
  obtain ⟨i⟩ := n
  obtain ⟨i'⟩ := n'
  have hid : toString i = toString i' := by
    cases k with
    | place =>
        simp only [content?, numbered, Arena.get?, Array.getElem?_mapIdx] at h h'
        obtain ⟨y, -, rfl⟩ := Option.map_eq_some_iff.mp h
        obtain ⟨y', -, hy⟩ := Option.map_eq_some_iff.mp h'
        exact (congrArg Place.id hy).symm
    | transition =>
        simp only [content?, numbered, Arena.get?, Array.getElem?_mapIdx] at h h'
        obtain ⟨y, -, rfl⟩ := Option.map_eq_some_iff.mp h
        obtain ⟨y', -, hy⟩ := Option.map_eq_some_iff.mp h'
        exact (congrArg Transition.id hy).symm
  have hvalue := congrArg (fun text => Nat.ofDigitChars 10 text.toList 0) hid
  simp only [Nat.toString_eq_repr, Nat.toList_repr, Nat.ofDigitChars_ten_toDigits] at hvalue
  rw [hvalue]

/-- Any truth of a leaf at the nodes is that of some test on them. -/
theorem exists_retested {k : Kind} (net : Net) (v : Handle k → Bool) (p : Leaf k) :
    ∃ q, p.Retested net.numbered v q := by
  classical
  refine ⟨{ p with test := fun x => ∃ n, net.numbered.content? k n = some x ∧ v n = true },
    by simp [Leaf.agrees], fun n x hx => ?_⟩
  rw [Bool.eq_iff_iff, decide_eq_true_iff]
  constructor
  · rintro ⟨n', hx', hv⟩
    rwa [eq_of_content?_numbered hx hx']
  · exact fun hv => ⟨n, hx, hv⟩

end Net

/-! ## Formulas in two worlds -/

theorem PathSet.content?_eq (s : PathSet) {k : Kind} (h : Handle k) :
    s.content? k h = s.net.content? k h := by
  cases k <;> rfl

namespace Formula

variable {g : StepGraph} {limit : Option Nat} {s : PathSet} {net' : Net}
  {R : (k : Kind) → Leaf k → Leaf k → Prop}

/-- A leaf of those that are related states the fact of a node that can be reached. -/
def StatedFrom (g : StepGraph) (R : (k : Kind) → Leaf k → Leaf k → Prop) (root : Node)
    (fact : String) : Prop :=
  ∃ k, ∃ p q : Leaf k, R k p q ∧ ∃ n : Handle k, Relation.ReflTransGen g.Uses root n.node ∧
    ∃ x, g.net.content? k n = some x ∧ p.fact x = fact

/-- Each of the related leaves has in the other net a truth that these facts keep. -/
def KeptAt (g : StepGraph) (net' : Net) (R : (k : Kind) → Leaf k → Leaf k → Prop)
    (facts : List String) : Prop :=
  ∀ k (p q : Leaf k), R k p q → ∃ v, p.Retested net' v q ∧ p.KeptBy g.net facts v

theorem KeptAt.mono {F F' : List String} (hsub : F ⊆ F') (h : KeptAt g net' R F') :
    KeptAt g net' R F := by
  intro k p q hpq
  obtain ⟨v, hv, hkept⟩ := h k p q hpq
  exact ⟨v, hv, fun n x hx hfact => hkept n x hx (hsub hfact)⟩

/-- The nodes on the paths from a node can be reached from it. -/
theorem reaches_of_mem_runsFrom (hg : g.net.WellFormed) (hs : g.pathSet limit = .ok s) {k : Kind}
    {h x : Handle k} {l : List (Handle k)} (hl : l ∈ s.runsFrom h) (hx : x ∈ l) :
    Relation.ReflTransGen g.Uses h.node x.node := by
  obtain ⟨w, hw, rfl⟩ := (mem_runsFrom_iff hg hs).mp hl
  obtain ⟨n, hn, hnx⟩ := List.mem_filterMap.mp hx
  obtain rfl := Node.handle?_eq_some_iff.mp hnx
  obtain ⟨w₁, w₂, rfl⟩ := List.append_of_mem hn
  exact hw.walk.take.reflTransGen

/-- A leaf at a node states one fact, and has the same truth in the other net if that is kept. -/
theorem accounts_leaf (hs : g.pathSet limit = .ok s)
    (hnodes : ∀ n, net'.contains n = g.net.contains n) {root : Node} {k : Kind} {p q : Leaf k}
    (hpq : R k p q) {h : Handle k} (hin : g.net.contains h.node = true)
    (hh : Relation.ReflTransGen g.Uses root h.node) :
    Accounts (StatedFrom g R root) (KeptAt g net' R) ((leaf p).explain s h)
      ((leaf q).explain { s with net := net' } h) := by
  obtain ⟨x, hx⟩ := Net.exists_content? hin
  obtain ⟨x', hx'⟩ := Net.exists_content? ((hnodes h.node).trans hin)
  have hsx : s.content? k h = some x := by
    rw [PathSet.content?_eq, (PathSet.eq_of_pathSet hs).1, hx]
  have hsx' : PathSet.content? { s with net := net' } k h = some x' := by
    rw [PathSet.content?_eq, hx']
  refine ⟨p.explain x, q.explain x', by rw [explain, hsx], by rw [explain, hsx'], ?_⟩
  rw [Leaf.explain_eq, Leaf.explain_eq]
  refine ⟨List.nodup_singleton _, fun fact hfact => ?_, fun hkept => ?_⟩
  · obtain rfl := List.mem_singleton.mp hfact
    exact ⟨k, p, q, hpq, h, hh, x, hx, rfl⟩
  · obtain ⟨v, hv, hfacts⟩ := hkept k p q hpq
    exact (hv.2 h x' hx').trans (hfacts h x hx (List.mem_singleton_self _))

/-- **The facts of a formula account for its value**, at each node that can be reached from the root. The
induction is on the two formulas side by side; both are evaluated along the same paths. -/
theorem Alike.accounts (hg : g.net.WellFormed) (hs : g.pathSet limit = .ok s)
    (hnodes : ∀ n, net'.contains n = g.net.contains n) {root : Node}
    (hroot : g.net.contains root = true) {k : Kind} {f f' : Formula k} (halike : f.Alike R f')
    (hf : f.UntilFree) {h : Handle k} (hh : Relation.ReflTransGen g.Uses root h.node) :
    Accounts (StatedFrom g R root) (KeptAt g net' R) (f.explain s h)
      (f'.explain { s with net := net' } h) := by
  have hmono {F F' : List String} (hsub : F ⊆ F') (hkept : KeptAt g net' R F') : KeptAt g net' R F :=
    hkept.mono hsub
  have hnext {j k : Kind} {n : Handle j} {x : Handle k}
      (hn : Relation.ReflTransGen g.Uses root n.node) (hx : x ∈ s.next k n) :
      Relation.ReflTransGen g.Uses root x.node := hn.tail ((PathSet.mem_next_iff hs).mp hx)
  have hpath {k : Kind} {n x : Handle k} {l : List (Handle k)}
      (hn : Relation.ReflTransGen g.Uses root n.node) (hl : l ∈ s.runsFrom n) (hx : x ∈ l) :
      Relation.ReflTransGen g.Uses root x.node := hn.trans (reaches_of_mem_runsFrom hg hs hl hx)
  induction halike with
  | top => exact .constant true
  | bottom => exact .constant false
  | leaf hpq => exact accounts_leaf hs hnodes hpq (contains_of_reaches hg hroot hh) hh
  | and _ _ ihf ihg => exact (ihf hf.1 hh).and hmono (ihg hf.2 hh)
  | or _ _ ihf ihg => exact (ihf hf.1 hh).or hmono (ihg hf.2 hh)
  | not _ ih => exact (ih hf hh).negate
  | modal _ ih => exact .any hmono fun x hx => ih hf (hnext hh hx)
  | existNext _ ih => exact .any hmono fun x hx => ih hf (hnext hh hx)
  | forallNext _ ih => exact (Accounts.any hmono fun x hx => (ih hf (hnext hh hx)).negate).negate
  | existModal _ _ ihn ihb =>
      exact .any hmono fun x hx => (ihb hf.2 (hnext hh hx)).and hmono
        (.any hmono fun y hy => ihn hf.1 (hnext (hnext hh hx) hy))
  | forallModal _ _ ihn ihb =>
      exact .all hmono fun x hx => (ihb hf.2 (hnext hh hx)).and hmono
        (.all hmono fun y hy => ihn hf.1 (hnext (hnext hh hx) hy))
  | existUntil _ _ _ _ => exact hf.elim
  | forallUntil _ _ _ _ => exact hf.elim
  | ev _ ih =>
      exact .all hmono fun l hl => .scan_always hmono fun x hx => ih hf (hpath hh hl hx)
  | pos _ ih =>
      exact .any hmono fun l hl => .scan_always hmono fun x hx => ih hf (hpath hh hl hx)
  | inv _ ih =>
      exact (Accounts.any hmono fun l hl => .scan_always hmono fun x hx =>
        (ih hf (hpath hh hl hx)).negate).negate

/-- **The facts of a value are grounded and sufficient**, in a formula without until operators. They are
all different, and each one is what a leaf of the formula states of a node that can be reached. Let each
occurrence of a leaf have another truth at the nodes, which is the old one wherever the leaf states one
of the facts: then the formula has the same truth value. Every truth of the leaves at the nodes can be
had so. -/
theorem facts_grounded_and_sufficient (hg : g.net.WellFormed) (hs : g.pathSet limit = .ok s)
    {k : Kind} {f : Formula k} (hf : f.UntilFree) {h : Handle k}
    (hh : g.net.contains h.node = true) :
    ∃ e, f.explain s h = .ok e ∧ e.facts.Nodup ∧
      (∀ fact ∈ e.facts, ∃ j, ∃ p : Leaf j, ⟨j, p⟩ ∈ f.leaves ∧ ∃ n : Handle j,
        Relation.ReflTransGen g.Uses h.node n.node ∧
          ∃ x, g.net.content? j n = some x ∧ p.fact x = fact) ∧
      (∀ net' f', (∀ n, net'.contains n = g.net.contains n) →
        f.Alike (fun _ p q => ∃ v, p.Retested net' v q ∧ p.KeptBy g.net e.facts v) f' →
        ∃ e', f'.explain { s with net := net' } h = .ok e' ∧ e'.holds = e.holds) ∧
      ∀ v : (j : Kind) → Leaf j → Handle j → Bool, ∃ net' f',
        (∀ n, net'.contains n = g.net.contains n) ∧
          f.Alike (fun j p q => p.Retested net' (v j p) q) f' := by
  obtain ⟨f₀, hf₀⟩ := exists_alike (R := fun j p _ => ⟨j, p⟩ ∈ f.leaves) fun x hx => ⟨x.2, hx⟩
  have hown (n : Node) : g.net.contains n = g.net.contains n := rfl
  obtain ⟨e, -, he, -, hnodup, hstated, -⟩ := hf₀.accounts hg hs hown hh hf .refl
  refine ⟨e, he, hnodup, fun fact hfact => ?_, fun net' f' hnodes halike => ?_, fun v => ?_⟩
  · obtain ⟨j, p, -, hp, hreached⟩ := hstated fact hfact
    exact ⟨j, p, hp, hreached⟩
  · obtain ⟨e₁, e', he₁, he', -, -, hsame⟩ := halike.accounts hg hs hnodes hh hf .refl
    obtain rfl := Except.ok.inj (he.symm.trans he₁)
    exact ⟨e', he', hsame fun _ _ _ hkept => hkept⟩
  · obtain ⟨f', hf'⟩ := exists_alike (R := fun j p q => p.Retested g.net.numbered (v j p) q)
      fun x (_ : x ∈ f.leaves) => g.net.exists_retested (v x.1 x.2) x.2
    exact ⟨g.net.numbered, f', g.net.contains_numbered, hf'⟩

/-- There is no marker in the place, or one can get from it to the other place. -/
def departure : StateFormula := .or (.not (.leaf .marked)) (.pos (.leaf (.placeId "there")))

/-- It is true for the sake of the other place alone, whichever places are said to hold a marker. -/
theorem facts_grounded_and_sufficient_shuttle : ∃ g s, shuttle.stepGraph none = .ok g ∧
    g.pathSet none = .ok s ∧ departure.explain s ⟨0⟩ = .ok ⟨true, ["place is there"]⟩ ∧
    ∀ net' f', (∀ n, net'.contains n = shuttle.contains n) →
      departure.Alike (fun _ p q => ∃ v, p.Retested net' v q ∧
        p.KeptBy shuttle ["place is there"] v) f' →
      ∃ e', f'.explain { s with net := net' } ⟨0⟩ = .ok e' ∧ e'.holds = true := by
  have hvalue : ((shuttle.survey none >>= (·.pathSet none)).toOption.map
      fun s => (departure.explain s ⟨0⟩).toOption) = some (some ⟨true, ["place is there"]⟩) := by
    decide +kernel
  obtain ⟨s, hs, hexplain⟩ := exists_ok_of_map hvalue
  obtain ⟨g, hg, hs⟩ := bind_eq_ok_iff.mp hs
  rw [← Net.stepGraph_eq_survey] at hg
  have hnet : g.net = shuttle := net_of_stepGraph hg
  obtain ⟨e, he, -, -, hsame, -⟩ := facts_grounded_and_sufficient (hnet ▸ shuttle_made.wellFormed)
    hs (f := departure) ⟨trivial, trivial⟩ (h := ⟨0⟩) (hnet ▸ rfl)
  rw [he] at hexplain
  obtain rfl := Option.some.inj hexplain
  rw [hnet] at hsame
  exact ⟨g, s, hg, hs, he, hsame⟩

end Formula

end RoutePolicy
