import RoutePolicy.Proofs.Formula.Evidence

set_option autoImplicit false

/-! # Failures that are explained

A value for which no fact is stated should not depend on the leaves. The connectives and the modal
operators see to that: what they leave out of the facts of their operands did not decide the value. The
scan of a path by an until operator does not. Where it stops at a value without facts it forgets what it
went past, be it goals that were missed or conditions that held, and a failure that a leaf has decided
may be reported without a reason (`Formula.failure_unexplained`).

By the rules of the connectives an until operator asks at each position for the goal, or for the
condition and the goal later on (`Evaluation.scanByRules`). Where each scan keeps a fact whenever these
rules do, every failure that depends on the leaves is explained (`Formula.failures_explained`). -/

namespace RoutePolicy

/-- Unless the first evaluation states a fact, its value is that of the second one. -/
def Settles (x y : Except Failure Evaluation) : Prop :=
  ∀ e e', x = .ok e → y = .ok e' → e.facts = [] → e'.holds = e.holds

namespace Evaluation

/-! ## Until operators by the rules of the connectives -/

/-- The value of an until operator on a path: the goal is met, or the condition holds and the goal is
met on the rest of the path. -/
def scanByRules {α : Type} (hold reach : α → Except Failure Evaluation) :
    List α → Except Failure Evaluation
  | [] => .ok (constant false)
  | x :: l => do (← reach x).or fun _ => do (← hold x).and fun _ => scanByRules hold reach l

/-- The scan of the path states a fact if the rules of the connectives do. -/
def KeepsFact {α : Type} (hold reach : α → Except Failure Evaluation) (l : List α) : Prop :=
  ∀ e e', scan hold reach l = .ok e → scanByRules hold reach l = .ok e' → e'.facts ≠ [] →
    e.facts ≠ []

section

variable {α : Type} {f hold reach : α → Except Failure Evaluation} {l : List α}

theorem merge_eq_nil_iff {facts others : List String} :
    merge facts others = [] ↔ facts = [] ∧ others = [] := by
  simp only [List.eq_nil_iff_forall_not_mem, mem_merge_iff, not_or, forall_and]

/-- If none of the values is true, all facts are collected. -/
theorem subset_of_anyFrom {failed e : Evaluation} (h : anyFrom f failed l = .ok e)
    (hfalse : e.holds = false) : failed.facts ⊆ e.facts := by
  induction l generalizing failed with
  | nil =>
      obtain rfl := Except.ok.inj h
      exact List.Subset.refl _
  | cons x l ih =>
      obtain ⟨r, -, h⟩ := bind_eq_ok_iff.mp h
      cases hr : r.holds with
      | true =>
          rw [hr] at h
          obtain rfl := Except.ok.inj h
          rw [hr] at hfalse
          cases hfalse
      | false =>
          rw [hr] at h
          exact fun fact hfact => ih h (mem_merge_iff.mpr (Or.inl hfact))

/-- The disjunction of two values is true if one of them is. -/
theorem exists_or (e r : Evaluation) :
    ∃ a, (e.or fun _ => .ok r) = .ok a ∧ a.holds = (e.holds || r.holds) := by
  rw [or]
  cases he : e.holds with
  | true => exact ⟨e, rfl, he⟩
  | false =>
      refine ⟨if r.holds then r else e.absorb r, rfl, ?_⟩
      cases hr : r.holds with
      | true => exact hr
      | false => exact he

/-- The scan of a path has the truth value that the rules give. -/
theorem exists_scanByRules {missed e : Evaluation} (hmissed : missed.holds = false)
    (h : scanFrom hold reach missed l = .ok e) :
    ∃ e', scanByRules hold reach l = .ok e' ∧ e'.holds = e.holds := by
  induction l generalizing missed with
  | nil =>
      obtain rfl := Except.ok.inj h
      exact ⟨_, rfl, hmissed.symm⟩
  | cons x l ih =>
      obtain ⟨r, hr, h⟩ := bind_eq_ok_iff.mp h
      rw [scanByRules, hr, ok_bind]
      cases hreached : r.holds with
      | true =>
          rw [hreached] at h
          obtain rfl := Except.ok.inj h
          exact ⟨r, by rw [or, hreached]; rfl, rfl⟩
      | false =>
          rw [hreached] at h
          obtain ⟨b, hb, h⟩ := bind_eq_ok_iff.mp h
          rw [hb, ok_bind]
          cases hheld : b.holds with
          | false =>
              rw [hheld] at h
              obtain rfl := Except.ok.inj h
              have hand : (b.and fun _ => scanByRules hold reach l) = .ok b := by
                rw [and, hheld]
                rfl
              obtain ⟨a, ha, hholds⟩ := exists_or r b
              exact ⟨a, by rw [hand, ha], by rw [hholds, hreached, Bool.false_or]⟩
          | true =>
              rw [hheld] at h
              have hstill : (missed.absorb r).holds = false := hmissed
              obtain ⟨e', he', hsame⟩ := ih hstill h
              obtain ⟨c, hc, hrest⟩ := exists_and b e'
              obtain ⟨a, ha, hholds⟩ := exists_or r c
              refine ⟨a, by rw [he', hc, ha], ?_⟩
              rw [hholds, hrest, hreached, hheld, Bool.false_or, Bool.true_and, hsame]

/-- Of a path on which each value states a fact the scan keeps one. -/
theorem keepsFact_of_stated (hhold : ∀ x e, hold x = .ok e → e.facts ≠ [])
    (hreach : ∀ x e, reach x = .ok e → e.facts ≠ []) : KeepsFact hold reach l := by
  have hscan {l : List α} {missed e : Evaluation} (h : scanFrom hold reach missed l = .ok e)
      (hne : l ≠ [] ∨ missed.facts ≠ []) : e.facts ≠ [] := by
    induction l generalizing missed with
    | nil =>
        obtain rfl := Except.ok.inj h
        exact hne.resolve_left fun hnil => hnil rfl
    | cons x l ih =>
        obtain ⟨r, hr, h⟩ := bind_eq_ok_iff.mp h
        cases hreached : r.holds with
        | true =>
            rw [hreached] at h
            obtain rfl := Except.ok.inj h
            exact hreach x r hr
        | false =>
            rw [hreached] at h
            obtain ⟨b, hb, h⟩ := bind_eq_ok_iff.mp h
            cases hheld : b.holds with
            | false =>
                rw [hheld] at h
                obtain rfl := Except.ok.inj h
                exact hhold x b hb
            | true =>
                rw [hheld] at h
                exact ih h (Or.inr fun hnil => hreach x r hr (merge_eq_nil_iff.mp hnil).2)
  intro e e' he he' hfacts
  refine hscan he (Or.inl ?_)
  rintro rfl
  obtain rfl := Except.ok.inj he'
  exact hfacts rfl

end

end Evaluation

/-! ## Values without facts -/

namespace Settles

variable {x y x' y' : Except Failure Evaluation}

theorem constant (b : Bool) : Settles (.ok (.constant b)) (.ok (.constant b)) := by
  intro e e' he he' _
  obtain rfl := Except.ok.inj he
  obtain rfl := Except.ok.inj he'
  rfl

theorem negate (h : Settles x y) : Settles (Evaluation.negated x) (Evaluation.negated y) := by
  intro a a' ha ha' hnone
  obtain ⟨e, he, ha⟩ := bind_eq_ok_iff.mp ha
  obtain ⟨e', he', ha'⟩ := bind_eq_ok_iff.mp ha'
  obtain rfl := Except.ok.inj ha
  obtain rfl := Except.ok.inj ha'
  exact congrArg Bool.not (h e e' he he' hnone)

/-- A false operand decides with its own facts, two true ones with those of both. -/
theorem and (h : Settles x y) (h' : Settles x' y') :
    Settles (do (← x).and fun _ => x') (do (← y).and fun _ => y') := by
  intro a a' ha ha' hnone
  obtain ⟨e, he, ha⟩ := Evaluation.and_cases ha
  obtain ⟨e', he', ha'⟩ := Evaluation.and_cases ha'
  have hsame := h e e' he he'
  rcases ha with ⟨hfalse, rfl⟩ | ⟨htrue, r, hr, ⟨hfalse, rfl⟩ | ⟨htrue₁, rfl⟩⟩
  · rcases ha' with ⟨-, rfl⟩ | ⟨htrue', -⟩
    · exact hsame hnone
    · rw [hsame hnone, hfalse] at htrue'
      cases htrue'
  · have hsame₁ := fun r' hr' => h' a r' hr hr' hnone
    rcases ha' with ⟨hfalse', rfl⟩ | ⟨-, r', hr', ⟨-, rfl⟩ | ⟨htrue', rfl⟩⟩
    · rw [hfalse, hfalse']
    · exact hsame₁ a' hr'
    · rw [hsame₁ r' hr', hfalse] at htrue'
      cases htrue'
  · obtain ⟨hnone, hnone₁⟩ := Evaluation.merge_eq_nil_iff.mp hnone
    rcases ha' with ⟨hfalse', rfl⟩ | ⟨-, r', hr', ⟨hfalse', rfl⟩ | ⟨-, rfl⟩⟩
    · rw [hsame hnone, htrue] at hfalse'
      cases hfalse'
    · rw [h' r a' hr hr' hnone₁, htrue₁] at hfalse'
      cases hfalse'
    · exact hsame hnone

theorem or (h : Settles x y) (h' : Settles x' y') :
    Settles (do (← x).or fun _ => x') (do (← y).or fun _ => y') := by
  rw [Evaluation.or_eq_negated, Evaluation.or_eq_negated]
  exact (h.negate.and h'.negate).negate

section

variable {α : Type} {f f' hold hold' reach reach' : α → Except Failure Evaluation} {l : List α}

/-- The first true value decides with its own facts; if none is true, all facts are collected. -/
theorem anyFrom {failed failed' : Evaluation} (hfailed : failed.holds = false)
    (hfailed' : failed'.holds = false) (h : ∀ x ∈ l, Settles (f x) (f' x)) :
    Settles (Evaluation.anyFrom f failed l) (Evaluation.anyFrom f' failed' l) := by
  induction l generalizing failed failed' with
  | nil =>
      intro e e' he he' _
      obtain rfl := Except.ok.inj he
      obtain rfl := Except.ok.inj he'
      rw [hfailed, hfailed']
  | cons x l ih =>
      obtain ⟨hx, hl⟩ := List.forall_mem_cons.mp h
      intro e e' he he' hnone
      obtain ⟨r, hr, he⟩ := bind_eq_ok_iff.mp he
      obtain ⟨r', hr', he'⟩ := bind_eq_ok_iff.mp he'
      have hsame := hx r r' hr hr'
      cases htrue : r.holds with
      | true =>
          rw [htrue] at he
          obtain rfl := Except.ok.inj he
          rw [hsame hnone, htrue] at he'
          obtain rfl := Except.ok.inj he'
          exact hsame hnone
      | false =>
          rw [htrue] at he
          cases htrue' : r'.holds with
          | false =>
              rw [htrue'] at he'
              have hstill : (failed.absorb r).holds = false := hfailed
              have hstill' : (failed'.absorb r').holds = false := hfailed'
              exact ih hstill hstill' hl e e' he he' hnone
          | true =>
              rw [htrue'] at he'
              obtain rfl := Except.ok.inj he'
              -- this value was not true before, and no fact of it was kept, so a later one was true
              by_contra hne
              have hfalse : e.holds = false := by
                cases hholds : e.holds with
                | false => rfl
                | true => exact absurd (htrue'.trans hholds.symm) hne
              have hsub := Evaluation.subset_of_anyFrom he hfalse
              rw [hnone, List.subset_nil] at hsub
              have hfacts := (Evaluation.merge_eq_nil_iff.mp hsub).2
              rw [hsame hfacts, htrue] at htrue'
              cases htrue'

theorem any (h : ∀ x ∈ l, Settles (f x) (f' x)) :
    Settles (Evaluation.any f l) (Evaluation.any f' l) := anyFrom rfl rfl h

theorem all (h : ∀ x ∈ l, Settles (f x) (f' x)) :
    Settles (Evaluation.all f l) (Evaluation.all f' l) := by
  rw [Evaluation.all, Evaluation.all, Evaluation.allFrom_eq_negated, Evaluation.allFrom_eq_negated]
  exact (any fun x hx => (h x hx).negate).negate

theorem quantified (q : Quantifier) (h : ∀ x ∈ l, Settles (f x) (f' x)) :
    Settles (q.over f l) (q.over f' l) := by
  cases q with
  | someOf => exact any h
  | allOf => exact all h

theorem scanByRules (hhold : ∀ x ∈ l, Settles (hold x) (hold' x))
    (hreach : ∀ x ∈ l, Settles (reach x) (reach' x)) :
    Settles (Evaluation.scanByRules hold reach l) (Evaluation.scanByRules hold' reach' l) := by
  induction l with
  | nil => exact constant false
  | cons x l ih =>
      obtain ⟨hx, hhold⟩ := List.forall_mem_cons.mp hhold
      obtain ⟨hx', hreach⟩ := List.forall_mem_cons.mp hreach
      exact hx'.or (hx.and (ih hhold hreach))

/-- On a path of which the scan keeps a fact, it settles the value as the rules do. -/
theorem scan (hkeeps : Evaluation.KeepsFact hold reach l)
    (hhold : ∀ x ∈ l, Settles (hold x) (hold' x))
    (hreach : ∀ x ∈ l, Settles (reach x) (reach' x)) :
    Settles (Evaluation.scan hold reach l) (Evaluation.scan hold' reach' l) := by
  intro e e' he he' hnone
  obtain ⟨r, hr, hholds⟩ := Evaluation.exists_scanByRules rfl he
  obtain ⟨r', hr', hholds'⟩ := Evaluation.exists_scanByRules rfl he'
  have hfacts : r.facts = [] := by
    by_contra hstated
    exact hkeeps e r he hr hstated hnone
  rw [← hholds, ← hholds']
  exact scanByRules hhold hreach r r' hr hr' hfacts

/-- A scan on which nothing has to hold before keeps the facts of all that it goes past. -/
theorem scan_always (h : ∀ x ∈ l, Settles (f x) (f' x)) :
    Settles (Evaluation.scan always f l) (Evaluation.scan always f' l) := by
  rw [Evaluation.scan, Evaluation.scan, Evaluation.scanFrom_always, Evaluation.scanFrom_always]
  exact any h

end

end Settles

/-! ## Failures -/

namespace Formula

/-- Each until operator keeps a fact, on each path along which it looks, if the rules of the connectives
do. -/
def KeepsFacts (s : PathSet) : {k : Kind} → Formula k → Prop
  | _, .top | _, .bottom | _, .leaf _ => True
  | _, .not f | _, .ev f | _, .pos f | _, .inv f => f.KeepsFacts s
  | _, .modal f | _, .existNext f | _, .forallNext f => f.KeepsFacts s
  | _, .and f g | _, .or f g => f.KeepsFacts s ∧ g.KeepsFacts s
  | _, .existModal next between | _, .forallModal next between =>
    next.KeepsFacts s ∧ between.KeepsFacts s
  | _, .existUntil hold reach | _, .forallUntil hold reach =>
    (hold.KeepsFacts s ∧ reach.KeepsFacts s) ∧
      ∀ h, ∀ l ∈ s.runsFrom h, Evaluation.KeepsFact (hold.explain s) (reach.explain s) l

/-- With some other truth of the leaves at the nodes the formula is true at the node. -/
def CanBeTrue {k : Kind} (s : PathSet) (f : Formula k) (h : Handle k) : Prop :=
  ∃ (v : (j : Kind) → Leaf j → Handle j → Bool) (net' : Net) (f' : Formula k),
    (∀ n, net'.contains n = s.net.contains n) ∧
      f.Alike (fun j p q => p.Retested net' (v j p) q) f' ∧
      f'.evaluate { s with net := net' } h = .ok true

variable {s : PathSet} {net' : Net} {R : (k : Kind) → Leaf k → Leaf k → Prop}

/-- A leaf states a fact of each node. -/
theorem facts_leaf_ne_nil {k : Kind} {p : Leaf k} {h : Handle k} {e : Evaluation}
    (he : (leaf p).explain s h = .ok e) : e.facts ≠ [] := by
  rw [explain] at he
  split at he
  · obtain rfl := Except.ok.inj he
    rw [Leaf.explain_eq]
    exact List.cons_ne_nil _ _
  · cases he

/-- **A value for which no fact is stated is the value for every truth of the leaves.** The induction is
on the two formulas side by side. -/
theorem Alike.settles {k : Kind} {f f' : Formula k} (halike : f.Alike R f') (hf : f.KeepsFacts s)
    (h : Handle k) : Settles (f.explain s h) (f'.explain { s with net := net' } h) := by
  induction halike with
  | top => exact .constant true
  | bottom => exact .constant false
  | leaf _ => exact fun e e' he _ hnone => absurd hnone (facts_leaf_ne_nil he)
  | and _ _ ihf ihg => exact (ihf hf.1 h).and (ihg hf.2 h)
  | or _ _ ihf ihg => exact (ihf hf.1 h).or (ihg hf.2 h)
  | not _ ih => exact (ih hf h).negate
  | modal _ ih => exact .any fun x _ => ih hf x
  | existNext _ ih => exact .any fun x _ => ih hf x
  | forallNext _ ih => exact (Settles.any fun x _ => (ih hf x).negate).negate
  | existModal _ _ ihn ihb =>
      exact .any fun x _ => (ihb hf.2 x).and (.any fun y _ => ihn hf.1 y)
  | forallModal _ _ ihn ihb =>
      exact .all fun x _ => (ihb hf.2 x).and (.all fun y _ => ihn hf.1 y)
  | existUntil _ _ ihh ihr =>
      exact .quantified .someOf fun l hl => .scan (hf.2 h l hl) (fun x _ => ihh hf.1.1 x)
        fun x _ => ihr hf.1.2 x
  | forallUntil _ _ ihh ihr =>
      exact .quantified .allOf fun l hl => .scan (hf.2 h l hl) (fun x _ => ihh hf.1.1 x)
        fun x _ => ihr hf.1.2 x
  | ev _ ih => exact .quantified .allOf fun l _ => .scan_always fun x _ => ih hf x
  | pos _ ih => exact .quantified .someOf fun l _ => .scan_always fun x _ => ih hf x
  | inv _ ih =>
      exact (Settles.quantified .someOf fun l _ => .scan_always fun x _ => (ih hf x).negate).negate

/-- **Failures that depend on a leaf are explained**, where each until operator keeps a fact that the
rules of the connectives keep. If the formula is false at the node and another truth of its leaves at
the nodes would make it true, then facts are stated, and they are the message of the verdict. -/
theorem failures_explained {k : Kind} {f : Formula k} (hf : f.KeepsFacts s) {h : Handle k}
    {e : Evaluation} (he : f.explain s h = .ok e) (hfalse : e.holds = false)
    (htrue : f.CanBeTrue s h) :
    e.facts ≠ [] ∧ f.verdict s h = .ok ⟨false, some (String.intercalate "; " e.facts)⟩ := by
  obtain ⟨v, net', f', -, halike, htrue⟩ := htrue
  obtain ⟨e', he', hholds⟩ := bind_eq_ok_iff.mp htrue
  have hstated : e.facts ≠ [] := by
    intro hnone
    have hsame := halike.settles hf h e e' he he' hnone
    rw [Except.ok.inj hholds, hfalse] at hsame
    cases hsame
  refine ⟨hstated, ?_⟩
  rw [verdict, he, ok_bind, Evaluation.verdict_of_stated hfalse hstated]
  rfl

/-- The leaf with the same texts that holds at all nodes. -/
def everywhere {k : Kind} (p : Leaf k) : Leaf k := { p with test := fun _ => true }

theorem retested_everywhere {k : Kind} (net : Net) (p : Leaf k) :
    p.Retested net (fun _ => true) (everywhere p) :=
  ⟨by simp [Leaf.agrees, everywhere], fun _ _ _ => rfl⟩

/-- A path of marked places leads to the place. -/
def markedUpTo (id : String) : StateFormula := .existUntil (.leaf .marked) (.leaf (.placeId id))

/-- No path of marked places leads to a place that there is not. If all places were marked and carried
its identifier there would be one, and the place without a marker is cited. -/
theorem failures_explained_shuttle : ∃ g s, shuttle.stepGraph none = .ok g ∧
    g.pathSet none = .ok s ∧ (markedUpTo "nowhere").KeepsFacts s ∧
    (markedUpTo "nowhere").explain s ⟨0⟩ = .ok ⟨false, ["place holds no marker"]⟩ ∧
    (markedUpTo "nowhere").CanBeTrue s ⟨0⟩ ∧
    (markedUpTo "nowhere").verdict s ⟨0⟩ = .ok ⟨false, some "place holds no marker"⟩ := by
  have hvalue : ((shuttle.survey none >>= (·.pathSet none)).toOption.map fun s =>
      ((markedUpTo "nowhere").explain s ⟨0⟩, (existUntil (leaf (everywhere .marked))
        (leaf (everywhere (.placeId "nowhere")))).evaluate s ⟨0⟩))
        = some (.ok ⟨false, ["place holds no marker"]⟩, .ok true) := by
    decide +kernel
  obtain ⟨s, hs, hvalues⟩ := exists_ok_of_map hvalue
  obtain ⟨g, hg, hs⟩ := bind_eq_ok_iff.mp hs
  rw [← Net.stepGraph_eq_survey] at hg
  obtain ⟨hexplain, htrue⟩ := Prod.mk.inj hvalues
  have hkeeps : (markedUpTo "nowhere").KeepsFacts s :=
    ⟨⟨trivial, trivial⟩, fun _ _ _ => Evaluation.keepsFact_of_stated
      (fun _ _ he => facts_leaf_ne_nil he) fun _ _ he => facts_leaf_ne_nil he⟩
  have hcan : (markedUpTo "nowhere").CanBeTrue s ⟨0⟩ :=
    ⟨fun _ _ _ => true, s.net, _, fun _ => rfl, .existUntil
      (.leaf (retested_everywhere s.net _)) (.leaf (retested_everywhere s.net _)), htrue⟩
  exact ⟨g, s, hg, hs, hkeeps, hexplain, hcan, (failures_explained hkeeps hexplain rfl hcan).2⟩

/-- **An until operator may fail without a reason.** Its condition cannot be met, and the goal that was
missed before, though it may as well hold, is forgotten. -/
theorem failure_unexplained : ∃ g s, shuttle.stepGraph none = .ok g ∧ g.pathSet none = .ok s ∧
    (existUntil bottom (leaf (.placeId "there"))).explain s ⟨0⟩ = .ok ⟨false, []⟩ ∧
    (existUntil bottom (leaf (.placeId "there"))).CanBeTrue s ⟨0⟩ ∧
    (existUntil bottom (leaf (.placeId "there"))).verdict s ⟨0⟩ = .ok ⟨false, none⟩ := by
  have hvalue : ((shuttle.survey none >>= (·.pathSet none)).toOption.map fun s =>
      ((existUntil bottom (leaf (.placeId "there"))).explain s ⟨0⟩,
        (existUntil bottom (leaf (.placeId "there"))).verdict s ⟨0⟩,
        (existUntil bottom (leaf (everywhere (.placeId "there")))).evaluate s ⟨0⟩))
        = some (.ok ⟨false, []⟩, .ok ⟨false, none⟩, .ok true) := by
    decide +kernel
  obtain ⟨s, hs, hvalues⟩ := exists_ok_of_map hvalue
  obtain ⟨g, hg, hs⟩ := bind_eq_ok_iff.mp hs
  rw [← Net.stepGraph_eq_survey] at hg
  obtain ⟨hexplain, hvalues⟩ := Prod.mk.inj hvalues
  obtain ⟨hverdict, htrue⟩ := Prod.mk.inj hvalues
  exact ⟨g, s, hg, hs, hexplain, ⟨fun _ _ _ => true, s.net, _, fun _ => rfl,
    .existUntil .bottom (.leaf (retested_everywhere s.net _)), htrue⟩, hverdict⟩

end Formula

end RoutePolicy
