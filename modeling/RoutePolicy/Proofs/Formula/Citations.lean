import RoutePolicy.Policy.Template
import RoutePolicy.Proofs.Formula.Semantics

set_option autoImplicit false

/-! # The facts that a value rests on

A leaf states one fact where it holds and another where it does not. For many formulas the facts of a
true or of a false value are then the same at all nodes of all nets (`Formula.Cites`): the first true
one among the neighbours, or the first false path, gives the value its facts, and it does not matter
which one this is. So it is for the formulas of rules where they are false
(`Formula.cites_neverReachable`, `Formula.cites_everyReadFollowedBy`, `Formula.cites_atMost`). -/

namespace RoutePolicy

/-! ## Facts of evaluations -/

/-- If the evaluation gives this value, it is for these reasons. -/
def RestsOn (b : Bool) (facts : List String) (x : Except Failure Evaluation) : Prop :=
  ∀ e, x = .ok e → e.holds = b → e.facts = facts

namespace Evaluation

/-- The value of a conjunction is that of the first false operand, or that of both. -/
theorem and_cases {x y : Except Failure Evaluation} {a : Evaluation}
    (h : (do (← x).and fun _ => y) = .ok a) :
    ∃ e, x = .ok e ∧ (e.holds = false ∧ a = e ∨ e.holds = true ∧ ∃ r, y = .ok r ∧
      (r.holds = false ∧ a = r ∨ r.holds = true ∧ a = e.absorb r)) := by
  obtain ⟨e, he, h⟩ := bind_eq_ok_iff.mp h
  refine ⟨e, he, ?_⟩
  rw [and] at h
  cases hholds : e.holds with
  | false =>
      rw [hholds] at h
      exact Or.inl ⟨rfl, (Except.ok.inj h).symm⟩
  | true =>
      rw [hholds] at h
      obtain ⟨r, hr, h⟩ := bind_eq_ok_iff.mp h
      refine Or.inr ⟨rfl, r, hr, ?_⟩
      obtain rfl := Except.ok.inj h
      cases r.holds with
      | false => exact Or.inl ⟨rfl, rfl⟩
      | true => exact Or.inr ⟨rfl, rfl⟩

/-- A false value is reported with its facts. -/
theorem verdict_of_stated {e : Evaluation} (hfalse : e.holds = false) (hstated : e.facts ≠ []) :
    e.verdict = ⟨false, some (String.intercalate "; " e.facts)⟩ := by
  simp [verdict, hfalse, hstated]

/-- Facts with those of another value added. -/
def merge (facts others : List String) : List String := others.foldl addFact facts

theorem merge_of_subset {facts others : List String} (h : ∀ x ∈ others, x ∈ facts) :
    merge facts others = facts := by
  induction others with
  | nil => rfl
  | cons x others ih =>
      obtain ⟨hx, hothers⟩ := List.forall_mem_cons.mp h
      rw [merge, List.foldl_cons, addFact, if_pos hx]
      exact ih hothers

theorem merge_self (facts : List String) : merge facts facts = facts :=
  merge_of_subset fun _ hx => hx

/-- Facts that are all new are added in their order. -/
theorem merge_of_disjoint {facts others : List String} (h : (facts ++ others).Nodup) :
    merge facts others = facts ++ others := by
  induction others generalizing facts with
  | nil => rw [merge, List.foldl_nil, List.append_nil]
  | cons x others ih =>
      have hx : x ∉ facts := fun hmem =>
        (List.nodup_append.mp h).2.2 x hmem x List.mem_cons_self rfl
      rw [List.append_cons] at h ⊢
      rw [merge, List.foldl_cons, addFact, if_neg hx]
      exact ih h

theorem mem_addFact_iff {facts : List String} {fact x : String} :
    x ∈ addFact facts fact ↔ x ∈ facts ∨ x = fact := by
  rw [addFact]
  split
  · exact (or_iff_left_of_imp fun hx => hx ▸ ‹fact ∈ facts›).symm
  · rw [List.mem_append, List.mem_singleton]

theorem nodup_addFact {facts : List String} {fact : String} (h : facts.Nodup) :
    (addFact facts fact).Nodup := by
  rw [addFact]
  split
  · exact h
  · rename_i hnew
    exact List.nodup_append.mpr ⟨h, List.nodup_singleton fact, fun x hx y hy hxy =>
      hnew (List.mem_singleton.mp hy ▸ hxy ▸ hx)⟩

/-- Nothing is lost, and nothing is made up. -/
theorem mem_merge_iff {facts others : List String} {x : String} :
    x ∈ merge facts others ↔ x ∈ facts ∨ x ∈ others := by
  induction others generalizing facts with
  | nil => simp [merge]
  | cons fact others ih =>
      rw [merge, List.foldl_cons]
      refine ih.trans ?_
      rw [mem_addFact_iff, List.mem_cons, or_assoc]

theorem nodup_merge {facts others : List String} (h : facts.Nodup) :
    (merge facts others).Nodup := by
  induction others generalizing facts with
  | nil => exact h
  | cons fact others ih => exact ih (nodup_addFact h)

end Evaluation

section

variable {b : Bool} {F G : List String} {x y : Except Failure Evaluation}

theorem RestsOn.negate (h : RestsOn b F x) : RestsOn (!b) F (do return (← x).negate) := by
  intro e he hb
  obtain ⟨e₁, he₁, heq⟩ := bind_eq_ok_iff.mp he
  obtain rfl := Except.ok.inj heq
  exact h e₁ he₁ (by simpa [Evaluation.negate] using hb)

/-- Two true values together have the facts of both. -/
theorem RestsOn.and (hx : RestsOn true F x) (hy : RestsOn true G y) :
    RestsOn true (Evaluation.merge F G) (do (← x).and fun _ => y) := by
  intro e he hholds
  obtain ⟨e₁, he₁, ⟨h₁, rfl⟩ | ⟨h₁, e₂, he₂, ⟨h₂, rfl⟩ | ⟨h₂, rfl⟩⟩⟩ := Evaluation.and_cases he
  · rw [h₁] at hholds
    cases hholds
  · rw [h₂] at hholds
    cases hholds
  · rw [Evaluation.absorb, hx e₁ he₁ h₁, hy e₂ he₂ h₂]
    rfl

end

section

variable {α : Type} {F : List String} {f hold reach : α → Except Failure Evaluation} {l : List α}

theorem restsOn_anyFrom {failed : Evaluation} (hfailed : failed.holds = false)
    (h : ∀ x, RestsOn true F (f x)) : RestsOn true F (Evaluation.anyFrom f failed l) := by
  induction l generalizing failed with
  | nil =>
      intro e he hholds
      obtain rfl := Except.ok.inj he
      rw [hfailed] at hholds
      cases hholds
  | cons x l ih =>
      intro e he hholds
      obtain ⟨e₁, he₁, he⟩ := bind_eq_ok_iff.mp he
      cases h₁ : e₁.holds with
      | true =>
          rw [h₁] at he
          obtain rfl := Except.ok.inj he
          exact h x _ he₁ h₁
      | false =>
          rw [h₁] at he
          have hstill : (failed.absorb e₁).holds = false := hfailed
          exact ih hstill e he hholds

/-- The first true value gives its facts. -/
theorem restsOn_any (h : ∀ x, RestsOn true F (f x)) : RestsOn true F (Evaluation.any f l) :=
  restsOn_anyFrom rfl h

theorem restsOn_allFrom {held : Evaluation} (hheld : held.holds = true)
    (h : ∀ x ∈ l, RestsOn false F (f x)) : RestsOn false F (Evaluation.allFrom f held l) := by
  induction l generalizing held with
  | nil =>
      intro e he hholds
      obtain rfl := Except.ok.inj he
      rw [hheld] at hholds
      cases hholds
  | cons x l ih =>
      obtain ⟨hx, hl⟩ := List.forall_mem_cons.mp h
      intro e he hholds
      obtain ⟨e₁, he₁, he⟩ := bind_eq_ok_iff.mp he
      cases h₁ : e₁.holds with
      | false =>
          rw [h₁] at he
          obtain rfl := Except.ok.inj he
          exact hx _ he₁ h₁
      | true =>
          rw [h₁] at he
          have hstill : (held.absorb e₁).holds = true := hheld
          exact ih hstill hl e he hholds

/-- The first false value gives its facts. -/
theorem restsOn_all (h : ∀ x ∈ l, RestsOn false F (f x)) :
    RestsOn false F (Evaluation.all f l) := restsOn_allFrom rfl h

theorem restsOn_scanFrom {missed : Evaluation} (hmissed : missed.holds = false)
    (h : ∀ x, RestsOn true F (reach x)) :
    RestsOn true F (Evaluation.scanFrom hold reach missed l) := by
  induction l generalizing missed with
  | nil =>
      intro e he hholds
      obtain rfl := Except.ok.inj he
      rw [hmissed] at hholds
      cases hholds
  | cons x l ih =>
      intro e he hholds
      obtain ⟨e₁, he₁, he⟩ := bind_eq_ok_iff.mp he
      cases h₁ : e₁.holds with
      | true =>
          rw [h₁] at he
          obtain rfl := Except.ok.inj he
          exact h x _ he₁ h₁
      | false =>
          rw [h₁] at he
          obtain ⟨e₂, he₂, he⟩ := bind_eq_ok_iff.mp he
          cases h₂ : e₂.holds with
          | false =>
              rw [h₂] at he
              obtain rfl := Except.ok.inj he
              rw [h₂] at hholds
              cases hholds
          | true =>
              rw [h₂] at he
              have hstill : (missed.absorb e₁).holds = false := hmissed
              exact ih hstill e he hholds

/-- The position at which the second condition holds gives its facts. -/
theorem restsOn_scan (h : ∀ x, RestsOn true F (reach x)) :
    RestsOn true F (Evaluation.scan hold reach l) := restsOn_scanFrom rfl h

/-- What is missed at each position adds the same facts. -/
theorem restsOn_scanFrom_always {missed : Evaluation}
    (hmissed : Evaluation.merge missed.facts F = F ∧ (l = [] → missed.facts = F))
    (h : ∀ x, RestsOn false F (reach x)) :
    RestsOn false F (Evaluation.scanFrom always reach missed l) := by
  induction l generalizing missed with
  | nil =>
      intro e he _
      obtain rfl := Except.ok.inj he
      exact hmissed.2 rfl
  | cons x l ih =>
      intro e he hholds
      obtain ⟨e₁, he₁, he⟩ := bind_eq_ok_iff.mp he
      cases h₁ : e₁.holds with
      | true =>
          rw [h₁] at he
          obtain rfl := Except.ok.inj he
          rw [h₁] at hholds
          cases hholds
      | false =>
          rw [h₁] at he
          have hfacts : (missed.absorb e₁).facts = F := by
            rw [Evaluation.absorb, h x e₁ he₁ h₁]
            exact hmissed.1
          have hmerge : Evaluation.merge (missed.absorb e₁).facts F = F := by
            rw [hfacts, Evaluation.merge_self]
          exact ih ⟨hmerge, fun _ => hfacts⟩ e he hholds

/-- On a path with at least one position the facts are those of each position. -/
theorem restsOn_scan_always (hF : F.Nodup) (hl : l ≠ []) (h : ∀ x, RestsOn false F (reach x)) :
    RestsOn false F (Evaluation.scan always reach l) := by
  refine restsOn_scanFrom_always ⟨?_, fun hnil => absurd hnil hl⟩ h
  exact Evaluation.merge_of_disjoint hF

end

/-! ## Facts of formulas -/

namespace Formula

theorem evaluate_of_explain {k : Kind} {s : PathSet} {f : Formula k} {h : Handle k} {e : Evaluation}
    (he : f.explain s h = .ok e) : f.evaluate s h = .ok e.holds := by
  rw [evaluate, he]
  rfl

/-- Where the formula has this value, it is for these reasons. -/
def Cites {k : Kind} (s : PathSet) (b : Bool) (f : Formula k) (facts : List String) : Prop :=
  ∀ h, RestsOn b facts (f.explain s h)

section

variable {k : Kind} {s : PathSet} {b : Bool} {f f' : Formula k} {F G : List String}

theorem cites_leaf (s : PathSet) (p : Leaf k) (b : Bool) :
    (leaf p).Cites s b [if b then p.message else p.negation] := by
  intro h e he hholds
  rw [explain] at he
  split at he
  · obtain rfl := Except.ok.inj he
    rw [Leaf.explain] at hholds ⊢
    split at hholds <;> rename_i htest <;> subst hholds <;> simp [htest, Evaluation.ofFact]
  · cases he

theorem cites_top (s : PathSet) (b : Bool) : (top : Formula k).Cites s b [] := by
  intro h e he _
  obtain rfl := Except.ok.inj he
  rfl

theorem Cites.not (h : f.Cites s b F) : (Formula.not f).Cites s (!b) F := fun x => (h x).negate

theorem Cites.and (h : f.Cites s true F) (h' : f'.Cites s true G) :
    (Formula.and f f').Cites s true (Evaluation.merge F G) := fun x => (h x).and (h' x)

theorem Cites.modal {f : Formula k.other} (h : f.Cites s true F) :
    (Formula.modal f).Cites s true F := fun _ => restsOn_any h

theorem Cites.pos (h : f.Cites s true F) : (Formula.pos f).Cites s true F := fun _ =>
  restsOn_any fun _ => restsOn_scan h

theorem Cites.inv (h : f.Cites s false F) : (Formula.inv f).Cites s false F := fun _ =>
  RestsOn.negate (restsOn_any fun _ => restsOn_scan fun x => (h x).negate)

/-- A path along which a formula never holds has at least the node itself as a position. -/
theorem Cites.ev {g : StepGraph} {limit : Option Nat} (hg : g.net.WellFormed)
    (hs : g.pathSet limit = .ok s) (h : f.Cites s false F) (hF : F.Nodup) :
    (Formula.ev f).Cites s false F := by
  refine fun x => restsOn_all fun l hl => restsOn_scan_always hF ?_ h
  obtain ⟨w, hw, rfl⟩ := (mem_runsFrom_iff hg hs).mp hl
  obtain ⟨n, w, rfl⟩ := List.exists_cons_of_ne_nil
    (show w ≠ [] from fun hnil => by simpa [hnil] using hw.walk.start)
  obtain rfl := Option.some.inj hw.walk.start
  rw [List.filterMap_cons_some (Node.handle?_node x)]
  exact List.cons_ne_nil _ _

end

/-! ## Formulas of rules -/

section

variable {s : PathSet} {F G : List String} {target : String}

theorem cites_neverReachable {step : TransitionFormula} (h : step.Cites s true F) :
    (neverReachable step).Cites s false F := h.modal.not.inv

theorem cites_reads (s : PathSet) (target : String) :
    (reads target).Cites s true ["resource " ++ target ++ " is read"] :=
  cites_leaf s (.reads target) true

theorem cites_erases (s : PathSet) (target : String) (b : Bool) :
    (erases target).Cites s b [if b then "resource " ++ target ++ " is erased"
      else "resource " ++ target ++ " is not erased"] :=
  cites_leaf s (.erases target) b

theorem cites_not_tagged (s : PathSet) (tag : String) :
    (tagged tag).Cites s false ["tag " ++ tag ++ " is missing"] :=
  cites_leaf s (.tagged tag) false

/-- The read is cited, and why the goal was missed. -/
theorem cites_everyReadFollowedBy {g : StepGraph} {limit : Option Nat} {goal : TransitionFormula}
    (hg : g.net.WellFormed) (hs : g.pathSet limit = .ok s) (h : goal.Cites s false F)
    (hF : F.Nodup) : (everyReadFollowedBy target goal).Cites s false
      (Evaluation.merge ["resource " ++ target ++ " is read"] F) :=
  cites_neverReachable ((cites_reads s target).and (h.ev hg hs hF).not)

/-- All reads are cited alike, so the read is cited once. -/
theorem cites_readsMoreThan (s : PathSet) (target : String) (n : Nat) :
    (readsMoreThan target n).Cites s true ["resource " ++ target ++ " is read"] := by
  induction n with
  | zero => exact (cites_reads s target).modal.pos
  | succ n ih =>
      have hboth := (cites_reads s target).and ih.modal
      rw [Evaluation.merge_self] at hboth
      exact hboth.modal.pos

theorem cites_atMost (s : PathSet) (target : String) (n : Nat) :
    (atMost n target).Cites s false ["resource " ++ target ++ " is read"] :=
  (cites_readsMoreThan s target n).not

/-- An erasure and a read after it are cited. -/
theorem cites_noReadAfterErasure (s : PathSet) (target : String) :
    (neverReachable (.and (erases target) (.modal (.pos (.modal (reads target)))))).Cites s false
      (Evaluation.merge ["resource " ++ target ++ " is erased"]
        ["resource " ++ target ++ " is read"]) :=
  cites_neverReachable ((cites_erases s target true).and (cites_reads s target).modal.pos.modal)

end

end Formula

end RoutePolicy
