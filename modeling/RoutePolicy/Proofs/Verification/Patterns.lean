import Mathlib.Tactic.SplitIfs
import RoutePolicy.Policy.Template
import RoutePolicy.Proofs.Except

set_option autoImplicit false

/-! # What the pattern of a rule tells

A pattern is recognised by the shape of a rule, and a formula looks for the constraint it needs by
what the constraint is about. Both mean the same one (`Rule.constraint_of_pattern`). So a rule with a
pattern lacks a formula only for the bound on its number of uses: a bound that cannot be read, or one
that is too large for a net with that many readers (`Rule.formulaFor_eq_error_iff`). -/

namespace RoutePolicy

open Text

/-- What the single constraint of a rule with the pattern is about. -/
def Pattern.operand? : Pattern → Option LeftOperand
  | .nTimesUsage => some .count
  | .durationUsage => some .elapsedTime
  | .connectorRestrictedUsage => some .system
  | _ => none

namespace Rule

variable {rule : Rule} {p : Pattern} {operand : LeftOperand} {con : Constraint} {net : Net}
  {target : String} {tags : DutyTags} {e : PolicyError}

/-! ## The constraint of a pattern -/

theorem constraint_of_permissionPattern (h : rule.permissionPattern = some p)
    (hp : p.operand? = some operand) :
    ∃ con, rule.constraints = [con] ∧ con.leftOperand = operand := by
  unfold permissionPattern at h
  split at h
  -- without a constraint, and with two of them, no pattern is about an operand
  · split_ifs at h <;> cases h <;> cases hp
  · rename_i con hcon
    refine ⟨con, hcon, ?_⟩
    split at h
    · rename_i hcount
      cases h
      cases hp
      exact hcount
    · rename_i helapsed
      cases h
      cases hp
      exact helapsed
    · rename_i hsystem
      split_ifs at h
      cases h
      cases hp
      exact hsystem
    · cases h
  · split_ifs at h <;> cases h <;> cases hp
  · cases h

/-- **A rule whose pattern is about an operand has one constraint**, which is on this operand. -/
theorem constraint_of_pattern (h : rule.pattern = some p) (hp : p.operand? = some operand) :
    ∃ con, rule.constraints = [con] ∧ con.leftOperand = operand := by
  unfold pattern at h
  split at h
  · exact constraint_of_permissionPattern h hp
  · cases h
    cases hp
  · cases h

/-- The single constraint of a rule is found by its operand. -/
theorem constraintOn_of_singleton (hcon : rule.constraints = [con])
    (hleft : con.leftOperand = operand) : rule.constraintOn operand = some con := by
  simp [constraintOn, hcon, hleft]

theorem constraintOn_of_pattern (h : rule.pattern = some p) (hp : p.operand? = some operand) :
    ∃ con, rule.constraints = [con] ∧ con.leftOperand = operand ∧
      rule.constraintOn operand = some con := by
  obtain ⟨con, hcon, hleft⟩ := constraint_of_pattern h hp
  exact ⟨con, hcon, hleft, constraintOn_of_singleton hcon hleft⟩

/-! ## Bounds that cannot be used -/

/-- What is wrong with the bound of a rule on the number of uses: its one constraint, on the count,
has no value that can be read as a bound, or the bound and the number of readers in the net are both
larger than the number of reads that may be nested. -/
inductive BoundDefect (rule : Rule) (net : Net) (target : String) : PolicyError → Prop
  | unreadable {con : Constraint} (hcon : rule.constraints = [con])
      (hcount : con.leftOperand = .count) (hvalue : readUsageBound? (trim con.rightOperand) = none) :
      BoundDefect rule net target (.invalidBound rule.id (trim con.rightOperand))
  | tooDeep {con : Constraint} {bound : Nat} (hcon : rule.constraints = [con])
      (hcount : con.leftOperand = .count)
      (hvalue : readUsageBound? (trim con.rightOperand) = some bound)
      (hbound : maxNestedBound < bound) (hreaders : maxNestedBound < net.readerCount target) :
      BoundDefect rule net target (.boundTooDeep rule.id bound)

theorem usageBound_eq_ok_iff {bound : Nat} (h : rule.constraintOn .count = some con) :
    rule.usageBound = .ok bound ↔ readUsageBound? (trim con.rightOperand) = some bound := by
  simp only [usageBound, h]
  cases readUsageBound? (trim con.rightOperand) <;> simp

theorem usageBound_eq_error_iff (h : rule.constraintOn .count = some con) :
    rule.usageBound = .error e ↔ readUsageBound? (trim con.rightOperand) = none ∧
      e = .invalidBound rule.id (trim con.rightOperand) := by
  simp only [usageBound, h]
  cases readUsageBound? (trim con.rightOperand) <;> simp [eq_comm]

/-- A bound is too large only if it still is after it has been cut down to the number of readers. -/
theorem usageFormula_eq_error_iff {readers : Nat} :
    rule.usageFormula target (some readers) = .error e ↔ rule.usageBound = .error e ∨
      ∃ bound, rule.usageBound = .ok bound ∧ maxNestedBound < bound ∧ maxNestedBound < readers ∧
        e = .boundTooDeep rule.id bound := by
  unfold usageFormula
  cases rule.usageBound with
  | error e' =>
      show Except.error e' = .error e ↔ _
      simp
  | ok bound =>
      simp only [ok_bind]
      -- what is compared is the smaller of the bound and the number of readers
      split
      · rename_i hdeep
        obtain ⟨hbound, hreaders⟩ := Nat.lt_min.mp hdeep
        show Except.error _ = .error e ↔ _
        simp [hbound, hreaders, eq_comm]
      · rename_i hdeep
        refine iff_of_false (fun h => by cases h) ?_
        rintro (h | ⟨bound', h, hbound, hreaders, -⟩)
        · cases h
        · cases h
          exact hdeep (Nat.lt_min.mpr ⟨hbound, hreaders⟩)

/-- **A rule with a pattern lacks a formula for a net only because of a bound on the number of uses**,
and exactly where this bound cannot be read or is too large. -/
theorem formulaFor_eq_error_iff (h : rule.pattern = some p) :
    rule.formulaFor net p target tags = .error e ↔
      p = .nTimesUsage ∧ rule.BoundDefect net target e := by
  unfold formulaFor
  cases p with
  | nTimesUsage =>
      obtain ⟨con, hcon, hcount, hfound⟩ := constraintOn_of_pattern h rfl
      rw [instantiate, usageFormula_eq_error_iff, usageBound_eq_error_iff hfound]
      simp only [usageBound_eq_ok_iff hfound, true_and]
      constructor
      · rintro (⟨hvalue, rfl⟩ | ⟨bound, hvalue, hbound, hreaders, rfl⟩)
        · exact .unreadable hcon hcount hvalue
        · exact .tooDeep hcon hcount hvalue hbound hreaders
      · intro hdefect
        -- the constraint of the defect is the one that the formula looks up
        cases hdefect with
        | unreadable hcon' _ hvalue =>
            obtain rfl := List.singleton_inj.mp (hcon.symm.trans hcon')
            exact Or.inl ⟨hvalue, rfl⟩
        | tooDeep hcon' _ hvalue hbound hreaders =>
            obtain rfl := List.singleton_inj.mp (hcon.symm.trans hcon')
            exact Or.inr ⟨_, hvalue, hbound, hreaders, rfl⟩
  | connectorRestrictedUsage =>
      obtain ⟨con, -, -, hfound⟩ := constraintOn_of_pattern h rfl
      simp [instantiate, hfound]
  | _ => simp [instantiate]

end Rule

end RoutePolicy
