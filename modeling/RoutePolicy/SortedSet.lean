set_option autoImplicit false

/-! # Finite sets in ascending order

A set is the strictly ascending list of its elements, so two sets with the same elements are
equal (`SortedSet.ext_mem`), and what is written from a set never depends on how it was built. -/

namespace RoutePolicy

/-- A strictly ascending list. -/
structure SortedSet (α : Type) [Ord α] where
  toList : List α
  ascending : toList.Pairwise (fun a b => compare a b = .lt)

/-- The sets of names that contexts hold. -/
abbrev NameSet := SortedSet String

namespace SortedSet

variable {α : Type} [Ord α]

/-- The list with `a` put at its place, or unchanged when `a` is in it. -/
def insertList (a : α) : List α → List α
  | [] => [a]
  | b :: bs =>
    match compare a b with
    | .lt => a :: b :: bs
    | .eq => b :: bs
    | .gt => b :: insertList a bs

theorem mem_of_mem_insertList {a x : α} {l : List α} (h : x ∈ insertList a l) : x = a ∨ x ∈ l := by
  induction l with
  | nil => simpa [insertList] using h
  | cons b bs ih =>
    simp only [insertList] at h
    split at h
    · simpa using h
    · exact Or.inr h
    · rcases List.mem_cons.mp h with rfl | h
      · exact Or.inr List.mem_cons_self
      · exact (ih h).imp_right (List.mem_cons_of_mem b)

theorem mem_insertList_of_mem {a x : α} {l : List α} (h : x ∈ l) : x ∈ insertList a l := by
  induction l with
  | nil => cases h
  | cons b bs ih =>
    simp only [insertList]
    split
    · exact List.mem_cons_of_mem a h
    · exact h
    · rcases List.mem_cons.mp h with rfl | h
      · exact List.mem_cons_self
      · exact List.mem_cons_of_mem b (ih h)

theorem ascending_insertList [Std.TransOrd α] {a : α} {l : List α}
    (h : l.Pairwise (fun a b => compare a b = .lt)) :
    (insertList a l).Pairwise (fun a b => compare a b = .lt) := by
  induction l with
  | nil => simp [insertList]
  | cons b bs ih =>
    obtain ⟨hb, hbs⟩ := List.pairwise_cons.mp h
    simp only [insertList]
    split
    · rename_i hab
      refine List.pairwise_cons.mpr ⟨fun x hx => ?_, h⟩
      rcases List.mem_cons.mp hx with rfl | hx
      · exact hab
      · exact Std.TransCmp.lt_trans hab (hb x hx)
    · exact h
    · rename_i hab
      refine List.pairwise_cons.mpr ⟨fun x hx => ?_, ih hbs⟩
      rcases mem_of_mem_insertList hx with rfl | hx
      · exact Std.OrientedCmp.lt_of_gt hab
      · exact hb x hx

/-- The set without elements. -/
def empty : SortedSet α := ⟨[], List.Pairwise.nil⟩

instance : EmptyCollection (SortedSet α) := ⟨empty⟩

instance : Inhabited (SortedSet α) := ⟨empty⟩

instance [DecidableEq α] : DecidableEq (SortedSet α) := fun s t =>
  decidable_of_iff (s.toList = t.toList) ⟨fun h => by cases s; cases t; simp_all, fun h => h ▸ rfl⟩

instance : Membership α (SortedSet α) := ⟨fun s a => a ∈ s.toList⟩

theorem mem_def {a : α} {s : SortedSet α} : a ∈ s ↔ a ∈ s.toList := Iff.rfl

instance [DecidableEq α] (a : α) (s : SortedSet α) : Decidable (a ∈ s) :=
  inferInstanceAs (Decidable (a ∈ s.toList))

/-- The set with one more element. -/
def insert [Std.TransOrd α] (a : α) (s : SortedSet α) : SortedSet α :=
  ⟨insertList a s.toList, ascending_insertList s.ascending⟩

/-- The set with all elements of a list added. -/
def insertMany [Std.TransOrd α] (s : SortedSet α) (l : List α) : SortedSet α :=
  l.foldl (fun s a => s.insert a) s

/-- The elements of a list. -/
def ofList [Std.TransOrd α] (l : List α) : SortedSet α := empty.insertMany l

/-- The elements of either set. -/
def union [Std.TransOrd α] (s t : SortedSet α) : SortedSet α := s.insertMany t.toList

/-- The elements of the set that satisfy `p`. -/
def filter (p : α → Bool) (s : SortedSet α) : SortedSet α :=
  ⟨s.toList.filter p, s.ascending.filter p⟩

/-- The elements of `s` that are not in `t`. -/
def diff [DecidableEq α] (s t : SortedSet α) : SortedSet α := s.filter fun a => decide (a ∉ t)

/-- The number of elements. -/
def size (s : SortedSet α) : Nat := s.toList.length

/-! ## Membership -/

theorem mem_insert [Std.TransOrd α] [Std.LawfulEqOrd α] {a x : α} {s : SortedSet α} :
    x ∈ s.insert a ↔ x = a ∨ x ∈ s := by
  refine ⟨mem_of_mem_insertList, ?_⟩
  rintro (rfl | h)
  · show x ∈ insertList x s.toList
    generalize s.toList = l
    induction l with
    | nil => simp [insertList]
    | cons b bs ih =>
      simp only [insertList]
      split
      · exact List.mem_cons_self
      · rename_i hb
        exact Std.LawfulEqCmp.eq_of_compare hb ▸ List.mem_cons_self
      · exact List.mem_cons_of_mem b ih
  · exact mem_insertList_of_mem h

theorem mem_insertMany [Std.TransOrd α] [Std.LawfulEqOrd α] {x : α} {l : List α}
    {s : SortedSet α} : x ∈ s.insertMany l ↔ x ∈ s ∨ x ∈ l := by
  induction l generalizing s with
  | nil => simp [insertMany]
  | cons a l ih =>
    show x ∈ (s.insert a).insertMany l ↔ _
    rw [ih, mem_insert, List.mem_cons]
    constructor
    · rintro ((h | h) | h)
      · exact Or.inr (Or.inl h)
      · exact Or.inl h
      · exact Or.inr (Or.inr h)
    · rintro (h | h | h)
      · exact Or.inl (Or.inr h)
      · exact Or.inl (Or.inl h)
      · exact Or.inr h

theorem mem_ofList [Std.TransOrd α] [Std.LawfulEqOrd α] {x : α} {l : List α} :
    x ∈ ofList l ↔ x ∈ l := by
  rw [ofList, mem_insertMany, mem_def]
  simp [empty]

theorem mem_union [Std.TransOrd α] [Std.LawfulEqOrd α] {x : α} {s t : SortedSet α} :
    x ∈ s.union t ↔ x ∈ s ∨ x ∈ t := mem_insertMany

theorem mem_filter {x : α} {p : α → Bool} {s : SortedSet α} :
    x ∈ s.filter p ↔ x ∈ s ∧ p x = true := List.mem_filter

theorem mem_diff [DecidableEq α] {x : α} {s t : SortedSet α} : x ∈ s.diff t ↔ x ∈ s ∧ x ∉ t := by
  rw [diff, mem_filter, decide_eq_true_iff]

/-- Sets with the same elements are equal. -/
theorem ext_mem [Std.TransOrd α] [Std.LawfulEqOrd α] {s t : SortedSet α}
    (h : ∀ x, x ∈ s ↔ x ∈ t) : s = t := by
  obtain ⟨l, hl⟩ := s
  obtain ⟨m, hm⟩ := t
  have irrefl (a : α) : ¬compare a a = .lt := by simp [Std.ReflCmp.compare_self]
  have asymm {a b : α} (hab : compare a b = .lt) (hba : compare b a = .lt) : False :=
    irrefl a (Std.TransCmp.lt_trans hab hba)
  replace h : ∀ x, x ∈ l ↔ x ∈ m := h
  suffices l = m by subst this; rfl
  induction l generalizing m with
  | nil =>
    cases m with
    | nil => rfl
    | cons b bs => exact absurd ((h b).mpr List.mem_cons_self) List.not_mem_nil
  | cons a as ih =>
    cases m with
    | nil => exact absurd ((h a).mp List.mem_cons_self) List.not_mem_nil
    | cons b bs =>
      obtain ⟨ha, has⟩ := List.pairwise_cons.mp hl
      obtain ⟨hb, hbs⟩ := List.pairwise_cons.mp hm
      have hab : a = b := by
        rcases List.mem_cons.mp ((h a).mp List.mem_cons_self) with rfl | ham
        · rfl
        · rcases List.mem_cons.mp ((h b).mpr List.mem_cons_self) with rfl | hbm
          · rfl
          · exact (asymm (ha b hbm) (hb a ham)).elim
      subst hab
      congr 1
      refine ih has bs hbs fun x => ?_
      constructor
      · intro hx
        rcases List.mem_cons.mp ((h x).mp (List.mem_cons_of_mem a hx)) with rfl | hx'
        · exact absurd (ha x hx) (irrefl x)
        · exact hx'
      · intro hx
        rcases List.mem_cons.mp ((h x).mpr (List.mem_cons_of_mem a hx)) with rfl | hx'
        · exact absurd (hb x hx) (irrefl x)
        · exact hx'

end SortedSet

end RoutePolicy
