import Mathlib.Data.List.Basic

set_option autoImplicit false

/-! # Computations that may fail, on lists

When a sequence of computations succeeds, and with which result. -/

namespace RoutePolicy

variable {ε α β : Type}

theorem bind_eq_ok_iff {x : Except ε α} {f : α → Except ε β} {b : β} :
    (x >>= f) = .ok b ↔ ∃ a, x = .ok a ∧ f a = .ok b := by
  cases x with
  | error e =>
      constructor
      · intro h
        cases h
      · rintro ⟨a, ha, -⟩
        cases ha
  | ok a => exact ⟨fun h => ⟨a, rfl, h⟩, fun ⟨a', ha, h⟩ => by cases ha; exact h⟩

theorem map_eq_ok_iff {x : Except ε α} {f : α → β} {b : β} :
    x.map f = .ok b ↔ ∃ a, x = .ok a ∧ f a = b := by
  cases x <;> simp [Except.map]

theorem ok_bind (a : α) (f : α → Except ε β) : (Except.ok a >>= f) = f a := rfl

/-- Where a part is found, the computation goes on with it. -/
theorem bind_eq_some {x : Option α} {f : α → Option β} {a : α} {b : β} (hx : x = some a)
    (hf : f a = some b) : (x >>= f) = some b := by
  rw [hx]
  exact hf

theorem exists_eq_ok {x : Except ε α} (h : x.isOk = true) : ∃ a, x = .ok a := by
  cases x with
  | error e => cases h
  | ok a => exact ⟨a, rfl⟩

/-- A computation succeeds with a result of which something is known. -/
theorem exists_ok_of_map {x : Except ε α} {f : α → β} {b : β} (h : x.toOption.map f = some b) :
    ∃ a, x = .ok a ∧ f a = b := by
  cases x with
  | error e => cases h
  | ok a => exact ⟨a, rfl, Option.some_inj.mp h⟩

theorem mapM_cons_eq_ok_iff {f : α → Except ε β} {a : α} {l : List α} {r : List β} :
    (a :: l).mapM f = .ok r ↔ ∃ b bs, f a = .ok b ∧ l.mapM f = .ok bs ∧ r = b :: bs := by
  rw [List.mapM_cons, bind_eq_ok_iff]
  simp only [bind_eq_ok_iff]
  constructor
  · rintro ⟨b, hb, bs, hbs, hr⟩
    cases hr
    exact ⟨b, bs, hb, hbs, rfl⟩
  · rintro ⟨b, bs, hb, hbs, rfl⟩
    exact ⟨b, hb, bs, hbs, rfl⟩

theorem length_of_mapM_eq_ok {f : α → Except ε β} {l : List α} {r : List β}
    (h : l.mapM f = .ok r) : r.length = l.length := by
  induction l generalizing r with
  | nil =>
      obtain rfl := Except.ok.inj h
      rfl
  | cons a l ih =>
      obtain ⟨b, bs, -, hbs, rfl⟩ := mapM_cons_eq_ok_iff.mp h
      exact congrArg (· + 1) (ih hbs)

theorem mapM_eq_ok {f : α → Except ε β} {g : α → β} {l : List α}
    (h : ∀ x ∈ l, f x = .ok (g x)) : l.mapM f = .ok (l.map g) := by
  induction l with
  | nil => rfl
  | cons a l ih =>
      obtain ⟨ha, hl⟩ := List.forall_mem_cons.mp h
      exact mapM_cons_eq_ok_iff.mpr ⟨_, _, ha, ih hl, rfl⟩

/-- Where all failures are the same, one of them makes the whole sequence fail so. -/
theorem mapM_eq_error {f : α → Except ε β} {e : ε} {l : List α}
    (h : ∀ x ∈ l, ∀ e', f x = .error e' → e' = e) (hx : ∃ x ∈ l, f x = .error e) :
    l.mapM f = .error e := by
  induction l with
  | nil =>
      obtain ⟨x, hx, -⟩ := hx
      cases hx
  | cons a l ih =>
      obtain ⟨ha, hl⟩ := List.forall_mem_cons.mp h
      rw [List.mapM_cons]
      cases hfa : f a with
      | error e' =>
          rw [ha e' hfa]
          rfl
      | ok b =>
          obtain ⟨x, hx, hfx⟩ := hx
          have hin : x ∈ l := (List.mem_cons.mp hx).resolve_left fun heq => by
            rw [heq, hfa] at hfx
            cases hfx
          rw [ok_bind, ih hl ⟨x, hin, hfx⟩]
          rfl

/-- A fold succeeds if each of its steps does, from what the steps before it have kept. -/
theorem foldlM_eq_ok {f : β → α → Except ε β} {g : β → α → β} {P : β → Prop} {l : List α}
    (h : ∀ b, P b → ∀ a ∈ l, f b a = .ok (g b a) ∧ P (g b a)) {b : β} (hb : P b) :
    l.foldlM f b = .ok (l.foldl g b) := by
  induction l generalizing b with
  | nil => rfl
  | cons a l ih =>
      obtain ⟨ha, hg⟩ := h b hb a List.mem_cons_self
      rw [List.foldlM_cons, ha, ok_bind, List.foldl_cons]
      exact ih (fun b hb a ha => h b hb a (List.mem_cons_of_mem _ ha)) hg

/-- The test is passed. -/
def passes (f : α → Except ε Bool) (x : α) : Bool := (f x).toOption.getD false

theorem passes_iff {f : α → Except ε Bool} {x : α} : passes f x = true ↔ f x = .ok true := by
  unfold passes
  cases f x <;> simp [Except.toOption]

theorem filterAuxM_eq_ok_iff {f : α → Except ε Bool} {l r acc : List α} :
    List.filterAuxM f l acc = .ok r ↔
      (∀ x ∈ l, ∃ b, f x = .ok b) ∧ r = (l.filter (passes f)).reverse ++ acc := by
  induction l generalizing acc with
  | nil =>
      show Except.ok acc = .ok r ↔ _
      simp [eq_comm]
  | cons a l ih =>
      rw [List.filterAuxM, bind_eq_ok_iff, List.forall_mem_cons, List.filter_cons]
      simp only [ih]
      constructor
      · rintro ⟨b, hb, hl, rfl⟩
        refine ⟨⟨⟨b, hb⟩, hl⟩, ?_⟩
        cases b <;> simp [passes, hb, Except.toOption]
      · rintro ⟨⟨⟨b, hb⟩, hl⟩, rfl⟩
        refine ⟨b, hb, hl, ?_⟩
        cases b <;> simp [passes, hb, Except.toOption]

/-- A filter that succeeds has tested every element, and keeps those that pass in order. -/
theorem filterM_eq_ok_iff {f : α → Except ε Bool} {l r : List α} :
    l.filterM f = .ok r ↔ (∀ x ∈ l, ∃ b, f x = .ok b) ∧ r = l.filter (passes f) := by
  rw [List.filterM, bind_eq_ok_iff]
  simp only [filterAuxM_eq_ok_iff, List.append_nil]
  constructor
  · rintro ⟨_, ⟨hl, rfl⟩, h⟩
    cases h
    exact ⟨hl, by rw [List.reverse_reverse]⟩
  · rintro ⟨hl, rfl⟩
    exact ⟨_, ⟨hl, rfl⟩, by rw [List.reverse_reverse]; rfl⟩

theorem mem_of_filterM_eq_ok {f : α → Except ε Bool} {l r : List α} (h : l.filterM f = .ok r)
    {x : α} : x ∈ r ↔ x ∈ l ∧ f x = .ok true := by
  obtain ⟨-, rfl⟩ := filterM_eq_ok_iff.mp h
  rw [List.mem_filter, passes_iff]

end RoutePolicy
