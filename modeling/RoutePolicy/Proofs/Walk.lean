import Mathlib.Data.List.Chain
import Mathlib.Data.List.Nodup
import Mathlib.Data.List.Perm.Subperm
import Mathlib.Logic.Relation
import Mathlib.Order.RelIso.Basic

set_option autoImplicit false

/-! # Walks, maximal paths and maximal runs of a relation

A walk follows a relation and may repeat nodes; a maximal run is followed for ever or until it is
stuck. A maximal path repeats no node before its last one, and there it is stuck or closes. When
the relation leads to finitely many nodes there are finitely many maximal paths, and an until
condition can be read off them:

* some walk attains the condition iff some maximal path does (`exists_walk_until_iff`);
* every maximal run attains it iff every maximal path does (`forall_run_until_iff`).

What every maximal run meets is still to come at each next node (`Unavoidable.next`). An isomorphism of
relations takes walks, maximal paths and maximal runs to such (`isWalk_map_iff`, `isStuck_map_iff`,
`isMaximalRun_map_iff`).
-/

namespace RoutePolicy

variable {α : Type}

/-- A walk from `a`: the nodes in order, each leading to the next. -/
structure IsWalk (R : α → α → Prop) (a : α) (w : List α) : Prop where
  start : w.head? = some a
  chain : w.IsChain R

/-- No node is repeated and the last one leads nowhere. -/
def IsStuck (R : α → α → Prop) (w : List α) : Prop :=
  ∃ p x, w = p ++ [x] ∧ (p ++ [x]).Nodup ∧ ∀ y, ¬R x y

/-- The last node is the first one that is repeated. -/
def IsClosed (w : List α) : Prop := ∃ p x, w = p ++ [x] ∧ p.Nodup ∧ x ∈ p

/-- A walk that is stuck or closed at its end. -/
structure IsMaximalPath (R : α → α → Prop) (a : α) (w : List α) : Prop where
  walk : IsWalk R a w
  maximal : IsStuck R w ∨ IsClosed w

/-- A run from `a` that goes on for ever, or ends where the relation leads nowhere: the node at
each position, as long as there is one. -/
structure IsMaximalRun (R : α → α → Prop) (a : α) (v : Nat → Option α) : Prop where
  start : v 0 = some a
  step : ∀ {i b c}, v i = some b → v (i + 1) = some c → R b c
  stuck : ∀ {i b}, v i = some b → v (i + 1) = none → ∀ c, ¬R b c
  ended : ∀ {i}, v i = none → v (i + 1) = none

/-- `Q` holds at some node of the list, and `P` at all nodes before it. -/
def UntilOn (P Q : α → Prop) (w : List α) : Prop :=
  ∃ p x q, w = p ++ x :: q ∧ Q x ∧ ∀ y ∈ p, P y

/-- `Q` holds at some position of the run, and `P` at all positions before it. -/
def UntilAlong (P Q : α → Prop) (v : Nat → Option α) : Prop :=
  ∃ i x, v i = some x ∧ Q x ∧ ∀ j, j < i → ∀ y, v j = some y → P y

/-- On every maximal run from `a` there is a node where `Q` holds. -/
def Unavoidable (R : α → α → Prop) (Q : α → Prop) (a : α) : Prop :=
  ∀ v, IsMaximalRun R a v → ∃ i x, v i = some x ∧ Q x

section

variable {R : α → α → Prop} {P Q : α → Prop} {a b c : α} {w : List α}

/-! ## Walks -/

theorem IsWalk.singleton (R : α → α → Prop) (a : α) : IsWalk R a [a] :=
  ⟨rfl, List.isChain_singleton a⟩

theorem IsWalk.cons (h : R a b) (hw : IsWalk R b w) : IsWalk R a (a :: w) := by
  refine ⟨rfl, List.isChain_cons.mpr ⟨fun y hy => ?_, hw.chain⟩⟩
  rw [hw.start, Option.mem_some_iff] at hy
  exact hy ▸ h

theorem IsWalk.snoc (hw : IsWalk R a (w ++ [b])) (h : R b c) : IsWalk R a (w ++ [b] ++ [c]) := by
  refine ⟨by simpa using hw.start, ?_⟩
  rw [List.append_assoc]
  exact List.isChain_append_cons_cons.mpr ⟨hw.chain, h, List.isChain_singleton c⟩

/-- A walk that goes on beyond `b` up to there. -/
theorem IsWalk.take {q : List α} (hw : IsWalk R a (w ++ b :: q)) : IsWalk R a (w ++ [b]) := by
  refine ⟨?_, (List.isChain_split.mp hw.chain).1⟩
  have := hw.start
  cases w <;> simpa using this

theorem IsWalk.ne_nil (hw : IsWalk R a w) : w ≠ [] := by
  rintro rfl
  exact absurd hw.start (by simp)

/-- Every node of a walk but the first is one that the relation leads to. -/
theorem exists_rel_of_mem_tail (hw : w.IsChain R) : ∀ x ∈ w.tail, ∃ y, R y x := by
  induction w with
  | nil => simp
  | cons y w ih =>
      intro x hx
      cases w with
      | nil => simp at hx
      | cons z w =>
          obtain ⟨hyz, hzw⟩ := List.isChain_cons_cons.mp hw
          rcases List.mem_cons.mp hx with rfl | hx
          · exact ⟨y, hyz⟩
          · exact ih hzw x hx

/-- What a walk reaches is reachable. -/
theorem IsWalk.reflTransGen {x : α} (hw : IsWalk R a (w ++ [x])) :
    Relation.ReflTransGen R a x := by
  induction w generalizing a with
  | nil =>
      obtain rfl : x = a := by simpa using hw.start
      exact .refl
  | cons y w ih =>
      obtain rfl : y = a := by simpa using hw.start
      obtain ⟨b, hb⟩ : ∃ b, (w ++ [x]).head? = some b := by cases w <;> simp
      obtain ⟨hyb, hc⟩ := List.isChain_cons.mp hw.chain
      exact .head (hyb b hb) (ih ⟨hb, hc⟩)

/-- What is reachable is reached by a walk. -/
theorem exists_walk_of_reflTransGen {x : α} (h : Relation.ReflTransGen R a x) :
    ∃ w, IsWalk R a (w ++ [x]) := by
  induction h with
  | refl => exact ⟨[], .singleton R a⟩
  | tail _ hbc ih =>
      obtain ⟨w, hw⟩ := ih
      exact ⟨_, hw.snoc hbc⟩

theorem untilOn_of_getElem {i : Nat} (hi : i < w.length) (hQ : Q w[i])
    (hP : ∀ j, (hj : j < i) → P w[j]) : UntilOn P Q w := by
  refine ⟨w.take i, w[i], w.drop (i + 1), ?_, hQ, fun y hy => ?_⟩
  · rw [← List.drop_eq_getElem_cons, List.take_append_drop]
  · obtain ⟨j, hj, rfl⟩ := List.mem_take_iff_getElem.mp hy
    exact hP j (by omega)

/-! ## Cutting the cycles out of a walk -/

/-- The list is a walk from its first node to one where `Q` holds, with `P` before it. -/
inductive Attains (R : α → α → Prop) (P Q : α → Prop) : α → List α → Prop
  | here {a : α} : Q a → Attains R P Q a [a]
  | later {a b : α} {w : List α} :
      P a → R a b → Attains R P Q b w → Attains R P Q a (a :: w)

theorem attains_iff : Attains R P Q a w ↔
    ∃ p x, w = p ++ [x] ∧ IsWalk R a (p ++ [x]) ∧ Q x ∧ ∀ y ∈ p, P y := by
  constructor
  · intro h
    induction h with
    | @here a hQ => exact ⟨[], a, rfl, .singleton R a, hQ, by simp⟩
    | @later a b w hP hR _ ih =>
        obtain ⟨p, x, rfl, hw, hQ, hp⟩ := ih
        exact ⟨a :: p, x, rfl, .cons hR hw, hQ, List.forall_mem_cons.mpr ⟨hP, hp⟩⟩
  · rintro ⟨p, x, rfl, hw, hQ, hp⟩
    induction p generalizing a with
    | nil =>
        obtain rfl : x = a := by simpa using hw.start
        exact .here hQ
    | cons y p ih =>
        obtain rfl : y = a := by simpa using hw.start
        obtain ⟨hP, hp⟩ := List.forall_mem_cons.mp hp
        obtain ⟨b, hb⟩ : ∃ b, (p ++ [x]).head? = some b := by cases p <;> simp
        obtain ⟨hyb, hc⟩ := List.isChain_cons.mp hw.chain
        exact .later hP (hyb b hb) (ih ⟨hb, hc⟩ hp)

/-- From any node on the way, the rest of the way attains the same. -/
theorem Attains.exists_suffix (h : Attains R P Q a w) {x : α} (hx : x ∈ w) :
    ∃ w', w' <:+ w ∧ Attains R P Q x w' := by
  induction h with
  | here hQ =>
      obtain rfl := List.mem_singleton.mp hx
      exact ⟨_, List.suffix_rfl, .here hQ⟩
  | later hP hR h ih =>
      rcases List.mem_cons.mp hx with rfl | hx
      · exact ⟨_, List.suffix_rfl, .later hP hR h⟩
      · obtain ⟨w', hw', h'⟩ := ih hx
        exact ⟨w', hw'.trans (List.suffix_cons _ _), h'⟩

/-- Without its detours the walk repeats no node. -/
theorem Attains.exists_nodup (h : Attains R P Q a w) : ∃ w', w'.Nodup ∧ Attains R P Q a w' := by
  classical
  induction h with
  | here hQ => exact ⟨_, List.nodup_singleton _, .here hQ⟩
  | @later a _ _ hP hR _ ih =>
      obtain ⟨w', hnd, h'⟩ := ih
      -- a node that comes up again is gone on from there, which leaves out the cycle
      by_cases ha : a ∈ w'
      · obtain ⟨w'', hsuf, h''⟩ := h'.exists_suffix ha
        exact ⟨w'', hnd.sublist hsuf.sublist, h''⟩
      · exact ⟨a :: w', List.nodup_cons.mpr ⟨ha, hnd⟩, .later hP hR h'⟩

/-! ## Extending a path

A path without repetition can be followed until it is stuck or closes. The extension can be kept
inside any class of lists that leaves a way on where the relation has one: all lists, or the
beginnings of one run. -/

theorem length_le_of_nodup {V : List α} (hV : ∀ x y, R x y → y ∈ V) (hw : w.IsChain R)
    (hnd : w.Nodup) : w.length ≤ V.length + 1 := by
  have hsub : w.tail ⊆ V := fun x hx => by
    obtain ⟨y, hy⟩ := exists_rel_of_mem_tail hw x hx
    exact hV y x hy
  have := (List.Nodup.subperm hnd.tail hsub).length_le
  rw [List.length_tail] at this
  omega

theorem exists_maximal_extension {V : List α} (hV : ∀ x y, R x y → y ∈ V) {C : List α → Prop}
    (hC : ∀ w b, C (w ++ [b]) → (∀ c, ¬R b c) ∨ ∃ c, R b c ∧ C (w ++ [b] ++ [c]))
    (hw : IsWalk R a (w ++ [b])) (hnd : (w ++ [b]).Nodup) (hCw : C (w ++ [b])) :
    ∃ q, IsMaximalPath R a (w ++ [b] ++ q) ∧ C (w ++ [b] ++ q) := by
  classical
  -- each node added brings the length closer to its bound
  induction hn : V.length + 1 - w.length generalizing w b with
  | zero =>
      have := length_le_of_nodup hV hw.chain hnd
      simp only [List.length_append, List.length_singleton] at this
      omega
  | succ n ih =>
      rcases hC w b hCw with hstuck | ⟨c, hbc, hCc⟩
      · refine ⟨[], ?_, by simpa using hCw⟩
        rw [List.append_nil]
        exact ⟨hw, Or.inl ⟨w, b, rfl, hnd, hstuck⟩⟩
      -- the node on the way closes the path, or the path goes on
      · by_cases hc : c ∈ w ++ [b]
        · exact ⟨[c], ⟨hw.snoc hbc, Or.inr ⟨w ++ [b], c, rfl, hnd, hc⟩⟩, hCc⟩
        · have hnd' : (w ++ [b] ++ [c]).Nodup := by
            rw [List.nodup_append]
            exact ⟨hnd, List.nodup_singleton c, fun x hx y hy hxy =>
              hc (List.mem_singleton.mp hy ▸ hxy ▸ hx)⟩
          obtain ⟨q, hmax, hCq⟩ := ih (hw.snoc hbc) hnd' hCc (by
            rw [List.length_append, List.length_singleton]; omega)
          exact ⟨c :: q, by simpa using hmax, by simpa using hCq⟩

/-- A path without repetition can be followed to a maximal one. -/
theorem exists_maximalPath_extension {V : List α} (hV : ∀ x y, R x y → y ∈ V)
    (hw : IsWalk R a (w ++ [b])) (hnd : (w ++ [b]).Nodup) :
    ∃ q, IsMaximalPath R a (w ++ [b] ++ q) := by
  -- the class of all lists leaves every way on
  have hall : ∀ (w : List α) b, True → (∀ c, ¬R b c) ∨ ∃ c, R b c ∧ True := by
    intro w b _
    by_cases hb : ∃ c, R b c
    · exact Or.inr (hb.imp fun c hc => ⟨hc, trivial⟩)
    · exact Or.inl (not_exists.mp hb)
  obtain ⟨q, hmax, -⟩ := exists_maximal_extension (C := fun _ => True) hV hall hw hnd trivial
  exact ⟨q, hmax⟩

/-- **Walks and maximal paths attain the same.** -/
theorem exists_walk_until_iff {V : List α} (hV : ∀ x y, R x y → y ∈ V) :
    (∃ w x, IsWalk R a (w ++ [x]) ∧ Q x ∧ ∀ y ∈ w, P y) ↔
      ∃ w, IsMaximalPath R a w ∧ UntilOn P Q w := by
  constructor
  · rintro ⟨w, x, hw, hQ, hP⟩
    obtain ⟨w', hnd, h'⟩ := (attains_iff.mpr ⟨w, x, rfl, hw, hQ, hP⟩).exists_nodup
    obtain ⟨p, y, rfl, hp, hQy, hPp⟩ := attains_iff.mp h'
    -- the walk without its cycles is the beginning of a maximal path
    obtain ⟨q, hmax⟩ := exists_maximalPath_extension hV hp hnd
    exact ⟨_, hmax, p, y, q, by simp, hQy, hPp⟩
  · rintro ⟨w, hmax, p, x, q, rfl, hQ, hP⟩
    exact ⟨p, x, hmax.walk.take, hQ, hP⟩

/-! ## Runs -/

/-- The list is the beginning of the run. -/
def IsBeginning (v : Nat → Option α) (w : List α) : Prop := ∀ i, i < w.length → v i = w[i]?

theorem IsBeginning.snoc {v : Nat → Option α} (h : IsBeginning v w) (hb : v w.length = some b) :
    IsBeginning v (w ++ [b]) := by
  intro i hi
  rw [List.length_append, List.length_singleton] at hi
  rcases Nat.lt_succ_iff_lt_or_eq.mp hi with hlt | rfl
  · rw [h i hlt, List.getElem?_append_left hlt]
  · rw [hb, List.getElem?_concat_length]

theorem IsBeginning.last {v : Nat → Option α} (h : IsBeginning v (w ++ [b])) :
    v w.length = some b := by
  rw [h w.length (by simp), List.getElem?_concat_length]

/-- A run can be followed until it is stuck or meets a node again. -/
theorem IsMaximalRun.exists_maximalPath {V : List α} (hV : ∀ x y, R x y → y ∈ V)
    {v : Nat → Option α} (hv : IsMaximalRun R a v) :
    ∃ w, IsMaximalPath R a w ∧ IsBeginning v w := by
  have hstep : ∀ w b, IsBeginning v (w ++ [b]) →
      (∀ c, ¬R b c) ∨ ∃ c, R b c ∧ IsBeginning v (w ++ [b] ++ [c]) := by
    intro w b hw
    -- the run itself shows the way on, where there is one
    cases hc : v (w.length + 1) with
    | none => exact Or.inl (hv.stuck hw.last hc)
    | some c => exact Or.inr ⟨c, hv.step hw.last hc, hw.snoc (by simpa using hc)⟩
  have hstart : IsBeginning v ([] ++ [a]) :=
    IsBeginning.snoc (fun i hi => absurd hi (by simp)) hv.start
  obtain ⟨q, hmax, hq⟩ :=
    exists_maximal_extension hV hstep (.singleton R a) (List.nodup_singleton a) hstart
  exact ⟨_, hmax, hq⟩

/-- What a beginning of a run attains, the run attains. -/
theorem UntilOn.along {v : Nat → Option α} (h : UntilOn P Q w) (hw : IsBeginning v w) :
    UntilAlong P Q v := by
  obtain ⟨p, x, q, rfl, hQ, hP⟩ := h
  refine ⟨p.length, x, ?_, hQ, fun j hj y hy => hP y ?_⟩
  · rw [hw p.length (by simp), List.getElem?_append_right (Nat.le_refl _), Nat.sub_self]
    rfl
  · rw [hw j (by simp; omega), List.getElem?_append_left hj] at hy
    exact List.mem_of_getElem? hy

/-- A stuck path is a run. -/
theorem IsWalk.isMaximalRun (hw : IsWalk R a w) (hs : IsStuck R w) :
    IsMaximalRun R a (fun i => w[i]?) := by
  obtain ⟨p, x, rfl, -, hx⟩ := hs
  refine ⟨by rw [← List.head?_eq_getElem?]; exact hw.start, ?_, ?_, ?_⟩
  · intro i b c hb hc
    obtain ⟨hi, rfl⟩ := List.getElem?_eq_some_iff.mp hb
    obtain ⟨hi', rfl⟩ := List.getElem?_eq_some_iff.mp hc
    exact hw.chain.getElem i hi'
  · intro i b hb hnone c
    have hi := (List.getElem?_eq_some_iff.mp hb).1
    have hlen := List.getElem?_eq_none_iff.mp hnone
    rw [List.length_append, List.length_singleton] at hi hlen
    obtain rfl : i = p.length := by omega
    rw [List.getElem?_concat_length] at hb
    exact Option.some_inj.mp hb ▸ hx c
  · intro i hi
    rw [List.getElem?_eq_none_iff] at hi ⊢
    omega

/-! ## Going round a cycle

The positions `0, 1, …, n - 1, i, i + 1, …, n - 1, i, …` of a path of `n` nodes that closes at
position `i`. -/

/-- The `j`-th position of the round trip. -/
def roundTrip (n i : Nat) : Nat → Nat
  | 0 => 0
  | j + 1 => if roundTrip n i j + 1 < n then roundTrip n i j + 1 else i

theorem roundTrip_lt {n i : Nat} (hi : i < n) (j : Nat) : roundTrip n i j < n := by
  induction j with
  | zero => exact Nat.zero_lt_of_lt hi
  | succ j ih => rw [roundTrip]; split <;> omega

theorem roundTrip_of_lt {n i j : Nat} (hj : j < n) : roundTrip n i j = j := by
  induction j with
  | zero => rfl
  | succ j ih => rw [roundTrip, ih (by omega), if_pos hj]

/-- No position is met later than at its own number. -/
theorem roundTrip_le {n i : Nat} (hi : i < n) (j : Nat) : roundTrip n i j ≤ j := by
  induction j with
  | zero => exact Nat.le_refl 0
  | succ j ih =>
      have := roundTrip_lt hi j
      rw [roundTrip]
      split <;> omega

/-- A closed path, gone round for ever, is a run. -/
theorem IsWalk.isMaximalRun_roundTrip {p : List α} {i : Nat} (hi : i < p.length)
    (hw : IsWalk R a (p ++ [p[i]])) :
    IsMaximalRun R a (fun j => p[roundTrip p.length i j]?) := by
  have hsome (j : Nat) : p[roundTrip p.length i j]? ≠ none := by
    have := roundTrip_lt hi j
    rw [ne_eq, List.getElem?_eq_none_iff]
    omega
  refine ⟨?_, ?_, fun {j b} _ hnone => ?_, fun {j} hnone => ?_⟩
  · have := hw.start
    rw [List.head?_append_of_ne_nil _ (List.ne_nil_of_length_pos (by omega))] at this
    rwa [List.head?_eq_getElem?] at this
  · intro j b c hb hc
    -- the next position is the next one on the path, or the one where it closes
    have hj := roundTrip_lt hi j
    obtain ⟨-, rfl⟩ := List.getElem?_eq_some_iff.mp hb
    rw [roundTrip] at hc
    split at hc
    · rename_i hlt
      obtain ⟨-, rfl⟩ := List.getElem?_eq_some_iff.mp hc
      have := hw.chain.getElem (roundTrip p.length i j) (by simp; omega)
      rwa [List.getElem_append_left hj, List.getElem_append_left hlt] at this
    · obtain ⟨-, rfl⟩ := List.getElem?_eq_some_iff.mp hc
      have := hw.chain.getElem (roundTrip p.length i j) (by simp; omega)
      rwa [List.getElem_append_left hj, List.getElem_append_right (by omega),
        List.getElem_singleton] at this
  · exact absurd hnone (hsome (j + 1))
  · exact absurd hnone (hsome j)

/-- What the round trip attains, it attains before it closes. -/
theorem untilOn_of_roundTrip {p : List α} {i : Nat} (hi : i < p.length)
    (h : UntilAlong P Q (fun j => p[roundTrip p.length i j]?)) : UntilOn P Q p := by
  obtain ⟨j, x, hx, hQ, hP⟩ := h
  have hle := roundTrip_le hi j
  obtain ⟨hlt, rfl⟩ := List.getElem?_eq_some_iff.mp hx
  refine untilOn_of_getElem hlt hQ fun m hm => hP m (by omega) _ ?_
  show p[roundTrip p.length i m]? = _
  rw [roundTrip_of_lt (by omega)]
  exact List.getElem?_eq_getElem _

/-- **Maximal runs and maximal paths are bound to attain the same.** -/
theorem forall_run_until_iff {V : List α} (hV : ∀ x y, R x y → y ∈ V) :
    (∀ v, IsMaximalRun R a v → UntilAlong P Q v) ↔
      ∀ w, IsMaximalPath R a w → UntilOn P Q w := by
  constructor
  · rintro h w ⟨hw, hs | ⟨p, x, rfl, -, hx⟩⟩
    -- a stuck path is a run as it is
    · obtain ⟨i, x, hx, hQ, hP⟩ := h _ (hw.isMaximalRun hs)
      obtain ⟨hi, rfl⟩ := List.getElem?_eq_some_iff.mp hx
      exact untilOn_of_getElem hi hQ fun j hj => hP j hj _ (List.getElem?_eq_getElem _)
    -- a closed path is gone round for ever; what that attains comes up in the first round
    · obtain ⟨i, hi, rfl⟩ := List.mem_iff_getElem.mp hx
      obtain ⟨q, y, r, hp, hQ, hP⟩ :=
        untilOn_of_roundTrip hi (h _ (hw.isMaximalRun_roundTrip hi))
      refine ⟨q, y, r ++ [p[i]], ?_, hQ, hP⟩
      rw [← List.cons_append, ← List.append_assoc, ← hp]
  · intro h v hv
    -- the other way a run need only be followed until it closes
    obtain ⟨w, hmax, hw⟩ := hv.exists_maximalPath hV
    exact (h w hmax).along hw

/-! ## What no run avoids -/

/-- A run with one more node in front of it. -/
theorem IsMaximalRun.cons {v : Nat → Option α} (hv : IsMaximalRun R b v) (h : R a b) :
    IsMaximalRun R a fun i => if i = 0 then some a else v (i - 1) := by
  refine ⟨rfl, fun {i x y} hx hy => ?_, fun {i x} hx hy => ?_, fun {i} hx => ?_⟩
  all_goals cases i with | zero => ?_ | succ i => ?_
  · obtain rfl := Option.some_inj.mp hx
    obtain rfl := Option.some_inj.mp (hv.start.symm.trans hy)
    exact h
  · exact hv.step hx hy
  · exact absurd (hv.start.symm.trans hy) (Option.some_ne_none b)
  · exact hv.stuck hx hy
  · exact absurd hx (Option.some_ne_none a)
  · exact hv.ended hx

/-- Each run from a node where `Q` is still to come goes on, and `Q` is still to come there. -/
theorem Unavoidable.next (h : Unavoidable R Q a) (ha : ¬Q a) (hab : R a b) : Unavoidable R Q b := by
  intro v hv
  obtain ⟨i, x, hx, hQ⟩ := h _ (hv.cons hab)
  cases i with
  | zero =>
      obtain rfl := Option.some_inj.mp hx
      exact absurd hQ ha
  | succ i => exact ⟨i, x, hx, hQ⟩

theorem Unavoidable.exists_next (h : Unavoidable R Q a) (ha : ¬Q a) : ∃ b, R a b := by
  by_contra hnone
  have hstuck : IsStuck R [a] :=
    ⟨[], a, rfl, List.nodup_singleton a, fun b hab => hnone ⟨b, hab⟩⟩
  obtain ⟨i, x, hx, hQ⟩ := h _ ((IsWalk.singleton R a).isMaximalRun hstuck)
  obtain rfl := List.mem_singleton.mp (List.mem_of_getElem? hx)
  exact ha hQ

end

/-! ## Isomorphic relations -/

section

variable {β : Type} {R : α → α → Prop} {S : β → β → Prop} {a : α} {w : List α}

theorem isClosed_map_iff {f : α → β} (hf : Function.Injective f) :
    IsClosed (w.map f) ↔ IsClosed w := by
  constructor
  · rintro ⟨_, _, heq, hnodup, hmem⟩
    obtain ⟨p, q, rfl, rfl, hq⟩ := List.map_eq_append_iff.mp heq
    obtain ⟨x, rfl, rfl⟩ := List.map_eq_singleton_iff.mp hq
    exact ⟨p, x, rfl, hnodup.of_map, (List.mem_map_of_injective hf).mp hmem⟩
  · rintro ⟨p, x, rfl, hnodup, hmem⟩
    exact ⟨p.map f, f x, by simp, hnodup.map hf, List.mem_map_of_mem hmem⟩

variable (e : R ≃r S)

theorem isChain_map_iff : (w.map e).IsChain S ↔ w.IsChain R := by
  simp only [List.isChain_map, e.map_rel_iff]

theorem isWalk_map_iff : IsWalk S (e a) (w.map e) ↔ IsWalk R a w := by
  have hstart : (w.map e).head? = some (e a) ↔ w.head? = some a := by
    rw [List.head?_map, Option.map_eq_some_iff]
    simp only [e.injective.eq_iff, exists_eq_right]
  exact ⟨fun h => ⟨hstart.mp h.start, (isChain_map_iff e).mp h.chain⟩,
    fun h => ⟨hstart.mpr h.start, (isChain_map_iff e).mpr h.chain⟩⟩

theorem IsStuck.map (h : IsStuck R w) : IsStuck S (w.map e) := by
  obtain ⟨p, x, rfl, hnodup, hnext⟩ := h
  refine ⟨p.map e, e x, by simp, ?_, fun y hy => hnext (e.symm y) ?_⟩
  · simpa using hnodup.map e.injective
  · rwa [← e.map_rel_iff, e.apply_symm_apply]

theorem isStuck_map_iff : IsStuck S (w.map e) ↔ IsStuck R w := by
  refine ⟨fun h => ?_, IsStuck.map e⟩
  have hback := h.map e.symm
  rwa [List.map_map, show e.symm ∘ e = id from funext e.symm_apply_apply, List.map_id] at hback

/-- The values of a run under an isomorphism. -/
def runEquiv : (Nat → Option α) ≃ (Nat → Option β) :=
  Equiv.arrowCongr (Equiv.refl Nat) (Equiv.optionCongr e.toEquiv)

theorem runEquiv_apply (v : Nat → Option α) (i : Nat) : runEquiv e v i = (v i).map e := rfl

theorem IsMaximalRun.map {v : Nat → Option α} (h : IsMaximalRun R a v) :
    IsMaximalRun S (e a) (runEquiv e v) := by
  constructor
  case start => rw [runEquiv_apply, h.start, Option.map_some]
  case step =>
    intro i _ _ hb hc
    rw [runEquiv_apply, Option.map_eq_some_iff] at hb hc
    obtain ⟨b, hb, rfl⟩ := hb
    obtain ⟨c, hc, rfl⟩ := hc
    exact e.map_rel_iff.mpr (h.step hb hc)
  case stuck =>
    intro i _ hb hnone y hy
    rw [runEquiv_apply, Option.map_eq_some_iff] at hb
    rw [runEquiv_apply, Option.map_eq_none_iff] at hnone
    obtain ⟨b, hb, rfl⟩ := hb
    refine h.stuck hb hnone (e.symm y) (e.map_rel_iff.mp ?_)
    rwa [e.apply_symm_apply]
  case ended =>
    intro i hnone
    rw [runEquiv_apply, Option.map_eq_none_iff] at hnone ⊢
    exact h.ended hnone

theorem isMaximalRun_map_iff {v : Nat → Option α} :
    IsMaximalRun S (e a) (runEquiv e v) ↔ IsMaximalRun R a v := by
  refine ⟨fun h => ?_, IsMaximalRun.map e⟩
  have hback := h.map e.symm
  rw [e.symm_apply_apply] at hback
  convert hback using 1
  exact ((runEquiv e).symm_apply_apply v).symm

theorem reflTransGen_map_iff {b : α} :
    Relation.ReflTransGen S (e a) (e b) ↔ Relation.ReflTransGen R a b := by
  refine ⟨fun h => ?_, fun h => h.lift e fun _ _ => e.map_rel_iff.mpr⟩
  have hback : Relation.ReflTransGen R (e.symm (e a)) (e.symm (e b)) :=
    h.lift e.symm fun _ _ => e.symm.map_rel_iff.mpr
  rwa [e.symm_apply_apply, e.symm_apply_apply] at hback

end

end RoutePolicy
