import Mathlib.Data.List.Nodup
import RoutePolicy.Proofs.PathSet

set_option autoImplicit false

/-! # The rounds of the enumeration

The enumeration meets every path that repeats no node, and every one that closes at its last node,
in rounds by length (`Successors.met`). Of the paths met, the longest are kept: those that are not
the beginning of another one (`longest`). The search does not compare paths for this, since a path
is the beginning of another one exactly if it is open and its last node has a successor
(`Successors.isBeginning_iff`). -/

namespace RoutePolicy

/-! ## The longest of some paths -/

namespace Path

/-- The nodes without the one that closes the path. -/
def body (p : Path) : List Node := if p.cyclic then p.nodes.dropLast else p.nodes

/-- The other path goes further. -/
def isBeginningOf (p q : Path) : Bool :=
  p.nodes.isPrefixOf q.nodes && p.nodes.length < q.nodes.length

/-- The path stands before the other: cycle-free paths before cyclic ones, each by length. -/
def precedes (p q : Path) : Bool :=
  if p.cyclic = q.cyclic then p.nodes.length ≤ q.nodes.length else q.cyclic

theorem isBeginningOf_iff {p q : Path} :
    p.isBeginningOf q = true ↔ ∃ n w, q.nodes = p.nodes ++ n :: w := by
  rw [isBeginningOf, Bool.and_eq_true, List.isPrefixOf_iff_prefix, decide_eq_true_eq]
  constructor
  · rintro ⟨⟨w, hw⟩, hlt⟩
    cases w with
    | nil =>
        rw [← hw, List.append_nil] at hlt
        exact absurd hlt (Nat.lt_irrefl _)
    | cons n w => exact ⟨n, w, hw.symm⟩
  · rintro ⟨n, w, hw⟩
    refine ⟨⟨n :: w, hw.symm⟩, ?_⟩
    rw [hw, List.length_append, List.length_cons]
    omega

theorem precedes_trans (p q r : Path) (hpq : p.precedes q = true) (hqr : q.precedes r = true) :
    p.precedes r = true := by
  unfold precedes at *
  cases hp : p.cyclic <;> cases hq : q.cyclic <;> cases hr : r.cyclic <;>
    simp only [hp, hq, hr, reduceCtorEq, if_true, if_false, decide_eq_true_eq] at * <;> omega

theorem precedes_total (p q : Path) : (p.precedes q || q.precedes p) = true := by
  rw [Bool.or_eq_true, precedes, precedes]
  by_cases h : p.cyclic = q.cyclic
  · rw [if_pos h, if_pos h.symm, decide_eq_true_eq, decide_eq_true_eq]
    exact Nat.le_total _ _
  · rw [if_neg h, if_neg (Ne.symm h)]
    cases hp : p.cyclic with
    | true => exact Or.inr rfl
    | false => exact Or.inl (eq_true_of_ne_false fun hq => h (hp.trans hq.symm))

theorem cyclic_of_precedes {p q : Path} (h : p.precedes q = true) (hp : p.cyclic = true) :
    q.cyclic = true := by
  unfold precedes at h
  split at h
  · rename_i heq
    rwa [← heq]
  · exact h

end Path

/-- The paths that are not the beginning of another one, sorted. -/
def longest (all : List Path) : List Path :=
  (all.filter fun p => !all.any p.isBeginningOf).mergeSort Path.precedes

theorem filter_append_filter {α : Type} {f : α → Bool} {l : List α}
    (h : l.Pairwise fun a b => f a = true → f b = true) :
    l.filter (!f ·) ++ l.filter f = l := by
  induction l with
  | nil => rfl
  | cons a l ih =>
      obtain ⟨ha, hl⟩ := List.pairwise_cons.mp h
      cases hfa : f a with
      | false =>
          rw [List.filter_cons_of_pos (by simp [hfa]), List.filter_cons_of_neg (by simp [hfa]),
            List.cons_append, ih hl]
      | true =>
          -- from the first element on all have the property
          have hall : ∀ b ∈ a :: l, f b = true :=
            List.forall_mem_cons.mpr ⟨hfa, fun b hb => ha b hb hfa⟩
          rw [List.filter_eq_self.mpr hall,
            List.filter_eq_nil_iff.mpr fun b hb => by simp [hall b hb], List.nil_append]

/-- Sorting puts the cycle-free paths before the cyclic ones, if both are sorted by length
already. -/
theorem mergeSort_precedes {l : List Path} (h : ∀ b, (l.filter (·.cyclic == b)).Pairwise
    fun p q => p.nodes.length ≤ q.nodes.length) :
    l.mergeSort Path.precedes = l.filter (·.cyclic == false) ++ l.filter (·.cyclic == true) := by
  have hperm := List.mergeSort_perm l Path.precedes
  -- sorting keeps the order of the cyclic paths, and that of the others
  have hkeeps (b : Bool) : (l.mergeSort Path.precedes).filter (·.cyclic == b)
      = l.filter (·.cyclic == b) := by
    have hsorted : (l.filter (·.cyclic == b)).Pairwise fun p q => p.precedes q = true := by
      refine (h b).imp_of_mem fun {p q} hp hq hle => ?_
      have hp : p.cyclic = b := by simpa using (List.mem_filter.mp hp).2
      have hq : q.cyclic = b := by simpa using (List.mem_filter.mp hq).2
      rw [Path.precedes, if_pos (hp.trans hq.symm)]
      exact decide_eq_true hle
    have hsub := List.sublist_mergeSort Path.precedes_trans Path.precedes_total hsorted
      List.filter_sublist
    have hsub := hsub.filter (·.cyclic == b)
    rw [List.filter_filter] at hsub
    simp only [Bool.and_self] at hsub
    exact (hsub.eq_of_length (hperm.filter _).length_eq.symm).symm
  have hsplit := filter_append_filter (f := (·.cyclic == true))
    ((List.pairwise_mergeSort Path.precedes_trans Path.precedes_total l).imp fun {p q} hpq hp =>
      beq_iff_eq.mpr (Path.cyclic_of_precedes hpq (beq_iff_eq.mp hp)))
  rw [hkeeps] at hsplit
  rw [← hsplit, ← hkeeps false]
  simp

/-! ## Rounds -/

namespace Successors

variable {s : Successors} {t t' : Trail} {ts : List Trail} {limit : Option Nat} {k : Nat}

/-- What the open paths of a round grow into. -/
def grow (s : Successors) (ts : List Trail) : List Trail := ts.flatMap s.growths

/-- What the rounds give, one after the other. -/
def overRounds {α : Type} (s : Successors) (f : List Trail → List α) : Nat → List Trail → List α
  | 0, _ => []
  | k + 1, ts => f ts ++ s.overRounds f k (s.grow ts)

/-- The paths met at an open path: those that it closes into, then the path itself. -/
def meetings (s : Successors) (t : Trail) : List Path :=
  (s.closings t).map (fun t' => ⟨t'.nodes, true⟩) ++ [⟨t.nodes, false⟩]

/-- All paths met, round by round. -/
def met (s : Successors) : List Path :=
  s.overRounds (·.flatMap s.meetings) s.rounds s.firstTrails

/-- There is no more than this number of paths, if it is limited. -/
def checkLimit (limit : Option Nat) (n : Nat) : Except Failure Unit :=
  match limit with
  | some limit => if limit < n then throw (.tooManyPaths limit) else pure ()
  | none => pure ()

theorem checkLimit_eq_ok {n : Nat} (h : ∀ l, limit = some l → n ≤ l) :
    checkLimit limit n = .ok () := by
  cases limit with
  | none => rfl
  | some l => exact if_neg (Nat.not_lt.mpr (h l rfl))

theorem checkLimit_eq_error {l n : Nat} (h : l < n) :
    checkLimit (some l) n = .error (.tooManyPaths l) := if_pos h

theorem checkLimit_some_eq_ok {l n : Nat} (h : n ≤ l) : checkLimit (some l) n = .ok () :=
  if_neg (Nat.not_lt.mpr h)

theorem checkLimit_zero : checkLimit limit 0 = .ok () := checkLimit_eq_ok fun l _ => Nat.zero_le l

/-- What is checked of fewer paths is checked of more paths too. -/
theorem checkLimit_bind_of_le {α : Type} {a b : Nat} (h : a ≤ b) (x : Except Failure α) :
    (do checkLimit limit a; checkLimit limit b; x) = (do checkLimit limit b; x) := by
  cases limit with
  | none => rfl
  | some l =>
      by_cases hl : l < a
      · rw [checkLimit_eq_error hl, checkLimit_eq_error (hl.trans_le h)]
        rfl
      · rw [checkLimit_some_eq_ok (Nat.le_of_not_lt hl)]
        rfl

/-- After a check of more paths there is no need for one of fewer. -/
theorem checkLimit_bind_of_ge {α : Type} {a b : Nat} (h : a ≤ b) (x : Except Failure α) :
    (do checkLimit limit b; checkLimit limit a; x) = (do checkLimit limit b; x) := by
  cases limit with
  | none => rfl
  | some l =>
      by_cases hl : l < b
      · rw [checkLimit_eq_error hl]
        rfl
      · rw [checkLimit_some_eq_ok (h.trans (Nat.le_of_not_lt hl))]
        rfl

theorem overRounds_nil {α : Type} {f : List Trail → List α} (hf : f [] = []) (k : Nat) :
    s.overRounds f k [] = [] := by
  induction k with
  | zero => rfl
  | succ k ih =>
      rw [overRounds, hf]
      exact ih

/-- A filter of what the rounds give can be made in each round. -/
theorem filter_overRounds {α : Type} (f : List Trail → List α) (p : α → Bool) :
    (s.overRounds f k ts).filter p = s.overRounds (fun ts => (f ts).filter p) k ts := by
  induction k generalizing ts with
  | zero => rfl
  | succ k ih => rw [overRounds, List.filter_append, ih, overRounds]

theorem map_overRounds {α β : Type} (f : List Trail → List α) (g : α → β) :
    (s.overRounds f k ts).map g = s.overRounds (fun ts => (f ts).map g) k ts := by
  induction k generalizing ts with
  | zero => rfl
  | succ k ih => rw [overRounds, List.map_append, ih, overRounds]

/-- The open paths repeat no node, and grow no further after this number of rounds. -/
def Lasts (s : Successors) (k : Nat) (ts : List Trail) : Prop :=
  ∀ t ∈ ts, s.IsOpen t ∧ s.targets.length + 1 < t.nodes.length + k

theorem Lasts.eq_nil (h : s.Lasts 0 ts) : ts = [] := by
  refine List.eq_nil_iff_forall_not_mem.mpr fun t ht => ?_
  obtain ⟨hopen, hlen⟩ := h t ht
  have := hopen.length_le
  omega

theorem Lasts.grow (h : s.Lasts (k + 1) ts) : s.Lasts k (s.grow ts) := by
  intro t ht
  obtain ⟨t₁, ht₁, hgrow⟩ := List.mem_flatMap.mp ht
  obtain ⟨hopen, hlen⟩ := h t₁ ht₁
  obtain ⟨n, -, -, rfl⟩ := mem_growths_iff.mp hgrow
  refine ⟨hopen.growth hgrow, ?_⟩
  rw [Trail.nodes_snoc, List.length_append, List.length_singleton]
  omega

theorem lasts_firstTrails (hs : s.IsGathered) (hk : s.rounds ≤ k) : s.Lasts k s.firstTrails := by
  intro t ht
  refine ⟨isOpen_of_mem_firstTrails hs ht, ?_⟩
  have : s.targets.length = (s.flatMap (·.2)).length := rfl
  rw [rounds] at hk
  omega

/-- After all rounds no open path is left. -/
theorem Lasts.iterate_grow (h : s.Lasts k ts) : s.grow^[k] ts = [] := by
  induction k generalizing ts with
  | zero => exact h.eq_nil
  | succ k ih => exact ih h.grow

theorem length_flatMap_meetings (ts : List Trail) : (ts.flatMap s.meetings).length
    = ts.length + (ts.flatMap s.closings).length := by
  induction ts with
  | nil => rfl
  | cons t ts ih =>
      rw [List.flatMap_cons, List.flatMap_cons, List.length_append, List.length_append, ih,
        meetings, List.length_append, List.length_map, List.length_singleton, List.length_cons]
      omega

/-- The open paths of the rounds to come are among the paths that they meet. -/
theorem Lasts.length_le (h : s.Lasts k ts) :
    ts.length ≤ (s.overRounds (·.flatMap s.meetings) k ts).length := by
  cases k with
  | zero =>
      rw [h.eq_nil]
      exact Nat.zero_le _
  | succ k =>
      rw [overRounds, List.length_append, length_flatMap_meetings]
      omega

/-- One round of the search. -/
theorem complete_succ (k met : Nat) (t : Trail) (ts : List Trail) :
    s.complete limit (k + 1) met (t :: ts) = do
      let grown := s.grow (t :: ts)
      let met := met + ((t :: ts).flatMap s.meetings).length
      checkLimit limit (met + grown.length)
      let (laterEnds, laterClosed) ← s.complete limit k met grown
      return ((t :: ts).filter s.isEnd ++ laterEnds,
        (t :: ts).flatMap s.closings ++ laterClosed) := by
  unfold grow
  simp only [complete, length_flatMap_meetings, ← Nat.add_assoc]
  cases limit with
  | none => rfl
  | some l =>
      dsimp only [checkLimit]
      split <;> rfl

/-- **The search finds the ends and the closings of all rounds, and fails if more paths are met than
the limit allows.** -/
theorem complete_eq (limit : Option Nat) (met : Nat) (h : s.Lasts k ts) :
    (do checkLimit limit met; s.complete limit k met ts) = do
      checkLimit limit (met + (s.overRounds (·.flatMap s.meetings) k ts).length)
      return (s.overRounds (·.filter s.isEnd) k ts, s.overRounds (·.flatMap s.closings) k ts) := by
  induction k generalizing ts met with
  | zero =>
      rw [h.eq_nil]
      rfl
  | succ k ih =>
      cases ts with
      | nil =>
          rw [overRounds_nil rfl, overRounds_nil rfl, overRounds_nil rfl]
          rfl
      | cons t ts =>
          have hwaiting := h.grow.length_le
          rw [complete_succ]
          simp only [overRounds, List.length_append, ← Nat.add_assoc]
          have hle : met ≤ met + ((t :: ts).flatMap s.meetings).length := Nat.le_add_right _ _
          generalize met + ((t :: ts).flatMap s.meetings).length = met' at hle ⊢
          have hrest (f : List Trail × List Trail → List Trail × List Trail) :
              (do checkLimit limit met'; let x ← s.complete limit k met' (s.grow (t :: ts)); return f x)
                = (do checkLimit limit met'; s.complete limit k met' (s.grow (t :: ts))) >>= fun x =>
                    return f x := (bind_assoc _ _ _).symm
          rw [checkLimit_bind_of_le (by omega), ← checkLimit_bind_of_ge (Nat.le_add_right _ _), hrest,
            ih _ h.grow, bind_assoc]
          -- what waits is met in the rounds to come
          apply checkLimit_bind_of_le
          omega

/-- The search starts with no path met, which every limit allows. -/
theorem Lasts.complete_eq (h : s.Lasts k ts) : s.complete limit k 0 ts = do
    checkLimit limit (s.overRounds (·.flatMap s.meetings) k ts).length
    return (s.overRounds (·.filter s.isEnd) k ts, s.overRounds (·.flatMap s.closings) k ts) := by
  have heq := Successors.complete_eq limit 0 h
  rwa [checkLimit_zero, ok_bind, Nat.zero_add] at heq

/-! ## What is met and what is kept -/

theorem mem_meetings_iff {p : Path} : p ∈ s.meetings t ↔ p = ⟨t.nodes, false⟩ ∨
    ∃ n, n ∈ s.of t.last ∧ n ∈ t.nodes ∧ p = ⟨t.nodes ++ [n], true⟩ := by
  simp only [meetings, List.mem_append, List.mem_map, mem_closings_iff, List.mem_singleton]
  rw [or_comm]
  refine or_congr_right ⟨?_, ?_⟩
  · rintro ⟨-, ⟨n, hn, hold, rfl⟩, rfl⟩
    exact ⟨n, hn, hold, by rw [Trail.nodes_snoc]⟩
  · rintro ⟨n, hn, hold, rfl⟩
    exact ⟨t.snoc n, ⟨n, hn, hold, rfl⟩, by rw [Trail.nodes_snoc]⟩

/-- The paths met at an open path go along it and close at most once. -/
theorem body_of_mem_meetings {p : Path} (h : p ∈ s.meetings t) : p.body = t.nodes := by
  rcases mem_meetings_iff.mp h with rfl | ⟨n, -, -, rfl⟩
  · rfl
  · exact List.dropLast_concat

theorem Lasts.mem_overRounds_meetings (h : s.Lasts k ts) {p : Path} :
    p ∈ s.overRounds (·.flatMap s.meetings) k ts ↔
      ∃ t₀ ∈ ts, ∃ t, s.GrowsInto t₀ t ∧ p ∈ s.meetings t := by
  induction k generalizing ts with
  | zero =>
      rw [h.eq_nil]
      simp [overRounds]
  | succ k ih =>
      rw [overRounds, List.mem_append, List.mem_flatMap, ih h.grow]
      exact (s.exists_growsInto_round ts fun t => p ∈ s.meetings t).symm

/-- The paths met are those at the open paths of at least one arc. -/
theorem mem_met_iff (hs : s.IsGathered) {p : Path} :
    p ∈ s.met ↔ ∃ t, s.IsOpen t ∧ t.earlier ≠ [] ∧ p ∈ s.meetings t := by
  rw [met, (lasts_firstTrails hs (Nat.le_refl _)).mem_overRounds_meetings]
  constructor
  · rintro ⟨t₀, ht₀, t, hgrow, hp⟩
    obtain ⟨hopen, hne⟩ := (exists_growsInto_iff hs).mp ⟨t₀, ht₀, hgrow⟩
    exact ⟨t, hopen, hne, hp⟩
  · rintro ⟨t, hopen, hne, hp⟩
    obtain ⟨t₀, ht₀, hgrow⟩ := (exists_growsInto_iff hs).mpr ⟨hopen, hne⟩
    exact ⟨t₀, ht₀, t, hgrow, hp⟩

/-- The path is cyclic, or its last node has no successor. -/
def isMaximal (s : Successors) (p : Path) : Bool :=
  p.cyclic || p.nodes.getLast?.all fun n => (s.of n).isEmpty

theorem isMaximal_open : s.isMaximal ⟨t.nodes, false⟩ = s.isEnd t := by
  simp [isMaximal, isEnd, Trail.nodes_eq]

/-- The paths met follow the successors, and repeat no node before the last one. -/
theorem chain_of_mem_meetings (ht : s.IsOpen t) {p : Path} (h : p ∈ s.meetings t) :
    p.nodes.IsChain (fun n m => m ∈ s.of n) ∧ p.nodes.dropLast.Nodup := by
  rcases mem_meetings_iff.mp h with rfl | ⟨n, hn, -, rfl⟩
  · exact ⟨ht.chain, ht.nodup.sublist (List.dropLast_sublist _)⟩
  · refine ⟨?_, ?_⟩
    · rw [← Trail.nodes_snoc]
      exact isChain_snoc_iff.mpr ⟨ht.chain, hn⟩
    · rw [List.dropLast_concat]
      exact ht.nodup

/-- A path that is met is the beginning of another one exactly if it is open and its last node has a
successor. -/
theorem isBeginning_iff (hs : s.IsGathered) {p : Path} (hp : p ∈ s.met) :
    s.met.any p.isBeginningOf = true ↔ s.isMaximal p = false := by
  obtain ⟨t, hopen, hne, hp⟩ := (mem_met_iff hs).mp hp
  rw [List.any_eq_true]
  constructor
  · rintro ⟨q, hq, hbeg⟩
    obtain ⟨t', hopen', -, hq⟩ := (mem_met_iff hs).mp hq
    obtain ⟨hchain, hnodup⟩ := chain_of_mem_meetings hopen' hq
    obtain ⟨n, w, hw⟩ := Path.isBeginningOf_iff.mp hbeg
    rw [hw] at hchain hnodup
    rcases mem_meetings_iff.mp hp with rfl | ⟨m, -, hold, rfl⟩
    -- the other path goes on to a successor of the last node
    · have hn : n ∈ s.of t.last := by
        have hchain : (t.earlier.reverse ++ t.last :: n :: w).IsChain fun n m => m ∈ s.of n := by
          simpa [Trail.nodes_eq] using hchain
        exact (List.isChain_append_cons_cons.mp hchain).2.1
      rw [isMaximal_open, ← Bool.not_eq_true, isEnd_iff]
      exact fun hend => hend n hn
    -- and it repeats no node before its last one
    · rw [List.dropLast_append_of_ne_nil (List.cons_ne_nil n w)] at hnodup
      have hdup := (List.nodup_append.mp (List.nodup_append.mp hnodup).1).2.2
      exact absurd rfl (hdup m hold m (List.mem_singleton_self m))
  · intro hmax
    rcases mem_meetings_iff.mp hp with rfl | ⟨m, -, -, rfl⟩
    · rw [isMaximal_open, ← Bool.not_eq_true, isEnd_iff] at hmax
      push Not at hmax
      obtain ⟨n, hn⟩ := hmax
      -- the path closes at the successor, or grows by it
      by_cases hold : n ∈ t.nodes
      · refine ⟨⟨t.nodes ++ [n], true⟩, (mem_met_iff hs).mpr ⟨t, hopen, hne, ?_⟩,
          Path.isBeginningOf_iff.mpr ⟨n, [], rfl⟩⟩
        exact mem_meetings_iff.mpr (Or.inr ⟨n, hn, hold, rfl⟩)
      · have hgrow : t.snoc n ∈ s.growths t := mem_growths_iff.mpr ⟨n, hn, hold, rfl⟩
        refine ⟨⟨(t.snoc n).nodes, false⟩, (mem_met_iff hs).mpr ⟨t.snoc n, hopen.growth hgrow,
          List.cons_ne_nil _ _, mem_meetings_iff.mpr (Or.inl rfl)⟩,
          Path.isBeginningOf_iff.mpr ⟨n, [], Trail.nodes_snoc t n⟩⟩
    · cases hmax

/-! ## The order of the paths -/

theorem length_of_mem_grow {n : Nat} (h : ∀ t ∈ ts, t.nodes.length = n) :
    ∀ t ∈ s.grow ts, t.nodes.length = n + 1 := by
  intro t ht
  obtain ⟨t₁, ht₁, hgrow⟩ := List.mem_flatMap.mp ht
  obtain ⟨m, -, -, rfl⟩ := mem_growths_iff.mp hgrow
  rw [Trail.nodes_snoc, List.length_append, List.length_singleton, h t₁ ht₁]

theorem length_body_of_mem_round {n : Nat} (h : ∀ t ∈ ts, t.nodes.length = n) :
    ∀ p ∈ ts.flatMap s.meetings, p.body.length = n := by
  intro p hp
  obtain ⟨t, ht, hp⟩ := List.mem_flatMap.mp hp
  rw [body_of_mem_meetings hp, h t ht]

theorem le_length_body {n : Nat} (h : ∀ t ∈ ts, t.nodes.length = n) :
    ∀ p ∈ s.overRounds (·.flatMap s.meetings) k ts, n ≤ p.body.length := by
  induction k generalizing n ts with
  | zero => exact fun p hp => absurd hp List.not_mem_nil
  | succ k ih =>
      intro p hp
      rcases List.mem_append.mp hp with hp | hp
      · exact Nat.le_of_eq (length_body_of_mem_round h p hp).symm
      · exact Nat.le_of_succ_le (ih (length_of_mem_grow h) p hp)

/-- The rounds meet paths by the number of nodes before a closing one. -/
theorem pairwise_overRounds {n : Nat} (h : ∀ t ∈ ts, t.nodes.length = n) :
    (s.overRounds (·.flatMap s.meetings) k ts).Pairwise
      fun p q => p.body.length ≤ q.body.length := by
  induction k generalizing n ts with
  | zero => exact List.Pairwise.nil
  | succ k ih =>
      have hround := length_body_of_mem_round (s := s) h
      refine List.pairwise_append.mpr ⟨List.pairwise_of_forall_mem_list ?_,
        ih (length_of_mem_grow h), fun p hp q hq => ?_⟩
      · intro p hp q hq
        rw [hround p hp, hround q hq]
      · rw [hround p hp]
        exact Nat.le_of_succ_le (le_length_body (length_of_mem_grow h) q hq)

theorem length_of_mem_firstTrails : ∀ t ∈ s.firstTrails, t.nodes.length = 2 := by
  intro t ht
  simp only [firstTrails, List.mem_flatMap, List.mem_map] at ht
  obtain ⟨x, -, n, -, rfl⟩ := ht
  rfl

/-- Among the paths kept, those that close and those that do not are met by length. -/
theorem pairwise_kept (b : Bool) : ((s.met.filter s.isMaximal).filter (·.cyclic == b)).Pairwise
    fun p q => p.nodes.length ≤ q.nodes.length := by
  have hbody : ((s.met.filter s.isMaximal).filter (·.cyclic == b)).Pairwise
      fun p q => p.body.length ≤ q.body.length :=
    (pairwise_overRounds length_of_mem_firstTrails).sublist
      (List.filter_sublist.trans List.filter_sublist)
  refine hbody.imp_of_mem fun {p q} hp hq hle => ?_
  have hp : p.cyclic = b := by simpa using (List.mem_filter.mp hp).2
  obtain ⟨hqm, hq⟩ := List.mem_filter.mp hq
  have hq : q.cyclic = b := by simpa using hq
  cases b with
  | false =>
      rw [Path.body, Path.body, hp, hq] at hle
      exact hle
  | true =>
      have h2 := le_length_body length_of_mem_firstTrails q (List.mem_filter.mp hqm).1
      rw [Path.body, Path.body, hp, hq, if_pos rfl, if_pos rfl, List.length_dropLast,
        List.length_dropLast] at hle
      rw [Path.body, hq, if_pos rfl, List.length_dropLast] at h2
      omega

/-- The paths kept that do not close are the ends of all rounds. -/
theorem kept_open : (s.met.filter s.isMaximal).filter (·.cyclic == false)
    = (s.overRounds (·.filter s.isEnd) s.rounds s.firstTrails).map fun t => ⟨t.nodes, false⟩ := by
  rw [met, filter_overRounds, filter_overRounds, map_overRounds]
  congr 1
  funext ts
  induction ts with
  | nil => rfl
  | cons t ts ih =>
      rw [List.flatMap_cons, List.filter_append, List.filter_append, ih, List.filter_cons]
      have hclosed : ((s.closings t).map fun t' => (⟨t'.nodes, true⟩ : Path)).filter
          (fun p => p.cyclic == false && s.isMaximal p) = [] := by
        refine List.filter_eq_nil_iff.mpr fun p hp => ?_
        obtain ⟨t', -, rfl⟩ := List.mem_map.mp hp
        simp
      rw [List.filter_filter, meetings, List.filter_append, hclosed, List.nil_append,
        List.filter_singleton, isMaximal_open]
      cases s.isEnd t <;> rfl

/-- The paths kept that close are the closings of all rounds. -/
theorem kept_closed : (s.met.filter s.isMaximal).filter (·.cyclic == true)
    = (s.overRounds (·.flatMap s.closings) s.rounds s.firstTrails).map
      fun t => ⟨t.nodes, true⟩ := by
  rw [met, filter_overRounds, filter_overRounds, map_overRounds]
  congr 1
  funext ts
  induction ts with
  | nil => rfl
  | cons t ts ih =>
      rw [List.flatMap_cons, List.filter_append, List.filter_append, ih, List.flatMap_cons,
        List.map_append]
      have hclosed : ((s.closings t).map fun t' => (⟨t'.nodes, true⟩ : Path)).filter
          (fun p => p.cyclic == true && s.isMaximal p)
            = (s.closings t).map fun t' => (⟨t'.nodes, true⟩ : Path) := by
        refine List.filter_eq_self.mpr fun p hp => ?_
        obtain ⟨t', -, rfl⟩ := List.mem_map.mp hp
        rfl
      rw [List.filter_filter, meetings, List.filter_append, hclosed, List.filter_singleton]
      simp

/-- **The enumerated paths are the longest of all paths met**; it fails exactly if more paths are
met than the limit allows. -/
theorem maximalPaths_eq (hs : s.IsGathered) (limit : Option Nat) : s.maximalPaths limit = do
    checkLimit limit s.met.length
    return longest s.met := by
  have hkeep : s.met.filter (fun p => !s.met.any p.isBeginningOf) = s.met.filter s.isMaximal := by
    refine List.filter_congr fun p hp => ?_
    have := isBeginning_iff hs hp
    cases hmax : s.isMaximal p <;> simp_all
  have hlongest : longest s.met
      = (s.overRounds (·.filter s.isEnd) s.rounds s.firstTrails).map (fun t => ⟨t.nodes, false⟩)
        ++ (s.overRounds (·.flatMap s.closings) s.rounds s.firstTrails).map
          fun t => ⟨t.nodes, true⟩ := by
    rw [longest, hkeep, mergeSort_precedes pairwise_kept, kept_open, kept_closed]
  have hcomplete : s.complete limit s.rounds 0 s.firstTrails = do
      checkLimit limit s.met.length
      return (s.overRounds (·.filter s.isEnd) s.rounds s.firstTrails,
        s.overRounds (·.flatMap s.closings) s.rounds s.firstTrails) :=
    (lasts_firstTrails hs (Nat.le_refl _)).complete_eq
  rw [maximalPaths, hcomplete, hlongest]
  cases checkLimit limit s.met.length <;> rfl

end Successors

end RoutePolicy
