import RoutePolicy.PathSet
import RoutePolicy.Proofs.StepGraph
import RoutePolicy.Proofs.Walk

set_option autoImplicit false

/-! # The path set holds the maximal paths of the used arcs

An arc is used when it is at a transition that fires in the step graph (`StepGraph.Uses`). The
enumeration by rounds finds every simple walk, so a path set that was made without meeting a limit
holds exactly the maximal paths along used arcs of at least one arc
(`PathSet.mem_startingAt_iff`), and a node at which no path starts is stuck
(`PathSet.startingAt_eq_nil_iff`). -/

namespace RoutePolicy

/-! ## Gathering -/

section

variable {α β : Type} [DecidableEq α]

theorem mem_gather_iff {l : List (α × β)} {a : α} {bs : List β} : (a, bs) ∈ gather l ↔
    a ∈ l.map (·.1) ∧ bs = (l.filter fun x => x.1 = a).map (·.2) := by
  rw [gather, List.mem_map]
  simp only [List.mem_eraseDups, Prod.mk.injEq]
  constructor
  · rintro ⟨b, hb, rfl, rfl⟩
    exact ⟨hb, rfl⟩
  · rintro ⟨ha, rfl⟩
    exact ⟨a, ha, rfl, rfl⟩

/-- Under each key there are the values that came with it. -/
theorem gathered_gather (l : List (α × β)) (a : α) :
    gathered (gather l) a = (l.filter fun x => x.1 = a).map (·.2) := by
  unfold gathered
  cases hfind : (gather l).find? fun x => x.1 = a with
  | none =>
      have hno : ∀ x ∈ l, ¬x.1 = a := by
        rintro x hx rfl
        have := List.find?_eq_none.mp hfind _
          (mem_gather_iff.mpr ⟨List.mem_map_of_mem (f := (·.1)) hx, rfl⟩)
        simp at this
      rw [List.filter_eq_nil_iff.mpr fun x hx => by simpa using hno x hx]
      rfl
  | some x =>
      obtain ⟨b, bs⟩ := x
      obtain rfl : b = a := by simpa using List.find?_some hfind
      exact (mem_gather_iff.mp (List.mem_of_find?_eq_some hfind)).2

theorem mem_gathered_gather {l : List (α × β)} {a : α} {b : β} :
    b ∈ gathered (gather l) a ↔ (a, b) ∈ l := by
  rw [gathered_gather, List.mem_map]
  constructor
  · rintro ⟨⟨a', b'⟩, hx, rfl⟩
    obtain ⟨hmem, ha⟩ := List.mem_filter.mp hx
    obtain rfl : a' = a := by simpa using ha
    exact hmem
  · intro h
    exact ⟨(a, b), List.mem_filter.mpr ⟨h, by simp⟩, rfl⟩

/-- A value stands under its key in the entry of the key. -/
theorem mem_gathered_iff_exists {l : List (α × β)} {a : α} {b : β} :
    b ∈ gathered (gather l) a ↔ ∃ bs, (a, bs) ∈ gather l ∧ b ∈ bs := by
  rw [gathered_gather]
  constructor
  · intro h
    obtain ⟨x, hx, -⟩ := List.mem_map.mp h
    obtain ⟨hx, ha⟩ := List.mem_filter.mp hx
    have ha : x.1 = a := by simpa using ha
    exact ⟨_, mem_gather_iff.mpr ⟨ha ▸ List.mem_map_of_mem (f := (·.1)) hx, rfl⟩, h⟩
  · rintro ⟨bs, hbs, hb⟩
    exact (mem_gather_iff.mp hbs).2 ▸ hb

end

/-! ## Used arcs -/

namespace StepGraph

/-- An arc of the net leads from one node to the other, and one of them is a transition that fires
somewhere in the step graph. -/
def Uses (g : StepGraph) (n m : Node) : Prop :=
  ⟨n, m⟩ ∈ g.net.arcs.toList ∧ ∃ v ∈ g.moves.toList, v.transition.node = n ∨ v.transition.node = m

theorem mem_successors_iff {g : StepGraph} {n m : Node} : m ∈ g.successors.of n ↔ g.Uses n m := by
  have hat (k : Node) : (k.transition?.any fun t => g.fired.contains t) = true ↔
      ∃ v ∈ g.moves.toList, v.transition.node = k := by
    rw [Option.any_eq_true]
    simp only [Node.transition?, Node.handle?_eq_some_iff, List.contains_iff_mem, mem_fired_iff]
    constructor
    · rintro ⟨t, rfl, v, hv, rfl⟩
      exact ⟨v, hv, rfl⟩
    · rintro ⟨v, hv, rfl⟩
      exact ⟨v.transition, rfl, v, hv, rfl⟩
  rw [Successors.of, successors, mem_gathered_gather, List.mem_map]
  simp only [usedArcs, List.mem_filter, Arc.isAtOneOf, List.any_cons, List.any_nil, Bool.or_false,
    Bool.or_eq_true, hat, Prod.mk.injEq]
  constructor
  · rintro ⟨⟨n, m⟩, ⟨harc, hused⟩, rfl, rfl⟩
    refine ⟨harc, ?_⟩
    rcases hused with ⟨v, hv, h⟩ | ⟨v, hv, h⟩
    · exact ⟨v, hv, Or.inl h⟩
    · exact ⟨v, hv, Or.inr h⟩
  · rintro ⟨harc, v, hv, h⟩
    exact ⟨⟨n, m⟩, ⟨harc, h.imp (fun h => ⟨v, hv, h⟩) fun h => ⟨v, hv, h⟩⟩, rfl, rfl⟩

end StepGraph

/-! ## Growing trails -/

@[simp] theorem Trail.nodes_snoc (t : Trail) (n : Node) : (t.snoc n).nodes = t.nodes ++ [n] := by
  simp [Trail.nodes, Trail.snoc]

theorem Trail.nodes_eq (t : Trail) : t.nodes = t.earlier.reverse ++ [t.last] := by
  simp [Trail.nodes]

theorem Trail.visits_iff {t : Trail} {n : Node} : t.visits n = true ↔ n ∈ t.nodes := by
  simp [Trail.visits, Trail.nodes, or_comm]

namespace Successors

variable {s : Successors} {t t' : Trail}

theorem mem_growths_iff : t' ∈ s.growths t ↔
    ∃ n, n ∈ s.of t.last ∧ n ∉ t.nodes ∧ t' = t.snoc n := by
  simp only [growths, List.mem_map, List.mem_filter, Bool.not_eq_true', ← Bool.not_eq_true,
    Trail.visits_iff, and_assoc]
  exact exists_congr fun n => and_congr_right fun _ => and_congr_right fun _ => eq_comm

theorem mem_closings_iff : t' ∈ s.closings t ↔
    ∃ n, n ∈ s.of t.last ∧ n ∈ t.nodes ∧ t' = t.snoc n := by
  simp only [closings, List.mem_map, List.mem_filter, Trail.visits_iff, and_assoc]
  exact exists_congr fun n => and_congr_right fun _ => and_congr_right fun _ => eq_comm

/-- All nodes that some node leads to. -/
def targets (s : Successors) : List Node := s.flatMap (·.2)

theorem mem_targets {n m : Node} (h : m ∈ s.of n) : m ∈ s.targets := by
  unfold of gathered at h
  split at h
  · rename_i x hx
    exact List.mem_flatMap.mpr ⟨x, List.mem_of_find?_eq_some hx, h⟩
  · exact absurd h List.not_mem_nil

/-- A trail that repeats no node and follows the successors. -/
structure IsOpen (s : Successors) (t : Trail) : Prop where
  chain : t.nodes.IsChain fun n m => m ∈ s.of n
  nodup : t.nodes.Nodup

theorem IsOpen.length_le (h : s.IsOpen t) : t.nodes.length ≤ s.targets.length + 1 :=
  length_le_of_nodup (fun _ _ => mem_targets) h.chain h.nodup

theorem isChain_snoc_iff {n : Node} : (t.snoc n).nodes.IsChain (fun n m => m ∈ s.of n) ↔
    t.nodes.IsChain (fun n m => m ∈ s.of n) ∧ n ∈ s.of t.last := by
  rw [Trail.nodes_snoc, List.isChain_append]
  simp [Trail.nodes_eq]

theorem IsOpen.growth (h : s.IsOpen t) (ht : t' ∈ s.growths t) : s.IsOpen t' := by
  obtain ⟨n, hn, hnew, rfl⟩ := mem_growths_iff.mp ht
  refine ⟨isChain_snoc_iff.mpr ⟨h.chain, hn⟩, ?_⟩
  rw [Trail.nodes_snoc, List.nodup_append]
  exact ⟨h.nodup, List.nodup_singleton n, fun x hx y hy hxy =>
    hnew (List.mem_singleton.mp hy ▸ hxy ▸ hx)⟩

/-- One trail grows into another, node by node. -/
def GrowsInto (s : Successors) : Trail → Trail → Prop :=
  Relation.ReflTransGen fun t t' => t' ∈ s.growths t

/-- One round: the ends and the closings of the open trails, and what later rounds find. -/
theorem complete_cons {limit : Option Nat} {fuel met : Nat} {ts ends closed : List Trail}
    (h : s.complete limit (fuel + 1) met (t :: ts) = .ok (ends, closed)) :
    ∃ met' laterEnds laterClosed,
      s.complete limit fuel met' ((t :: ts).flatMap s.growths) = .ok (laterEnds, laterClosed) ∧
      ends = (t :: ts).filter s.isEnd ++ laterEnds ∧
      closed = (t :: ts).flatMap s.closings ++ laterClosed := by
  -- what a round adds, once the trails met so far are within the limit
  have hgo {met' : Nat} (h : (s.complete limit fuel met' ((t :: ts).flatMap s.growths) >>= fun later =>
      pure ((t :: ts).filter s.isEnd ++ later.1, (t :: ts).flatMap s.closings ++ later.2))
        = Except.ok (ends, closed)) :
      ∃ met' laterEnds laterClosed,
        s.complete limit fuel met' ((t :: ts).flatMap s.growths) = .ok (laterEnds, laterClosed) ∧
        ends = (t :: ts).filter s.isEnd ++ laterEnds ∧
        closed = (t :: ts).flatMap s.closings ++ laterClosed := by
    obtain ⟨⟨laterEnds, laterClosed⟩, hlater, h⟩ := bind_eq_ok_iff.mp h
    cases h
    exact ⟨met', laterEnds, laterClosed, hlater, rfl, rfl⟩
  simp only [complete] at h
  split at h
  · split at h
    · cases h
    · exact hgo h
  · exact hgo h

/-- What the open trails grow into: one of them, or what a growth of one of them grows into. -/
theorem exists_growsInto_round (ts : List Trail) (P : Trail → Prop) :
    (∃ t₀ ∈ ts, ∃ t, s.GrowsInto t₀ t ∧ P t) ↔
      (∃ t ∈ ts, P t) ∨ ∃ t₀ ∈ ts.flatMap s.growths, ∃ t, s.GrowsInto t₀ t ∧ P t := by
  constructor
  · rintro ⟨t₀, ht₀, t, hgrow, hP⟩
    rcases Relation.ReflTransGen.cases_head hgrow with rfl | ⟨t₁, hfirst, hgrow⟩
    · exact Or.inl ⟨t₀, ht₀, hP⟩
    · exact Or.inr ⟨t₁, List.mem_flatMap.mpr ⟨t₀, ht₀, hfirst⟩, t, hgrow, hP⟩
  · rintro (⟨t, ht, hP⟩ | ⟨t₁, ht₁, t, hgrow, hP⟩)
    · exact ⟨t, ht, t, .refl, hP⟩
    · obtain ⟨t₀, ht₀, hfirst⟩ := List.mem_flatMap.mp ht₁
      exact ⟨t₀, ht₀, t, .head hfirst hgrow, hP⟩

/-- The rounds find what the open trails grow into: the ends among them, and their closings. -/
theorem mem_complete {limit : Option Nat} {fuel met : Nat} {openTrails ends closed : List Trail}
    (hopen : ∀ t ∈ openTrails, s.IsOpen t ∧ s.targets.length + 1 < t.nodes.length + fuel)
    (h : s.complete limit fuel met openTrails = .ok (ends, closed)) :
    (∀ t, t ∈ ends ↔ ∃ t₀ ∈ openTrails, s.GrowsInto t₀ t ∧ s.isEnd t = true) ∧
    ∀ t, t ∈ closed ↔ ∃ t₀ ∈ openTrails, ∃ t₁, s.GrowsInto t₀ t₁ ∧ t ∈ s.closings t₁ := by
  induction fuel generalizing met openTrails ends closed with
  | zero =>
      -- an open trail without fuel would repeat a node
      obtain rfl : openTrails = [] := List.eq_nil_iff_forall_not_mem.mpr fun t ht => by
        obtain ⟨hlt, hlen⟩ := hopen t ht
        have := hlt.length_le
        omega
      cases h
      simp
  | succ fuel ih =>
      cases openTrails with
      | nil =>
          cases h
          simp
      | cons t₀ ts =>
          obtain ⟨met', laterEnds, laterClosed, hlater, rfl, rfl⟩ := complete_cons h
          obtain ⟨hends, hclosed⟩ := ih (fun t ht => by
            obtain ⟨t₁, ht₁, hgrow⟩ := List.mem_flatMap.mp ht
            obtain ⟨hopen₁, hlen⟩ := hopen t₁ ht₁
            obtain ⟨n, -, -, rfl⟩ := mem_growths_iff.mp hgrow
            refine ⟨hopen₁.growth hgrow, ?_⟩
            rw [Trail.nodes_snoc, List.length_append, List.length_singleton]
            omega) hlater
          refine ⟨fun t => ?_, fun t => ?_⟩
          · have hround := s.exists_growsInto_round (t₀ :: ts) fun t' => t' = t ∧ s.isEnd t = true
            simp only [↓existsAndEq, true_and] at hround
            rw [List.mem_append, List.mem_filter, hends]
            exact hround.symm
          · rw [List.mem_append, List.mem_flatMap, hclosed]
            exact (s.exists_growsInto_round (t₀ :: ts) fun t₁ => t ∈ s.closings t₁).symm

/-! ## All trails

The successors come from gathered arcs, none of which leads from a node to itself. -/

/-- A successor of a node stands in its entry, and none is the node itself. -/
structure IsGathered (s : Successors) : Prop where
  entry : ∀ {n m : Node}, m ∈ s.of n ↔ ∃ ms, (n, ms) ∈ s ∧ m ∈ ms
  ne : ∀ {n m : Node}, m ∈ s.of n → n ≠ m

theorem mem_firstTrails_iff (hs : s.IsGathered) : t ∈ s.firstTrails ↔
    ∃ n, t.earlier = [n] ∧ t.last ∈ s.of n := by
  obtain ⟨last, earlier⟩ := t
  simp only [firstTrails, List.mem_flatMap, List.mem_map, Trail.mk.injEq, hs.entry, Prod.exists]
  constructor
  · rintro ⟨n, ms, hms, m, hm, rfl, rfl⟩
    exact ⟨n, rfl, ms, hms, hm⟩
  · rintro ⟨n, rfl, ms, hms, hm⟩
    exact ⟨n, ms, hms, last, hm, rfl, rfl⟩

theorem isOpen_of_mem_firstTrails (hs : s.IsGathered) (ht : t ∈ s.firstTrails) : s.IsOpen t := by
  obtain ⟨n, hn, hlast⟩ := (mem_firstTrails_iff hs).mp ht
  have hnodes : t.nodes = [n, t.last] := by rw [Trail.nodes_eq, hn]; rfl
  refine ⟨?_, ?_⟩
  · rw [hnodes]
    exact List.isChain_pair.mpr hlast
  · rw [hnodes]
    simpa using hs.ne hlast

theorem GrowsInto.isOpen (h : s.GrowsInto t t') (ht : s.IsOpen t) : s.IsOpen t' := by
  induction h with
  | refl => exact ht
  | tail _ hgrow ih => exact ih.growth hgrow

/-- The open trails are those that the single arcs grow into. -/
theorem exists_growsInto_iff (hs : s.IsGathered) :
    (∃ t₀ ∈ s.firstTrails, s.GrowsInto t₀ t) ↔ s.IsOpen t ∧ t.earlier ≠ [] := by
  constructor
  · rintro ⟨t₀, ht₀, hgrow⟩
    refine ⟨hgrow.isOpen (isOpen_of_mem_firstTrails hs ht₀), ?_⟩
    cases hgrow with
    | refl =>
        obtain ⟨n, hn, -⟩ := (mem_firstTrails_iff hs).mp ht₀
        simp [hn]
    | tail _ hlast =>
        obtain ⟨n, -, -, rfl⟩ := mem_growths_iff.mp hlast
        simp [Trail.snoc]
  · rintro ⟨ht, hne⟩
    obtain ⟨last, earlier⟩ := t
    induction earlier generalizing last with
    | nil => exact absurd rfl hne
    | cons n earlier ih =>
        have hsnoc : (⟨last, n :: earlier⟩ : Trail) = (⟨n, earlier⟩ : Trail).snoc last := rfl
        obtain ⟨hchain, hlast⟩ := isChain_snoc_iff.mp (hsnoc ▸ ht.chain)
        have hnodup := ht.nodup
        rw [hsnoc, Trail.nodes_snoc] at hnodup
        -- the first arc of the trail, or one that a shorter trail grows by
        by_cases hearlier : earlier = []
        · subst hearlier
          exact ⟨_, (mem_firstTrails_iff hs).mpr ⟨n, rfl, hlast⟩, .refl⟩
        · obtain ⟨t₀, ht₀, hgrow⟩ := ih n ⟨hchain, (List.nodup_append.mp hnodup).1⟩ hearlier
          refine ⟨t₀, ht₀, hgrow.tail (mem_growths_iff.mpr ⟨last, hlast, fun hmem => ?_, hsnoc⟩)⟩
          exact (List.nodup_append.mp hnodup).2.2 last hmem last (List.mem_singleton_self last) rfl

theorem isEnd_iff : s.isEnd t = true ↔ ∀ m, m ∉ s.of t.last := by
  rw [isEnd, List.isEmpty_iff, List.eq_nil_iff_forall_not_mem]

/-- A list of at least two nodes is that of a trail with a node before the last one. -/
theorem exists_trail {w : List Node} (hw : 2 ≤ w.length) :
    ∃ t : Trail, t.nodes = w ∧ t.earlier ≠ [] := by
  rcases List.eq_nil_or_concat w with rfl | ⟨p, x, rfl⟩
  · exact absurd hw (by simp)
  · refine ⟨⟨x, p.reverse⟩, by simp [Trail.nodes], fun h => ?_⟩
    rw [List.reverse_eq_nil_iff.mp h] at hw
    simp at hw

theorem two_le_length_nodes (ht : t.earlier ≠ []) : 2 ≤ t.nodes.length := by
  have := List.length_pos_of_ne_nil ht
  rw [Trail.nodes_eq, List.length_append, List.length_reverse, List.length_singleton]
  omega

/-- The trails that end are the stuck paths. -/
theorem isStuck_iff : IsStuck (fun n m => m ∈ s.of n) t.nodes ↔
    t.nodes.Nodup ∧ s.isEnd t = true := by
  rw [isEnd_iff]
  constructor
  · rintro ⟨p, x, hpx, hnd, hx⟩
    obtain rfl : t.last = x := by
      rw [Trail.nodes_eq] at hpx
      exact (List.append_inj' hpx rfl).2 |> List.singleton_inj.mp
    exact ⟨hpx ▸ hnd, hx⟩
  · rintro ⟨hnd, hend⟩
    exact ⟨t.earlier.reverse, t.last, Trail.nodes_eq t, Trail.nodes_eq t ▸ hnd, hend⟩

theorem isClosed_snoc_iff {n : Node} :
    IsClosed (t.snoc n).nodes ↔ t.nodes.Nodup ∧ n ∈ t.nodes := by
  rw [Trail.nodes_snoc]
  constructor
  · rintro ⟨p, x, hpx, hnd, hx⟩
    obtain ⟨rfl, hnx⟩ := List.append_inj' hpx rfl
    obtain rfl := List.singleton_inj.mp hnx
    exact ⟨hnd, hx⟩
  · rintro ⟨hnd, hn⟩
    exact ⟨t.nodes, n, rfl, hnd, hn⟩

/-- **The enumerated paths are the maximal paths of at least one arc.** -/
theorem mem_maximalPaths_iff (hs : s.IsGathered) {limit : Option Nat} {paths : List Path}
    (h : s.maximalPaths limit = .ok paths) {p : Path} : p ∈ paths ↔
      p.nodes.IsChain (fun n m => m ∈ s.of n) ∧ 2 ≤ p.nodes.length ∧
        if p.cyclic then IsClosed p.nodes else IsStuck (fun n m => m ∈ s.of n) p.nodes := by
  obtain ⟨⟨ends, closed⟩, hcomplete, h⟩ := bind_eq_ok_iff.mp h
  cases h
  obtain ⟨hends, hclosed⟩ := mem_complete (fun t ht => by
    refine ⟨isOpen_of_mem_firstTrails hs ht, ?_⟩
    have : s.targets.length = (s.flatMap (·.2)).length := rfl
    rw [rounds]
    omega) hcomplete
  obtain ⟨w, cyclic⟩ := p
  rw [List.mem_append, List.mem_map, List.mem_map]
  simp only [Path.mk.injEq]
  cases cyclic with
  | false =>
      simp only [reduceCtorEq, and_false, exists_false, or_false, and_true, Bool.false_eq_true,
        if_false]
      constructor
      · rintro ⟨t, ht, rfl⟩
        obtain ⟨t₀, ht₀, hgrow, hend⟩ := (hends t).mp ht
        obtain ⟨hopen, hne⟩ := (exists_growsInto_iff hs).mp ⟨t₀, ht₀, hgrow⟩
        exact ⟨hopen.chain, two_le_length_nodes hne, isStuck_iff.mpr ⟨hopen.nodup, hend⟩⟩
      · rintro ⟨hchain, hlen, hstuck⟩
        obtain ⟨t, rfl, hne⟩ := exists_trail hlen
        obtain ⟨hnd, hend⟩ := isStuck_iff.mp hstuck
        obtain ⟨t₀, ht₀, hgrow⟩ := (exists_growsInto_iff hs).mpr ⟨⟨hchain, hnd⟩, hne⟩
        exact ⟨t, (hends t).mpr ⟨t₀, ht₀, hgrow, hend⟩, rfl⟩
  | true =>
      simp only [reduceCtorEq, and_false, exists_false, false_or, and_true, if_true]
      constructor
      · rintro ⟨t, ht, rfl⟩
        obtain ⟨t₀, ht₀, t₁, hgrow, hclose⟩ := (hclosed t).mp ht
        obtain ⟨hopen, hne⟩ := (exists_growsInto_iff hs).mp ⟨t₀, ht₀, hgrow⟩
        obtain ⟨n, hn, hold, rfl⟩ := mem_closings_iff.mp hclose
        exact ⟨isChain_snoc_iff.mpr ⟨hopen.chain, hn⟩, two_le_length_nodes (by simp [Trail.snoc]),
          isClosed_snoc_iff.mpr ⟨hopen.nodup, hold⟩⟩
      · rintro ⟨hchain, hlen, hclose⟩
        obtain ⟨⟨n, earlier⟩, rfl, hne⟩ := exists_trail hlen
        obtain ⟨y, earlier, rfl⟩ := List.exists_cons_of_ne_nil hne
        have hsnoc : (⟨n, y :: earlier⟩ : Trail) = (⟨y, earlier⟩ : Trail).snoc n := rfl
        rw [hsnoc] at hchain hclose
        obtain ⟨hchain, hn⟩ := isChain_snoc_iff.mp hchain
        obtain ⟨hnd, hold⟩ := isClosed_snoc_iff.mp hclose
        -- a node that leads to itself would close a path of one node
        have hearlier : earlier ≠ [] := by
          rintro rfl
          exact hs.ne hn (List.mem_singleton.mp hold).symm
        obtain ⟨t₀, ht₀, hgrow⟩ :=
          (exists_growsInto_iff (t := ⟨y, earlier⟩) hs).mpr ⟨⟨hchain, hnd⟩, hearlier⟩
        exact ⟨_, (hclosed _).mpr ⟨t₀, ht₀, _, hgrow, mem_closings_iff.mpr ⟨n, hn, hold, rfl⟩⟩,
          rfl⟩

end Successors

/-! ## Path sets -/

variable {g : StepGraph} {limit : Option Nat} {s : PathSet} {n m : Node} {w : List Node}

theorem StepGraph.Uses.mem_targets (h : g.Uses n m) : m ∈ g.net.arcs.toList.map (·.target) :=
  List.mem_map_of_mem (f := (·.target)) h.1

/-- The successors of a well-formed net are gathered from arcs between different nodes. -/
theorem StepGraph.isGathered_successors (hg : g.net.WellFormed) : g.successors.IsGathered where
  entry := mem_gathered_iff_exists
  ne := fun hm hnm =>
    hg.kinds _ (StepGraph.mem_successors_iff.mp hm).1 (congrArg Node.kind hnm)

namespace PathSet

theorem eq_of_pathSet (hs : g.pathSet limit = .ok s) : s.net = g.net ∧
    s.successors = g.successors ∧ g.successors.maximalPaths limit = .ok s.paths ∧
      s.byStart = gather (s.paths.filterMap fun p => p.nodes.head?.map (·, p)) := by
  obtain ⟨paths, hpaths, h⟩ := bind_eq_ok_iff.mp hs
  cases h
  exact ⟨rfl, rfl, hpaths, rfl⟩

/-- The nodes that used arcs of a node lead to, of one kind. -/
theorem mem_next_iff {j k : Kind} (hs : g.pathSet limit = .ok s) {h : Handle j} {x : Handle k} :
    x ∈ s.next k h ↔ g.Uses h.node x.node := by
  rw [next, (eq_of_pathSet hs).2.1, List.mem_filterMap]
  simp only [Node.handle?_eq_some_iff, StepGraph.mem_successors_iff]
  exact ⟨fun ⟨n, hn, hx⟩ => hx ▸ hn, fun h => ⟨_, h, rfl⟩⟩

/-- **The paths that start at a node are its maximal paths of at least one arc.** -/
theorem mem_startingAt_iff (hg : g.net.WellFormed) (hs : g.pathSet limit = .ok s) {p : Path} :
    p ∈ s.startingAt n ↔ IsWalk g.Uses n p.nodes ∧ 2 ≤ p.nodes.length ∧
      if p.cyclic then IsClosed p.nodes else IsStuck g.Uses p.nodes := by
  obtain ⟨-, -, hpaths, hstart⟩ := eq_of_pathSet hs
  have hmem := Successors.mem_maximalPaths_iff (StepGraph.isGathered_successors hg) hpaths (p := p)
  simp only [StepGraph.mem_successors_iff] at hmem
  rw [startingAt, hstart, mem_gathered_gather, List.mem_filterMap]
  constructor
  · rintro ⟨q, hq, hhead⟩
    obtain ⟨n', hn', heq⟩ := Option.map_eq_some_iff.mp hhead
    cases heq
    obtain ⟨hchain, hlen, hmax⟩ := hmem.mp hq
    exact ⟨⟨hn', hchain⟩, hlen, hmax⟩
  · rintro ⟨hwalk, hlen, hmax⟩
    exact ⟨p, hmem.mpr ⟨hwalk.chain, hlen, hmax⟩, by rw [hwalk.start]; rfl⟩

theorem exists_startingAt_iff (hg : g.net.WellFormed) (hs : g.pathSet limit = .ok s) :
    (∃ p ∈ s.startingAt n, p.nodes = w) ↔ IsMaximalPath g.Uses n w ∧ 2 ≤ w.length := by
  simp only [mem_startingAt_iff hg hs]
  constructor
  · rintro ⟨⟨w, cyclic⟩, ⟨hwalk, hlen, hmax⟩, rfl⟩
    refine ⟨⟨hwalk, ?_⟩, hlen⟩
    cases cyclic with
    | false => exact Or.inl hmax
    | true => exact Or.inr hmax
  · rintro ⟨⟨hwalk, hstuck | hclosed⟩, hlen⟩
    · exact ⟨⟨w, false⟩, ⟨hwalk, hlen, hstuck⟩, rfl⟩
    · exact ⟨⟨w, true⟩, ⟨hwalk, hlen, hclosed⟩, rfl⟩

/-- A maximal path without an arc is a node that leads nowhere. -/
theorem isMaximalPath_short_iff : IsMaximalPath g.Uses n w ∧ w.length < 2 ↔
    (∀ m, ¬g.Uses n m) ∧ w = [n] := by
  constructor
  · rintro ⟨⟨hwalk, hmax⟩, hlen⟩
    -- a path of one node cannot close
    obtain ⟨n', rfl⟩ : ∃ n', w = [n'] :=
      List.length_eq_one_iff.mp (by have := List.length_pos_of_ne_nil hwalk.ne_nil; omega)
    obtain rfl : n' = n := by simpa using hwalk.start
    rcases hmax with ⟨p, x, hpx, -, hx⟩ | ⟨p, x, hpx, -, hx⟩
    · obtain ⟨rfl, hnx⟩ := List.append_inj' (show [] ++ [n'] = p ++ [x] from hpx) rfl
      exact ⟨List.singleton_inj.mp hnx ▸ hx, rfl⟩
    · obtain ⟨rfl, -⟩ := List.append_inj' (show [] ++ [n'] = p ++ [x] from hpx) rfl
      exact absurd hx List.not_mem_nil
  · rintro ⟨hstuck, rfl⟩
    exact ⟨⟨.singleton g.Uses n, Or.inl ⟨[], n, rfl, List.nodup_singleton n, hstuck⟩⟩, by simp⟩

/-- No path starts at a node exactly if no used arc leaves it. -/
theorem startingAt_eq_nil_iff (hg : g.net.WellFormed) (hs : g.pathSet limit = .ok s) :
    s.startingAt n = [] ↔ ∀ m, ¬g.Uses n m := by
  constructor
  · intro hnil
    obtain ⟨q, hmax⟩ := exists_maximalPath_extension (fun _ _ => StepGraph.Uses.mem_targets)
      (w := []) (.singleton g.Uses n) (List.nodup_singleton n)
    -- the maximal path from the node has no arc, since none of the paths starts there
    have hshort : ([] ++ [n] ++ q).length < 2 := by
      by_contra hlen
      obtain ⟨p, hp, -⟩ := (exists_startingAt_iff hg hs).mpr ⟨hmax, Nat.le_of_not_lt hlen⟩
      rw [hnil] at hp
      exact absurd hp List.not_mem_nil
    exact (isMaximalPath_short_iff.mp ⟨hmax, hshort⟩).1
  · intro hstuck
    refine List.eq_nil_iff_forall_not_mem.mpr fun p hp => ?_
    obtain ⟨hwalk, hlen, -⟩ := (mem_startingAt_iff hg hs).mp hp
    -- the second node of a path would be a way out
    match p.nodes, hwalk, hlen with
    | x :: y :: _, hwalk, _ =>
        obtain rfl : x = n := by simpa using hwalk.start
        exact hstuck y (List.isChain_cons_cons.mp hwalk.chain).1

end PathSet

end RoutePolicy
