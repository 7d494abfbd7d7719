import RoutePolicy.Proofs.Enumeration
import RoutePolicy.Proofs.Survey

set_option autoImplicit false

/-! # A path set is the set of the maximal paths

A path set holds every maximal path along used arcs once, in order, and no other path
(`PathSet.IsComplete`), and it is found after finitely many rounds (`maximal_paths`). A path is met
twice only if two arcs lead from one node to the same node. -/

namespace RoutePolicy

/-! ## No path is met twice -/

/-- No node has two entries, and no entry lists a node twice. -/
structure Successors.IsSimple (s : Successors) : Prop where
  keys : (s.map (·.1)).Nodup
  targets : ∀ x ∈ s, x.2.Nodup

theorem isSimple_gather {l : List (Node × Node)} (hl : l.Nodup) :
    Successors.IsSimple (gather l) := by
  refine ⟨?_, fun x hx => ?_⟩
  · have hkeys : (gather l).map (·.1) = (l.map (·.1)).eraseDups := by
      rw [gather, List.map_map]
      exact List.map_id _
    rw [hkeys]
    exact nodup_eraseDups _
  · obtain ⟨n, ms⟩ := x
    obtain ⟨-, rfl⟩ := mem_gather_iff.mp hx
    -- arcs that leave the same node differ in the nodes they lead to
    refine List.Nodup.map_on (fun x hx y hy hxy => ?_) (hl.filter _)
    have hx := (List.mem_filter.mp hx).2
    have hy := (List.mem_filter.mp hy).2
    rw [decide_eq_true_eq] at hx hy
    exact Prod.ext (hx.trans hy.symm) hxy

theorem StepGraph.isSimple_successors {g : StepGraph} (h : g.net.arcs.toList.Nodup) :
    g.successors.IsSimple := by
  refine isSimple_gather (List.Nodup.map (fun a b hab => ?_) (h.filter _))
  obtain ⟨hsource, htarget⟩ := Prod.mk.inj hab
  cases a
  cases b
  cases hsource
  cases htarget
  rfl

theorem Trail.nodes_inj {t t' : Trail} : t.nodes = t'.nodes ↔ t = t' := by
  refine ⟨fun h => ?_, fun h => h ▸ rfl⟩
  obtain ⟨last, earlier⟩ := t
  obtain ⟨last', earlier'⟩ := t'
  obtain ⟨rfl, rfl⟩ := List.cons.inj (List.reverse_injective h)
  rfl

theorem Trail.snoc_inj {t t' : Trail} {n n' : Node} : t.snoc n = t'.snoc n' ↔ t = t' ∧ n = n' := by
  rw [← nodes_inj, nodes_snoc, nodes_snoc, List.append_singleton_inj, nodes_inj]

namespace Successors

variable {s : Successors} {t : Trail} {ts : List Trail} {k : Nat}

theorem IsSimple.nodup_of (hs : s.IsSimple) (n : Node) : (s.of n).Nodup := by
  unfold of gathered
  split
  · rename_i x hx
    exact hs.targets x (List.mem_of_find?_eq_some hx)
  · exact List.nodup_nil

theorem IsSimple.nodup_firstTrails (hs : s.IsSimple) : s.firstTrails.Nodup := by
  refine List.nodup_flatMap.mpr ⟨fun x hx => ?_, ?_⟩
  · refine List.Nodup.map (fun n m h => ?_) (hs.targets x hx)
    exact (Trail.mk.inj h).1
  · refine (List.pairwise_map.mp hs.keys).imp fun {x y} hxy t hx hy => hxy ?_
    obtain ⟨n, -, rfl⟩ := List.mem_map.mp hx
    obtain ⟨m, -, h⟩ := List.mem_map.mp hy
    exact (List.singleton_inj.mp (Trail.mk.inj h).2).symm

/-- The nodes that a trail is followed to, each by a trail of its own. -/
theorem IsSimple.nodup_snoc (hs : s.IsSimple) (t : Trail) (f : Node → Bool) :
    (((s.of t.last).filter f).map t.snoc).Nodup :=
  List.Nodup.map (fun _ _ h => (Trail.snoc_inj.mp h).2) ((hs.nodup_of t.last).filter _)

theorem IsSimple.nodup_grow (hs : s.IsSimple) (hts : ts.Nodup) : (s.grow ts).Nodup := by
  refine List.nodup_flatMap.mpr
    ⟨fun t _ => hs.nodup_snoc t _, hts.imp fun {t t'} hne x hx hy => hne ?_⟩
  obtain ⟨n, -, -, rfl⟩ := mem_growths_iff.mp hx
  obtain ⟨m, -, -, h⟩ := mem_growths_iff.mp hy
  exact (Trail.snoc_inj.mp h).1

theorem IsSimple.nodup_meetings (hs : s.IsSimple) (t : Trail) : (s.meetings t).Nodup := by
  refine List.nodup_append.mpr ⟨List.Nodup.map (fun t₁ t₂ h => ?_) (hs.nodup_snoc t _),
    List.nodup_singleton _, fun p hp q hq hpq => ?_⟩
  · exact Trail.nodes_inj.mp (Path.mk.inj h).1
  · obtain ⟨t', -, rfl⟩ := List.mem_map.mp hp
    rw [List.mem_singleton.mp hq] at hpq
    cases (Path.mk.inj hpq).2

/-- Open paths that differ meet different paths. -/
theorem IsSimple.nodup_round (hs : s.IsSimple) (hts : ts.Nodup) :
    (ts.flatMap s.meetings).Nodup := by
  refine List.nodup_flatMap.mpr
    ⟨fun t _ => hs.nodup_meetings t, hts.imp fun {t t'} hne p hp hq => hne ?_⟩
  rw [← Trail.nodes_inj, ← body_of_mem_meetings hp, body_of_mem_meetings hq]

theorem IsSimple.nodup_overRounds (hs : s.IsSimple) {n : Nat} (h : ∀ t ∈ ts, t.nodes.length = n)
    (hts : ts.Nodup) : (s.overRounds (·.flatMap s.meetings) k ts).Nodup := by
  induction k generalizing n ts with
  | zero => exact List.nodup_nil
  | succ k ih =>
      refine List.nodup_append.mpr ⟨hs.nodup_round hts,
        ih (length_of_mem_grow h) (hs.nodup_grow hts), fun p hp q hq hpq => ?_⟩
      -- later rounds meet longer paths
      have hp := length_body_of_mem_round h p hp
      have hq := le_length_body (length_of_mem_grow h) q hq
      rw [← hpq, hp] at hq
      omega

theorem IsSimple.nodup_met (hs : s.IsSimple) : s.met.Nodup :=
  hs.nodup_overRounds length_of_mem_firstTrails hs.nodup_firstTrails

end Successors

theorem nodup_longest {all : List Path} (h : all.Nodup) : (longest all).Nodup :=
  (List.mergeSort_perm _ _).nodup_iff.mpr (h.filter _)

theorem mem_longest_iff {all : List Path} {p : Path} : p ∈ longest all ↔
    p ∈ all ∧ ∀ q ∈ all, p.isBeginningOf q = false := by
  rw [longest, (List.mergeSort_perm _ _).mem_iff, List.mem_filter]
  simp

/-- None of the longest paths is the beginning of another one. -/
theorem eq_of_prefix_of_mem_longest {all : List Path} {p q : Path} (hp : p ∈ longest all)
    (hq : q ∈ longest all) (hpq : p.nodes <+: q.nodes) : p.nodes = q.nodes := by
  have hnot := (mem_longest_iff.mp hp).2 q (mem_longest_iff.mp hq).1
  rw [Path.isBeginningOf, List.isPrefixOf_iff_prefix.mpr hpq, Bool.true_and,
    decide_eq_false_iff_not] at hnot
  exact hpq.eq_of_length_le (Nat.le_of_not_lt hnot)

theorem sorted_longest (all : List Path) :
    (longest all).Pairwise fun p q => p.precedes q = true :=
  List.pairwise_mergeSort Path.precedes_trans Path.precedes_total _

/-! ## Further rounds -/

namespace Successors

variable {s : Successors} {ts : List Trail} {limit : Option Nat} {k k' : Nat}

/-- When no open path is left, further rounds give nothing. -/
theorem Lasts.overRounds_eq {α : Type} {f : List Trail → List α} (hf : f [] = [])
    (h : s.Lasts k ts) (hk : k ≤ k') : s.overRounds f k' ts = s.overRounds f k ts := by
  induction k generalizing k' ts with
  | zero => rw [h.eq_nil, overRounds_nil hf, overRounds_nil hf]
  | succ k ih =>
      obtain ⟨k', rfl⟩ : ∃ j, k' = j + 1 := ⟨k' - 1, by omega⟩
      rw [overRounds, overRounds, ih h.grow (by omega)]

/-- The search does not depend on the number of rounds, if there are enough of them. -/
theorem complete_eq_of_le (hs : s.IsGathered) (hk : s.rounds ≤ k) :
    s.complete limit k 0 s.firstTrails = s.complete limit s.rounds 0 s.firstTrails := by
  have h := lasts_firstTrails hs (Nat.le_refl s.rounds)
  rw [h.complete_eq, (lasts_firstTrails hs hk).complete_eq, h.overRounds_eq rfl hk,
    h.overRounds_eq rfl hk, h.overRounds_eq rfl hk]

end Successors

/-! ## Path sets -/

variable {net : Net} {g : StepGraph} {s : PathSet} {stepLimit limit : Option Nat}

/-- The path set holds all maximal paths along used arcs, each once and in order. -/
structure PathSet.IsComplete (s : PathSet) (g : StepGraph) : Prop where
  nodup : s.paths.Nodup
  /-- The paths are the walks of at least one arc that repeat no node and are stuck, or repeat only
  their last node. -/
  mem : ∀ p, p ∈ s.paths ↔ p.nodes.IsChain g.Uses ∧ 2 ≤ p.nodes.length ∧
    if p.cyclic then IsClosed p.nodes else IsStuck g.Uses p.nodes
  /-- No path is the beginning of another one. -/
  prefixFree : ∀ p ∈ s.paths, ∀ q ∈ s.paths, p.nodes <+: q.nodes → p = q
  /-- Cycle-free paths come before cyclic ones. -/
  cyclicLast : s.paths.Pairwise fun p q => p.cyclic = true → q.cyclic = true
  /-- Both the cycle-free and the cyclic paths come by length. -/
  byLength : s.paths.Pairwise fun p q => p.cyclic = q.cyclic → p.nodes.length ≤ q.nodes.length
  /-- The paths that start at a node are those of all paths whose first node it is. -/
  startingAt : ∀ n, s.startingAt n = s.paths.filter fun p => p.nodes.head? = some n
  /-- No path starts at a node exactly if no used arc leaves it. -/
  startingAt_nil : ∀ n, s.startingAt n = [] ↔ ∀ m, ¬g.Uses n m

/-- The paths of a path set are the longest of all paths met. -/
theorem PathSet.paths_eq_longest (hg : g.net.WellFormed) (hs : g.pathSet limit = .ok s) :
    s.paths = longest g.successors.met := by
  have hpaths := (eq_of_pathSet hs).2.2.1
  rw [Successors.maximalPaths_eq (StepGraph.isGathered_successors hg)] at hpaths
  obtain ⟨-, -, h⟩ := bind_eq_ok_iff.mp hpaths
  exact (Except.ok.inj h).symm

theorem PathSet.startingAt_eq_filter (hs : g.pathSet limit = .ok s) (n : Node) :
    s.startingAt n = s.paths.filter fun p => p.nodes.head? = some n := by
  rw [startingAt, (eq_of_pathSet hs).2.2.2, gathered_gather]
  induction s.paths with
  | nil => rfl
  | cons p ps ih =>
      cases hhead : p.nodes.head? with
      | none =>
          rw [List.filterMap_cons_none (by rw [hhead]; rfl),
            List.filter_cons_of_neg (by simp [hhead]), ih]
      | some m =>
          rw [List.filterMap_cons_some (by rw [hhead]; rfl)]
          by_cases hm : m = n
          · rw [List.filter_cons_of_pos (by simp [hm]),
              List.filter_cons_of_pos (by simp [hhead, hm]), List.map_cons, ih]
          · rw [List.filter_cons_of_neg (by simp [hm]),
              List.filter_cons_of_neg (by simp [hhead, hm]), ih]

theorem IsClosed.not_nodup {α : Type} {w : List α} (h : IsClosed w) : ¬w.Nodup := by
  obtain ⟨p, x, rfl, -, hx⟩ := h
  intro hnd
  exact (List.nodup_append.mp hnd).2.2 x hx x (List.mem_singleton_self x) rfl

theorem IsStuck.nodup {α : Type} {R : α → α → Prop} {w : List α} (h : IsStuck R w) : w.Nodup := by
  obtain ⟨p, x, rfl, hnd, -⟩ := h
  exact hnd

/-- The paths met are the walks of at least one arc along used arcs that repeat no node, or only their
last one. -/
theorem StepGraph.mem_met_iff (hg : g.net.WellFormed) {p : Path} :
    p ∈ g.successors.met ↔ p.nodes.IsChain g.Uses ∧ 2 ≤ p.nodes.length ∧
      if p.cyclic then IsClosed p.nodes else p.nodes.Nodup := by
  have hgathered := isGathered_successors hg
  have hsuccessors : (fun n m => m ∈ g.successors.of n) = g.Uses := by
    funext n m
    exact propext mem_successors_iff
  obtain ⟨w, cyclic⟩ := p
  simp only [Successors.mem_met_iff hgathered, Successors.mem_meetings_iff, ← hsuccessors]
  constructor
  · rintro ⟨t, hopen, hne, heq | ⟨n, hn, hvisited, heq⟩⟩
    · obtain ⟨rfl, rfl⟩ := Path.mk.inj heq
      exact ⟨hopen.chain, Successors.two_le_length_nodes hne, hopen.nodup⟩
    · obtain ⟨rfl, rfl⟩ := Path.mk.inj heq
      rw [← Trail.nodes_snoc]
      exact ⟨Successors.isChain_snoc_iff.mpr ⟨hopen.chain, hn⟩,
        Successors.two_le_length_nodes (by simp [Trail.snoc]),
        Successors.isClosed_snoc_iff.mpr ⟨hopen.nodup, hvisited⟩⟩
  · rintro ⟨hchain, hlength, hend⟩
    obtain ⟨⟨n, earlier⟩, rfl, hne⟩ := Successors.exists_trail hlength
    cases cyclic with
    | false => exact ⟨_, ⟨hchain, hend⟩, hne, Or.inl rfl⟩
    | true =>
        obtain ⟨y, earlier, rfl⟩ := List.exists_cons_of_ne_nil hne
        have hsnoc : (⟨n, y :: earlier⟩ : Trail) = (⟨y, earlier⟩ : Trail).snoc n := rfl
        rw [hsnoc] at hchain hend ⊢
        obtain ⟨hchain, hn⟩ := Successors.isChain_snoc_iff.mp hchain
        obtain ⟨hnodup, hvisited⟩ := Successors.isClosed_snoc_iff.mp hend
        refine ⟨⟨y, earlier⟩, ⟨hchain, hnodup⟩, ?_, Or.inr ⟨n, hn, hvisited, by simp⟩⟩
        -- a node that leads to itself would close a path of one node
        rintro rfl
        exact hgathered.ne hn (List.mem_singleton.mp hvisited).symm

/-- The nodes of a path tell whether it is cyclic, for then they repeat one. -/
theorem StepGraph.nodes_inj_of_mem_met (hg : g.net.WellFormed) {p q : Path}
    (hp : p ∈ g.successors.met) (hq : q ∈ g.successors.met) (hnodes : p.nodes = q.nodes) : p = q := by
  have hcyclic {p : Path} (hp : p ∈ g.successors.met) : p.cyclic = true ↔ ¬p.nodes.Nodup := by
    obtain ⟨-, -, hend⟩ := (mem_met_iff hg).mp hp
    split at hend
    · rename_i hclosed
      exact iff_of_true hclosed hend.not_nodup
    · rename_i hopen
      exact iff_of_false hopen fun hnot => hnot hend
  have hsame : p.cyclic = q.cyclic := by
    rw [Bool.eq_iff_iff, hcyclic hp, hcyclic hq, hnodes]
  cases p
  cases q
  rw [Path.mk.injEq]
  exact ⟨hnodes, hsame⟩

/-- The paths are the maximal walks along used arcs. -/
theorem PathSet.mem_paths_iff (hg : g.net.WellFormed) (hs : g.pathSet limit = .ok s) {p : Path} :
    p ∈ s.paths ↔ p.nodes.IsChain g.Uses ∧ 2 ≤ p.nodes.length ∧
      if p.cyclic then IsClosed p.nodes else IsStuck g.Uses p.nodes := by
  have h := Successors.mem_maximalPaths_iff (StepGraph.isGathered_successors hg)
    (eq_of_pathSet hs).2.2.1 (p := p)
  simpa only [StepGraph.mem_successors_iff] using h

theorem PathSet.isComplete_of_pathSet (hg : g.net.WellFormed) (harcs : g.net.arcs.toList.Nodup)
    (hs : g.pathSet limit = .ok s) : s.IsComplete g := by
  have hlongest := paths_eq_longest hg hs
  have hsorted : s.paths.Pairwise fun p q => p.precedes q = true := hlongest ▸ sorted_longest _
  constructor
  case nodup =>
    rw [hlongest]
    exact nodup_longest (StepGraph.isSimple_successors harcs).nodup_met
  case mem => exact fun p => mem_paths_iff hg hs
  case prefixFree =>
    intro p hp q hq hpq
    have hp := hlongest ▸ hp
    have hq := hlongest ▸ hq
    exact StepGraph.nodes_inj_of_mem_met hg (mem_longest_iff.mp hp).1 (mem_longest_iff.mp hq).1
      (eq_of_prefix_of_mem_longest hp hq hpq)
  case cyclicLast => exact hsorted.imp Path.cyclic_of_precedes
  case byLength =>
    refine hsorted.imp fun {p q} hpq hcyclic => ?_
    rw [Path.precedes, if_pos hcyclic] at hpq
    exact of_decide_eq_true hpq
  case startingAt => exact startingAt_eq_filter hs
  case startingAt_nil => exact fun n => startingAt_eq_nil_iff hg hs

/-- **A path set holds all maximal paths, each once and in order, and is found in finitely many
rounds.** -/
theorem maximal_paths (h : net.WellFormed) (hg : net.stepGraph stepLimit = .ok g) :
    (net.arcs.toList.Nodup → ∀ limit s, g.pathSet limit = .ok s → s.IsComplete g) ∧
    (∃ k, g.successors.grow^[k] g.successors.firstTrails = []) ∧
    (∀ limit k, g.successors.rounds ≤ k → g.successors.complete limit k 0 g.successors.firstTrails
      = g.successors.complete limit g.successors.rounds 0 g.successors.firstTrails) ∧
    ∃ s, g.pathSet none = .ok s := by
  obtain rfl := net_of_stepGraph hg
  have hs := StepGraph.isGathered_successors h
  refine ⟨fun harcs limit s => PathSet.isComplete_of_pathSet h harcs,
    ⟨_, (Successors.lasts_firstTrails hs (Nat.le_refl _)).iterate_grow⟩,
    fun limit k => Successors.complete_eq_of_le hs, ?_⟩
  rw [StepGraph.pathSet, Successors.maximalPaths_eq hs]
  exact ⟨_, rfl⟩

/-- A marker goes round, until it takes the way out. -/
def roundabout : Net :=
  (((((((((((Net.empty "roundabout").addPlace (.plain "north" 1)).addPlace (.plain "south" 0)
    ).addPlace (.plain "out" 0)).addTransition (.bare "down" none)).addTransition (.bare "up" none)
    ).addTransition (.bare "leave" none)).join ⟨⟨.place, 0⟩, ⟨.transition, 0⟩⟩
    ).join ⟨⟨.transition, 0⟩, ⟨.place, 1⟩⟩).join ⟨⟨.place, 1⟩, ⟨.transition, 1⟩⟩
    ).join ⟨⟨.transition, 1⟩, ⟨.place, 0⟩⟩).join ⟨⟨.place, 1⟩, ⟨.transition, 2⟩⟩
    |>.join ⟨⟨.transition, 2⟩, ⟨.place, 2⟩⟩

theorem roundabout_made : roundabout.Made := by
  refine .join (.join (.join (.join (.join (.join (.addTransition (.addTransition (.addTransition
    (.addPlace (.addPlace (.addPlace (.empty "roundabout") ?_) ?_) ?_)))) rfl) rfl) rfl) rfl) rfl)
    rfl
  all_goals decide

theorem maximal_paths_roundabout : ∃ g s, roundabout.stepGraph none = .ok g ∧
    g.pathSet none = .ok s ∧ s.paths.length = 9 ∧ s.IsComplete g := by
  have hlength : ((roundabout.survey none >>= (·.pathSet none)).toOption.map (·.paths.length))
      = some 9 := by
    decide +kernel
  obtain ⟨s, hs, hlength⟩ := exists_ok_of_map hlength
  obtain ⟨g, hg, hs⟩ := bind_eq_ok_iff.mp hs
  rw [← Net.stepGraph_eq_survey] at hg
  have hcomplete := (maximal_paths roundabout_made.wellFormed hg).1 (by decide +kernel) none s hs
  exact ⟨g, s, hg, hs, hlength, hcomplete⟩

end RoutePolicy
