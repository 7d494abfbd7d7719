import Mathlib.Data.Fintype.BigOperators
import Mathlib.Data.Fintype.Pi
import Mathlib.Data.Set.Card
import RoutePolicy.Concurrency
import RoutePolicy.Proofs.Enumeration
import RoutePolicy.Proofs.Net.Moves
import RoutePolicy.Proofs.Net.Unfolding
import RoutePolicy.Proofs.ReachabilityGraph

set_option autoImplicit false

/-! # Limits on steps and paths

A search that ends under one limit ends with the same result under every limit that allows as many
steps (`stepGraph_of_stepCount_le`), and so it does under each looser one (`stepGraph_of_loosens`).
A net without a limit has only so many markings with counts of 64 bits, so that no limit is the
loosest one (`stepCount_le_markingCount`). -/

namespace RoutePolicy

variable {net : Net} {cap : Nat} {d d' : Discovery} {m : Marking} {ts : List TransitionId}

/-- The second limit allows all that the first one does. No limit allows everything. -/
def Loosens (limit limit' : Option Nat) : Prop := ∀ n', limit' = some n' → ∃ n, limit = some n ∧ n ≤ n'

theorem loosens_none (limit : Option Nat) : Loosens limit none := fun _ h => nomatch h

/-! ## Lists without repetitions -/

/-- A list without repetitions is no longer than the set that it is taken from. -/
theorem length_le_encard {α : Type} [DecidableEq α] {l : List α} (hl : l.Nodup) {S : Set α}
    (h : ∀ x ∈ l, x ∈ S) : (l.length : ENat) ≤ S.encard := by
  have hle := Set.encard_le_encard (s := (l.toFinset : Set α)) (t := S) fun x hx =>
    h x (by simpa using hx)
  rwa [Set.encard_coe_eq_coe_finsetCard, List.toFinset_card_of_nodup hl] at hle

/-- A list without repetitions of all that is in a set is as long as the set is large. -/
theorem encard_eq_length {α : Type} [DecidableEq α] {l : List α} (hl : l.Nodup) {S : Set α}
    (h : ∀ x, x ∈ l ↔ x ∈ S) : S.encard = l.length := by
  have hset : S = (l.toFinset : Set α) := Set.ext fun x => by
    rw [List.coe_toFinset, Set.mem_ofPred_eq, h]
  rw [hset, Set.encard_coe_eq_coe_finsetCard, List.toFinset_card_of_nodup hl]

/-! ## Searches under two limits -/

namespace Discovery

/-- The search adds markings, and none beyond the cap. -/
structure Extends (cap : Nat) (d d' : Discovery) : Prop where
  size : d.markings.size ≤ d'.markings.size
  capped : d'.markings.size ≤ max d.markings.size cap

theorem Extends.refl (cap : Nat) (d : Discovery) : d.Extends cap d :=
  ⟨Nat.le_refl _, Nat.le_max_left _ _⟩

theorem Extends.trans {d'' : Discovery} (h : d.Extends cap d') (h' : d'.Extends cap d'') :
    d.Extends cap d'' := by
  have := h.size
  have := h.capped
  have := h'.size
  have := h'.capped
  constructor <;> omega

/-- A marking gets the same number under each cap that leaves room for it. -/
theorem visit_of_size_le {i : Nat} (hv : d.visit cap m = .ok (d', i)) : d.Extends cap d' ∧
    ∀ cap', d'.markings.size ≤ max d.markings.size cap' → d.visit cap' m = .ok (d', i) := by
  obtain ⟨hi, rfl⟩ | ⟨hnone, hcap, rfl, rfl⟩ := visit_cases hv
  · refine ⟨.refl cap d', fun cap' _ => ?_⟩
    rw [Discovery.visit, hi]
  · have hsize : (d.markings.push m).size = d.markings.size + 1 := Array.size_push _
    refine ⟨⟨?_, ?_⟩, fun cap' hle => ?_⟩
    · show d.markings.size ≤ (d.markings.push m).size
      omega
    · show (d.markings.push m).size ≤ _
      omega
    · have hle : (d.markings.push m).size ≤ max d.markings.size cap' := hle
      rw [Discovery.visit, hnone]
      exact if_neg (by omega)

theorem expand_of_size_le {source : Nat} (he : net.expand cap source m ts d = .ok d') :
    d.Extends cap d' ∧
      ∀ cap', d'.markings.size ≤ max d.markings.size cap' →
        net.expand cap' source m ts d = .ok d' := by
  induction ts generalizing d with
  | nil =>
      cases he
      exact ⟨.refl cap _, fun _ _ => rfl⟩
  | cons t ts ih =>
      obtain ⟨next, d₁, target, label, hnext, hvisit, hlabel, he⟩ := Net.expand_cons_eq_ok_iff.mp he
      obtain ⟨hext, hsame⟩ := visit_of_size_le hvisit
      obtain ⟨hext', hsame'⟩ := ih he
      have hext' : d₁.Extends cap d' := ⟨hext'.size, hext'.capped⟩
      refine ⟨hext.trans hext', fun cap' hle => ?_⟩
      have hsize := hext.size
      have hsize' := hext'.size
      have hlater := hsame' cap' (hle.trans (max_le_max hsize le_rfl))
      exact Net.expand_cons_eq_ok_iff.mpr
        ⟨next, d₁, target, label, hnext, hsame cap' (by omega), hlabel, hlater⟩

/-- A search that has left all the markings it met is over. -/
theorem explore_of_left (h : d.markings.size ≤ d.steps.size) (fuel : Nat) :
    net.explore cap fuel d = .ok d := by
  have hnone : d.markings[d.steps.size]? = none := Array.getElem?_eq_none h
  cases fuel with
  | zero => rfl
  | succ fuel => rw [Net.explore, hnone]

/-- **The search ends by itself**: each round leaves one of the markings met, and there are never more
of them than the cap allows. So after as many rounds it is over, and further ones change nothing. -/
theorem explore_eq_of_le {fuel fuel' : Nat} (hsize : d.markings.size ≤ max cap 1)
    (hrounds : max cap 1 ≤ d.steps.size + fuel) (hle : fuel ≤ fuel') :
    net.explore cap fuel' d = net.explore cap fuel d := by
  induction fuel generalizing d fuel' with
  | zero =>
      have hleft : d.markings.size ≤ d.steps.size := by omega
      rw [explore_of_left hleft, explore_of_left hleft]
  | succ fuel ih =>
      obtain ⟨k, rfl⟩ : ∃ k, fuel' = k + 1 := ⟨fuel' - 1, by omega⟩
      rw [Net.explore, Net.explore]
      cases d.markings[d.steps.size]? with
      | none => rfl
      | some m =>
          dsimp only
          cases net.enabledAt m with
          | error e => rfl
          | ok enabled =>
              rw [ok_bind, ok_bind]
              cases hd₁ : net.expand cap d.steps.size m enabled d with
              | error e => rfl
              | ok d₁ =>
                  have hcapped := (expand_of_size_le hd₁).1.capped
                  have hsteps := (moves_expand hd₁).1
                  have hpush : (d₁.steps.push ⟨d₁.steps.size, m, enabled⟩).size = d.steps.size + 1 := by
                    rw [Array.size_push, hsteps]
                  rw [ok_bind, ok_bind]
                  apply ih
                  · show d₁.markings.size ≤ _
                    omega
                  · show _ ≤ (d₁.steps.push ⟨d₁.steps.size, m, enabled⟩).size + fuel
                    omega
                  · omega

/-- **A search that has left all the markings it met** ends in the same way under each cap that
leaves room for these markings. -/
theorem explore_of_size_le {fuel : Nat} (he : net.explore cap fuel d = .ok d') :
    d.Extends cap d' ∧ ∀ cap' fuel', d'.markings.size ≤ d'.steps.size →
      d'.markings.size ≤ max d.markings.size cap' → d'.markings.size ≤ d.steps.size + fuel' →
        net.explore cap' fuel' d = .ok d' := by
  induction fuel generalizing d with
  | zero =>
      cases he
      exact ⟨.refl cap _, fun cap' fuel' hdone _ _ => explore_of_left hdone fuel'⟩
  | succ fuel ih =>
      obtain ⟨hnone, rfl⟩ | ⟨m, enabled, d₁, hm, henabled, hd₁, he⟩ :=
        Net.explore_succ_eq_ok_iff.mp he
      · have hleft := Array.getElem?_eq_none_iff.mp hnone
        exact ⟨.refl cap _, fun cap' fuel' _ _ _ => explore_of_left hleft fuel'⟩
      · obtain ⟨hext, hsame⟩ := expand_of_size_le hd₁
        obtain ⟨hsteps, -, -⟩ := moves_expand hd₁
        have hext' : d₁.Extends cap d' := by
          obtain ⟨hsize, hcapped⟩ := (ih he).1
          exact ⟨hsize, hcapped⟩
        refine ⟨hext.trans hext', fun cap' fuel' hdone hcap hfuel => ?_⟩
        have hsize := hext.size
        have hsize' := hext'.size
        have hlt := (Array.getElem?_eq_some_iff.mp hm).1
        cases fuel' with
        | zero => omega
        | succ fuel' =>
            refine Net.explore_succ_eq_ok_iff.mpr
              (Or.inr ⟨m, enabled, d₁, hm, henabled, hsame cap' (by omega), ?_⟩)
            refine (ih he).2 cap' fuel' hdone (hcap.trans (max_le_max hsize le_rfl)) ?_
            simp only [Array.size_push, hsteps]
            omega

end Discovery

/-! ## Step graphs -/

variable {limit limit' : Option Nat} {g : StepGraph}

/-- The limit allows the steps of a step graph, and the search finds them under every limit that does
so. -/
theorem stepGraph_of_stepCount_le (hg : net.stepGraph limit = .ok g) :
    g.stepCount ≤ max (limit.getD net.markingCount) 1 ∧
      ∀ limit' : Option Nat, g.stepCount ≤ max (limit'.getD net.markingCount) 1 →
        net.stepGraph limit' = .ok g := by
  obtain ⟨d, hd, -, hsize, rfl⟩ := exists_explored_of_stepGraph hg
  obtain ⟨hext, hsame⟩ := Discovery.explore_of_size_le hd
  have hstart : (Discovery.start net.marking).markings.size = 1 := rfl
  have hcapped := hext.capped
  show d.steps.size ≤ _ ∧ ∀ _, d.steps.size ≤ _ → _
  refine ⟨by omega, fun limit' hle => ?_⟩
  rw [Net.stepGraph, hsame _ _ (by omega) (by omega) (by omega)]
  rfl

/-- Where all steps were explored no count went beyond its range, so counts of any size lead to no
other markings. -/
theorem reaches_iff_leads_of_stepGraph (h : net.WellFormed) (hg : net.stepGraph limit = .ok g) :
    net.Reaches net.marking m ↔ net.Leads net.marking m := by
  refine ⟨h.leads_of_reaches net.size_marking, fun hlead => hlead.reaches ?_⟩
  intro m₁ t m₂ hm₁ hmoves
  have hsize := hm₁.size_eq.trans net.size_marking
  obtain ⟨m', hf⟩ := fireAt_of_enabled hg hm₁ ((h.isEnabledAt_eq_true_iff hsize).mpr hmoves.enabled)
  rwa [hmoves.eq (h.moves_of_fireAt hsize hf)]

/-- The first counts of a marking, as counts of 64 bits. -/
def Marking.counts (m : Marking) (n : Nat) : Fin n → Fin countRange := fun i =>
  ⟨m.tokens ⟨i⟩ % countRange, Nat.mod_lt _ (by decide)⟩

theorem Marking.eq_of_counts {m m' : Marking} {n : Nat} (hm : m.size = n) (hm' : m'.size = n)
    (hrange : ∀ p, m.tokens p < countRange) (hrange' : ∀ p, m'.tokens p < countRange)
    (h : m.counts n = m'.counts n) : m = m' := by
  refine ext_tokens (hm.trans hm'.symm) fun p => ?_
  by_cases hp : p.index < n
  · have hcount := congrArg Fin.val (congrFun h ⟨p.index, hp⟩)
    have hcount : m.tokens p % countRange = m'.tokens p % countRange := hcount
    rwa [Nat.mod_eq_of_lt (hrange _), Nat.mod_eq_of_lt (hrange' _)] at hcount
  · have hout {x : Marking} (hx : x.size = n) : ¬x.contains p = true := by
      rw [Arena.contains_iff, hx]
      exact hp
    rw [tokens_eq_zero (hout hm), tokens_eq_zero (hout hm')]

/-- **No net has more steps than there are markings** with counts of 64 bits. -/
theorem stepCount_le_markingCount (h : net.WellFormed)
    (hstart : ∀ p, net.marking.tokens p < countRange) (hg : net.stepGraph limit = .ok g) :
    g.stepCount ≤ net.markingCount := by
  have hgraph := isReachabilityGraph_of_stepGraph h hg
  have hmarking (m : Marking) (hm : m ∈ g.steps.toList.map (·.marking)) :
      m.size = net.places.size ∧ ∀ p, m.tokens p < countRange := by
    obtain ⟨s, hs, rfl⟩ := List.mem_map.mp hm
    have hreach := (exists_step_iff_reaches hg).mp ⟨s, hs, rfl⟩
    exact ⟨hreach.size_eq.trans net.size_marking, h.tokens_lt hstart hreach⟩
  have hnodup : ((g.steps.toList.map (·.marking)).map
      (Marking.counts · net.places.size)).Nodup := by
    refine hgraph.distinct.map_on fun m hm m' hm' heq => ?_
    obtain ⟨hsize, hrange⟩ := hmarking m hm
    obtain ⟨hsize', hrange'⟩ := hmarking m' hm'
    exact Marking.eq_of_counts hsize hsize' hrange hrange' heq
  have hcard := hnodup.length_le_card
  rwa [List.length_map, List.length_map, Array.length_toList, Fintype.card_fun, Fintype.card_fin,
    Fintype.card_fin] at hcard

theorem stepGraph_of_loosens (h : net.WellFormed)
    (hstart : ∀ p, net.marking.tokens p < countRange) (hloosens : Loosens limit limit')
    (hg : net.stepGraph limit = .ok g) : net.stepGraph limit' = .ok g := by
  obtain ⟨hle, hsame⟩ := stepGraph_of_stepCount_le hg
  refine hsame limit' ?_
  cases limit' with
  | none => exact (stepCount_le_markingCount h hstart hg).trans (Nat.le_max_left _ _)
  | some n' =>
      obtain ⟨n, rfl, hn⟩ := hloosens n' rfl
      exact hle.trans (max_le_max hn le_rfl)

/-! ## Paths and parallel sets -/

/-- The paths are found under every looser limit. -/
theorem pathSet_of_loosens {s : PathSet} (h : g.net.WellFormed) (hloosens : Loosens limit limit')
    (hs : g.pathSet limit = .ok s) : g.pathSet limit' = .ok s := by
  obtain ⟨paths, hpaths, hs⟩ := bind_eq_ok_iff.mp hs
  have hgathered := g.isGathered_successors h
  suffices hpaths' : g.successors.maximalPaths limit' = .ok paths by
    rw [StepGraph.pathSet, hpaths', ok_bind]
    exact hs
  rw [Successors.maximalPaths_eq hgathered] at hpaths ⊢
  obtain ⟨_, hcheck, hpaths⟩ := bind_eq_ok_iff.mp hpaths
  have hmet : ∀ n, limit = some n → g.successors.met.length ≤ n := by
    rintro n rfl
    by_contra hlt
    rw [Successors.checkLimit_eq_error (Nat.not_le.mp hlt)] at hcheck
    cases hcheck
  rw [Successors.checkLimit_eq_ok fun n' hn' => ?_, ok_bind]
  · exact hpaths
  · obtain ⟨n, hn, hle⟩ := hloosens n' hn'
    exact (hmet n hn).trans hle

/-- The sets of transitions that can run at once are found under every looser limit. -/
theorem parallelSets_of_loosens (h : net.Ordinary) {sets : List (List String)}
    (hloosens : Loosens limit limit') (hsets : net.parallelSets limit = .ok sets) :
    net.parallelSets limit' = .ok sets := by
  obtain ⟨u, hunfold, hu⟩ := Net.exists_unfoldsTo h.wellFormed
  unfold Net.parallelSets at hsets ⊢
  rw [hunfold, ok_bind] at hsets ⊢
  obtain ⟨g, hg, hsets⟩ := bind_eq_ok_iff.mp hsets
  rw [stepGraph_of_loosens hu.wellFormed (fun p => hu.tokens p ▸ h.start p) hloosens hg, ok_bind]
  exact hsets

end RoutePolicy
