import RoutePolicy.Proofs.Limits
import RoutePolicy.Proofs.MaximalPaths

set_option autoImplicit false

/-! # The threshold of the limit on paths

The limit counts the walks along used arcs that repeat no node, or only their last one
(`StepGraph.IsMet`). It counts them path by path: after each open path of a round, those that were met so
far and those that wait for the next round must not be more than the limit allows together
(`Successors.enumerate`). What waits is taken from the count when its round begins, and is counted again
as it is met. Still the check fails somewhere exactly if more paths are met in the end than the limit
allows, because what waits is among the paths still to be met (`Successors.enumerate_eq`). So this is the
search that checks once in each round (`path_limit_exact`). -/

namespace RoutePolicy

/-! ## Path by path -/

namespace Successors

/-- One round, path by path: those met at an open path are added to all paths, those that it grows into
wait for the next round, and there may be no more of both than the limit allows. -/
def sweep (s : Successors) (limit : Option Nat) :
    List Path → List Trail → List Trail → Except Failure (List Path × List Trail)
  | all, next, [] => .ok (all, next)
  | all, next, t :: ts => do
    let all := all ++ s.meetings t
    let next := next ++ s.growths t
    checkLimit limit (all.length + next.length)
    s.sweep limit all next ts

/-- All paths, with the limit checked after each open path, in at most `fuel` rounds. -/
def enumerate (s : Successors) (limit : Option Nat) :
    Nat → List Path → List Trail → Except Failure (List Path)
  | 0, all, _ => .ok all
  | _ + 1, all, [] => .ok all
  | fuel + 1, all, t :: ts => do
    let (all, next) ← s.sweep limit all [] (t :: ts)
    s.enumerate limit fuel all next

variable {s : Successors} {ts : List Trail} {k : Nat}

/-- **The checks of a round come down to the last one**, for what is counted only grows within the
round. -/
theorem sweep_eq (s : Successors) (limit : Option Nat) (all : List Path) (next ts : List Trail) :
    (do checkLimit limit (all.length + next.length); s.sweep limit all next ts) = do
      checkLimit limit ((all ++ ts.flatMap s.meetings).length + (next ++ s.grow ts).length)
      return (all ++ ts.flatMap s.meetings, next ++ s.grow ts) := by
  induction ts generalizing all next with
  | nil =>
      simp only [grow, List.flatMap_nil, List.append_nil]
      rfl
  | cons t ts ih =>
      have hgrow : s.grow (t :: ts) = s.growths t ++ s.grow ts := rfl
      rw [sweep, ih, List.flatMap_cons, hgrow, ← List.append_assoc, ← List.append_assoc]
      apply checkLimit_bind_of_le
      simp only [List.length_append]
      omega

/-- **All checks come down to one of all paths met.** -/
theorem enumerate_eq (limit : Option Nat) (all : List Path) (h : s.Lasts k ts) :
    (do checkLimit limit all.length; s.enumerate limit k all ts) = do
      checkLimit limit (all ++ s.overRounds (·.flatMap s.meetings) k ts).length
      return all ++ s.overRounds (·.flatMap s.meetings) k ts := by
  induction k generalizing all ts with
  | zero =>
      rw [overRounds, List.append_nil]
      rfl
  | succ k ih =>
      cases ts with
      | nil =>
          rw [overRounds_nil rfl, List.append_nil]
          rfl
      | cons t ts =>
          have hwaiting := h.grow.length_le
          have hround := s.sweep_eq limit all [] (t :: ts)
          rw [List.length_nil, Nat.add_zero, List.nil_append] at hround
          rw [overRounds, ← List.append_assoc]
          generalize all ++ (t :: ts).flatMap s.meetings = all' at hround ⊢
          calc (do checkLimit limit all.length; s.enumerate limit (k + 1) all (t :: ts))
              = (do checkLimit limit all.length; s.sweep limit all [] (t :: ts)) >>= fun x =>
                  s.enumerate limit k x.1 x.2 := by
                rw [bind_assoc]
                rfl
            _ = (do checkLimit limit (all'.length + (s.grow (t :: ts)).length)
                    s.enumerate limit k all' (s.grow (t :: ts))) := by
                rw [hround, bind_assoc]
                rfl
            _ = (do checkLimit limit (all'.length + (s.grow (t :: ts)).length)
                    checkLimit limit all'.length
                    s.enumerate limit k all' (s.grow (t :: ts))) := by
                rw [checkLimit_bind_of_ge (Nat.le_add_right _ _)]
            _ = _ := by
                -- what waits is met in the rounds to come
                rw [ih _ h.grow]
                apply checkLimit_bind_of_le
                rw [List.length_append]
                omega

/-- **The paths that are kept are the longest of all paths**, whichever way the limit is checked. -/
theorem maximalPaths_eq_enumerate (hs : s.IsGathered) (hk : s.rounds ≤ k) (limit : Option Nat) :
    s.maximalPaths limit = do
      let all ← s.enumerate limit k [] s.firstTrails
      return longest all := by
  have hlasts := lasts_firstTrails hs hk
  have hmet : s.overRounds (·.flatMap s.meetings) k s.firstTrails = s.met :=
    (lasts_firstTrails hs (Nat.le_refl _)).overRounds_eq rfl hk
  have henumerate : s.enumerate limit k [] s.firstTrails = do
      checkLimit limit s.met.length
      return s.met := by
    have heq := enumerate_eq limit [] hlasts
    rwa [List.length_nil, checkLimit_zero, ok_bind, List.nil_append, hmet] at heq
  rw [maximalPaths_eq hs, henumerate, bind_assoc]
  rfl

end Successors

/-! ## Path sets -/

variable {net : Net} {g : StepGraph} {stepLimit : Option Nat}

/-- The walk goes along at least one used arc and repeats no node, or only its last one. -/
structure StepGraph.IsMet (g : StepGraph) (w : List Node) : Prop where
  chain : w.IsChain g.Uses
  arc : 2 ≤ w.length
  simple : w.Nodup ∨ IsClosed w

/-- **There are as many such walks as paths that the search meets.** -/
theorem StepGraph.encard_isMet (h : g.net.WellFormed) (harcs : g.net.arcs.toList.Nodup) :
    {w | g.IsMet w}.encard = g.successors.met.length := by
  have hnodup : (g.successors.met.map (·.nodes)).Nodup :=
    (isSimple_successors harcs).nodup_met.map_on fun p hp q hq => nodes_inj_of_mem_met h hp hq
  have hencard := encard_eq_length hnodup (S := {w | g.IsMet w}) fun w => ?_
  · rwa [List.length_map] at hencard
  rw [List.mem_map, Set.mem_ofPred_eq]
  constructor
  · rintro ⟨p, hp, rfl⟩
    obtain ⟨hchain, harc, hend⟩ := (mem_met_iff h).mp hp
    refine ⟨hchain, harc, ?_⟩
    split at hend
    · exact Or.inr hend
    · exact Or.inl hend
  · rintro ⟨hchain, harc, hnodup | hclosed⟩
    · exact ⟨⟨w, false⟩, (mem_met_iff h).mpr ⟨hchain, harc, hnodup⟩, rfl⟩
    · exact ⟨⟨w, true⟩, (mem_met_iff h).mpr ⟨hchain, harc, hclosed⟩, rfl⟩

/-- **The limit on paths is an exact threshold.** In a net with single arcs the search fails exactly if
there are more walks along used arcs than the limit allows, counting those of at least one arc that
repeat no node, or only their last one, and not just the maximal ones. Else it finds the paths that it
finds without a limit. The check once in each round is as good as one after each open path, in as many
rounds as there may be. -/
theorem path_limit_exact (h : net.WellFormed) (harcs : net.arcs.toList.Nodup)
    (hg : net.stepGraph stepLimit = .ok g) (limit : Nat) :
    {w | g.IsMet w}.Finite ∧
    (g.pathSet (some limit) = .error (.tooManyPaths limit) ↔
      (limit : ENat) < {w | g.IsMet w}.encard) ∧
    ((∃ s, g.pathSet (some limit) = .ok s) ↔ {w | g.IsMet w}.encard ≤ limit) ∧
    (∀ s, g.pathSet (some limit) = .ok s → g.pathSet none = .ok s) ∧
    ∀ bound k, g.successors.rounds ≤ k → g.successors.maximalPaths bound = do
      let all ← g.successors.enumerate bound k [] g.successors.firstTrails
      return longest all := by
  obtain rfl := net_of_stepGraph hg
  have hgathered := g.isGathered_successors h
  have hencard := StepGraph.encard_isMet h harcs
  have hmore (hlt : limit < g.successors.met.length) :
      g.pathSet (some limit) = .error (.tooManyPaths limit) := by
    rw [StepGraph.pathSet, Successors.maximalPaths_eq hgathered, Successors.checkLimit_eq_error hlt]
    rfl
  have hfewer (hle : g.successors.met.length ≤ limit) : ∃ s, g.pathSet (some limit) = .ok s := by
    rw [StepGraph.pathSet, Successors.maximalPaths_eq hgathered,
      Successors.checkLimit_some_eq_ok hle]
    exact ⟨_, rfl⟩
  refine ⟨Set.finite_of_encard_eq_coe hencard, ?_, ?_, fun s hs =>
    pathSet_of_loosens h (loosens_none _) hs,
    fun bound k hk => Successors.maximalPaths_eq_enumerate hgathered hk bound⟩
  · rw [hencard, Nat.cast_lt]
    constructor
    · intro herror
      by_contra hle
      obtain ⟨s, hs⟩ := hfewer (Nat.le_of_not_lt hle)
      rw [hs] at herror
      cases herror
    · exact hmore
  · rw [hencard, Nat.cast_le]
    constructor
    · rintro ⟨s, hs⟩
      by_contra hlt
      rw [hmore (Nat.lt_of_not_le hlt)] at hs
      cases hs
    · exact hfewer

/-- The roundabout has 25 such walks, of which 9 are maximal. -/
theorem path_limit_exact_roundabout : ∃ g, roundabout.stepGraph none = .ok g ∧
    {w | g.IsMet w}.encard = 25 ∧ (∃ s, g.pathSet (some 25) = .ok s ∧ s.paths.length = 9) ∧
    g.pathSet (some 24) = .error (.tooManyPaths 24) := by
  have hmet : (roundabout.survey none).toOption.map (·.successors.met.length) = some 25 := by
    decide +kernel
  obtain ⟨g, hg, hmet⟩ := exists_ok_of_map hmet
  have hpaths : ((roundabout.survey none >>= (·.pathSet none)).toOption.map (·.paths.length))
      = some 9 := by
    decide +kernel
  rw [hg, ok_bind] at hpaths
  obtain ⟨s, hs, hlength⟩ := exists_ok_of_map hpaths
  rw [← Net.stepGraph_eq_survey] at hg
  have h := roundabout_made.wellFormed
  have harcs : roundabout.arcs.toList.Nodup := by decide +kernel
  have hencard : {w | g.IsMet w}.encard = 25 := by
    have hnet := net_of_stepGraph hg
    rw [StepGraph.encard_isMet (hnet ▸ h) (hnet ▸ harcs), hmet]
    rfl
  obtain ⟨-, -, hok, hsame, -⟩ := path_limit_exact h harcs hg 25
  obtain ⟨-, herror, -⟩ := path_limit_exact h harcs hg 24
  obtain ⟨s', hs'⟩ := hok.mpr (by rw [hencard]; rfl)
  obtain rfl := Except.ok.inj (hs.symm.trans (hsame s' hs'))
  refine ⟨g, hg, hencard, ⟨s, hs', hlength⟩, herror.mpr ?_⟩
  rw [hencard]
  exact Nat.cast_lt.mpr (by decide : 24 < 25)

end RoutePolicy
