import RoutePolicy.Proofs.Except
import RoutePolicy.StepGraph

set_option autoImplicit false

/-! # The search without its table

The table of the search gives each marking its position among the markings met, so a search that
looks the position up there finds the same steps and moves (`Net.stepGraph_eq_survey`), and the
table can be made from the markings in the end. Unlike with the table, what this search finds can be
computed inside a proof. -/

namespace RoutePolicy

namespace Discovery

/-- What the search has found, without the table. -/
def untabled (d : Discovery) : Discovery := { d with numbers := ∅ }

/-- The table that is made by numbering the markings one after the other. -/
def numbering (ms : List Marking) : Std.HashMap Marking Nat :=
  ms.zipIdx.foldl (fun table (m, i) => table.insert m i) ∅

/-- The table is made from the markings, and gives each of them its position. -/
structure IsTabled (d : Discovery) : Prop where
  position : ∀ m : Marking, d.numbers[m]? = d.markings.toList.idxOf? m
  table : d.numbers = numbering d.markings.toList

/-- The number of a marking, looked up among the markings met. -/
def survey (cap : Nat) (d : Discovery) (m : Marking) : Except Failure (Discovery × Nat) :=
  match d.markings.toList.idxOf? m with
  | some i => .ok (d, i)
  | none =>
    let n := d.markings.size
    if cap ≤ n then .error (.tooManySteps cap n)
    else .ok ({ d with markings := d.markings.push m }, n)

end Discovery

namespace Net

/-- The moves of a step, with positions looked up among the markings met. -/
def expandBySurvey (net : Net) (cap source : Nat) (m : Marking) :
    List TransitionId → Discovery → Except Failure Discovery
  | [], d => .ok d
  | t :: ts, d => do
    let next ← net.fireAt m t
    let (d, target) ← d.survey cap next
    let label ← net.nodeName t
    net.expandBySurvey cap source m ts { d with moves := d.moves.push ⟨source, target, t, label⟩ }

/-- The waiting steps, with positions looked up among the markings met. -/
def exploreBySurvey (net : Net) (cap : Nat) : Nat → Discovery → Except Failure Discovery
  | 0, d => .ok d
  | fuel + 1, d =>
    match d.markings[d.steps.size]? with
    | none => .ok d
    | some m => do
      let enabled ← net.enabledAt m
      let d ← net.expandBySurvey cap d.steps.size m enabled d
      net.exploreBySurvey cap fuel { d with steps := d.steps.push ⟨d.steps.size, m, enabled⟩ }

/-- The step graph, with positions looked up among the markings met. -/
def survey (net : Net) (limit : Option Nat) : Except Failure StepGraph := do
  let cap := limit.getD net.markingCount
  let d ← net.exploreBySurvey cap (max cap 1) ⟨#[net.marking], ∅, #[], #[]⟩
  return ⟨net, d.steps, d.moves, Discovery.numbering d.markings.toList⟩

end Net

/-! ## Both searches agree -/

variable {net : Net} {d : Discovery} {cap : Nat}

theorem Discovery.numbering_concat (ms : List Marking) (m : Marking) :
    numbering (ms ++ [m]) = (numbering ms).insert m ms.length := by
  rw [numbering, List.zipIdx_append, List.foldl_append, numbering, Nat.zero_add]
  rfl

theorem Discovery.isTabled_start (m : Marking) : (start m).IsTabled := by
  refine ⟨fun x => ?_, rfl⟩
  show ((∅ : Std.HashMap Marking Nat).insert m 0)[x]? = [m].idxOf? x
  rw [Std.HashMap.getElem?_insert, List.idxOf?_cons]
  simp

theorem idxOf?_concat {α : Type} [BEq α] (l : List α) (a x : α) :
    (l ++ [a]).idxOf? x = (l.idxOf? x).or (if a == x then some l.length else none) := by
  rw [List.idxOf?, List.findIdx?_append, List.findIdx?_singleton]
  split <;> simp

/-- Both look-ups give the same number, and the table stays right. -/
theorem Discovery.IsTabled.visit (cap : Nat) (h : d.IsTabled) (m : Marking) :
    (∃ d' i, d.visit cap m = .ok (d', i) ∧ d'.IsTabled ∧
      d.untabled.survey cap m = .ok (d'.untabled, i)) ∨
    ∃ e, d.visit cap m = .error e ∧ d.untabled.survey cap m = .error e := by
  -- what the table says is the position in the list
  have hlook : d.untabled.markings.toList.idxOf? m = d.numbers[m]? := (h.position m).symm
  unfold Discovery.visit survey
  rw [hlook]
  cases hm : d.numbers[m]? with
  | some i => exact Or.inl ⟨d, i, rfl, h, rfl⟩
  | none =>
      by_cases hcap : cap ≤ d.markings.size
      · exact Or.inr ⟨_, if_pos hcap, if_pos hcap⟩
      · refine Or.inl ⟨_, _, if_neg hcap, ⟨fun x => ?_, ?_⟩, if_neg hcap⟩
        · rw [Std.HashMap.getElem?_insert, Array.toList_push, idxOf?_concat, ← h.position x]
          split
          · rename_i hmx
            rw [← eq_of_beq hmx, hm]
            rfl
          · rw [Option.or_none]
        · show d.numbers.insert m d.markings.size = numbering (d.markings.push m).toList
          rw [h.table, Array.toList_push, numbering_concat]
          rfl

/-- Both searches fail alike, or the table of what is found is right and the rest is the same. -/
def Agree (x y : Except Failure Discovery) : Prop :=
  (∃ d, x = .ok d ∧ d.IsTabled ∧ y = .ok d.untabled) ∨ ∃ e, x = .error e ∧ y = .error e

theorem agree_expand {source : Nat} {m : Marking} (ts : List TransitionId) (h : d.IsTabled) :
    Agree (net.expand cap source m ts d) (net.expandBySurvey cap source m ts d.untabled) := by
  induction ts generalizing d with
  | nil => exact Or.inl ⟨d, rfl, h, rfl⟩
  | cons t ts ih =>
      rw [Net.expand, Net.expandBySurvey]
      cases net.fireAt m t with
      | error e => exact Or.inr ⟨e, rfl, rfl⟩
      | ok next =>
          rw [ok_bind, ok_bind]
          rcases h.visit cap next with ⟨d', i, hd', h', hs⟩ | ⟨e, he, hs⟩
          · rw [hd', hs, ok_bind, ok_bind]
            cases net.nodeName t with
            | error e => exact Or.inr ⟨e, rfl, rfl⟩
            | ok label =>
                exact ih (d := { d' with moves := d'.moves.push ⟨source, i, t, label⟩ })
                  ⟨h'.position, h'.table⟩
          · rw [he, hs]
            exact Or.inr ⟨e, rfl, rfl⟩

theorem agree_explore (net : Net) (cap fuel : Nat) (h : d.IsTabled) :
    Agree (net.explore cap fuel d) (net.exploreBySurvey cap fuel d.untabled) := by
  induction fuel generalizing d with
  | zero => exact Or.inl ⟨d, rfl, h, rfl⟩
  | succ fuel ih =>
      rw [Net.explore, Net.exploreBySurvey]
      show Agree _ (match d.markings[d.steps.size]? with | none => _ | some m => _)
      cases d.markings[d.steps.size]? with
      | none => exact Or.inl ⟨d, rfl, h, rfl⟩
      | some m =>
          show Agree (net.enabledAt m >>= _) (net.enabledAt m >>= _)
          cases net.enabledAt m with
          | error e => exact Or.inr ⟨e, rfl, rfl⟩
          | ok enabled =>
              rw [ok_bind, ok_bind]
              rcases agree_expand enabled h with ⟨d', hd', h', hs⟩ | ⟨e, he, hs⟩
              · show Agree (net.expand cap d.steps.size m enabled d >>= _)
                  (net.expandBySurvey cap d.steps.size m enabled d.untabled >>= _)
                rw [hd', hs]
                exact ih (d := { d' with steps := d'.steps.push ⟨d'.steps.size, m, enabled⟩ })
                  ⟨h'.position, h'.table⟩
              · show Agree (net.expand cap d.steps.size m enabled d >>= _)
                  (net.expandBySurvey cap d.steps.size m enabled d.untabled >>= _)
                rw [he, hs]
                exact Or.inr ⟨e, rfl, rfl⟩

/-- **The step graph is the one that a search without a table finds.** -/
theorem Net.stepGraph_eq_survey (net : Net) (limit : Option Nat) :
    net.stepGraph limit = net.survey limit := by
  unfold stepGraph survey
  have hstart : (⟨#[net.marking], ∅, #[], #[]⟩ : Discovery) = (Discovery.start net.marking).untabled :=
    rfl
  rw [hstart]
  rcases agree_explore net (limit.getD net.markingCount) (max (limit.getD net.markingCount) 1)
    (Discovery.isTabled_start net.marking) with ⟨d, hd, htabled, hs⟩ | ⟨e, he, hs⟩
  · simp only [hd, hs]
    show Except.ok _ = Except.ok _
    rw [htabled.table]
    rfl
  · simp only [he, hs]
    rfl

end RoutePolicy
