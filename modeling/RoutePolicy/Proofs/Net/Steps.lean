import RoutePolicy.Proofs.Net.Moves
import RoutePolicy.Proofs.StateLimit

set_option autoImplicit false

/-! # Steps that fail

A transition that is enabled fails to fire only if a place gets more markers than can be counted
(`Net.WellFormed.fireAt_eq_error`).

In a batched step all enabled transitions fire. The count of a place changes by the number of arcs
from them less the number of arcs into them (`Net.batchSum`), in signed 64-bit numbers, and stops at
zero. In a well-formed net the step fails only if one of these numbers leaves its range
(`Net.WellFormed.fireAllAt`). -/

namespace RoutePolicy

variable {net : Net} {m : Marking} {t : TransitionId} {ts : List TransitionId}

/-! ## One transition -/

/-- Markers cannot be put only because there are too many. -/
theorem Marking.foldlM_put_eq_error {ps : List PlaceId} {e : Failure}
    (h : ∀ p ∈ ps, m.contains p = true) (he : ps.foldlM Marking.put m = .error e) :
    e = .overflow := by
  induction ps generalizing m with
  | nil => cases he
  | cons p ps ih =>
      obtain ⟨hp, hps⟩ := List.forall_mem_cons.mp h
      rw [List.foldlM_cons] at he
      by_cases hlt : m.tokens p + 1 < countRange
      · rw [put_eq_ok_iff.mpr ⟨hp, hlt, rfl⟩, ok_bind] at he
        refine ih (fun q hq => ?_) he
        rw [Arena.set, Arena.contains_modify]
        exact hps q hq
      · have hput : m.put p = .error .overflow := by
          rw [put, require_eq_ok_iff.mpr ⟨hp, rfl⟩, ok_bind, if_neg hlt]
          rfl
        rw [hput] at he
        cases he
        rfl

/-- **Why a transition of a well-formed net does not fire.** -/
theorem Net.WellFormed.fireAt_eq_error (h : net.WellFormed) (hm : m.size = net.places.size)
    (ht : net.contains t.node = true) :
    (¬net.Enables m t → net.fireAt m t = .error (.notEnabled t)) ∧
      (net.Enables m t → (∃ m', net.fireAt m t = .ok m') ∨
        net.fireAt m t = .error .overflow) := by
  constructor
  · intro hnot
    obtain ⟨b, hb, hiff⟩ := h.isEnabledAt hm ht
    cases b with
    | false =>
        rw [fireAt, hb]
        rfl
    | true => exact absurd ⟨ht, hiff.mp rfl⟩ hnot
  · intro hen
    obtain ⟨ps, hps, hcount⟩ := h.preset ht
    obtain ⟨qs, hqs, hcount'⟩ := h.postset ht
    obtain ⟨m₁, hm₁⟩ : ∃ m₁, ps.foldlM Marking.take m = .ok m₁ :=
      Marking.exists_foldlM_take fun p hp =>
        h.contains_marking hm (Or.inr (hcount p ▸ List.count_pos_iff.mpr hp))
    have hfire : net.fireAt m t = qs.foldlM Marking.put m₁ := by
      rw [fireAt, (h.isEnabledAt_eq_true_iff hm).mpr hen, ok_bind, if_pos rfl, hps, ok_bind, hqs,
        ok_bind, hm₁, ok_bind]
    rw [hfire]
    cases hput : qs.foldlM Marking.put m₁ with
    | ok m' => exact Or.inl ⟨m', rfl⟩
    | error e =>
        refine Or.inr (congrArg Except.error (Marking.foldlM_put_eq_error (fun p hp => ?_) hput))
        exact h.contains_marking ((Marking.foldlM_take hm₁).1.trans hm)
          (Or.inl (hcount' p ▸ List.count_pos_iff.mpr hp))

/-! ## All enabled transitions together -/

theorem Marking.toPairs_eq (m : Marking) : m.toPairs = m.indices.map fun p => (p, m.tokens p) := by
  refine List.ext_getElem (by simp [Arena.toPairs, Arena.indices, Arena.toList, Arena.size])
    fun i hi hi' => ?_
  have hsize : i < m.entries.size := by simpa [Arena.toPairs, Arena.toList] using hi
  simp [Arena.toPairs, Arena.indices, Arena.toList, tokens, Arena.get?, Index.position,
    Index.ofPosition, Array.getElem?_eq_getElem hsize]

namespace Net

/-- The number of arcs from the transitions into a place less that of arcs from the place into
them. -/
def batchSum (net : Net) (ts : List TransitionId) (p : PlaceId) : Int :=
  ((ts.map fun t => net.arcCount t.node p.node).sum : Nat)
    - ((ts.map fun t => net.arcCount p.node t.node).sum : Nat)

/-- A count can be changed so: the result is a signed number of 64 bits. -/
structure FitsSigned (tokens : Nat) (change : Int) : Prop where
  low : -(signedRange : Int) ≤ signedCount tokens + change
  high : signedCount tokens + change < signedRange

theorem changedCount_eq_ok {n : Nat} {change : Int} (h : FitsSigned n change) :
    changedCount n change = .ok (signedCount n + change).toNat := by
  simp only [changedCount, h.low, h.high, and_self, if_true]

theorem changedCount_eq_error {n : Nat} {change : Int} (h : ¬FitsSigned n change) :
    changedCount n change = .error .overflow := by
  have hno : ¬(-(signedRange : Int) ≤ signedCount n + change ∧
      signedCount n + change < signedRange) := fun hfits => h ⟨hfits.1, hfits.2⟩
  simp only [changedCount, hno, if_false]

/-- The input or output places of transitions, one for each arc, put together. -/
theorem exists_mapM_places {f : TransitionId → Except Failure (List PlaceId)}
    {g : PlaceId → TransitionId → Nat}
    (h : ∀ t ∈ ts, ∃ ps, f t = .ok ps ∧ ∀ p, ps.count p = g p t) :
    ∃ pss, ts.mapM f = .ok pss ∧ ∀ p, pss.flatten.count p = (ts.map (g p)).sum := by
  induction ts with
  | nil => exact ⟨[], rfl, fun p => rfl⟩
  | cons t ts ih =>
      obtain ⟨⟨ps, hps, hcount⟩, hts⟩ := List.forall_mem_cons.mp h
      obtain ⟨pss, hpss, hsum⟩ := ih hts
      refine ⟨ps :: pss, mapM_cons_eq_ok_iff.mpr ⟨ps, pss, hps, hpss, rfl⟩, fun p => ?_⟩
      rw [List.flatten_cons, List.count_append, hcount, hsum, List.map_cons, List.sum_cons]

/-- The changes of a batched step in a well-formed net. -/
theorem WellFormed.batchChange (h : net.WellFormed)
    (hts : ∀ t ∈ ts, net.contains t.node = true) : net.batchChange ts = .ok (net.batchSum ts) := by
  obtain ⟨inputs, hinputs, htaken⟩ := exists_mapM_places fun t ht => h.preset (hts t ht)
  obtain ⟨outputs, houtputs, hgiven⟩ := exists_mapM_places fun t ht => h.postset (hts t ht)
  have hin : (inputs.flatten ++ outputs.flatten).all net.places.contains = true := by
    rw [List.all_eq_true]
    intro p hp
    -- a place of the list has an arc to or from a transition
    by_contra hno
    have hzero (n : Node) := h.arcCount_eq_zero (n := p.node) (fun hp => hno hp) n
    have hcount : (inputs.flatten ++ outputs.flatten).count p = 0 := by
      rw [List.count_append, htaken, hgiven]
      simp [hzero]
    exact List.count_eq_zero.mp hcount hp
  rw [Net.batchChange, hinputs, ok_bind, houtputs, ok_bind, if_pos hin]
  refine congrArg Except.ok (funext fun p => ?_)
  rw [batchSum, ← htaken, ← hgiven]

/-- **What a batched step does in a well-formed net**, and when it fails. -/
theorem WellFormed.fireAllAt (h : net.WellFormed) (hm : m.size = net.places.size) :
    ∃ fired, net.enabledAt m = .ok fired ∧ (∀ t, t ∈ fired ↔ net.Enables m t) ∧ fired.Nodup ∧
      ((∀ p, net.contains p.node = true → FitsSigned (m.tokens p) (net.batchSum fired p)) →
        net.fireAllAt m = .ok (net.markingOf fun p =>
          (signedCount (m.tokens p) + net.batchSum fired p).toNat, fired)) ∧
      ((∃ p, net.contains p.node = true ∧ ¬FitsSigned (m.tokens p) (net.batchSum fired p)) →
        net.fireAllAt m = .error .overflow) := by
  obtain ⟨fired, hfired, hmem⟩ := h.exists_enabledAt hm
  have hchange : net.batchChange fired = .ok (net.batchSum fired) :=
    h.batchChange fun t ht => ((hmem t).mp ht).1
  have hindices : m.indices = net.places.indices := by rw [Arena.indices, Arena.indices, hm]
  -- the counts are changed place by place
  obtain ⟨f, hf⟩ : ∃ f : PlaceId → Except Failure Nat, f = fun p =>
    changedCount (m.tokens p) (net.batchSum fired p) := ⟨_, rfl⟩
  have hstep : net.fireAllAt m = net.places.indices.mapM f >>= fun counts =>
      .ok (.ofList counts, fired) := by
    rw [Net.fireAllAt, hfired, ok_bind, hchange, ok_bind, m.toPairs_eq, hindices, List.mapM_map, hf]
    simp only [Function.comp_def, pure, Except.pure]
  refine ⟨fired, hfired, hmem, nodup_of_pairwise_index (pairwise_enabledAt hfired), fun hfits => ?_,
    fun hover => ?_⟩
  · have hcounts (p : PlaceId) (hp : p ∈ net.places.indices) :
        f p = .ok (signedCount (m.tokens p) + net.batchSum fired p).toNat := by
      rw [hf]
      exact changedCount_eq_ok (hfits p (Arena.mem_indices_iff.mp hp))
    rw [hstep, mapM_eq_ok hcounts, ok_bind, markingOf]
  · obtain ⟨p, hp, hno⟩ := hover
    have hfails : ∃ p ∈ net.places.indices, f p = .error .overflow :=
      ⟨p, Arena.mem_indices_iff.mpr hp, by rw [hf]; exact changedCount_eq_error hno⟩
    have honly (q : PlaceId) (_ : q ∈ net.places.indices) (e : Failure) (he : f q = .error e) :
        e = .overflow := by
      simp only [hf] at he
      by_cases hq : FitsSigned (m.tokens q) (net.batchSum fired q)
      · rw [changedCount_eq_ok hq] at he
        cases he
      · rw [changedCount_eq_error hq] at he
        exact (Except.error.inj he).symm
    rw [hstep, mapM_eq_error honly hfails]
    rfl

end Net

end RoutePolicy
