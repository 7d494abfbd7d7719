import Mathlib.Data.List.Induction
import RoutePolicy.Net.Firing
import RoutePolicy.Proofs.Except
import RoutePolicy.Proofs.Net.WellFormed

set_option autoImplicit false

/-! # Firing sequences

A firing sequence fires one transition after the other, each of them enabled when its turn comes
(`Net.run`, and `Net.runAt` on markings alone). In a well-formed net one firing takes and puts as
many markers as there are arcs (`Net.WellFormed.tokens_fireAt`).
-/

namespace RoutePolicy

namespace Net

/-- The marking after the transitions have fired one after the other. -/
def runAt (net : Net) (m : Marking) (ts : List TransitionId) : Except Failure Marking :=
  ts.foldlM net.fireAt m

/-- The net after the transitions have fired one after the other. -/
def run (net : Net) (ts : List TransitionId) : Except Failure Net := ts.foldlM fireTransition net

/-- Some firing sequence leads from one marking to the other. -/
def Reaches (net : Net) (m m' : Marking) : Prop := ∃ ts, net.runAt m ts = .ok m'

/-- The transition fires in some firing sequence from the net's own marking. -/
def Fires (net : Net) (t : TransitionId) : Prop := ∃ ts net', net.run ts = .ok net' ∧ t ∈ ts

/-- Some sequence of firings leads to a net with this marking. -/
def CanReach (net : Net) (m : Marking) : Prop := ∃ ts net', net.run ts = .ok net' ∧ net'.marking = m

/-- The number of arcs from one node to another. -/
def arcCount (net : Net) (n m : Node) : Nat := net.arcs.toList.count ⟨n, m⟩

end Net

/-- The number of markers in a place; none in a place that the marking does not count. -/
def Marking.tokens (m : Marking) (p : PlaceId) : Nat := (m.get? p).getD 0

/-- Every place with an arc to the transition holds a marker. -/
def Net.Enables (net : Net) (m : Marking) (t : TransitionId) : Prop :=
  net.contains t.node = true ∧ ∀ p : PlaceId, ⟨p.node, t.node⟩ ∈ net.arcs.toList → 0 < m.tokens p

/-! ## Counting markers -/

namespace Marking

theorem tokens_set (m : Marking) (p q : PlaceId) (n : Nat) :
    tokens (m.set p n) q = if p = q ∧ m.contains p = true then n else m.tokens q := by
  unfold tokens
  rw [Arena.set, Arena.get?_modify]
  by_cases hpq : p = q
  · subst hpq
    cases hp : m.get? p with
    | none => simp [Arena.get?_eq_none_iff.mp hp]
    | some k => simp [Arena.contains_of_get? hp]
  · rw [if_neg (fun h => hpq (Arena.position_inj.mp h)), if_neg (fun h => hpq h.1)]

theorem require_eq_ok_iff {m : Marking} {p : PlaceId} {n : Nat} :
    m.require p = .ok n ↔ m.contains p = true ∧ n = m.tokens p := by
  unfold tokens
  rw [Arena.require_eq_ok_iff, Arena.contains_iff_exists]
  cases m.get? p <;> simp [eq_comm]

theorem take_eq_ok_iff {m m' : Marking} {p : PlaceId} :
    m.take p = .ok m' ↔ m.contains p = true ∧ m' = m.set p (m.tokens p - 1) := by
  rw [take, bind_eq_ok_iff]
  simp only [require_eq_ok_iff]
  constructor
  · rintro ⟨n, ⟨hp, rfl⟩, h⟩
    cases h
    exact ⟨hp, rfl⟩
  · rintro ⟨hp, rfl⟩
    exact ⟨_, ⟨hp, rfl⟩, rfl⟩

theorem put_eq_ok_iff {m m' : Marking} {p : PlaceId} : m.put p = .ok m' ↔
    m.contains p = true ∧ m.tokens p + 1 < countRange ∧ m' = m.set p (m.tokens p + 1) := by
  rw [put, bind_eq_ok_iff]
  simp only [require_eq_ok_iff]
  constructor
  · rintro ⟨n, ⟨hp, rfl⟩, h⟩
    split at h
    · rename_i hlt
      cases h
      exact ⟨hp, hlt, rfl⟩
    · cases h
  · rintro ⟨hp, hlt, rfl⟩
    exact ⟨_, ⟨hp, rfl⟩, by rw [if_pos hlt]; rfl⟩

/-- Taking markers from a list of places takes one for each occurrence. -/
theorem foldlM_take {ps : List PlaceId} {m m' : Marking} (h : ps.foldlM take m = .ok m') :
    m'.size = m.size ∧ ∀ p, m'.tokens p = m.tokens p - ps.count p := by
  induction ps generalizing m with
  | nil =>
      cases h
      exact ⟨rfl, fun p => by simp⟩
  | cons q ps ih =>
      rw [List.foldlM_cons, bind_eq_ok_iff] at h
      obtain ⟨m₁, hm₁, h⟩ := h
      obtain ⟨hq, rfl⟩ := take_eq_ok_iff.mp hm₁
      obtain ⟨hsize, htokens⟩ := ih h
      refine ⟨hsize.trans (Arena.size_modify _ _ _), fun p => ?_⟩
      rw [htokens p, tokens_set, List.count_cons]
      by_cases hqp : q = p
      · subst hqp
        simp [hq]
        omega
      · simp [hqp]

/-- One marker that is put, and one for each of the places to come, make up the count of a place. -/
theorem tokens_put_add_count {m : Marking} {q : PlaceId} (hq : m.contains q = true)
    (ps : List PlaceId) (p : PlaceId) :
    tokens (m.set q (m.tokens q + 1)) p + ps.count p = m.tokens p + (q :: ps).count p := by
  rw [tokens_set, List.count_cons]
  by_cases hqp : q = p
  · subst hqp
    simp [hq]
    omega
  · simp [hqp]

/-- Putting markers into a list of places puts one for each occurrence. -/
theorem foldlM_put {ps : List PlaceId} {m m' : Marking} (h : ps.foldlM put m = .ok m') :
    m'.size = m.size ∧ ∀ p, m'.tokens p = m.tokens p + ps.count p := by
  induction ps generalizing m with
  | nil =>
      cases h
      exact ⟨rfl, fun p => by simp⟩
  | cons q ps ih =>
      rw [List.foldlM_cons, bind_eq_ok_iff] at h
      obtain ⟨m₁, hm₁, h⟩ := h
      obtain ⟨hq, -, rfl⟩ := put_eq_ok_iff.mp hm₁
      obtain ⟨hsize, htokens⟩ := ih h
      refine ⟨hsize.trans (Arena.size_modify _ _ _), fun p => ?_⟩
      rw [htokens p, tokens_put_add_count hq]

/-- Markers can be taken from all places that the marking counts. -/
theorem exists_foldlM_take {ps : List PlaceId} {m : Marking}
    (h : ∀ p ∈ ps, m.contains p = true) : ∃ m', ps.foldlM take m = .ok m' := by
  induction ps generalizing m with
  | nil => exact ⟨m, rfl⟩
  | cons p ps ih =>
      obtain ⟨hp, hps⟩ := List.forall_mem_cons.mp h
      obtain ⟨m', hm'⟩ := ih (m := m.set p (m.tokens p - 1)) fun q hq => by
        rw [Arena.set, Arena.contains_modify]
        exact hps q hq
      refine ⟨m', ?_⟩
      rw [List.foldlM_cons, take_eq_ok_iff.mpr ⟨hp, rfl⟩, ok_bind, hm']

/-- Markers can be put exactly if every place is counted and its count stays in range. -/
theorem exists_foldlM_put_iff {ps : List PlaceId} {m : Marking} :
    (∃ m', ps.foldlM put m = .ok m') ↔
      ∀ p ∈ ps, m.contains p = true ∧ m.tokens p + ps.count p < countRange := by
  induction ps generalizing m with
  | nil => exact iff_of_true ⟨m, rfl⟩ fun p hp => absurd hp List.not_mem_nil
  | cons q ps ih =>
      have hcontains (p : PlaceId) : (m.set q (m.tokens q + 1)).contains p = m.contains p :=
        Arena.contains_modify _ _ _ _
      constructor
      · rintro ⟨m', h⟩
        rw [List.foldlM_cons, bind_eq_ok_iff] at h
        obtain ⟨m₁, hm₁, h⟩ := h
        obtain ⟨hq, hlt, rfl⟩ := put_eq_ok_iff.mp hm₁
        have hrest := ih.mp ⟨m', h⟩
        have hin (p : PlaceId) (hp : p ∈ ps) :
            m.contains p = true ∧ m.tokens p + (q :: ps).count p < countRange := by
          obtain ⟨hpin, hplt⟩ := hrest p hp
          rw [tokens_put_add_count hq] at hplt
          exact ⟨hcontains p ▸ hpin, hplt⟩
        refine List.forall_mem_cons.mpr ⟨⟨hq, ?_⟩, hin⟩
        by_cases hmem : q ∈ ps
        · exact (hin q hmem).2
        · rw [List.count_cons_self, List.count_eq_zero.mpr hmem]
          exact hlt
      · intro h
        obtain ⟨⟨hq, hlt⟩, hps⟩ := List.forall_mem_cons.mp h
        have hput : m.put q = .ok (m.set q (m.tokens q + 1)) := by
          rw [List.count_cons_self] at hlt
          exact put_eq_ok_iff.mpr ⟨hq, by omega, rfl⟩
        obtain ⟨m', hm'⟩ := ih.mpr fun p hp => by
          rw [hcontains, tokens_put_add_count hq]
          exact hps p hp
        refine ⟨m', ?_⟩
        rw [List.foldlM_cons, hput, ok_bind, hm']

end Marking

/-! ## One firing -/

namespace Net

variable {net : Net} {m m' : Marking} {t : TransitionId} {ts : List TransitionId}

theorem arcCount_pos_iff {n n' : Node} : 0 < net.arcCount n n' ↔ ⟨n, n'⟩ ∈ net.arcs.toList :=
  List.count_pos_iff

theorem fireAt_eq_ok_iff : net.fireAt m t = .ok m' ↔ net.isEnabledAt m t = .ok true ∧
    ∃ ps qs m₁, net.preset t = .ok ps ∧ net.postset t = .ok qs ∧
      ps.foldlM Marking.take m = .ok m₁ ∧ qs.foldlM Marking.put m₁ = .ok m' := by
  rw [fireAt, bind_eq_ok_iff]
  constructor
  · rintro ⟨b, hb, h⟩
    cases b with
    | false => cases h
    | true =>
        rw [if_pos rfl, bind_eq_ok_iff] at h
        obtain ⟨ps, hps, h⟩ := h
        obtain ⟨qs, hqs, h⟩ := bind_eq_ok_iff.mp h
        obtain ⟨m₁, hm₁, h⟩ := bind_eq_ok_iff.mp h
        exact ⟨hb, ps, qs, m₁, hps, hqs, hm₁, h⟩
  · rintro ⟨hb, ps, qs, m₁, hps, hqs, hm₁, h⟩
    refine ⟨true, hb, ?_⟩
    rw [if_pos rfl, hps, ok_bind, hqs, ok_bind, hm₁, ok_bind, h]

theorem incoming_eq_ok_iff {n : Node} {as : List ArcId} :
    net.incoming n = .ok as ↔ net.incoming? n = some as := by
  unfold incoming
  cases net.incoming? n <;> simp

theorem outgoing_eq_ok_iff {n : Node} {as : List ArcId} :
    net.outgoing n = .ok as ↔ net.outgoing? n = some as := by
  unfold outgoing
  cases net.outgoing? n <;> simp

/-- Only a transition of the net can be tested. -/
theorem contains_of_isEnabledAt {b : Bool} (h : net.isEnabledAt m t = .ok b) :
    net.contains t.node = true := by
  obtain ⟨as, has, -⟩ := bind_eq_ok_iff.mp h
  exact contains_iff_incoming?.mpr ⟨as, incoming_eq_ok_iff.mp has⟩

theorem size_fireAt (h : net.fireAt m t = .ok m') : m'.size = m.size := by
  obtain ⟨-, ps, qs, m₁, -, -, hm₁, hm'⟩ := fireAt_eq_ok_iff.mp h
  exact (Marking.foldlM_put hm').1.trans (Marking.foldlM_take hm₁).1

/-! ## Firing in a well-formed net -/

/-- Following the listed arcs of a node leads along the arcs of the net. -/
theorem mapM_require_eq_ok {tip far : Arc → Node} {view : Node → Option (List ArcId)} {n : Node}
    {as : List ArcId} (hl : Lists net.arcs tip view) (has : view n = some as) :
    (as.mapM fun a => return far (← net.arcs.require a))
      = .ok ((as.filterMap net.arcs.get?).map far) := by
  obtain ⟨-, hiff⟩ := hl n as has
  have hget : ∀ a ∈ as, ∃ arc, net.arcs.get? a = some arc := fun a ha =>
    ((hiff a).mp ha).imp fun _ => And.left
  clear has hiff
  induction as with
  | nil => rfl
  | cons a as ih =>
      obtain ⟨⟨arc, ha⟩, has⟩ := List.forall_mem_cons.mp hget
      refine mapM_cons_eq_ok_iff.mpr ⟨far arc, _, ?_, ih has, ?_⟩
      · rw [Arena.require_eq_ok_iff.mpr ha]
        rfl
      · rw [List.filterMap_cons_some ha, List.map_cons]

/-- Among the far ends of the arcs at a node, each place occurs once for each arc. -/
theorem count_filterMap_place? {tip far : Arc → Node} {view : Node → Option (List ArcId)}
    {n : Node} {as : List ArcId} (hl : Lists net.arcs tip view) (has : view n = some as)
    (p : PlaceId) : (((as.filterMap net.arcs.get?).map far).filterMap Node.place?).count p
      = net.arcs.toList.countP fun arc => far arc = p.node ∧ tip arc = n := by
  rw [List.count_filterMap, List.countP_map, (hl.perm has).countP_eq, List.countP_filter]
  refine List.countP_congr fun arc _ => ?_
  simp [Node.place?, Node.handle?_eq_some_iff]

/-- The input places of a transition, one for each arc. -/
theorem WellFormed.preset (h : net.WellFormed) (ht : net.contains t.node = true) :
    ∃ ps, net.preset t = .ok ps ∧ ∀ p, ps.count p = net.arcCount p.node t.node := by
  obtain ⟨as, has⟩ := contains_iff_incoming?.mp ht
  refine ⟨((as.filterMap net.arcs.get?).map (·.source)).filterMap Node.place?, ?_,
    fun p => (count_filterMap_place? h.incoming has p).trans ?_⟩
  · rw [Net.preset, predecessors, incoming_eq_ok_iff.mpr has, ok_bind,
      mapM_require_eq_ok h.incoming has, ok_bind]
    rfl
  · refine List.countP_congr fun arc _ => ?_
    obtain ⟨source, target⟩ := arc
    simp

/-- The output places of a transition, one for each arc. -/
theorem WellFormed.postset (h : net.WellFormed) (ht : net.contains t.node = true) :
    ∃ qs, net.postset t = .ok qs ∧ ∀ p, qs.count p = net.arcCount t.node p.node := by
  obtain ⟨as, has⟩ := contains_iff_outgoing?.mp ht
  refine ⟨((as.filterMap net.arcs.get?).map (·.target)).filterMap Node.place?, ?_,
    fun p => (count_filterMap_place? h.outgoing has p).trans ?_⟩
  · rw [Net.postset, successors, outgoing_eq_ok_iff.mpr has, ok_bind,
      mapM_require_eq_ok h.outgoing has, ok_bind]
    rfl
  · refine List.countP_congr fun arc _ => ?_
    obtain ⟨source, target⟩ := arc
    simp [and_comm]

/-- The test along arcs of the net succeeds, and is passed when all places they come from are
marked. -/
theorem WellFormed.allMarked (h : net.WellFormed) (hm : m.size = net.places.size)
    {as : List ArcId} (has : ∀ a ∈ as, ∃ arc, net.arcs.get? a = some arc) :
    ∃ b, net.allMarked m as = .ok b ∧ (b = true ↔
      ∀ a ∈ as, ∀ p : PlaceId, ∀ n, net.arcs.get? a = some ⟨p.node, n⟩ → 0 < m.tokens p) := by
  induction as with
  | nil => exact ⟨true, rfl, by simp⟩
  | cons a as ih =>
      obtain ⟨⟨arc, ha⟩, has⟩ := List.forall_mem_cons.mp has
      obtain ⟨b, hb, hiff⟩ := ih has
      rw [Net.allMarked, Arena.require_eq_ok_iff.mpr ha, ok_bind]
      simp only [List.forall_mem_cons, ha, Option.some_inj]
      cases hp : arc.source.place? with
      | none =>
          refine ⟨b, hb, hiff.trans ⟨fun hall => ⟨?_, hall⟩, And.right⟩⟩
          -- an arc that does not come from a place is passed over
          rintro p n rfl
          rw [Node.place?, Node.handle?_node] at hp
          cases hp
      | some p =>
          have hsource : arc.source = p.node := Node.handle?_eq_some_iff.mp hp
          have hin : m.contains p = true := by
            have := h.source arc (Arena.mem_of_get? ha)
            rw [hsource] at this
            rw [Arena.contains_iff, hm]
            exact Arena.contains_iff.mp this
          simp only [Marking.require_eq_ok_iff.mpr ⟨hin, rfl⟩, ok_bind]
          -- the first arc comes from one place, which is looked at
          have hhead : (∀ q : PlaceId, ∀ n, arc = ⟨q.node, n⟩ → 0 < m.tokens q) ↔ 0 < m.tokens p := by
            constructor
            · intro hq
              exact hq p arc.target (by rw [← hsource])
            · rintro hpos q n rfl
              rw [Node.place?, Node.handle?_node] at hp
              exact Option.some_inj.mp hp ▸ hpos
          rw [hhead]
          by_cases hzero : m.tokens p = 0
          · exact ⟨false, by rw [if_pos hzero]; rfl, by simp [hzero]⟩
          · exact ⟨b, by rw [if_neg hzero, hb], by rw [hiff]; simp [Nat.pos_of_ne_zero hzero]⟩

/-- A transition is enabled when every place with an arc to it is marked. -/
theorem WellFormed.isEnabledAt (h : net.WellFormed) (hm : m.size = net.places.size)
    (ht : net.contains t.node = true) : ∃ b, net.isEnabledAt m t = .ok b ∧ (b = true ↔
      ∀ p : PlaceId, ⟨p.node, t.node⟩ ∈ net.arcs.toList → 0 < m.tokens p) := by
  obtain ⟨as, has⟩ := contains_iff_incoming?.mp ht
  obtain ⟨-, hmem⟩ := h.incoming t.node as has
  obtain ⟨b, hb, hiff⟩ := h.allMarked hm fun a ha => ((hmem a).mp ha).imp fun _ => And.left
  refine ⟨b, by rw [Net.isEnabledAt, incoming_eq_ok_iff.mpr has, ok_bind, hb], hiff.trans ?_⟩
  constructor
  · intro hall p hp
    obtain ⟨a, ha⟩ := Arena.exists_get?_of_mem hp
    exact hall a ((hmem a).mpr ⟨_, ha, rfl⟩) p t.node ha
  · intro hall a ha p n hget
    obtain ⟨arc, harc, htarget⟩ := (hmem a).mp ha
    obtain rfl := Option.some_inj.mp (hget.symm.trans harc)
    exact hall p (htarget ▸ Arena.mem_of_get? hget)

/-- The test whether a transition is enabled tells whether it is. -/
theorem WellFormed.isEnabledAt_eq_true_iff (h : net.WellFormed) (hm : m.size = net.places.size) :
    net.isEnabledAt m t = .ok true ↔ net.Enables m t := by
  constructor
  · intro hen
    have ht := contains_of_isEnabledAt hen
    obtain ⟨b, hb, hiff⟩ := h.isEnabledAt hm ht
    exact ⟨ht, hiff.mp (Except.ok.inj (hb.symm.trans hen))⟩
  · rintro ⟨ht, hmarked⟩
    obtain ⟨b, hb, hiff⟩ := h.isEnabledAt hm ht
    rw [hb, hiff.mpr hmarked]

/-- Every place with an arc to a transition that fires is marked. -/
theorem WellFormed.marked_of_fireAt (h : net.WellFormed) (hm : m.size = net.places.size)
    (hf : net.fireAt m t = .ok m') {p : PlaceId} (hp : ⟨p.node, t.node⟩ ∈ net.arcs.toList) :
    0 < m.tokens p := by
  have hen := (fireAt_eq_ok_iff.mp hf).1
  obtain ⟨b, hb, hiff⟩ := h.isEnabledAt hm (contains_of_isEnabledAt hen)
  exact hiff.mp (Except.ok.inj (hb.symm.trans hen)) p hp

/-- **A firing takes one marker along each arc and then puts one along each arc.** -/
theorem WellFormed.tokens_fireAt (h : net.WellFormed) (hf : net.fireAt m t = .ok m')
    (p : PlaceId) :
    m'.tokens p = m.tokens p - net.arcCount p.node t.node + net.arcCount t.node p.node := by
  obtain ⟨hen, ps, qs, m₁, hps, hqs, hm₁, hm'⟩ := fireAt_eq_ok_iff.mp hf
  have ht := contains_of_isEnabledAt hen
  obtain ⟨ps', hps', hcount⟩ := h.preset ht
  obtain ⟨qs', hqs', hcount'⟩ := h.postset ht
  obtain rfl := Except.ok.inj (hps.symm.trans hps')
  obtain rfl := Except.ok.inj (hqs.symm.trans hqs')
  rw [(Marking.foldlM_put hm').2 p, (Marking.foldlM_take hm₁).2 p, hcount, hcount']

/-- The markings of the net count the places at its arcs. -/
theorem WellFormed.contains_marking (h : net.WellFormed) (hm : m.size = net.places.size) {n : Node}
    {p : PlaceId} (hp : 0 < net.arcCount n p.node ∨ 0 < net.arcCount p.node n) :
    m.contains p = true := by
  have hin : net.contains p.node = true := by
    rcases hp with hp | hp
    · exact h.target _ (arcCount_pos_iff.mp hp)
    · exact h.source _ (arcCount_pos_iff.mp hp)
  rw [Arena.contains_iff, hm]
  exact Arena.contains_iff.mp hin

/-- **A transition can fire exactly if it is enabled and no place gets too many markers.** -/
theorem WellFormed.exists_fireAt_iff (h : net.WellFormed) (hm : m.size = net.places.size) :
    (∃ m', net.fireAt m t = .ok m') ↔ net.Enables m t ∧ ∀ p : PlaceId,
      0 < net.arcCount t.node p.node →
        m.tokens p - net.arcCount p.node t.node + net.arcCount t.node p.node < countRange := by
  constructor
  · rintro ⟨m', hm'⟩
    obtain ⟨hen, ps, qs, m₁, hps, hqs, hm₁, hput⟩ := fireAt_eq_ok_iff.mp hm'
    have hen := (h.isEnabledAt_eq_true_iff hm).mp hen
    obtain ⟨ps', hps', hcount⟩ := h.preset hen.1
    obtain ⟨qs', hqs', hcount'⟩ := h.postset hen.1
    obtain rfl := Except.ok.inj (hps.symm.trans hps')
    obtain rfl := Except.ok.inj (hqs.symm.trans hqs')
    refine ⟨hen, fun p hp => ?_⟩
    have hmem : p ∈ qs := List.count_pos_iff.mp (by rw [hcount']; exact hp)
    have hlt := (Marking.exists_foldlM_put_iff.mp ⟨m', hput⟩ p hmem).2
    rwa [(Marking.foldlM_take hm₁).2 p, hcount, hcount'] at hlt
  · rintro ⟨hen, hrange⟩
    obtain ⟨ps, hps, hcount⟩ := h.preset hen.1
    obtain ⟨qs, hqs, hcount'⟩ := h.postset hen.1
    have htakes : ∀ p ∈ ps, 0 < net.arcCount p.node t.node := fun p hp => by
      rw [← hcount]
      exact List.count_pos_iff.mpr hp
    have hputs : ∀ p ∈ qs, 0 < net.arcCount t.node p.node := fun p hp => by
      rw [← hcount']
      exact List.count_pos_iff.mpr hp
    obtain ⟨m₁, hm₁⟩ : ∃ m₁, ps.foldlM Marking.take m = .ok m₁ :=
      Marking.exists_foldlM_take fun p hp => h.contains_marking hm (Or.inr (htakes p hp))
    obtain ⟨hsize, htokens⟩ := Marking.foldlM_take hm₁
    obtain ⟨m', hm'⟩ := Marking.exists_foldlM_put_iff.mpr fun p hp => by
      refine ⟨h.contains_marking (hsize.trans hm) (Or.inl (hputs p hp)), ?_⟩
      rw [htokens, hcount, hcount']
      exact hrange p (hputs p hp)
    exact ⟨m', fireAt_eq_ok_iff.mpr ⟨(h.isEnabledAt_eq_true_iff hm).mpr hen, ps, qs, m₁, hps, hqs,
      hm₁, hm'⟩⟩

/-! ## Sequences -/

theorem runAt_nil (net : Net) (m : Marking) : net.runAt m [] = .ok m := rfl

theorem runAt_cons_eq_ok_iff : net.runAt m (t :: ts) = .ok m' ↔
    ∃ m₁, net.fireAt m t = .ok m₁ ∧ net.runAt m₁ ts = .ok m' := by
  rw [runAt, List.foldlM_cons, bind_eq_ok_iff]
  rfl

theorem runAt_append_eq_ok_iff {us : List TransitionId} : net.runAt m (ts ++ us) = .ok m' ↔
    ∃ m₁, net.runAt m ts = .ok m₁ ∧ net.runAt m₁ us = .ok m' := by
  rw [runAt, List.foldlM_append, bind_eq_ok_iff]
  rfl

theorem size_runAt (h : net.runAt m ts = .ok m') : m'.size = m.size := by
  induction ts generalizing m with
  | nil =>
      cases h
      rfl
  | cons t ts ih =>
      obtain ⟨m₁, hm₁, h⟩ := runAt_cons_eq_ok_iff.mp h
      exact (ih h).trans (size_fireAt hm₁)

theorem Reaches.refl (net : Net) (m : Marking) : net.Reaches m m := ⟨[], rfl⟩

theorem Reaches.tail {m₁ : Marking} (h : net.Reaches m m₁) (hf : net.fireAt m₁ t = .ok m') :
    net.Reaches m m' := by
  obtain ⟨ts, hts⟩ := h
  exact ⟨ts ++ [t], runAt_append_eq_ok_iff.mpr
    ⟨m₁, hts, runAt_cons_eq_ok_iff.mpr ⟨m', hf, rfl⟩⟩⟩

theorem Reaches.trans {m₁ : Marking} (h : net.Reaches m m₁) (h' : net.Reaches m₁ m') :
    net.Reaches m m' := by
  obtain ⟨ts, hts⟩ := h
  obtain ⟨us, hus⟩ := h'
  exact ⟨ts ++ us, runAt_append_eq_ok_iff.mpr ⟨m₁, hts, hus⟩⟩

theorem Reaches.size_eq (h : net.Reaches m m') : m'.size = m.size := by
  obtain ⟨ts, hts⟩ := h
  exact size_runAt hts

/-- What holds of a marking and is kept by the firings from it holds wherever they lead. -/
theorem Reaches.induction {P : Marking → Prop} (h : net.Reaches m m') (hm : P m)
    (hstep : ∀ m₁ t m₂, net.Reaches m m₁ → P m₁ → net.fireAt m₁ t = .ok m₂ → P m₂) : P m' := by
  obtain ⟨ts, hts⟩ := h
  induction ts using List.reverseRecOn generalizing m' with
  | nil =>
      cases hts
      exact hm
  | append_singleton ts t ih =>
      obtain ⟨m₁, hm₁, ht⟩ := runAt_append_eq_ok_iff.mp hts
      obtain ⟨m₂, hm₂, hlast⟩ := runAt_cons_eq_ok_iff.mp ht
      cases hlast
      exact hstep m₁ t m' ⟨ts, hm₁⟩ (ih hm₁) hm₂

/-- A transition fires in some sequence exactly if it can fire at some marking that is reached. -/
theorem exists_runAt_mem_iff : (∃ ts m', net.runAt m ts = .ok m' ∧ t ∈ ts) ↔
    ∃ m₁, net.Reaches m m₁ ∧ ∃ m', net.fireAt m₁ t = .ok m' := by
  constructor
  · rintro ⟨ts, m', hts, ht⟩
    obtain ⟨us, vs, rfl⟩ := List.append_of_mem ht
    obtain ⟨m₁, hm₁, h⟩ := runAt_append_eq_ok_iff.mp hts
    obtain ⟨m₂, hm₂, -⟩ := runAt_cons_eq_ok_iff.mp h
    exact ⟨m₁, ⟨us, hm₁⟩, m₂, hm₂⟩
  · rintro ⟨m₁, ⟨ts, hts⟩, m', hm'⟩
    exact ⟨ts ++ [t], m', runAt_append_eq_ok_iff.mpr
      ⟨m₁, hts, runAt_cons_eq_ok_iff.mpr ⟨m', hm', rfl⟩⟩, by simp⟩

/-! ## Nets with other markers

Firing on a net is firing on its marking, as nothing but the markers changes. -/

theorem get?_withMarking (hm : m.size = net.places.size) (p : PlaceId) :
    (net.withMarking m).places.get? p
      = (net.places.get? p).map fun x => { x with markers := m.tokens p } := by
  have hsize : m.entries.size = net.places.entries.size := hm
  simp only [withMarking, Arena.get?, Array.getElem?_zipWith, Marking.tokens]
  by_cases hp : Index.position p < net.places.entries.size
  · rw [Array.getElem?_eq_getElem hp, Array.getElem?_eq_getElem (hsize ▸ hp)]
    rfl
  · rw [Array.getElem?_eq_none (Nat.le_of_not_lt hp),
      Array.getElem?_eq_none (hsize ▸ Nat.le_of_not_lt hp)]
    rfl

theorem incoming?_withMarking (hm : m.size = net.places.size) (n : Node) :
    (net.withMarking m).incoming? n = net.incoming? n := by
  obtain ⟨k, i⟩ := n
  cases k with
  | place =>
      show ((net.withMarking m).places.get? ⟨i⟩).map (·.incoming) = _
      rw [get?_withMarking hm, Option.map_map]
      rfl
  | transition => rfl

theorem outgoing?_withMarking (hm : m.size = net.places.size) (n : Node) :
    (net.withMarking m).outgoing? n = net.outgoing? n := by
  obtain ⟨k, i⟩ := n
  cases k with
  | place =>
      show ((net.withMarking m).places.get? ⟨i⟩).map (·.outgoing) = _
      rw [get?_withMarking hm, Option.map_map]
      rfl
  | transition => rfl

theorem allMarked_withMarking (m₁ : Marking) (as : List ArcId) :
    (net.withMarking m).allMarked m₁ as = net.allMarked m₁ as := by
  induction as with
  | nil => rfl
  | cons a as ih =>
      simp only [allMarked, ih]
      rfl

theorem incoming_withMarking (hm : m.size = net.places.size) (n : Node) :
    (net.withMarking m).incoming n = net.incoming n := by
  rw [incoming, incoming?_withMarking hm, incoming]

theorem isEnabledAt_withMarking (hm : m.size = net.places.size) (m₁ : Marking) (t : TransitionId) :
    (net.withMarking m).isEnabledAt m₁ t = net.isEnabledAt m₁ t := by
  simp only [isEnabledAt, incoming_withMarking hm, allMarked_withMarking]

theorem fireAt_withMarking (hm : m.size = net.places.size) (m₁ : Marking) (t : TransitionId) :
    (net.withMarking m).fireAt m₁ t = net.fireAt m₁ t := by
  have hout : (net.withMarking m).outgoing t.node = net.outgoing t.node := by
    rw [outgoing, outgoing?_withMarking hm, outgoing]
  simp only [fireAt, isEnabledAt_withMarking hm, preset, predecessors, incoming_withMarking hm,
    postset, successors, hout]
  rfl

theorem marking_withMarking (hm : m.size = net.places.size) : (net.withMarking m).marking = m := by
  obtain ⟨xs⟩ := m
  have hsize : xs.size = net.places.entries.size := hm
  simp only [marking, withMarking, Array.map_zipWith, Arena.mk.injEq]
  refine Array.ext (by simp [hsize]) fun i hi hi' => ?_
  simp

theorem withMarking_marking (net : Net) : net.withMarking net.marking = net := by
  obtain ⟨id, ⟨ps⟩, ts, as, pn, tn⟩ := net
  simp only [withMarking, marking, mk.injEq, Arena.mk.injEq, and_self, and_true, true_and]
  refine Array.ext (by simp) fun i hi hi' => ?_
  simp

theorem withMarking_withMarking (hm : m.size = net.places.size) (m₁ : Marking) :
    (net.withMarking m).withMarking m₁ = net.withMarking m₁ := by
  obtain ⟨id, ⟨ps⟩, ts, as, pn, tn⟩ := net
  obtain ⟨xs⟩ := m
  have hsize : xs.size = ps.size := hm
  simp only [withMarking, mk.injEq, Arena.mk.injEq, and_self, and_true, true_and]
  refine Array.ext (by simp [hsize]) fun i hi hi' => ?_
  simp

theorem size_marking (net : Net) : net.marking.size = net.places.size := by
  simp [marking, Arena.size]

theorem fireTransition_eq_ok_iff {net' : Net} : net.fireTransition t = .ok net' ↔
    ∃ m', net.fireAt net.marking t = .ok m' ∧ net' = net.withMarking m' := by
  rw [fireTransition, bind_eq_ok_iff]
  refine exists_congr fun m' => and_congr_right fun _ => ?_
  show Except.ok _ = .ok net' ↔ _
  rw [Except.ok.injEq, eq_comm]

/-- **The runs of a net are the runs of its marking.** -/
theorem run_eq_ok_iff {net' : Net} : net.run ts = .ok net' ↔
    ∃ m', net.runAt net.marking ts = .ok m' ∧ net' = net.withMarking m' := by
  -- induction on the run, from any marking of the net's places
  have hrun : ∀ {m : Marking}, m.size = net.places.size →
      ((net.withMarking m).run ts = .ok net' ↔
        ∃ m', net.runAt m ts = .ok m' ∧ net' = net.withMarking m') := by
    induction ts with
    | nil =>
        intro m _
        show Except.ok _ = .ok net' ↔ _
        simp [runAt_nil, eq_comm]
    | cons t ts ih =>
        intro m hm
        have hfire (net₁ : Net) : (net.withMarking m).fireTransition t = .ok net₁ ↔
            ∃ m₁, net.fireAt m t = .ok m₁ ∧ net₁ = net.withMarking m₁ := by
          rw [fireTransition_eq_ok_iff, marking_withMarking hm, fireAt_withMarking hm]
          simp only [withMarking_withMarking hm]
        rw [run, List.foldlM_cons, bind_eq_ok_iff]
        simp only [hfire, runAt_cons_eq_ok_iff]
        constructor
        · rintro ⟨_, ⟨m₁, hm₁, rfl⟩, h⟩
          obtain ⟨m', hm', rfl⟩ := (ih ((size_fireAt hm₁).trans hm)).mp h
          exact ⟨m', ⟨m₁, hm₁, hm'⟩, rfl⟩
        · rintro ⟨m', ⟨m₁, hm₁, hm'⟩, rfl⟩
          exact ⟨_, ⟨m₁, hm₁, rfl⟩, (ih ((size_fireAt hm₁).trans hm)).mpr ⟨m', hm', rfl⟩⟩
  have := hrun net.size_marking
  rwa [withMarking_marking] at this

/-- The markings that a net can reach are those that its own marking reaches. -/
theorem canReach_iff : net.CanReach m ↔ net.Reaches net.marking m := by
  -- the sequence does not change the number of places
  have hsize {ts : List TransitionId} {m' : Marking} (hm' : net.runAt net.marking ts = .ok m') :
      m'.size = net.places.size := (size_runAt hm').trans net.size_marking
  constructor
  · rintro ⟨ts, net', hrun, rfl⟩
    obtain ⟨m', hm', rfl⟩ := run_eq_ok_iff.mp hrun
    rw [marking_withMarking (hsize hm')]
    exact ⟨ts, hm'⟩
  · rintro ⟨ts, hts⟩
    exact ⟨ts, _, run_eq_ok_iff.mpr ⟨m, hts, rfl⟩, marking_withMarking (hsize hts)⟩

/-- A transition fires in some sequence exactly if it can at some marking that is reached. -/
theorem fires_iff : net.Fires t ↔
    ∃ m, net.Reaches net.marking m ∧ ∃ m', net.fireAt m t = .ok m' := by
  rw [← exists_runAt_mem_iff]
  constructor
  · rintro ⟨ts, net', hrun, ht⟩
    obtain ⟨m', hm', -⟩ := run_eq_ok_iff.mp hrun
    exact ⟨ts, m', hm', ht⟩
  · rintro ⟨ts, m', hm', ht⟩
    exact ⟨ts, _, run_eq_ok_iff.mpr ⟨m', hm', rfl⟩, ht⟩

end Net

end RoutePolicy
