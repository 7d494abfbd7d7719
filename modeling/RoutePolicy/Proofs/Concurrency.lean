import RoutePolicy.Concurrency
import RoutePolicy.Proofs.Net.Progress
import RoutePolicy.Proofs.StepGraph
import RoutePolicy.Proofs.Survey

set_option autoImplicit false

/-! # Transitions that are enabled together run at once

The unfolded net can do all that the net does: it starts and ends a processing step where the net
fires it (`Net.UnfoldsTo.exists_reaches`). Processing steps that are enabled together can all be
started one after the other before any of them ends. So they are found in one of the sets of
transitions that run at once (`exists_atWork_of_parallelSets`). -/

namespace RoutePolicy

variable {net u : Net} {limit : Option Nat} {g : StepGraph} {m μ : Marking} {t : TransitionId}
  {ts : List TransitionId} {sets : List (List String)}

/-- The marked places are those that hold a marker. -/
theorem Marking.mem_marked_iff {p : PlaceId} {n : Nat} :
    (p, n) ∈ m.marked ↔ m.get? p = some n ∧ 0 < n := by
  rw [marked, List.mem_filter, decide_eq_true_eq, Arena.toPairs, List.mem_map,
    Arena.get?_eq_some_iff]
  refine and_congr_left fun _ => ?_
  constructor
  · rintro ⟨⟨x, i⟩, hx, heq⟩
    obtain ⟨rfl, rfl⟩ := Prod.mk.inj heq
    exact List.mk_mem_zipIdx_iff_getElem?.mp hx
  · intro hx
    exact ⟨(n, p.index), List.mk_mem_zipIdx_iff_getElem?.mpr hx, rfl⟩

namespace Net

/-- The number of markers that the transitions take from a place if all of them fire. -/
def demand (net : Net) (ts : List TransitionId) (p : PlaceId) : Nat :=
  (ts.map fun t => net.arcCount p.node t.node).sum

/-- There are markers enough for all of the transitions. -/
def EnabledTogether (net : Net) (m : Marking) (ts : List TransitionId) : Prop :=
  ∀ p, net.demand ts p ≤ m.tokens p

theorem demand_cons (net : Net) (t : TransitionId) (ts : List TransitionId) (p : PlaceId) :
    net.demand (t :: ts) p = net.arcCount p.node t.node + net.demand ts p := by
  rw [demand, List.map_cons, List.sum_cons, demand]

/-- Of transitions that are enabled together, some of them are as well. -/
theorem EnabledTogether.sublist {us : List TransitionId} (hen : net.EnabledTogether m ts)
    (hsub : us.Sublist ts) : net.EnabledTogether m us := fun p => calc
  net.demand us p ≤ net.demand ts p := (hsub.map _).sum_le_sum fun n _ => Nat.zero_le n
  _ ≤ m.tokens p := hen p

/-- In a net that can be explored a transition fires where the places before it are marked. -/
theorem WellFormed.exists_fireAt (h : net.WellFormed) (hg : net.stepGraph limit = .ok g)
    (hm : net.Reaches net.marking m) (ht : net.contains t.node = true)
    (hmarked : ∀ p : PlaceId, 0 < net.arcCount p.node t.node → 0 < m.tokens p) :
    ∃ m', net.fireAt m t = .ok m' := by
  obtain ⟨b, hb, hiff⟩ := h.isEnabledAt (hm.size_eq.trans net.size_marking) ht
  obtain rfl := hiff.mpr fun p hp => hmarked p (arcCount_pos_iff.mpr hp)
  exact fireAt_of_enabled hg hm hb

/-- The markers after such a firing. -/
theorem WellFormed.exists_tokens (h : net.WellFormed) (hg : net.stepGraph limit = .ok g)
    (hm : net.Reaches net.marking m) (ht : net.contains t.node = true)
    (hmarked : ∀ p : PlaceId, 0 < net.arcCount p.node t.node → 0 < m.tokens p) :
    ∃ m', net.Reaches net.marking m' ∧ ∀ p, m'.tokens p
      = m.tokens p - net.arcCount p.node t.node + net.arcCount t.node p.node := by
  obtain ⟨m', hm'⟩ := h.exists_fireAt hg hm ht hmarked
  exact ⟨m', hm.tail hm', h.tokens_fireAt hm'⟩

/-- A transition that is enabled together with others can fire on its own. -/
theorem WellFormed.fires_of_enabledTogether (h : net.WellFormed) (hg : net.stepGraph limit = .ok g)
    (hm : net.Reaches net.marking m) (hen : net.EnabledTogether m ts) (ht : t ∈ ts)
    (happ : net.IsApp t) : net.Fires t := by
  refine fires_iff.mpr ⟨m, hm, h.exists_fireAt hg hm happ.contains fun p hp => ?_⟩
  have hle : net.arcCount p.node t.node ≤ net.demand ts p :=
    List.le_sum_of_mem (List.mem_map_of_mem ht)
  have := hen p
  omega

theorem WellFormed.demand_eq_zero (h : net.WellFormed) {p : PlaceId}
    (hp : ¬net.contains p.node = true) (ts : List TransitionId) : net.demand ts p = 0 := by
  induction ts with
  | nil => rfl
  | cons t ts ih => rw [demand_cons, ih, (h.arcCount_eq_zero hp t.node).1]

namespace UnfoldsTo

/-! ## What the net does the unfolded net does -/

/-- The start of a transition can fire where the transition is enabled. -/
theorem exists_start (hu : net.UnfoldsTo u) (hg : u.stepGraph limit = .ok g)
    (hμ : u.Reaches u.marking μ) (ht : net.contains t.node = true)
    (hmarked : ∀ p : PlaceId, 0 < net.arcCount p.node t.node → 0 < μ.tokens p) :
    ∃ μ', u.Reaches u.marking μ' ∧ ∀ p, μ'.tokens p
      = μ.tokens p - net.arcCount p.node t.node + u.arcCount (net.startOf t).node p.node := by
  have hfire := hu.wellFormed.exists_tokens hg hμ (hu.hasStart t ht)
  simp only [hu.takes t ht] at hfire
  exact hfire hmarked

/-- Where a transition is enabled, its start and its end fire one after the other and do together
what the transition does. -/
theorem exists_fired (hu : net.UnfoldsTo u) (hg : u.stepGraph limit = .ok g)
    (hμ : u.Reaches u.marking μ) (ht : net.contains t.node = true)
    (hmarked : ∀ p : PlaceId, 0 < net.arcCount p.node t.node → 0 < μ.tokens p) :
    ∃ μ', u.Reaches u.marking μ' ∧ ∀ p, μ'.tokens p
      = μ.tokens p - net.arcCount p.node t.node + net.arcCount t.node p.node := by
  obtain ⟨x, hx⟩ := Arena.contains_iff_exists.mp ht
  obtain ⟨μ₁, hμ₁, hstart⟩ := hu.exists_start hg hμ ht hmarked
  cases hrole : x.role with
  | control =>
      refine ⟨μ₁, hμ₁, fun p => ?_⟩
      rw [hstart, hu.control t x hx hrole, hu.puts t ht]
  | app =>
      -- the end fires on the marker that the start has put into the inner place
      obtain ⟨μ₂, hμ₂, hend⟩ := hu.wellFormed.exists_tokens hg hμ₁ (hu.hasEnd t ht) fun p hp => by
        rw [hu.finishes t x hx hrole] at hp
        rw [hstart, hu.begins t x hx hrole]
        omega
      refine ⟨μ₂, hμ₂, fun p => ?_⟩
      rw [hend, hstart, hu.puts t ht, hu.begins t x hx hrole, hu.finishes t x hx hrole,
        Nat.add_sub_cancel]

/-- **The unfolded net reaches the markers that the net reaches**, with no transition at work. -/
theorem exists_reaches (h : net.WellFormed) (hu : net.UnfoldsTo u)
    (hg : u.stepGraph limit = .ok g) (hm : net.Reaches net.marking m) :
    ∃ μ, u.Reaches u.marking μ ∧ ∀ p, μ.tokens p = m.tokens p := by
  refine hm.induction (P := fun m => ∃ μ, u.Reaches u.marking μ ∧ ∀ p, μ.tokens p = m.tokens p)
    ⟨u.marking, .refl u _, hu.tokens⟩ ?_
  rintro m₁ t m₂ hm₁ ⟨μ₁, hμ₁, htokens⟩ hf
  have ht := contains_of_isEnabledAt (fireAt_eq_ok_iff.mp hf).1
  obtain ⟨μ₂, hμ₂, hfired⟩ := hu.exists_fired hg hμ₁ ht fun p hp => by
    rw [htokens]
    exact h.marked_of_fireAt (hm₁.size_eq.trans net.size_marking) hf (arcCount_pos_iff.mp hp)
  refine ⟨μ₂, hμ₂, fun p => ?_⟩
  rw [hfired, htokens, h.tokens_fireAt hf]

/-! ## Transitions at work -/

/-- Processing steps that are enabled together can all be started: each start takes what the
transition takes, and puts a marker into its inner place. -/
theorem exists_started (hu : net.UnfoldsTo u) (hg : u.stepGraph limit = .ok g)
    (hμ : u.Reaches u.marking μ) (happ : ∀ t ∈ ts, net.IsApp t)
    (hen : net.EnabledTogether μ ts) : ∃ μ', u.Reaches u.marking μ' ∧ ∀ p,
      μ'.tokens p + net.demand ts p = μ.tokens p + ts.countP fun t => p = net.innerOf t := by
  induction ts generalizing μ with
  | nil => exact ⟨μ, hμ, fun p => rfl⟩
  | cons t ts ih =>
      obtain ⟨ht, happ⟩ := List.forall_mem_cons.mp happ
      have hdemand (p : PlaceId) : net.arcCount p.node t.node + net.demand ts p ≤ μ.tokens p :=
        demand_cons net t ts p ▸ hen p
      obtain ⟨μ₁, hμ₁, hstart⟩ := hu.exists_start hg hμ ht.contains fun p hp => by
        have := hdemand p
        omega
      obtain ⟨μ', hμ', htokens⟩ := ih hμ₁ happ fun p => by
        have := hdemand p
        rw [hstart]
        omega
      obtain ⟨x, hx, hrole⟩ := ht
      refine ⟨μ', hμ', fun p => ?_⟩
      have hp := htokens p
      have hd := hdemand p
      rw [hstart, hu.begins t x hx hrole] at hp
      rw [demand_cons, List.countP_cons]
      simp only [decide_eq_true_eq]
      omega

/-- Where processing steps are enabled together, they can be started so that no other inner places
are marked than theirs. -/
theorem exists_marked (h : net.WellFormed) (hu : net.UnfoldsTo u) (hg : u.stepGraph limit = .ok g)
    (hm : net.Reaches net.marking m) (happ : ∀ t ∈ ts, net.IsApp t)
    (hen : net.EnabledTogether m ts) : ∃ μ, u.Reaches u.marking μ ∧
      ∀ t, 0 < μ.tokens (net.innerOf t) ↔ ∃ t' ∈ ts, net.innerOf t = net.innerOf t' := by
  obtain ⟨μ, hμ, htokens⟩ := hu.exists_reaches h hg hm
  obtain ⟨μ', hμ', hstarted⟩ := hu.exists_started hg hμ happ fun p => htokens p ▸ hen p
  refine ⟨μ', hμ', fun t => ?_⟩
  -- nothing was there before the starts, and nothing is taken from there
  have hcount := hstarted (net.innerOf t)
  rw [h.demand_eq_zero (not_contains_innerOf net t), htokens,
    tokens_innerOf (hm.size_eq.trans net.size_marking), Nat.add_zero, Nat.zero_add] at hcount
  rw [hcount, List.countP_pos_iff]
  simp only [decide_eq_true_eq]

end UnfoldsTo

/-- The transitions at work are those that marked places stand for. -/
theorem mem_atWork_iff {id : String} : id ∈ u.atWork μ ↔
    ∃ p x, u.placeData? p = some x ∧ x.origin? = some id ∧ 0 < μ.tokens p := by
  rw [atWork, SortedSet.mem_ofList, List.mem_filterMap]
  constructor
  · rintro ⟨⟨p, n⟩, hmarked, horigin⟩
    obtain ⟨hn, hpos⟩ := Marking.mem_marked_iff.mp hmarked
    obtain ⟨y, hy, horigin⟩ := Option.bind_eq_some_iff.mp horigin
    refine ⟨p, y.data, placeData?_eq_some_iff.mpr ⟨y, hy, rfl⟩, horigin, ?_⟩
    rw [Marking.tokens, hn]
    exact hpos
  · rintro ⟨p, x, hx, horigin, hpos⟩
    obtain ⟨y, hy, rfl⟩ := placeData?_eq_some_iff.mp hx
    obtain ⟨n, hn⟩ : ∃ n, μ.get? p = some n := Option.ne_none_iff_exists'.mp fun hnone => by
      rw [Marking.tokens, hnone] at hpos
      exact absurd hpos (Nat.lt_irrefl 0)
    rw [Marking.tokens, hn] at hpos
    exact ⟨(p, n), Marking.mem_marked_iff.mpr ⟨hn, hpos⟩,
      Option.bind_eq_some_iff.mpr ⟨y, hy, horigin⟩⟩

end Net

/-- The sets of transitions that can run at once, computed without a table. -/
theorem Net.parallelSets_eq_survey (net : Net) (limit : Option Nat) :
    net.parallelSets limit = (do
      let unfolded ← net.unfold
      let g ← unfolded.survey limit
      let sets := (g.steps.toList.map fun s => unfolded.atWork s.marking).filter fun s => 2 ≤ s.size
      return (SortedSet.ofList (sets.map (·.toList))).toList) := by
  simp only [parallelSets, Net.stepGraph_eq_survey]

/-- The sets are in ascending order. -/
theorem Net.pairwise_parallelSets (hsets : net.parallelSets limit = .ok sets) :
    sets.Pairwise fun names names' => compare names names' = .lt := by
  obtain ⟨u, -, hsets⟩ := bind_eq_ok_iff.mp hsets
  obtain ⟨g, -, hsets⟩ := bind_eq_ok_iff.mp hsets
  obtain rfl := Except.ok.inj hsets
  exact SortedSet.ascending _

/-- The sets that can run at once are the sets of at least two transitions at work, at the markings
that the unfolded net reaches. -/
theorem mem_parallelSets_iff (hu : net.unfold = .ok u) (hg : u.stepGraph limit = .ok g)
    (hsets : net.parallelSets limit = .ok sets) {names : List String} : names ∈ sets ↔
      ∃ μ, u.Reaches u.marking μ ∧ 2 ≤ (u.atWork μ).size ∧ (u.atWork μ).toList = names := by
  rw [Net.parallelSets, hu, ok_bind, hg, ok_bind] at hsets
  obtain rfl := (Except.ok.inj hsets).symm
  rw [← SortedSet.mem_def, SortedSet.mem_ofList]
  simp only [List.mem_map, List.mem_filter, decide_eq_true_eq, ← exists_step_iff_reaches hg]
  constructor
  · rintro ⟨set, ⟨⟨s, hs, rfl⟩, htwo⟩, rfl⟩
    exact ⟨s.marking, ⟨s, hs, rfl⟩, htwo, rfl⟩
  · rintro ⟨_, ⟨s, hs, rfl⟩, htwo, rfl⟩
    exact ⟨_, ⟨⟨s, hs, rfl⟩, htwo⟩, rfl⟩

/-- What the sets are found from: the unfolded net and its steps. -/
theorem exists_unfolded_of_parallelSets (h : net.WellFormed)
    (hsets : net.parallelSets limit = .ok sets) : ∃ u g, net.unfold = .ok u ∧ net.UnfoldsTo u ∧
      u.stepGraph limit = .ok g := by
  obtain ⟨u, hunfold, hu⟩ := Net.exists_unfoldsTo h
  rw [Net.parallelSets, hunfold, ok_bind] at hsets
  obtain ⟨g, hg, -⟩ := bind_eq_ok_iff.mp hsets
  exact ⟨u, g, hunfold, hu, hg⟩

/-- **Processing steps that are enabled together are at work together** at some step of the unfolded
net. -/
theorem exists_atWork_of_parallelSets (h : net.WellFormed)
    (hsets : net.parallelSets limit = .ok sets) (hm : net.Reaches net.marking m)
    (happ : ∀ t ∈ ts, net.IsApp t) (hen : net.EnabledTogether m ts) : ∃ names : NameSet,
      (2 ≤ names.size → names.toList ∈ sets) ∧
      ∀ t ∈ ts, ∀ x, net.transitions.get? t = some x → x.id ∈ names := by
  obtain ⟨u, g, hunfold, hu, hg⟩ := exists_unfolded_of_parallelSets h hsets
  obtain ⟨μ, hμ, hmarked⟩ := hu.exists_marked h hg hm happ hen
  refine ⟨u.atWork μ, fun htwo => (mem_parallelSets_iff hunfold hg hsets).mpr ⟨μ, hμ, htwo, rfl⟩,
    fun t ht x hx => ?_⟩
  obtain ⟨y, hy, hrole⟩ := happ t ht
  obtain rfl := Option.some_inj.mp (hx.symm.trans hy)
  exact Net.mem_atWork_iff.mpr
    ⟨net.innerOf t, _, hu.inner t x hx hrole, rfl, (hmarked t).mpr ⟨t, ht, rfl⟩⟩

end RoutePolicy
