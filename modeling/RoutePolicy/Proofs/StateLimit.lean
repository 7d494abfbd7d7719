import RoutePolicy.Proofs.Limits
import RoutePolicy.Proofs.Net.Progress
import RoutePolicy.Proofs.Route.Translation
import RoutePolicy.Proofs.Simulation

set_option autoImplicit false

/-! # The threshold of the limit on steps

The search numbers the markings in the order in which it meets them, so a marking is at most as many
firings away from the first one as its number says (`Discovery.Near`). If no count goes beyond its
range within the limit, then the search either leaves all markings that can be reached, or fails
because there are more of them than the limit allows (`Net.WellFormed.stepGraph_of_limit`); the limit 0
counts as 1. That there are more does not depend on the range of the counts
(`Net.exceeds_iff_leads`), nor the result on a looser limit or on further rounds (`step_limit_exact`).

In the nets of routes (`RouteNet.fillsSlowly_ofRoute`) and in their unfolded nets
(`Net.FillsSlowly.unfolded`) a firing puts at most one marker into a place, so no count goes beyond its
range before there were as many firings. -/

namespace RoutePolicy

variable {net u : Net} {cap limit n : Nat} {d d' : Discovery} {m m' : Marking} {t : TransitionId}
  {ts : List TransitionId}

namespace Net

/-- At most `n` firings lead to the marking. -/
def ReachesWithin (net : Net) (n : Nat) (m : Marking) : Prop :=
  ∃ ts : List TransitionId, ts.length ≤ n ∧ net.runAt net.marking ts = .ok m

/-- Fewer than `n` firings lead to no marking at which an enabled transition would put more markers
into a place than can be counted. -/
def FiresBelow (net : Net) (n : Nat) : Prop :=
  ∀ k < n, ∀ m, net.ReachesWithin k m → ∀ t, net.Enables m t → ∃ m', net.fireAt m t = .ok m'

/-- More markings can be reached than a limit allows. -/
def Exceeds (net : Net) (limit : Nat) : Prop :=
  ((max limit 1 : Nat) : ENat) < {m | net.Reaches net.marking m}.encard

theorem exists_nodeName (ht : net.contains t.node = true) :
    ∃ name, net.nodeName t.node = .ok name := by
  obtain ⟨name, hname⟩ := contains_iff_nodeName?.mp ht
  exact ⟨name, by rw [nodeName, hname]⟩

/-- In a net without faults the enabled transitions can be listed. -/
theorem WellFormed.exists_enabledAt (h : net.WellFormed) (hm : m.size = net.places.size) :
    ∃ ts, net.enabledAt m = .ok ts ∧ ∀ t, t ∈ ts ↔ net.Enables m t := by
  have hok : ∃ ts, net.enabledAt m = .ok ts := ⟨_, filterM_eq_ok_iff.mpr ⟨fun t ht => by
    obtain ⟨b, hb, -⟩ := h.isEnabledAt hm (Arena.mem_indices_iff.mp ht)
    exact ⟨b, hb⟩, rfl⟩⟩
  obtain ⟨ts, hts⟩ := hok
  exact ⟨ts, hts, fun t => (mem_enabledAt hts).trans (h.isEnabledAt_eq_true_iff hm)⟩

theorem ReachesWithin.reaches (h : net.ReachesWithin n m) : net.Reaches net.marking m :=
  let ⟨ts, _, hts⟩ := h
  ⟨ts, hts⟩

theorem ReachesWithin.tail (h : net.ReachesWithin n m) (hf : net.fireAt m t = .ok m') :
    net.ReachesWithin (n + 1) m' := by
  obtain ⟨ts, hlength, hts⟩ := h
  refine ⟨ts ++ [t], by simpa using hlength, runAt_append_eq_ok_iff.mpr ⟨m, hts, ?_⟩⟩
  exact runAt_cons_eq_ok_iff.mpr ⟨m', hf, net.runAt_nil m'⟩

theorem ReachesWithin.mono {n' : Nat} (h : net.ReachesWithin n m) (hn : n ≤ n') :
    net.ReachesWithin n' m :=
  let ⟨ts, hlength, hts⟩ := h
  ⟨ts, hlength.trans hn, hts⟩

end Net

/-! ## The search -/

namespace Discovery

/-- The markings found are all different, and none is further away than its number says. -/
structure Near (net : Net) (cap : Nat) (d : Discovery) : Prop where
  numbered : ∀ {m : Marking} {i : Nat}, d.numbers[m]? = some i ↔ d.markings[i]? = some m
  near : ∀ {m : Marking} {i : Nat}, d.markings[i]? = some m → net.ReachesWithin i m
  pos : 0 < d.markings.size
  capped : d.markings.size ≤ max cap 1

/-- The steps taken and their moves do not matter. -/
theorem Near.congr (h : d.Near net cap) (hmarkings : d'.markings = d.markings)
    (hnumbers : d'.numbers = d.numbers) : d'.Near net cap where
  numbered := by
    rw [hmarkings, hnumbers]
    exact h.numbered
  near := by
    rw [hmarkings]
    exact h.near
  pos := hmarkings ▸ h.pos
  capped := hmarkings ▸ h.capped

theorem near_start (net : Net) (cap : Nat) : (start net.marking).Near net cap := by
  have hsound := Sound.start net
  refine ⟨hsound.numbered, fun {m i} hm => ?_, Nat.zero_lt_one, Nat.le_max_right _ _⟩
  obtain ⟨hi, rfl⟩ := Array.getElem?_eq_some_iff.mp hm
  have hi : i < 1 := hi
  obtain rfl : i = 0 := by omega
  exact ⟨[], Nat.le_refl 0, net.runAt_nil _⟩

theorem Near.nodup (h : d.Near net cap) : d.markings.toList.Nodup := by
  rw [List.nodup_iff_injective_getElem]
  intro i j hij
  have hi := h.numbered.mpr (Array.getElem?_eq_getElem i.2)
  have hj := h.numbered.mpr (Array.getElem?_eq_getElem j.2)
  rw [show d.markings[i.1] = d.markings[j.1] from by simpa using hij, hj] at hi
  exact Fin.ext (Option.some.inj hi).symm

theorem Near.mem_iff (h : d.Near net cap) : m ∈ d.markings.toList ↔ d.numbers[m]? ≠ none := by
  rw [List.mem_iff_getElem?, Option.ne_none_iff_exists']
  refine exists_congr fun i => ?_
  rw [Array.getElem?_toList, h.numbered]

/-- The markings found and one more are all different, so more can be reached than were found. -/
theorem Near.exceeds (h : d.Near net cap) (hm : d.numbers[m]? = none)
    (hreach : net.Reaches net.marking m) (hfull : d.markings.size = max cap 1) :
    net.Exceeds cap := by
  have hnodup : (m :: d.markings.toList).Nodup :=
    List.nodup_cons.mpr ⟨fun hmem => h.mem_iff.mp hmem hm, h.nodup⟩
  have hle := length_le_encard hnodup (S := {m | net.Reaches net.marking m}) fun x hx => by
    rcases List.mem_cons.mp hx with rfl | hx
    · exact hreach
    · obtain ⟨i, hi⟩ := List.mem_iff_getElem?.mp hx
      rw [Array.getElem?_toList] at hi
      exact (h.near hi).reaches
  refine lt_of_lt_of_le ?_ hle
  rw [List.length_cons, Array.length_toList, hfull]
  exact_mod_cast Nat.lt_succ_self _

/-- A marking that one firing leads to from the step `source` is found, or is one too many. -/
theorem Near.visit {source : Nat} (h : d.Near net cap) (hsource : source < d.markings.size)
    (hm : net.ReachesWithin (source + 1) m) :
    (∃ d' i, d.visit cap m = .ok (d', i) ∧ d'.Near net cap) ∨
      d.visit cap m = .error (.tooManySteps cap (max cap 1)) ∧ net.Exceeds cap := by
  have hpos := h.pos
  have hcapped := h.capped
  unfold Discovery.visit
  split
  · exact Or.inl ⟨_, _, rfl, h⟩
  rename_i hnone
  dsimp only
  split
  · have hfull : d.markings.size = max cap 1 := by omega
    exact Or.inr ⟨by rw [hfull], h.exceeds hnone hm.reaches hfull⟩
  · have hsize : (d.markings.push m).size = d.markings.size + 1 := Array.size_push _
    refine Or.inl ⟨_, _, rfl, numbered_push h.numbered hnone, fun {x j} hx => ?_, ?_, ?_⟩
    · rcases getElem?_push_eq_some_iff.mp hx with ⟨rfl, rfl⟩ | hx
      · exact hm.mono hsource
      · exact h.near hx
    · show 0 < (d.markings.push m).size
      omega
    · show (d.markings.push m).size ≤ _
      omega

/-- The search goes on with what is known of it, or fails because more markings can be reached than
it may find. -/
def Proceeds (net : Net) (cap : Nat) (x : Except Failure Discovery) : Prop :=
  (∃ d, x = .ok d ∧ d.Near net cap) ∨
    x = .error (.tooManySteps cap (max cap 1)) ∧ net.Exceeds cap

/-- The transitions that are enabled at a step are fired one after the other. -/
theorem Near.expand {source : Nat} (h : d.Near net cap) (hsource : source < d.markings.size)
    (hm : net.ReachesWithin source m)
    (hts : ∀ t ∈ ts, net.contains t.node = true ∧ ∃ m', net.fireAt m t = .ok m') :
    Proceeds net cap (net.expand cap source m ts d) := by
  induction ts generalizing d with
  | nil => exact Or.inl ⟨d, rfl, h⟩
  | cons t ts ih =>
      obtain ⟨⟨ht, m', hm'⟩, hts⟩ := List.forall_mem_cons.mp hts
      rw [Net.expand, hm', ok_bind]
      rcases h.visit hsource (hm.tail hm') with ⟨d₁, i, hvisit, h₁⟩ | ⟨hvisit, hexceeds⟩
      · obtain ⟨label, hlabel⟩ := Net.exists_nodeName ht
        have hsize := (visit_of_size_le hvisit).1.size
        rw [hvisit, ok_bind]
        show Proceeds net cap (net.nodeName t.node >>= _)
        rw [hlabel, ok_bind]
        exact ih (d := { d₁ with moves := d₁.moves.push ⟨source, i, t, label⟩ })
          (h₁.congr rfl rfl) (Nat.lt_of_lt_of_le hsource hsize) hts
      · rw [hvisit]
        exact Or.inr ⟨rfl, hexceeds⟩

/-- **A search in which all enabled transitions can fire** ends, or fails because more markings can
be reached than it may find. -/
theorem Near.explore {fuel : Nat} (hnet : net.WellFormed) (hfire : net.FiresBelow (max cap 1))
    (h : d.Near net cap) : Proceeds net cap (net.explore cap fuel d) := by
  induction fuel generalizing d with
  | zero => exact Or.inl ⟨d, rfl, h⟩
  | succ fuel ih =>
      rw [Net.explore]
      split
      · exact Or.inl ⟨d, rfl, h⟩
      rename_i m hm
      have hsource : d.steps.size < d.markings.size := (Array.getElem?_eq_some_iff.mp hm).1
      have hsize := (h.near hm).reaches.size_eq.trans net.size_marking
      obtain ⟨enabled, henabled, hen⟩ := hnet.exists_enabledAt hsize
      rw [henabled, ok_bind]
      have hexpand := h.expand hsource (h.near hm) fun t (ht : t ∈ enabled) =>
        ⟨((hen t).mp ht).1, hfire _ (Nat.lt_of_lt_of_le hsource h.capped) m (h.near hm) t
          ((hen t).mp ht)⟩
      rcases hexpand with ⟨d₁, hd₁, h₁⟩ | ⟨herror, hexceeds⟩
      · rw [hd₁, ok_bind]
        exact ih (h₁.congr rfl rfl)
      · rw [herror]
        exact Or.inr ⟨rfl, hexceeds⟩

end Discovery

namespace Net

/-- A step graph has all markings that can be reached, and no more than the limit allows. -/
theorem encard_of_stepGraph {g : StepGraph} (h : net.WellFormed)
    (hg : net.stepGraph (some limit) = .ok g) :
    {m | net.Reaches net.marking m}.encard = g.stepCount ∧ g.stepCount ≤ max limit 1 := by
  have hgraph := isReachabilityGraph_of_stepGraph h hg
  refine ⟨?_, (stepGraph_of_stepCount_le hg).1⟩
  have hencard := encard_eq_length hgraph.distinct (S := {m | net.Reaches net.marking m}) fun m =>
    List.mem_map.trans (exists_step_iff_reaches hg)
  rwa [List.length_map, Array.length_toList] at hencard

/-- **The limit is a threshold**: the search finds all markings that can be reached if the limit
allows as many, and else fails with as many steps as the limit allows. -/
theorem WellFormed.stepGraph_of_limit (h : net.WellFormed)
    (hfire : net.FiresBelow (max limit 1)) :
    (¬net.Exceeds limit → ∃ g, net.stepGraph (some limit) = .ok g) ∧
    (net.Exceeds limit →
      net.stepGraph (some limit) = .error (.tooManySteps limit (max limit 1))) := by
  have hgraph : net.stepGraph (some limit)
      = net.explore limit (max limit 1) (.start net.marking) >>= fun d =>
        return ⟨net, d.steps, d.moves, d.numbers⟩ := rfl
  have hexplore : Discovery.Proceeds net limit (net.explore limit (max limit 1) _) :=
    (Discovery.near_start net limit).explore h hfire
  rcases hexplore with ⟨d, hd, -⟩ | ⟨herror, hexceeds⟩
  · have hok : net.stepGraph (some limit) = .ok ⟨net, d.steps, d.moves, d.numbers⟩ := by
      rw [hgraph, hd]
      rfl
    refine ⟨fun _ => ⟨_, hok⟩, fun hexceeds => ?_⟩
    obtain ⟨hencard, hle⟩ := encard_of_stepGraph h hok
    rw [Exceeds, hencard] at hexceeds
    exact absurd (Nat.cast_lt.mp hexceeds) (Nat.not_lt.mpr hle)
  · refine ⟨fun hnot => absurd hexceeds hnot, fun _ => ?_⟩
    rw [hgraph, herror]
    rfl

/-! ## Nets that fill slowly -/

/-- Firings that each put at most `k` markers into a place put at most that many times `k` into it. -/
theorem WellFormed.tokens_runAt_le_mul (h : net.WellFormed) {k : Nat} {p : PlaceId}
    (hk : ∀ t : TransitionId, net.arcCount t.node p.node ≤ k)
    (hts : net.runAt net.marking ts = .ok m) :
    m.tokens p ≤ net.marking.tokens p + k * ts.length := by
  induction ts using List.reverseRecOn generalizing m with
  | nil =>
      cases hts
      exact Nat.le_add_right _ _
  | append_singleton ts t ih =>
      obtain ⟨m₁, hm₁, hrun⟩ := runAt_append_eq_ok_iff.mp hts
      obtain ⟨m₂, hf, hnil⟩ := runAt_cons_eq_ok_iff.mp hrun
      cases hnil
      have hle := ih hm₁
      have htokens := h.tokens_fireAt hf p
      have hput := hk t
      rw [List.length_append, List.length_singleton, Nat.mul_succ]
      omega

/-- At most one arc leads from a transition to a place, and none to a place that is marked in the
beginning. -/
structure FillsSlowly (net : Net) : Prop where
  single : ∀ (t : TransitionId) (p : PlaceId), net.arcCount t.node p.node ≤ 1
  start : ∀ p, 0 < net.marking.tokens p → ∀ t : TransitionId, net.arcCount t.node p.node = 0

namespace FillsSlowly

/-- A net fills slowly if no arc is there twice, and each leads to a place without markers or to a
transition. -/
theorem of_arcs (harcs : net.arcs.toList.Nodup)
    (hempty : ∀ a ∈ net.arcs.toList, ∀ p ∈ a.target.place?, net.marking.tokens p = 0) :
    net.FillsSlowly where
  single t p := List.nodup_iff_count_le_one.mp harcs _
  start p hp t := by
    refine Nat.eq_zero_of_not_pos fun hpos => ?_
    have hzero := hempty _ (arcCount_pos_iff.mp hpos) p (Node.handle?_node p)
    omega

/-- Each firing puts at most one marker into a place. -/
theorem tokens_runAt_le (hs : net.FillsSlowly) (h : net.WellFormed)
    (hts : net.runAt net.marking ts = .ok m) (p : PlaceId) :
    m.tokens p ≤ net.marking.tokens p + ts.length := by
  have hle := h.tokens_runAt_le_mul (fun t => hs.single t p) hts
  omega

/-- A place that is marked in the beginning gets no more markers. -/
theorem tokens_runAt_le_start (hs : net.FillsSlowly) (h : net.WellFormed) {p : PlaceId}
    (hp : 0 < net.marking.tokens p) (hts : net.runAt net.marking ts = .ok m) :
    m.tokens p ≤ net.marking.tokens p := by
  have hle := h.tokens_runAt_le_mul (fun t => Nat.le_of_eq (hs.start p hp t)) hts
  omega

/-- Below the range of counts no firing fails: a place that started empty holds no more markers than
there were firings, and nothing is put into the others. -/
theorem firesBelow (hs : net.FillsSlowly) (h : net.WellFormed) (hn : n < countRange) :
    net.FiresBelow n := by
  rintro k hk m ⟨ts, hlength, hts⟩ t hen
  have hm : m.size = net.places.size := (size_runAt hts).trans net.size_marking
  refine (h.exists_fireAt_iff hm).mpr ⟨hen, fun p hp => ?_⟩
  have hle := hs.tokens_runAt_le h hts p
  have hsingle := hs.single t p
  rcases Nat.eq_zero_or_pos (net.marking.tokens p) with hzero | hpos
  · omega
  · have hnone := hs.start p hpos t
    omega

/-- The start of a processing step puts one marker into its inner place, which starts empty, and its
end puts what the step puts. -/
theorem unfolded (hs : net.FillsSlowly) (hu : net.UnfoldsTo u) :
    u.FillsSlowly := by
  -- what the transitions of the unfolded net put into a place
  have hputs (v : TransitionId) (p : PlaceId) : u.arcCount v.node p.node = 0 ∨
      (∃ t : TransitionId, u.arcCount v.node p.node = net.arcCount t.node p.node) ∨
      u.arcCount v.node p.node = 1 ∧ net.marking.tokens p = 0 := by
    by_cases hv : u.contains v.node = true
    · obtain ⟨t, ht, hend⟩ := hu.covers v hv
      obtain ⟨x, hx⟩ := Arena.contains_iff_exists.mp ht
      have hcases : v = net.endOf t ∨ v = net.startOf t ∧ x.role = .app := by
        rcases hend with rfl | rfl
        · cases hrole : x.role with
          | control => exact Or.inl (hu.control t x hx hrole)
          | app => exact Or.inr ⟨rfl, rfl⟩
        · exact Or.inl rfl
      rcases hcases with rfl | ⟨rfl, happ⟩
      · exact Or.inr (Or.inl ⟨t, hu.puts t ht p⟩)
      · rw [hu.begins t x hx happ]
        split
        · rename_i hp
          rw [hp]
          exact Or.inr (Or.inr ⟨rfl, tokens_innerOf net.size_marking t⟩)
        · exact Or.inl rfl
    · exact Or.inl (hu.wellFormed.arcCount_eq_zero hv p.node).1
  constructor
  case single =>
    intro v p
    rcases hputs v p with hzero | ⟨t, ht⟩ | ⟨hone, -⟩
    · omega
    · rw [ht]
      exact hs.single t p
    · omega
  case start =>
    intro p hp
    rw [hu.tokens] at hp
    intro v
    rcases hputs v p with hzero | ⟨t, ht⟩ | ⟨-, hempty⟩
    · exact hzero
    · rw [ht, hs.start p hp]
    · omega

end FillsSlowly

end Net

/-- The net of a route starts with its marker in the source, to which no arc leads. -/
theorem RouteNet.fillsSlowly_ofRoute (route : Route) :
    (RouteNet.ofRoute route).net.FillsSlowly where
  single t p := (ordinary_ofRoute route).arcCount_le_one t.node p.node
  start p hp := by
    rw [(sound_ofRoute route).tokens] at hp
    split at hp
    · rename_i heq
      refine fun t => Nat.eq_zero_of_not_pos fun hpos => ?_
      have hfirst := (translates_ofStages route.id (Route.stages [route])).first _
        (Net.arcCount_pos_iff.mp hpos)
      exact hfirst (congrArg Handle.node heq)
    · cases hp

/-! ## The exact limit -/

namespace Net

/-- The limit is exceeded by the markings that firings reach if it is by those that counts of any size
lead to, for within the limit no count goes beyond its range. -/
theorem exceeds_iff_leads (h : net.WellFormed) (hfire : net.FiresBelow (max limit 1)) :
    net.Exceeds limit ↔
      ((max limit 1 : Nat) : ENat) < {m | net.Leads net.marking m}.encard := by
  constructor
  · intro hexceeds
    refine hexceeds.trans_le (Set.encard_le_encard fun m hm => ?_)
    exact h.leads_of_reaches net.size_marking hm
  · intro hleads
    by_contra hnot
    obtain ⟨g, hg⟩ := (h.stepGraph_of_limit hfire).1 hnot
    have hset : {m | net.Leads net.marking m} = {m | net.Reaches net.marking m} :=
      Set.ext fun m => (reaches_iff_leads_of_stepGraph h hg).symm
    rw [hset] at hleads
    exact hnot hleads

end Net

/-- **The limit on steps is an exact threshold.** As long as no firing within the limit goes beyond the
range of the counts, the search is over after as many rounds as the limit allows steps, and further
rounds change nothing. It succeeds exactly if no more markings can be reached than the limit allows,
whether the counts have 64 bits or any size. Then the same steps are found, in the same order and with
the same moves, under every looser limit and without one; else the search fails with as many steps as
the limit allows. The limit 0 allows the first step. -/
theorem step_limit_exact (h : net.WellFormed) (hstart : ∀ p, net.marking.tokens p < countRange)
    (limit : Nat) (hfire : net.FiresBelow (max limit 1)) :
    (∀ rounds, max limit 1 ≤ rounds → net.explore limit rounds (.start net.marking)
      = net.explore limit (max limit 1) (.start net.marking)) ∧
    ((∃ g, net.stepGraph (some limit) = .ok g) ↔
      {m | net.CanReach m}.encard ≤ (max limit 1 : Nat)) ∧
    ({m | net.CanReach m}.encard ≤ (max limit 1 : Nat) ↔
      {m | net.Leads net.marking m}.encard ≤ (max limit 1 : Nat)) ∧
    (∀ g, net.stepGraph (some limit) = .ok g →
      ∀ limit', Loosens (some limit) limit' → net.stepGraph limit' = .ok g) ∧
    (¬{m | net.CanReach m}.encard ≤ (max limit 1 : Nat) →
      net.stepGraph (some limit) = .error (.tooManySteps limit (max limit 1))) := by
  have hset : {m | net.CanReach m} = {m | net.Reaches net.marking m} :=
    Set.ext fun m => Net.canReach_iff
  have hexceeds : {m | net.CanReach m}.encard ≤ (max limit 1 : Nat) ↔ ¬net.Exceeds limit := by
    rw [hset, Net.Exceeds, not_lt]
  obtain ⟨hok, herror⟩ := h.stepGraph_of_limit hfire
  refine ⟨fun rounds hrounds => ?_, ?_, ?_, fun g hg limit' hloosens => ?_, fun hnot => ?_⟩
  · exact Discovery.explore_eq_of_le (Nat.le_max_right _ _) (Nat.le_add_left _ _) hrounds
  · rw [hexceeds]
    refine ⟨fun ⟨g, hg⟩ hmore => ?_, hok⟩
    rw [herror hmore] at hg
    cases hg
  · rw [hexceeds, Net.exceeds_iff_leads h hfire, not_lt]
  · exact stepGraph_of_loosens h hstart hloosens hg
  · exact herror (not_not.mp fun hmore => hnot (hexceeds.mpr hmore))

/-- Two markers that cross independently reach four markings, which the limit 3 does not allow. -/
theorem step_limit_exact_crossing :
    {m | crossing.CanReach m}.encard ≤ 4 ∧ (∃ g, crossing.stepGraph (some 4) = .ok g) ∧
      ¬{m | crossing.CanReach m}.encard ≤ 3 ∧
      crossing.stepGraph (some 3) = .error (.tooManySteps 3 3) := by
  have hwell := crossing_made.wellFormed
  have hstart (p : PlaceId) : crossing.marking.tokens p < countRange :=
    (crossing.marking.tokens_le_sum p).trans_lt (by decide +kernel)
  have hfills : crossing.FillsSlowly := .of_arcs (by decide +kernel) (by decide +kernel)
  have hfour : (crossing.stepGraph (some 4)).isOk = true := by
    rw [Net.stepGraph_eq_survey]
    decide +kernel
  have hthree : (crossing.stepGraph (some 3)).isOk = false := by
    rw [Net.stepGraph_eq_survey]
    decide +kernel
  obtain ⟨g, hg⟩ := exists_eq_ok hfour
  obtain ⟨-, hiff, -⟩ := step_limit_exact hwell hstart 4 (hfills.firesBelow hwell (by decide))
  obtain ⟨-, hiff', -, -, herror⟩ :=
    step_limit_exact hwell hstart 3 (hfills.firesBelow hwell (by decide))
  have hmore : ¬{m | crossing.CanReach m}.encard ≤ (max 3 1 : Nat) := by
    intro hle
    obtain ⟨g', hg'⟩ := hiff'.mpr hle
    rw [hg'] at hthree
    cases hthree
  exact ⟨hiff.mp ⟨g, hg⟩, ⟨g, hg⟩, hmore, herror hmore⟩

end RoutePolicy
