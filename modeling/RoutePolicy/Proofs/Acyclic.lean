import RoutePolicy.Proofs.Net.Weights
import RoutePolicy.Proofs.Simulation
import RoutePolicy.Proofs.StateLimit

set_option autoImplicit false

/-! # Nets without cycles come to an end

In a net whose arcs never lead back to a node only finitely many paths start at each node
(`Net.Acyclic.exists_countsPaths`). If every transition takes from some place, then each move leaves
the markers fewer paths to follow (`Net.CountsPaths.pathsFrom_lt`): the paths from what it puts are the
rest of paths from what it takes. So forks and joins may multiply the markers, and yet a net makes no
more moves than there are paths from its markers, and leads to finitely many markings
(`Net.WellFormed.finite_leads_of_acyclic`). Where no count goes beyond its range the search is then over
by itself (`Net.WellFormed.finishes`), for the net of a route as for its unfolded net
(`acyclic_routes_finish`). -/

namespace RoutePolicy

variable {net : Net} {m m' : Marking} {t : TransitionId} {ts : List TransitionId} {p : PlaceId}

namespace Net

/-! ## Paths from a node -/

/-- The arcs lead from no node back to it. -/
def Acyclic (net : Net) : Prop := ∀ n, ¬Relation.TransGen net.Precedes n n

/-- There is no cycle if all arcs lead upwards. -/
theorem Acyclic.of_rank (rank : Node → Nat)
    (h : ∀ a ∈ net.arcs.toList, rank a.source < rank a.target) : net.Acyclic := by
  have hup {n n' : Node} (hway : Relation.TransGen net.Precedes n n') : rank n < rank n' := by
    induction hway with
    | single harc => exact h _ harc
    | tail _ harc ih => exact ih.trans (h _ harc)
  exact fun n hn => Nat.lt_irrefl _ (hup hn)

/-- Without cycles one can go on along arcs only so often: from each node fewer nodes can be come to
than from the node before. -/
theorem Acyclic.wellFounded (h : net.Acyclic) : WellFounded fun n' n => net.Precedes n n' := by
  have hfinite (n : Node) : {x | Relation.TransGen net.Precedes n x}.Finite := by
    refine (net.arcs.toList.map (·.target)).finite_toSet.subset fun x hx => ?_
    obtain ⟨y, -, harc⟩ := Relation.TransGen.tail'_iff.mp hx
    exact List.mem_map.mpr ⟨_, harc, rfl⟩
  have hfewer {n n' : Node} (harc : net.Precedes n n') :
      {x | Relation.TransGen net.Precedes n' x}.ncard
        < {x | Relation.TransGen net.Precedes n x}.ncard := by
    refine Set.ncard_lt_ncard ⟨fun x hx => .head harc hx, fun hback => ?_⟩ (hfinite n)
    exact h n' (hback (.single harc))
  exact Subrelation.wf hfewer
    (InvImage.wf (fun n => {x | Relation.TransGen net.Precedes n x}.ncard) wellFounded_lt)

/-- The function counts the paths from each node, of which one goes no further. -/
def CountsPaths (net : Net) (w : Node → Nat) : Prop :=
  ∀ n, w n = 1 + (net.arcs.toList.map fun a => if a.source = n then w a.target else 0).sum

/-- Without cycles the paths from each node can be counted. -/
theorem Acyclic.exists_countsPaths (h : net.Acyclic) : ∃ w, net.CountsPaths w := by
  classical
  refine ⟨h.wellFounded.fix fun n w => 1 + (net.arcs.toList.map fun a =>
    if ha : a.source = n ∧ net.Precedes n a.target then w a.target ha.2 else 0).sum, fun n => ?_⟩
  rw [WellFounded.fix_eq]
  refine congrArg (fun l => 1 + List.sum l) (List.map_congr_left fun a ha => ?_)
  by_cases hn : a.source = n
  · have harc : net.Precedes n a.target := hn ▸ ha
    rw [dif_pos ⟨hn, harc⟩, if_pos hn]
  · rw [dif_neg fun hboth => hn hboth.1, if_neg hn]

namespace CountsPaths

variable {w : Node → Nat}

theorem pos (hw : net.CountsPaths w) (n : Node) : 0 < w n := by
  rw [hw n]
  omega

/-- A path over an arc is one more than those that go on from its end. -/
theorem lt (hw : net.CountsPaths w) {n n' : Node} (harc : net.Precedes n n') : w n' < w n := by
  have hle := List.single_le_sum (l := net.arcs.toList.map fun a =>
    if a.source = n then w a.target else 0) (fun _ _ => Nat.zero_le _) (w n')
    (List.mem_map.mpr ⟨_, harc, if_pos rfl⟩)
  rw [hw n]
  omega

end CountsPaths

/-- The paths from all markers together. -/
def pathsFrom (net : Net) (w : Node → Nat) (m : Marking) : Nat := net.weigh (fun p => w p.node) m

namespace CountsPaths

variable {w : Node → Nat}

/-- **A move leaves fewer paths to the markers.** -/
theorem pathsFrom_lt (hw : net.CountsPaths w) (h : net.WellFormed) (hmoves : net.Moves m t m')
    (hp : net.Precedes p.node t.node) : net.pathsFrom w m' < net.pathsFrom w m := by
  have htaken := h.weigh_add_le (fun p => w p.node) hmoves hp
  have hput := net.sum_arcCount_mul_le w t.node net.places.size
  have hfrom := hw t.node
  have hon := hw.lt hp
  unfold pathsFrom
  omega

/-- Each firing of a run costs one of the paths from the markers at its start. -/
theorem length_add_pathsFrom_le (hw : net.CountsPaths w) (h : net.WellFormed)
    (hinput : ∀ t : TransitionId, net.contains t.node = true →
      ∃ p : PlaceId, net.Precedes p.node t.node)
    (hm : m.size = net.places.size) (hrun : net.runAt m ts = .ok m') :
    ts.length + net.pathsFrom w m' ≤ net.pathsFrom w m := by
  induction ts generalizing m with
  | nil =>
      cases hrun
      rw [List.length_nil, Nat.zero_add]
  | cons t ts ih =>
      obtain ⟨m₁, hf, hrun⟩ := runAt_cons_eq_ok_iff.mp hrun
      have hmoves := h.moves_of_fireAt hm hf
      obtain ⟨p, hp⟩ := hinput t hmoves.enabled.1
      have hlt := hw.pathsFrom_lt h hmoves hp
      have hrest := ih ((size_fireAt hf).trans hm) hrun
      rw [List.length_cons]
      omega

/-- What moves lead to holds no more markers than there were paths from the markers at the start. -/
theorem tokens_le_of_leads (hw : net.CountsPaths w) (h : net.WellFormed)
    (hinput : ∀ t : TransitionId, net.contains t.node = true →
      ∃ p : PlaceId, net.Precedes p.node t.node)
    (hm : m.size = net.places.size) (hlead : net.Leads m m') (p : PlaceId) :
    m'.tokens p ≤ net.pathsFrom w m := by
  have hweigh : net.pathsFrom w m' ≤ net.pathsFrom w m := by
    induction hlead with
    | refl => exact Nat.le_refl _
    | tail _ hstep ih =>
        obtain ⟨t, hmoves⟩ := hstep
        obtain ⟨q, hq⟩ := hinput t hmoves.enabled.1
        exact (hw.pathsFrom_lt h hmoves hq).le.trans ih
  calc m'.tokens p ≤ m'.tokens p * w p.node := Nat.le_mul_of_pos_right _ (hw.pos p.node)
    _ ≤ net.pathsFrom w m' :=
        tokens_mul_le_weigh (fun p => w p.node) (hlead.size_eq.trans hm) p
    _ ≤ net.pathsFrom w m := hweigh

end CountsPaths

/-- **A net without cycles leads to finitely many markings**, if each transition takes from some
place. -/
theorem WellFormed.finite_leads_of_acyclic (h : net.WellFormed) (hacyclic : net.Acyclic)
    (hinput : ∀ t : TransitionId, net.contains t.node = true →
      ∃ p : PlaceId, net.Precedes p.node t.node) :
    {m | net.Leads net.marking m}.Finite := by
  obtain ⟨w, hw⟩ := hacyclic.exists_countsPaths
  refine (net.finite_of_bound (net.pathsFrom w net.marking)).subset fun m hm => ?_
  exact ⟨Leads.size_eq hm |>.trans net.size_marking,
    fun p => hw.tokens_le_of_leads h hinput net.size_marking hm p⟩

/-! ## Searches that end by themselves -/

/-- The search without a limit ends with the markings that firings reach. A limit that allows as many
steps changes nothing, and nor do rounds beyond their number. -/
def Finishes (net : Net) : Prop :=
  ∃ g : StepGraph, net.stepGraph none = .ok g ∧ {m | net.CanReach m}.encard = g.stepCount ∧
    (∀ limit, g.stepCount ≤ limit → net.stepGraph (some limit) = .ok g) ∧
    ∃ d, ∀ cap rounds, g.stepCount ≤ cap → g.stepCount ≤ rounds →
      net.explore cap rounds (.start net.marking) = .ok d

/-- A net that leads to finitely many markings, none with a count beyond its range, is explored to the
end. -/
theorem WellFormed.finishes (h : net.WellFormed)
    (hrange : ∀ m, net.Leads net.marking m → ∀ p, m.tokens p < countRange)
    (hfinite : {m | net.Leads net.marking m}.Finite) : net.Finishes := by
  have hset : {m | net.CanReach m} = {m | net.Reaches net.marking m} :=
    Set.ext fun m => canReach_iff
  have hleads : {m | net.Reaches net.marking m} = {m | net.Leads net.marking m} :=
    hset ▸ setOf_canReach_eq h hrange
  have hfires (limit : Nat) : net.FiresBelow limit := by
    intro k _ m hm t hen
    have hsize := hm.reaches.size_eq.trans net.size_marking
    obtain ⟨m', hmoves⟩ := h.exists_moves hsize hen
    have hlead := (h.leads_of_reaches net.size_marking hm.reaches).tail_moves hmoves
    exact ⟨m', (h.fireAt_eq_ok_iff_moves hsize).mpr ⟨hmoves, fun p _ => hrange m' hlead p⟩⟩
  -- the number of markings is a limit that is not exceeded
  obtain ⟨n, hn⟩ : ∃ n, {m | net.Reaches net.marking m}.ncard = n := ⟨_, rfl⟩
  have hencard : {m | net.Reaches net.marking m}.encard = n := by
    rw [← hn, Set.Finite.cast_ncard_eq (hleads ▸ hfinite)]
  have hfits : ¬net.Exceeds n := by
    rw [Exceeds, hencard, not_lt]
    exact_mod_cast Nat.le_max_left _ _
  obtain ⟨g, hg⟩ := (h.stepGraph_of_limit (hfires _)).1 hfits
  have hstart (p : PlaceId) : net.marking.tokens p < countRange := hrange _ .refl p
  obtain ⟨-, hsame⟩ := stepGraph_of_stepCount_le hg
  refine ⟨g, stepGraph_of_loosens h hstart (loosens_none _) hg,
    hset ▸ (encard_of_stepGraph h hg).1,
    fun limit hle => hsame (some limit) (hle.trans (Nat.le_max_left _ _)), ?_⟩
  obtain ⟨d, hd, -, hsteps, rfl⟩ := exists_explored_of_stepGraph hg
  obtain ⟨-, hexplore⟩ := Discovery.explore_of_size_le hd
  refine ⟨d, fun cap rounds hcap hrounds => ?_⟩
  have hcap : d.steps.size ≤ cap := hcap
  have hrounds : d.steps.size ≤ rounds := hrounds
  have hone : (Discovery.start net.marking).markings.size = 1 := rfl
  exact hexplore cap rounds (by omega) (by omega) (by omega)

end Net

/-! ## Routes without cycles -/

/-- **A route whose net has no cycle always comes to an end.** Its net makes only so many firings in
one run, and it and its unfolded net lead to finitely many markings, with counts of any size. If the net
leads to no count beyond the range, both are explored to the end: without a limit, and with the same
result under every limit that allows as many steps as there are markings. -/
theorem acyclic_routes_finish (route : Route) (hacyclic : (RouteNet.ofRoute route).net.Acyclic) :
    let net := (RouteNet.ofRoute route).net
    ∃ u, net.unfold = .ok u ∧
      (∃ n, ∀ ts m, net.runAt net.marking ts = .ok m → ts.length ≤ n) ∧
      {m | net.Leads net.marking m}.Finite ∧ {μ | u.Leads u.marking μ}.Finite ∧
      ((∀ m, net.Leads net.marking m → ∀ p, m.tokens p < countRange) →
        net.Finishes ∧ u.Finishes) := by
  intro net
  have h : net.Ordinary := RouteNet.ordinary_ofRoute route
  have hinput := (RouteNet.sound_ofRoute route).input
  have houtput := RouteNet.exists_arcCount_pos route
  obtain ⟨u, hunfold, hu⟩ := Net.exists_unfoldsTo h.wellFormed
  have ha := hu.addsInner hunfold
  have hfinite := h.wellFormed.finite_leads_of_acyclic hacyclic hinput
  have hfinite' := (Net.mirrors_leads h hu ha houtput).finite.mpr hfinite
  obtain ⟨w, hw⟩ := hacyclic.exists_countsPaths
  refine ⟨u, hunfold, ⟨net.pathsFrom w net.marking, fun ts m hrun => ?_⟩, hfinite, hfinite',
    fun hrange => ⟨h.wellFormed.finishes hrange hfinite, ?_⟩⟩
  · exact (Nat.le_add_right _ _).trans
      (hw.length_add_pathsFrom_le h.wellFormed hinput net.size_marking hrun)
  · exact hu.wellFormed.finishes
      (fun μ hμ => Net.tokens_lt_of_unfolded h hu ha houtput hrange hμ) hfinite'

/-- A clerk has an order packed and billed, and the carrier comes for each of the two. -/
def delivery : Route :=
  .node ⟨"order", [.app "clerk"], [.app "packer"], []⟩
    [.node ⟨"bill", [.app "clerk"], [.app "accountant"], []⟩ [],
      .node ⟨"parcel", [.app "packer", .app "accountant"], [.app "carrier"], ["goods"]⟩ []]

/-- How far a node of its net is from the source. -/
def deliveryRank (n : Node) : Nat :=
  match n.kind with
  | .place => [2, 2, 4, 0, 6].getD n.index 0
  | .transition => [1, 3, 3, 5].getD n.index 0

/-- One marker becomes two, and its net and the unfolded net are explored to the end. -/
theorem acyclic_routes_finish_delivery :
    let net := (RouteNet.ofRoute delivery).net
    net.Acyclic ∧ (∀ m, net.Leads net.marking m → ∀ p, m.tokens p < countRange) ∧
      ∃ u, net.unfold = .ok u ∧ net.Finishes ∧ u.Finishes := by
  intro net
  have hacyclic : net.Acyclic := .of_rank deliveryRank (by decide +kernel)
  have hok : (net.stepGraph none).isOk = true := by
    rw [Net.stepGraph_eq_survey]
    decide +kernel
  obtain ⟨g, hg⟩ := exists_eq_ok hok
  have h : net.Ordinary := RouteNet.ordinary_ofRoute delivery
  have hrange (m : Marking) (hm : net.Leads net.marking m) (p : PlaceId) :
      m.tokens p < countRange := h.wellFormed.tokens_lt_of_leads hg h.start hm p
  obtain ⟨u, hunfold, -, -, -, hfinishes⟩ := acyclic_routes_finish delivery hacyclic
  exact ⟨hacyclic, hrange, u, hunfold, hfinishes hrange⟩

end RoutePolicy
