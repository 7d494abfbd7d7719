import RoutePolicy.Proofs.Route.Succession

set_option autoImplicit false

/-! # What one pass finds of the lineage

The pass takes each transition once (`Net.nodup_propagationOrder`). It sets what a transition reads
from what its suppliers write at that moment: a supplier that was passed before has its last write
set, and one that was not still has the write set of the stages
(`Net.WellFormed.contextAt_propagate`). A structural step writes what it reads, so its write set may
change after its readers have been passed. What a transition reads is therefore known to be what its
suppliers write when its structural suppliers come before it (`lineage_of_order`); a detour in the
route can make one of them come later (`lineage_misses_detour`). -/

namespace RoutePolicy

variable {net : Net} {origin : PlaceId} {t u : TransitionId} {ts us vs : List TransitionId}
  {r : String}

namespace Context

variable (c : Context) (read : NameSet)

@[simp] theorem role_withRead : (c.withRead read).role = c.role := by
  unfold withRead
  split <;> rfl

@[simp] theorem tags_withRead : (c.withRead read).tags = c.tags := by
  unfold withRead
  split <;> rfl

@[simp] theorem read_withRead : (c.withRead read).read = read := by
  unfold withRead
  split <;> rfl

variable {c}

theorem withRead_of_app (h : c.role = .app) :
    c.withRead read = { c with read, erase := read.diff c.write } := by
  rw [withRead, h]

theorem withRead_of_control (h : c.role = .control) :
    c.withRead read = { c with read, write := read } := by
  rw [withRead, h]

/-- A processing step erases what it reads and does not write, and a structural step writes all that
it reads. -/
structure HandsOn (c : Context) : Prop where
  erases : c.role = .app → c.erase = c.read.diff c.write
  writes : c.role = .control → c.write = c.read

theorem handsOn_withRead (c : Context) (read : NameSet) : (c.withRead read).HandsOn := by
  refine ⟨fun hrole => ?_, fun hrole => ?_⟩
  · rw [role_withRead] at hrole
    rw [withRead_of_app read hrole]
  · rw [role_withRead] at hrole
    rw [withRead_of_control read hrole]

end Context

namespace Net

/-- What a transition does with data; nothing if it has no context. -/
def contextAt (net : Net) (t : TransitionId) : Context :=
  ((net.transitions.get? t).bind (·.context)).getD default

/-- The pass from the origin takes the first transition before the second. -/
def PassedBefore (net : Net) (origin : PlaceId) (u t : TransitionId) : Prop :=
  (net.propagationOrder origin).idxOf u < (net.propagationOrder origin).idxOf t

instance (net : Net) (origin : PlaceId) (u t : TransitionId) :
    Decidable (net.PassedBefore origin u t) := inferInstanceAs (Decidable (_ < _))

/-! ## Suppliers -/

theorem WellFormed.mem_nodesBefore_iff (h : net.WellFormed) {n n' : Node} :
    n' ∈ net.nodesBefore n ↔ ⟨n', n⟩ ∈ net.arcs.toList := by
  rw [nodesBefore, h.incoming.mem_ends_iff fun arc harc => contains_iff_incoming?.mp (h.target arc harc)]
  constructor
  · rintro ⟨arc, harc, rfl, rfl⟩
    exact harc
  · intro harc
    exact ⟨_, harc, rfl, rfl⟩

theorem WellFormed.mem_nodesAfter_iff (h : net.WellFormed) {n n' : Node} :
    n' ∈ net.nodesAfter n ↔ ⟨n, n'⟩ ∈ net.arcs.toList := by
  rw [nodesAfter, h.outgoing.mem_ends_iff fun arc harc => contains_iff_outgoing?.mp (h.source arc harc)]
  constructor
  · rintro ⟨arc, harc, rfl, rfl⟩
    exact harc
  · intro harc
    exact ⟨_, harc, rfl, rfl⟩

/-- The suppliers of a transition are the transitions that feed it. -/
theorem WellFormed.mem_suppliers_iff (h : net.WellFormed) : u ∈ net.suppliers t ↔ net.Feeds u t := by
  simp only [suppliers, List.mem_filterMap, List.mem_flatMap, h.mem_nodesBefore_iff, Node.place?,
    Node.transition?, Node.handle?_eq_some_iff]
  constructor
  · rintro ⟨n, ⟨p, ⟨n', hin, rfl⟩, hout⟩, rfl⟩
    exact ⟨p, hout, hin⟩
  · rintro ⟨p, hout, hin⟩
    exact ⟨u.node, ⟨p, ⟨p.node, hin, rfl⟩, hout⟩, rfl⟩

theorem WellFormed.contains_of_feeds (h : net.WellFormed) (hfeeds : net.Feeds u t) :
    net.contains u.node = true ∧ net.contains t.node = true := by
  obtain ⟨p, hout, hin⟩ := hfeeds
  exact ⟨h.source _ hout, h.target _ hin⟩

theorem mem_foldl_union {cs : List Context} {s : NameSet} :
    r ∈ cs.foldl (fun s c => s.union c.write) s ↔ r ∈ s ∨ ∃ c ∈ cs, r ∈ c.write := by
  induction cs generalizing s with
  | nil => simp
  | cons c cs ih =>
      rw [List.foldl_cons, ih, SortedSet.mem_union]
      simp only [List.mem_cons, exists_eq_or_imp, or_assoc]

theorem not_mem_default_write : r ∉ (default : Context).write := List.not_mem_nil

theorem mem_write_contextAt_iff : r ∈ (net.contextAt t).write ↔
    ∃ c, (net.transitions.get? t).bind (·.context) = some c ∧ r ∈ c.write := by
  rw [contextAt]
  cases (net.transitions.get? t).bind (·.context) with
  | none => simp [not_mem_default_write]
  | some c => simp

/-- A transition inherits what is written by those that feed it. -/
theorem WellFormed.mem_inherited_iff (h : net.WellFormed) :
    r ∈ net.inherited t ↔ ∃ u, net.Feeds u t ∧ r ∈ (net.contextAt u).write := by
  have hempty : r ∉ (∅ : NameSet) := List.not_mem_nil
  rw [inherited, mem_foldl_union, or_iff_right hempty]
  simp only [List.mem_filterMap, h.mem_suppliers_iff, mem_write_contextAt_iff]
  constructor
  · rintro ⟨c, ⟨u, hu, hc⟩, hr⟩
    exact ⟨u, hu, c, hc, hr⟩
  · rintro ⟨u, hu, c, hc, hr⟩
    exact ⟨c, ⟨u, hu, hc⟩, hr⟩

/-! ## The order of the pass -/

theorem mem_unseen_iff {n : Node} {seen ns : List Node} :
    n ∈ unseen seen ns ↔ n ∈ ns ∧ n ∉ seen := by
  induction ns generalizing seen with
  | nil => simp [unseen]
  | cons n' ns ih =>
      rw [unseen]
      split
      · rename_i hseen
        rw [ih, List.mem_cons]
        constructor
        · exact fun ⟨hn, hnew⟩ => ⟨Or.inr hn, hnew⟩
        · rintro ⟨rfl | hn, hnew⟩
          · exact absurd hseen hnew
          · exact ⟨hn, hnew⟩
      · rename_i hnew
        rw [List.mem_cons, ih, List.mem_cons, List.mem_cons]
        by_cases heq : n = n'
        · subst heq
          simp [hnew]
        · simp [heq]

theorem nodup_unseen (seen ns : List Node) : (unseen seen ns).Nodup := by
  induction ns generalizing seen with
  | nil => exact List.nodup_nil
  | cons n ns ih =>
      rw [unseen]
      split
      · exact ih seen
      · refine List.nodup_cons.mpr ⟨fun hmem => ?_, ih (n :: seen)⟩
        exact (mem_unseen_iff.mp hmem).2 List.mem_cons_self

/-- The search never meets a node twice. -/
theorem nodup_reach (net : Net) (fuel : Nat) {left waiting : List Node}
    (h : (left ++ waiting).Nodup) : (net.reach fuel left waiting).Nodup := by
  induction fuel generalizing left waiting with
  | zero => exact h
  | succ fuel ih =>
      cases waiting with
      | nil => exact (List.append_nil left) ▸ h
      | cons n waiting =>
          refine ih ?_
          rw [List.append_assoc, ← List.append_assoc [n], List.singleton_append,
            ← List.append_assoc]
          refine List.nodup_append.mpr ⟨h, nodup_unseen _ _, fun x hx y hy hxy => ?_⟩
          exact (mem_unseen_iff.mp hy).2 (hxy ▸ hx)

/-- **The pass takes each transition once.** -/
theorem nodup_propagationOrder (net : Net) (origin : PlaceId) :
    (net.propagationOrder origin).Nodup := by
  have hreached : (net.reachedFrom origin.node).Nodup :=
    nodup_reach net _ (List.nodup_singleton _)
  unfold propagationOrder
  refine List.nodup_append.mpr ⟨hreached.filterMap fun n n' t ht ht' => ?_,
    (Arena.nodup_indices _).filter _, fun t ht t' ht' htt' => ?_⟩
  · rw [(Node.handle?_eq_some_iff.mp ht), (Node.handle?_eq_some_iff.mp ht')]
  · -- the transitions that the search has met are not taken again
    obtain ⟨-, hnot⟩ := List.mem_filter.mp ht'
    subst htt'
    simp [ht] at hnot

theorem mem_propagationOrder (origin : PlaceId) (ht : net.contains t.node = true) :
    t ∈ net.propagationOrder origin := by
  unfold propagationOrder
  by_cases hreached : t ∈ (net.reachedFrom origin.node).filterMap Node.transition?
  · exact List.mem_append_left _ hreached
  · refine List.mem_append_right _ (List.mem_filter.mpr ⟨Arena.mem_indices_iff.mpr ht, ?_⟩)
    simpa using hreached

/-- The order depends only on where the arcs lead. -/
theorem propagationOrder_congr {net' : Net} (hafter : net'.nodesAfter = net.nodesAfter)
    (harcs : net'.arcs.size = net.arcs.size) (hsize : net'.transitions.size = net.transitions.size)
    (origin : PlaceId) : net'.propagationOrder origin = net.propagationOrder origin := by
  have hreach (fuel : Nat) (left waiting : List Node) :
      net'.reach fuel left waiting = net.reach fuel left waiting := by
    induction fuel generalizing left waiting with
    | zero => rfl
    | succ fuel ih =>
        cases waiting with
        | nil => rfl
        | cons n waiting => rw [reach, reach, ih, hafter]
  simp only [propagationOrder, reachedFrom, reachBound, hreach, harcs, Arena.indices, hsize]

/-! ## The contexts during the pass -/

theorem contextAt_passTransition_of_ne (net : Net) (hut : u ≠ t) :
    (net.passTransition t).contextAt u = net.contextAt u := by
  have hne : Index.position t ≠ Index.position u := fun h => hut (Arena.position_inj.mp h).symm
  rw [contextAt, passTransition, modifyContext, Arena.get?_modify, if_neg hne, contextAt]

theorem contextAt_passTransition_self (ht : net.contains t.node = true) :
    (net.passTransition t).contextAt t = (net.contextAt t).withRead (net.inherited t) := by
  obtain ⟨x, hx⟩ := Arena.contains_iff_exists.mp ht
  have hx : net.transitions.get? t = some x := hx
  rw [contextAt, passTransition, modifyContext, Arena.get?_modify, if_pos rfl, contextAt, hx]
  rfl

/-- A part of the pass changes only contexts. -/
structure Passed (net net' : Net) : Prop where
  wellFormed : net.WellFormed → net'.WellFormed
  nodes : ∀ n, net'.contains n = net.contains n
  arcs : net'.arcs = net.arcs
  after : net'.nodesAfter = net.nodesAfter
  size : net'.transitions.size = net.transitions.size

theorem passed_modifyContext (net : Net) (t : TransitionId) (f : Option Context → Option Context) :
    net.Passed (net.modifyContext t f) where
  wellFormed h := h.modifyContext t f
  nodes := contains_modifyContext net t f
  arcs := rfl
  after := by
    funext n
    simp only [nodesAfter, outgoing?_modifyContext, arcs_modifyContext]
  size := Arena.size_modify _ _ _

theorem Passed.trans {net' net'' : Net} (h : net.Passed net') (h' : net'.Passed net'') :
    net.Passed net'' where
  wellFormed hwf := h'.wellFormed (h.wellFormed hwf)
  nodes n := (h'.nodes n).trans (h.nodes n)
  arcs := h'.arcs.trans h.arcs
  after := h'.after.trans h.after
  size := h'.size.trans h.size

theorem passed_foldl (net : Net) (ts : List TransitionId) :
    net.Passed (ts.foldl passTransition net) :=
  foldl_passTransition (P := net.Passed) ts
    (fun net' t f h => h.trans (net'.passed_modifyContext t f))
    ⟨fun h => h, fun _ => rfl, rfl, rfl, rfl⟩

theorem Passed.feeds_iff {net' : Net} (h : net.Passed net') : net'.Feeds u t ↔ net.Feeds u t := by
  rw [Feeds, h.arcs]
  rfl

/-- What is not taken keeps its context. -/
theorem contextAt_foldl_of_not_mem (net : Net) (hu : u ∉ ts) :
    (ts.foldl passTransition net).contextAt u = net.contextAt u := by
  induction ts generalizing net with
  | nil => rfl
  | cons t ts ih =>
      rw [List.mem_cons, not_or] at hu
      rw [List.foldl_cons, ih _ hu.2, contextAt_passTransition_of_ne net hu.1]

/-- What is taken once gets its context at that moment. -/
theorem contextAt_foldl_self (hnodup : (us ++ t :: vs).Nodup) (ht : net.contains t.node = true) :
    ((us ++ t :: vs).foldl passTransition net).contextAt t
      = (net.contextAt t).withRead ((us.foldl passTransition net).inherited t) := by
  obtain ⟨-, hvs, hus⟩ := List.nodup_append.mp hnodup
  have hcontains := ((passed_foldl net us).nodes t.node).trans ht
  rw [List.foldl_append, List.foldl_cons,
    contextAt_foldl_of_not_mem _ (List.nodup_cons.mp hvs).1,
    contextAt_passTransition_self hcontains,
    contextAt_foldl_of_not_mem net fun hmem => hus t hmem t List.mem_cons_self rfl]

/-- What was taken before has got its last context already, and what was not has its first one. -/
theorem contextAt_foldl_before (hnodup : (us ++ t :: vs).Nodup) (u : TransitionId) :
    (us.foldl passTransition net).contextAt u
      = if u ∈ us then ((us ++ t :: vs).foldl passTransition net).contextAt u
        else net.contextAt u := by
  split
  · rename_i hmem
    obtain ⟨-, -, hus⟩ := List.nodup_append.mp hnodup
    rw [List.foldl_append, contextAt_foldl_of_not_mem _ fun hrest => hus u hmem u hrest rfl]
  · rename_i hmem
    exact contextAt_foldl_of_not_mem net hmem

theorem passedBefore_iff (horder : net.propagationOrder origin = us ++ t :: vs) (u : TransitionId) :
    net.PassedBefore origin u t ↔ u ∈ us := by
  have hnodup := horder ▸ net.nodup_propagationOrder origin
  obtain ⟨-, -, hus⟩ := List.nodup_append.mp hnodup
  have htus : t ∉ us := fun hmem => hus t hmem t List.mem_cons_self rfl
  rw [PassedBefore, horder, List.idxOf_append_of_notMem htus, List.idxOf_cons_self]
  by_cases hmem : u ∈ us
  · rw [List.idxOf_append_of_mem hmem]
    exact iff_of_true (List.idxOf_lt_length_of_mem hmem) hmem
  · rw [List.idxOf_append_of_notMem hmem]
    exact iff_of_false (by omega) hmem

/-- **What the pass does to a transition.** It reads what its suppliers write, as the pass has left
them if it has taken them before, and as they were otherwise. -/
theorem WellFormed.contextAt_propagate (h : net.WellFormed) (origin : PlaceId)
    (ht : net.contains t.node = true) : ∃ read : NameSet,
    (net.propagate origin).contextAt t = (net.contextAt t).withRead read ∧
    ∀ r, r ∈ read ↔ ∃ u, net.Feeds u t ∧ r ∈ (if net.PassedBefore origin u t then
      (net.propagate origin).contextAt u else net.contextAt u).write := by
  obtain ⟨us, vs, horder⟩ := List.append_of_mem (mem_propagationOrder origin ht)
  have hnodup := horder ▸ net.nodup_propagationOrder origin
  have hpassed := passed_foldl net us
  refine ⟨(us.foldl passTransition net).inherited t, ?_, fun r => ?_⟩
  · rw [propagate, horder, contextAt_foldl_self hnodup ht]
  · rw [(hpassed.wellFormed h).mem_inherited_iff]
    refine exists_congr fun u => ?_
    rw [hpassed.feeds_iff, contextAt_foldl_before hnodup, propagate, horder]
    simp only [passedBefore_iff horder]

/-- The pass leaves what a processing step writes as it was. -/
theorem WellFormed.write_propagate_of_app (h : net.WellFormed) (origin : PlaceId)
    (ht : net.contains t.node = true) (hrole : ((net.propagate origin).contextAt t).role = .app) :
    ((net.propagate origin).contextAt t).write = (net.contextAt t).write := by
  obtain ⟨read, heq, -⟩ := h.contextAt_propagate origin ht
  rw [heq, Context.role_withRead] at hrole
  rw [heq, Context.withRead_of_app read hrole]

theorem WellFormed.handsOn_propagate (h : net.WellFormed) (origin : PlaceId)
    (ht : net.contains t.node = true) : ((net.propagate origin).contextAt t).HandsOn := by
  obtain ⟨read, heq, -⟩ := h.contextAt_propagate origin ht
  rw [heq]
  exact Context.handsOn_withRead _ _

/-- **A transition reads what its suppliers write, if all structural ones but itself come before
it.** -/
theorem WellFormed.mem_read_propagate_iff (h : net.WellFormed) (ht : net.contains t.node = true)
    (horder : ∀ u, net.Feeds u t → ((net.propagate origin).contextAt u).role = .control →
      u = t ∨ net.PassedBefore origin u t) :
    r ∈ ((net.propagate origin).contextAt t).read ↔
      ∃ u, net.Feeds u t ∧ r ∈ ((net.propagate origin).contextAt u).write := by
  obtain ⟨read, heq, hread⟩ := h.contextAt_propagate origin ht
  obtain rfl : ((net.propagate origin).contextAt t).read = read := by
    rw [heq, Context.read_withRead]
  -- a supplier has its last write set, or it is the transition and writes what it reads
  have hcases (u : TransitionId) (hu : net.Feeds u t) :
      (if net.PassedBefore origin u t then (net.propagate origin).contextAt u
        else net.contextAt u).write = ((net.propagate origin).contextAt u).write ∨
      u = t ∧ ((net.propagate origin).contextAt t).write
        = ((net.propagate origin).contextAt t).read := by
    by_cases hbefore : net.PassedBefore origin u t
    · rw [if_pos hbefore]
      exact Or.inl rfl
    rw [if_neg hbefore]
    have hin := (h.contains_of_feeds hu).1
    cases hrole : ((net.propagate origin).contextAt u).role with
    | app => exact Or.inl (h.write_propagate_of_app origin hin hrole).symm
    | control =>
        obtain rfl := (horder u hu hrole).resolve_right hbefore
        exact Or.inr ⟨rfl, (h.handsOn_propagate origin hin).writes hrole⟩
  constructor
  · intro hr
    obtain ⟨u, hu, hwrite⟩ := (hread r).mp hr
    rcases hcases u hu with hsame | ⟨rfl, hwrites⟩
    · exact ⟨u, hu, hsame ▸ hwrite⟩
    · exact ⟨u, hu, hwrites ▸ hr⟩
  · rintro ⟨u, hu, hwrite⟩
    rcases hcases u hu with hsame | ⟨rfl, hwrites⟩
    · exact (hread r).mpr ⟨u, hu, hsame ▸ hwrite⟩
    · exact hwrites ▸ hwrite

/-- What is written by a transition is read by those it feeds that the pass takes later. -/
theorem WellFormed.mem_read_of_passedBefore (h : net.WellFormed) (ht : net.contains t.node = true)
    (hfeeds : net.Feeds u t) (hbefore : net.PassedBefore origin u t)
    (hr : r ∈ ((net.propagate origin).contextAt u).write) :
    r ∈ ((net.propagate origin).contextAt t).read := by
  obtain ⟨read, heq, hread⟩ := h.contextAt_propagate origin ht
  rw [heq, Context.read_withRead, hread]
  exact ⟨u, hfeeds, by rwa [if_pos hbefore]⟩

/-- **Structural steps that the pass takes one after the other hand on all that they get.** -/
theorem WellFormed.mem_write_of_forwarded (h : net.WellFormed)
    (hchain : Relation.ReflTransGen (fun u v => net.Feeds u v ∧ net.PassedBefore origin u v ∧
      ((net.propagate origin).contextAt v).role = .control) u t)
    (hr : r ∈ ((net.propagate origin).contextAt u).write) :
    r ∈ ((net.propagate origin).contextAt t).write := by
  induction hchain with
  | refl => exact hr
  | tail _ hstep ih =>
      obtain ⟨hfeeds, hbefore, hrole⟩ := hstep
      have hin := (h.contains_of_feeds hfeeds).2
      rw [(h.handsOn_propagate origin hin).writes hrole]
      exact h.mem_read_of_passedBefore hin hfeeds hbefore ih

end Net

/-! ## Routes -/

/-- **The lineage of a route.** After the pass a processing step erases what it reads and does not
write, and a structural step writes what it reads. A transition reads exactly what the transitions
two arcs before it write, provided that the pass takes it after all structural steps among them,
itself apart. -/
theorem lineage_of_order (route : Route) (t : TransitionId) :
    let b := RouteNet.ofRoute route
    b.net.contains t.node = true →
    (∀ u, b.net.Feeds u t → (b.net.contextAt u).role = .control →
      u = t ∨ b.net.PassedBefore b.source u t) →
    (b.net.contextAt t).HandsOn ∧
    ∀ r, r ∈ (b.net.contextAt t).read ↔ ∃ u, b.net.Feeds u t ∧ r ∈ (b.net.contextAt u).write := by
  intro b ht horder
  obtain ⟨closed, hnet, hclosed, -, -⟩ := RouteNet.exists_closed_ofStages route.id
    (Route.stages [route])
  have hnet : b.net = closed.propagate b.source := hnet
  have hpassed : closed.Passed b.net := hnet ▸ Net.passed_foldl closed _
  have ht : closed.contains t.node = true := (hpassed.nodes _).symm.trans ht
  have hbefore (u : TransitionId) :
      b.net.PassedBefore b.source u t ↔ closed.PassedBefore b.source u t := by
    rw [Net.PassedBefore, Net.propagationOrder_congr hpassed.after
      (congrArg Arena.size hpassed.arcs) hpassed.size]
    rfl
  simp only [hpassed.feeds_iff, hbefore] at horder ⊢
  rw [hnet] at horder ⊢
  exact ⟨hclosed.wellFormed.handsOn_propagate _ ht,
    fun r => hclosed.wellFormed.mem_read_propagate_iff ht horder⟩

/-- Two structural steps between the sender and the receiver. -/
def handedOn : Route :=
  .node ⟨"root", [], [], []⟩
    [.node ⟨"s1", [.app "a"], [.control "c1"], ["R1"]⟩ [],
      .node ⟨"s2", [.control "c1"], [.control "c2"], []⟩ [],
      .node ⟨"s3", [.control "c2"], [.app "z"], []⟩ []]

/-- They come in order, so the receiver reads what the last of them writes. -/
theorem lineage_of_order_handedOn :
    let b := RouteNet.ofRoute handedOn
    ∃ t, b.net.transitionById "z" = some t ∧ "R1" ∈ (b.net.contextAt t).read ∧
      ∀ r, r ∈ (b.net.contextAt t).read ↔
        ∃ u, b.net.Feeds u t ∧ r ∈ (b.net.contextAt u).write := by
  intro b
  have hwf : b.net.WellFormed := (RouteNet.sound_ofRoute handedOn).net.wellFormed
  have horder : ∀ u ∈ b.net.suppliers ⟨3⟩, (b.net.contextAt u).role = .control →
      u = ⟨3⟩ ∨ b.net.PassedBefore b.source u ⟨3⟩ := by decide +kernel
  obtain ⟨-, hread⟩ := lineage_of_order handedOn ⟨3⟩ (by decide +kernel)
    fun u hu => horder u (hwf.mem_suppliers_iff.mpr hu)
  exact ⟨⟨3⟩, by decide +kernel, by decide +kernel, hread⟩

/-- The resource is loaded on a way that is longer than the one to the receiver, and handed over by a
structural step. -/
def detour : Route :=
  .node ⟨"detour", [.app "sender"], [.app "receiver"], []⟩
    [.node ⟨"fetch", [.app "sender"], [.app "store"], []⟩ [],
      .node ⟨"load", [.app "store"], [.control "relay"], ["R"]⟩ [],
      .node ⟨"pass", [.control "relay"], [.app "receiver"], []⟩ []]

/-- The structural step is taken after the receiver: what it writes is missing from what the receiver
reads. -/
theorem lineage_misses_detour :
    let b := RouteNet.ofRoute detour
    ∃ t u, b.net.transitionById "receiver" = some t ∧ b.net.transitionById "relay" = some u ∧
      b.net.Feeds u t ∧ "R" ∈ (b.net.contextAt u).write ∧ "R" ∉ (b.net.contextAt t).read := by
  refine ⟨⟨1⟩, ⟨3⟩, ?_, ?_, ⟨⟨3⟩, ?_, ?_⟩, ?_, ?_⟩ <;> decide +kernel

end RoutePolicy
