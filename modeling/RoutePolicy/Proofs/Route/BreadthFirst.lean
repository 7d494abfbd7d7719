import RoutePolicy.Proofs.Route.Lineage
import RoutePolicy.Proofs.Walk

set_option autoImplicit false

/-! # The order of the pass is breadth first

The search from the origin leaves the nodes that it meets one after the other. The nodes after the one
that it leaves wait behind those that wait already, unless they have been met (`Net.leave`). Every node
that is met but the origin is the end of an arc, and none is met twice, so after as many steps as there
are arcs, and one, no node waits any more, also where arcs lead in cycles (`Net.iterate_leave`).

The nodes that wait are at most one arc further from the origin than the first of them, and all nodes
that are as near as this one have been met (`Search.IsLayered`). So nodes are met by their distance, and
the pass takes first the transitions that the origin leads to, the nearer ones before the others
(`Net.propagationOrder_breadthFirst`). -/

namespace RoutePolicy

/-! ## Distances -/

section

variable {α : Type} {R : α → α → Prop} {a b c : α} {w : List α}

/-- The least number of steps of the relation that lead from the one node to the other. -/
noncomputable def walkDistance (R : α → α → Prop) (a b : α) : Nat :=
  sInf {k | ∃ w, IsWalk R a (w ++ [b]) ∧ w.length = k}

theorem IsWalk.distance_le (hw : IsWalk R a (w ++ [b])) : walkDistance R a b ≤ w.length := by
  unfold walkDistance
  exact Nat.sInf_le ⟨w, hw, rfl⟩

/-- Some walk is as short as the distance. -/
theorem exists_walk_of_distance (h : Relation.ReflTransGen R a b) :
    ∃ w, IsWalk R a (w ++ [b]) ∧ w.length = walkDistance R a b := by
  obtain ⟨w, hw⟩ := exists_walk_of_reflTransGen h
  have hne : {k | ∃ w, IsWalk R a (w ++ [b]) ∧ w.length = k}.Nonempty := ⟨w.length, w, hw, rfl⟩
  exact Nat.sInf_mem hne

theorem walkDistance_le_succ (h : Relation.ReflTransGen R a b) (hbc : R b c) :
    walkDistance R a c ≤ walkDistance R a b + 1 := by
  obtain ⟨w, hw, hlength⟩ := exists_walk_of_distance h
  calc walkDistance R a c ≤ (w ++ [b]).length := (hw.snoc hbc).distance_le
    _ = walkDistance R a b + 1 := by rw [List.length_append, hlength, List.length_singleton]

/-- The last step of a walk. -/
theorem IsWalk.last (hw : IsWalk R a (w ++ [b] ++ [c])) : IsWalk R a (w ++ [b]) ∧ R b c := by
  rw [List.append_assoc, List.singleton_append] at hw
  exact ⟨hw.take, (List.isChain_append_cons_cons.mp hw.chain).2.1⟩

end

/-! ## The search, step by step -/

/-- A search under way: the nodes that have been left, and those that wait, the next one first. -/
structure Search where
  left : List Node
  waiting : List Node

namespace Search

/-- The search that begins at a node. -/
def start (n : Node) : Search := ⟨[], [n]⟩

/-- The nodes that have been met. -/
def met (s : Search) : List Node := s.left ++ s.waiting

end Search

/-- One step of a search: it leaves the first node that waits, and the nodes after this one that have
not been met wait from now on. -/
def Net.leave (net : Net) : Search → Search
  | ⟨left, []⟩ => ⟨left, []⟩
  | ⟨left, n :: waiting⟩ =>
    ⟨left ++ [n], waiting ++ unseen (left ++ n :: waiting) (net.nodesAfter n)⟩

variable {net : Net} {s : Search} {n m origin : Node} {left waiting : List Node} {k : Nat}

namespace Net

/-- A step adds the nodes that it meets at the end. -/
theorem met_leave (net : Net) (left : List Node) (n : Node) (waiting : List Node) :
    (net.leave ⟨left, n :: waiting⟩).met
      = (left ++ n :: waiting) ++ unseen (left ++ n :: waiting) (net.nodesAfter n) := by
  simp [leave, Search.met]

theorem mem_met_leave : m ∈ (net.leave ⟨left, n :: waiting⟩).met ↔
    m ∈ left ++ n :: waiting ∨ m ∈ net.nodesAfter n := by
  rw [met_leave, List.mem_append, mem_unseen_iff]
  tauto

theorem leave_of_waiting_nil (h : s.waiting = []) : net.leave s = s := by
  obtain ⟨left, waiting⟩ := s
  obtain rfl : waiting = [] := h
  rfl

/-- The nodes met in a number of steps. -/
theorem reach_eq_met (net : Net) (k : Nat) (s : Search) :
    net.reach k s.left s.waiting = (net.leave^[k] s).met := by
  induction k generalizing s with
  | zero => rfl
  | succ k ih =>
      obtain ⟨left, _ | ⟨n, waiting⟩⟩ := s
      · rw [Function.iterate_fixed (leave_of_waiting_nil rfl)]
        exact (List.append_nil left).symm
      · rw [Function.iterate_succ_apply, ← ih]
        rfl

/-! ## The end of the search -/

/-- A step leaves one node, if one waits. -/
theorem waiting_or_length_leave (net : Net) (s : Search) :
    s.waiting = [] ∨ (net.leave s).left.length = s.left.length + 1 := by
  obtain ⟨left, _ | ⟨n, waiting⟩⟩ := s
  · exact Or.inl rfl
  · exact Or.inr (List.length_append.trans rfl)

theorem waiting_or_length_iterate (net : Net) (n : Node) (k : Nat) :
    (net.leave^[k] (.start n)).waiting = [] ∨ (net.leave^[k] (.start n)).left.length = k := by
  induction k with
  | zero => exact Or.inr rfl
  | succ k ih =>
      rw [Function.iterate_succ_apply']
      rcases ih with hnil | hlength
      · rw [leave_of_waiting_nil hnil]
        exact Or.inl hnil
      · rcases net.waiting_or_length_leave (net.leave^[k] (.start n)) with hnil | hleave
        · rw [leave_of_waiting_nil hnil]
          exact Or.inl hnil
        · exact Or.inr (hleave.trans (congrArg (· + 1) hlength))

/-- A step meets only nodes that arcs lead to. -/
theorem met_leave_subset (net : Net) (s : Search) :
    (net.leave s).met ⊆ s.met ++ net.arcs.toList.map (·.target) := by
  obtain ⟨left, _ | ⟨n, waiting⟩⟩ := s
  · exact List.subset_append_left _ _
  · intro m hm
    rcases mem_met_leave.mp hm with hm | hm
    · exact List.mem_append_left _ hm
    · obtain ⟨a, -, htarget⟩ := List.mem_filterMap.mp hm
      obtain ⟨arc, harc, rfl⟩ := Option.map_eq_some_iff.mp htarget
      exact List.mem_append_right _ (List.mem_map_of_mem (Arena.mem_of_get? harc))

theorem met_iterate_subset (net : Net) (n : Node) (k : Nat) :
    (net.leave^[k] (.start n)).met ⊆ n :: net.arcs.toList.map (·.target) := by
  induction k with
  | zero => exact List.cons_subset_cons n (List.nil_subset _)
  | succ k ih =>
      rw [Function.iterate_succ_apply']
      refine List.Subset.trans (net.met_leave_subset _) (List.append_subset.mpr ⟨ih, ?_⟩)
      exact List.subset_cons_self n _

/-- No more nodes are met than there are arcs, and one. -/
theorem length_met_iterate_le (net : Net) (n : Node) (k : Nat) :
    (net.leave^[k] (.start n)).met.length ≤ net.reachBound := by
  have hnodup : (net.leave^[k] (.start n)).met.Nodup := by
    rw [← reach_eq_met]
    exact nodup_reach net k (List.nodup_singleton n)
  calc (net.leave^[k] (.start n)).met.length
      ≤ (n :: net.arcs.toList.map (·.target)).length :=
        (hnodup.subperm (net.met_iterate_subset n k)).length_le
    _ = net.reachBound := by
        rw [List.length_cons, List.length_map, reachBound, Nat.add_comm]
        rfl

/-- **The search ends on every net**, when it has left the nodes that it is taken to reach. -/
theorem iterate_leave (net : Net) (n : Node) (hk : net.reachBound ≤ k) :
    net.leave^[k] (.start n) = ⟨net.reachedFrom n, []⟩ := by
  have hended : (net.leave^[net.reachBound] (.start n)).waiting = [] := by
    rcases net.waiting_or_length_iterate n net.reachBound with hnil | hlength
    · exact hnil
    -- all nodes that can be met have been left
    · have hle := net.length_met_iterate_le n net.reachBound
      rw [Search.met, List.length_append, hlength] at hle
      exact List.length_eq_zero_iff.mp (by omega)
  have hreached : net.leave^[net.reachBound] (.start n) = ⟨net.reachedFrom n, []⟩ := by
    have hmet := net.reach_eq_met net.reachBound (.start n)
    rw [Search.met, hended, List.append_nil] at hmet
    rw [reachedFrom]
    exact congrArg₂ Search.mk hmet.symm hended
  obtain ⟨j, rfl⟩ := Nat.exists_eq_add_of_le' hk
  rw [Function.iterate_add_apply, hreached, Function.iterate_fixed (leave_of_waiting_nil rfl)]

end Net

/-! ## The order in which nodes are met -/

namespace Search

/-- The nodes met by a search from the origin come by their distance, and of two that wait one is at most
one arc further away than the other. What the nodes that have been left lead to has been met. -/
structure IsLayered (s : Search) (net : Net) (origin : Node) : Prop where
  first : origin ∈ s.met
  reached : ∀ n ∈ s.met, Relation.ReflTransGen net.Precedes origin n
  closed : ∀ n ∈ s.left, ∀ m, net.Precedes n m → m ∈ s.met
  ascending : s.met.Pairwise fun n m =>
    walkDistance net.Precedes origin n ≤ walkDistance net.Precedes origin m
  close : ∀ n ∈ s.waiting, ∀ m ∈ s.waiting,
    walkDistance net.Precedes origin m ≤ walkDistance net.Precedes origin n + 1

theorem IsLayered.start (net : Net) (origin : Node) : (start origin).IsLayered net origin := by
  constructor
  case first => exact List.mem_singleton_self origin
  case reached =>
    intro n hn
    rw [List.mem_singleton.mp hn]
  case closed => exact fun n hn => absurd hn List.not_mem_nil
  case ascending => exact List.pairwise_singleton _ _
  case close =>
    intro n hn m hm
    rw [List.mem_singleton.mp hn, List.mem_singleton.mp hm]
    exact Nat.le_succ _

/-- The node that is left next is as near as any that waits, and those met are at most one arc further
away. -/
theorem IsLayered.bounds (hs : IsLayered ⟨left, n :: waiting⟩ net origin) :
    (∀ m ∈ n :: waiting, walkDistance net.Precedes origin n ≤ walkDistance net.Precedes origin m) ∧
    ∀ m ∈ left ++ n :: waiting,
      walkDistance net.Precedes origin m ≤ walkDistance net.Precedes origin n + 1 := by
  obtain ⟨-, hwaiting, hleft⟩ := List.pairwise_append.mp hs.ascending
  constructor
  · exact List.forall_mem_cons.mpr ⟨Nat.le_refl _, (List.pairwise_cons.mp hwaiting).1⟩
  · intro m hm
    rcases List.mem_append.mp hm with hm | hm
    · exact (hleft m hm n List.mem_cons_self).trans (Nat.le_succ _)
    · exact hs.close n List.mem_cons_self m hm

/-- All nodes that are as near as the one that is left next have been met. -/
theorem IsLayered.mem_met (hs : IsLayered ⟨left, n :: waiting⟩ net origin)
    (hm : Relation.ReflTransGen net.Precedes origin m)
    (hle : walkDistance net.Precedes origin m ≤ walkDistance net.Precedes origin n) :
    m ∈ left ++ n :: waiting := by
  obtain ⟨w, hw, hlength⟩ := exists_walk_of_distance hm
  rw [← hlength] at hle
  clear hlength hm
  -- induction on the way there: the node before is nearer, so it is not one of those that wait
  induction w using List.reverseRecOn generalizing m with
  | nil =>
      obtain rfl : m = origin := by simpa using hw.start
      exact hs.first
  | append_singleton w m' ih =>
      obtain ⟨hw', harc⟩ := hw.last
      rw [List.length_append, List.length_singleton] at hle
      have hnear := hw'.distance_le
      rcases List.mem_append.mp (ih (by omega) hw') with hm' | hm'
      · exact hs.closed m' hm' m harc
      · have := hs.bounds.1 m' hm'
        omega

/-- A node that is met only now is one arc further away than the node that is left. -/
theorem IsLayered.distance_eq (hs : IsLayered ⟨left, n :: waiting⟩ net origin)
    (harc : net.Precedes n m) (hm : m ∉ left ++ n :: waiting) :
    walkDistance net.Precedes origin m = walkDistance net.Precedes origin n + 1 := by
  have hn : Relation.ReflTransGen net.Precedes origin n := hs.reached n (by simp [met])
  refine Nat.le_antisymm (walkDistance_le_succ hn harc) (Nat.lt_of_not_le fun hle => hm ?_)
  exact hs.mem_met (hn.tail harc) hle

/-- **A step keeps the layers.** -/
theorem IsLayered.leave (h : net.WellFormed) (hs : s.IsLayered net origin) :
    (net.leave s).IsLayered net origin := by
  obtain ⟨left, _ | ⟨n, waiting⟩⟩ := s
  · exact hs
  have hmet (m : Node) : m ∈ (net.leave ⟨left, n :: waiting⟩).met ↔
      m ∈ left ++ n :: waiting ∨ net.Precedes n m := by
    rw [Net.mem_met_leave, h.mem_nodesAfter_iff, Net.Precedes]
  have hnew : ∀ m ∈ Net.unseen (left ++ n :: waiting) (net.nodesAfter n),
      walkDistance net.Precedes origin m = walkDistance net.Precedes origin n + 1 := fun m hm => by
    obtain ⟨hafter, hunmet⟩ := Net.mem_unseen_iff.mp hm
    exact hs.distance_eq (h.mem_nodesAfter_iff.mp hafter) hunmet
  obtain ⟨hnearest, hfurthest⟩ := hs.bounds
  constructor
  case first => exact (hmet origin).mpr (Or.inl hs.first)
  case reached =>
    intro m hm
    rcases (hmet m).mp hm with hm | harc
    · exact hs.reached m hm
    · exact (hs.reached n (by simp [met])).tail harc
  case closed =>
    intro x hx m harc
    refine (hmet m).mpr ?_
    rcases List.mem_append.mp hx with hx | hx
    · exact Or.inl (hs.closed x hx m harc)
    · exact Or.inr (List.mem_singleton.mp hx ▸ harc)
  case ascending =>
    rw [Net.met_leave]
    refine List.pairwise_append.mpr ⟨hs.ascending, ?_, fun x hx m hm => ?_⟩
    · exact List.pairwise_of_forall_mem_list fun x hx m hm => by rw [hnew x hx, hnew m hm]
    · exact (hfurthest x hx).trans_eq (hnew m hm).symm
  case close =>
    -- what waits now is as far away as the node that is left, or one arc further
    have hlayers : ∀ m ∈ (net.leave ⟨left, n :: waiting⟩).waiting,
        walkDistance net.Precedes origin n ≤ walkDistance net.Precedes origin m ∧
          walkDistance net.Precedes origin m ≤ walkDistance net.Precedes origin n + 1 := by
      intro m hm
      rcases List.mem_append.mp hm with hm | hm
      · exact ⟨hnearest m (List.mem_cons_of_mem n hm),
          hfurthest m (List.mem_append_right _ (List.mem_cons_of_mem n hm))⟩
      · rw [hnew m hm]
        exact ⟨Nat.le_succ _, Nat.le_refl _⟩
    intro x hx m hm
    have hx := (hlayers x hx).1
    have hm := (hlayers m hm).2
    omega

theorem IsLayered.iterate (h : net.WellFormed) (origin : Node) (k : Nat) :
    (net.leave^[k] (.start origin)).IsLayered net origin := by
  induction k with
  | zero => exact .start net origin
  | succ k ih =>
      rw [Function.iterate_succ_apply']
      exact ih.leave h

/-- When no node waits any more, the nodes that the origin leads to have been left. -/
theorem IsLayered.mem_left_iff (hs : IsLayered ⟨left, []⟩ net origin) :
    n ∈ left ↔ Relation.ReflTransGen net.Precedes origin n := by
  have hmet (m : Node) : m ∈ met ⟨left, []⟩ ↔ m ∈ left := by rw [met, List.append_nil]
  constructor
  · exact fun hn => hs.reached n ((hmet n).mpr hn)
  · intro hreach
    induction hreach with
    | refl => exact (hmet origin).mp hs.first
    | tail _ harc ih => exact (hmet _).mp (hs.closed _ ih _ harc)

theorem IsLayered.ascending_left (hs : IsLayered ⟨left, []⟩ net origin) : left.Pairwise fun n m =>
    walkDistance net.Precedes origin n ≤ walkDistance net.Precedes origin m :=
  (List.append_nil left) ▸ hs.ascending

end Search

/-! ## The order of the pass -/

namespace Net

/-- The nodes that the search reaches are those that the origin leads to, by their distance. -/
theorem WellFormed.isLayered_reachedFrom (h : net.WellFormed) (origin : Node) :
    Search.IsLayered ⟨net.reachedFrom origin, []⟩ net origin := by
  rw [← net.iterate_leave origin (Nat.le_refl _)]
  exact .iterate h origin _

/-- The transitions come breadth first: those that the origin leads to by their distance from it, and
then all others by number. -/
structure IsBreadthFirst (net : Net) (origin : PlaceId) (near far : List TransitionId) : Prop where
  /-- Each transition of the net comes once. -/
  perm : (near ++ far).Perm net.transitions.indices
  reached : ∀ t : TransitionId,
    t ∈ near ↔ Relation.ReflTransGen net.Precedes origin.node t.node
  ascending : near.Pairwise fun t u => walkDistance net.Precedes origin.node t.node
    ≤ walkDistance net.Precedes origin.node u.node
  /-- The distance is the length of some walk, and no walk is shorter. -/
  attained : ∀ t ∈ near,
    (∃ w, IsWalk net.Precedes origin.node (w ++ [t.node]) ∧
      w.length = walkDistance net.Precedes origin.node t.node) ∧
    ∀ w, IsWalk net.Precedes origin.node (w ++ [t.node]) →
      walkDistance net.Precedes origin.node t.node ≤ w.length
  numbered : far.Pairwise fun t u => t.index < u.index

/-- The listed arcs of a node of the net are in the net. -/
theorem WellFormed.knowsAfter (h : net.WellFormed) (hn : net.contains n = true) :
    net.knowsAfter n = true := by
  obtain ⟨as, has⟩ := contains_iff_outgoing?.mp hn
  rw [Net.knowsAfter, has, Option.any_some, List.all_eq_true]
  intro a ha
  obtain ⟨arc, harc, -⟩ := ((h.outgoing n as has).2 a).mp ha
  exact Arena.contains_of_get? harc

/-- What a node leads to is the node itself, or a node of the net. -/
theorem WellFormed.eq_or_contains (h : net.WellFormed)
    (hreach : Relation.ReflTransGen net.Precedes n m) : m = n ∨ net.contains m = true := by
  rcases Relation.ReflTransGen.cases_tail hreach with rfl | ⟨n', -, harc⟩
  · exact Or.inl rfl
  · exact Or.inr (h.target _ harc)

/-- The transitions that the origin leads to come by distance, and then the others by number. -/
theorem WellFormed.isBreadthFirst (h : net.WellFormed) (origin : PlaceId) :
    ∃ near far, net.propagationOrder origin = near ++ far ∧ net.IsBreadthFirst origin near far := by
  have hlayers := h.isLayered_reachedFrom origin.node
  have hnear (t : TransitionId) : t ∈ (net.reachedFrom origin.node).filterMap Node.transition? ↔
      Relation.ReflTransGen net.Precedes origin.node t.node := by
    rw [← hlayers.mem_left_iff, List.mem_filterMap]
    simp only [Node.transition?, Node.handle?_eq_some_iff, exists_eq_right]
  refine ⟨_, _, rfl, ?_⟩
  constructor
  case perm =>
    refine (List.perm_ext_iff_of_nodup (net.nodup_propagationOrder origin)
      (Arena.nodup_indices _)).mpr fun t => ⟨fun ht => ?_, fun ht => ?_⟩
    · rcases List.mem_append.mp ht with ht | ht
      · rcases h.eq_or_contains ((hnear t).mp ht) with heq | hin
        · exact absurd heq.symm (node_ne_node origin t)
        · exact Arena.mem_indices_iff.mpr hin
      · exact List.mem_of_mem_filter ht
    · exact mem_propagationOrder origin (Arena.mem_indices_iff.mp ht)
  case reached => exact hnear
  case ascending =>
    refine List.pairwise_filterMap.mpr (hlayers.ascending_left.imp fun {n m} hle t ht u hu => ?_)
    rwa [← Node.handle?_eq_some_iff.mp ht, ← Node.handle?_eq_some_iff.mp hu]
  case attained =>
    intro t ht
    exact ⟨exists_walk_of_distance ((hnear t).mp ht), fun w hw => hw.distance_le⟩
  case numbered => exact net.transitions.pairwise_indices.filter _

/-- **The pass takes the transitions breadth first**, and the search for this order ends on every net:
from as many steps on as there are arcs, and one, no node waits any more. In a well-formed net the search
from a place comes across nothing that is missing. -/
theorem propagationOrder_breadthFirst (net : Net) (origin : PlaceId) :
    (∀ k, net.reachBound ≤ k →
      net.leave^[k] (.start origin.node) = ⟨net.reachedFrom origin.node, []⟩) ∧
    (net.WellFormed → net.contains origin.node = true →
      (∀ n ∈ net.reachedFrom origin.node, net.knowsAfter n = true) ∧
      ∃ near far, net.propagationOrder origin = near ++ far ∧
        net.IsBreadthFirst origin near far) := by
  refine ⟨fun k hk => net.iterate_leave origin.node hk, fun h ho => ⟨fun n hn => ?_, ?_⟩⟩
  · have hreach := (h.isLayered_reachedFrom origin.node).mem_left_iff.mp hn
    rcases h.eq_or_contains hreach with rfl | hin
    · exact h.knowsAfter ho
    · exact h.knowsAfter hin
  · exact h.isBreadthFirst origin

/-- A round trip from the depot by way of the town, with a short cut, and a transition that only leads
back to the depot. -/
def delivering : Net :=
  ((((((((((((((Net.empty "delivering").addPlace (.plain "depot" 1)).addPlace (.plain "town" 0)
    ).addTransition (.bare "return" none)).addTransition (.bare "hire" none)
    ).addTransition (.bare "drive" none)).addTransition (.bare "walk" none)
    ).join ⟨⟨.place, 0⟩, ⟨.transition, 3⟩⟩).join ⟨⟨.place, 0⟩, ⟨.transition, 2⟩⟩
    ).join ⟨⟨.transition, 2⟩, ⟨.place, 1⟩⟩).join ⟨⟨.transition, 3⟩, ⟨.place, 1⟩⟩
    ).join ⟨⟨.place, 1⟩, ⟨.transition, 0⟩⟩).join ⟨⟨.transition, 0⟩, ⟨.place, 0⟩⟩
    ).join ⟨⟨.transition, 1⟩, ⟨.place, 0⟩⟩)

theorem delivering_made : delivering.Made := by
  refine .join (.join (.join (.join (.join (.join (.join (.addTransition (.addTransition
    (.addTransition (.addTransition (.addPlace (.addPlace (.empty "delivering") ?_) ?_))))) rfl) rfl)
    rfl) rfl) rfl) rfl) rfl
  all_goals decide

theorem propagationOrder_breadthFirst_delivering :
    delivering.reachedFrom ⟨.place, 0⟩
      = [⟨.place, 0⟩, ⟨.transition, 3⟩, ⟨.transition, 2⟩, ⟨.place, 1⟩, ⟨.transition, 0⟩] ∧
    ∃ near far, near ++ far = [⟨3⟩, ⟨2⟩, ⟨0⟩, ⟨1⟩] ∧ delivering.IsBreadthFirst ⟨0⟩ near far := by
  obtain ⟨-, hordered⟩ := propagationOrder_breadthFirst delivering ⟨0⟩
  obtain ⟨-, near, far, horder, hfirst⟩ := hordered delivering_made.wellFormed (by decide +kernel)
  have hlist : delivering.propagationOrder ⟨0⟩ = [⟨3⟩, ⟨2⟩, ⟨0⟩, ⟨1⟩] := by decide +kernel
  exact ⟨by decide +kernel, near, far, horder.symm.trans hlist, hfirst⟩

end Net

end RoutePolicy
