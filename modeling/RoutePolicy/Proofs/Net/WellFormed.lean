import Mathlib.Data.List.Nodup
import Mathlib.Data.List.Perm.Basic
import RoutePolicy.Net.Editing
import RoutePolicy.Net.Neighbours
import RoutePolicy.Proofs.Except

set_option autoImplicit false

/-! # Nets whose lists of arcs are right

In a well-formed net every arc joins two nodes of the net of different kinds, and each node lists
exactly the arcs that leave it and those that enter it, each once (`Net.WellFormed`). Every net
that is made from the empty one by the checked operations is well formed (`Net.Made.wellFormed`).
-/

namespace RoutePolicy

/-- Nets made from the empty one by adding nodes, adding arcs and moving the ends of arcs. A place
comes with a count of 64 bits. -/
inductive Net.Made : Net → Prop
  | empty (id : String) : Made (.empty id)
  | addPlace {net : Net} {p : Place} :
      Made net → p.markers < countRange → Made (net.addPlace p)
  | addTransition {net : Net} {t : Transition} : Made net → Made (net.addTransition t)
  | addArc {net net' : Net} {arc : Arc} : Made net → net.addArc arc = .ok net' → Made net'
  | addArcOnce {net net' : Net} {arc : Arc} {a : ArcId} :
      Made net → net.addArcOnce arc = .ok (net', a) → Made net'
  | setSource {net net' : Net} {a : ArcId} {n : Node} :
      Made net → net.setSource a n = .ok net' → Made net'
  | setTarget {net net' : Net} {a : ArcId} {n : Node} :
      Made net → net.setTarget a n = .ok net' → Made net'

/-- The lists of nodes hold exactly the arcs with the node at one end, each once. -/
def Lists (arcs : Arena ArcId Arc) (tip : Arc → Node) (view : Node → Option (List ArcId)) : Prop :=
  ∀ n as, view n = some as → as.Nodup ∧ ∀ a, a ∈ as ↔ ∃ arc, arcs.get? a = some arc ∧ tip arc = n

/-- Every arc joins nodes of the net of different kinds, and is listed at both of them. -/
structure Net.WellFormed (net : Net) : Prop where
  source : ∀ arc ∈ net.arcs.toList, net.contains arc.source = true
  target : ∀ arc ∈ net.arcs.toList, net.contains arc.target = true
  kinds : ∀ arc ∈ net.arcs.toList, arc.source.kind ≠ arc.target.kind
  outgoing : Lists net.arcs (·.source) net.outgoing?
  incoming : Lists net.arcs (·.target) net.incoming?

/-- An arc leads from the one node to the other. -/
def Net.Precedes (net : Net) (n n' : Node) : Prop := ⟨n, n'⟩ ∈ net.arcs.toList

theorem Arena.nodup_indices {ι α : Type} [Index ι] (a : Arena ι α) : a.indices.Nodup :=
  List.nodup_range.map fun i j hij => calc
    i = Index.position (Index.ofPosition i : ι) := (Index.position_ofPosition i).symm
    _ = Index.position (Index.ofPosition j : ι) := congrArg Index.position hij
    _ = j := Index.position_ofPosition j

theorem Arena.pairwise_indices {k : Kind} {α : Type} (a : Arena (Handle k) α) :
    a.indices.Pairwise fun i j => i.index < j.index :=
  List.pairwise_map.mpr List.pairwise_lt_range

theorem Arena.filterMap_get?_indices {ι α : Type} [Index ι] (a : Arena ι α) :
    a.indices.filterMap a.get? = a.toList := by
  have hget : a.indices.map a.get? = a.toList.map some := by
    refine List.ext_getElem (by simp [indices, size, toList]) fun i hi hi' => ?_
    rw [List.getElem_map, List.getElem_map, get?_eq_some_iff]
    simp only [indices, List.getElem_map, List.getElem_range, Index.position_ofPosition]
    rw [List.getElem?_eq_getElem]
  calc a.indices.filterMap a.get?
      = (a.indices.map a.get?).filterMap id := by rw [List.filterMap_map, Function.id_comp]
    _ = a.toList := by rw [hget, List.filterMap_map, Function.id_comp, List.filterMap_some]

/-! ## Lists of arcs -/

namespace Lists

variable {arcs : Arena ArcId Arc} {tip : Arc → Node} {view view' : Node → Option (List ArcId)}

/-- One more arc, put at the end of the list of its node. -/
theorem push {arc : Arc} (h : Lists arcs tip view)
    (hview : ∀ n, view' n = if tip arc = n then (view n).map (· ++ [arcs.next]) else view n) :
    Lists (arcs.push arc) tip view' := by
  intro n as has
  rw [hview] at has
  have hmem (a : ArcId) : (∃ x, (arcs.push arc).get? a = some x ∧ tip x = n) ↔
      (a = arcs.next ∧ tip arc = n) ∨ ∃ x, arcs.get? a = some x ∧ tip x = n := by
    simp only [Arena.get?_push_eq_some_iff, or_and_right, exists_or, and_assoc, exists_and_left,
      exists_eq_left]
  split at has
  · rename_i htip
    obtain ⟨bs, hbs, rfl⟩ := Option.map_eq_some_iff.mp has
    obtain ⟨hnd, hiff⟩ := h n bs hbs
    -- the number of the new arc is on no list yet
    have hnew : arcs.next ∉ bs := fun hin => by
      obtain ⟨x, hx, -⟩ := (hiff _).mp hin
      rw [Arena.get?_next] at hx
      cases hx
    refine ⟨List.nodup_append.mpr ⟨hnd, List.nodup_singleton _, fun x hx y hy hxy => ?_⟩,
      fun a => ?_⟩
    · exact hnew (List.mem_singleton.mp hy ▸ hxy ▸ hx)
    · rw [hmem, List.mem_append, List.mem_singleton, hiff, or_comm]
      simp [htip]
  · rename_i htip
    obtain ⟨hnd, hiff⟩ := h n as has
    refine ⟨hnd, fun a => ?_⟩
    rw [hmem, hiff]
    simp [htip]

/-- An arc taken off the list of its old node and put at the end of that of its new one. -/
theorem move {a : ArcId} {old new : Arc} (h : Lists arcs tip view) (hold : arcs.get? a = some old)
    (hview : ∀ n, view' n =
      let kept := if tip old = n then (view n).map (·.filter (· ≠ a)) else view n
      if tip new = n then kept.map (· ++ [a]) else kept) :
    Lists (arcs.set a new) tip view' := by
  intro n as has
  rw [hview] at has
  have hget (b : ArcId) : (arcs.set a new).get? b = if a = b then some new else arcs.get? b := by
    rw [Arena.set, Arena.get?_modify]
    by_cases hab : a = b
    · subst hab
      rw [if_pos rfl, if_pos rfl, hold, Option.map_some]
    · rw [if_neg (fun h => hab (Arena.position_inj.mp h)), if_neg hab]
  have hmem (b : ArcId) : (∃ x, (arcs.set a new).get? b = some x ∧ tip x = n) ↔
      (b = a ∧ tip new = n) ∨ (b ≠ a ∧ ∃ x, arcs.get? b = some x ∧ tip x = n) := by
    rw [hget]
    by_cases hab : a = b
    · subst hab
      simp
    · simp [hab, Ne.symm hab]
  -- the list without `a`, whether or not `a` was on it
  obtain ⟨kept, hkept, hnd, hiff⟩ : ∃ kept,
      (if tip old = n then (view n).map (·.filter (· ≠ a)) else view n) = some kept ∧
      kept.Nodup ∧ ∀ b, b ∈ kept ↔ b ≠ a ∧ ∃ x, arcs.get? b = some x ∧ tip x = n := by
    have hview' : ∃ kept, (if tip old = n then (view n).map (·.filter (· ≠ a)) else view n)
        = some kept := by
      simp only at has
      split at has
      · obtain ⟨kept, hkept, -⟩ := Option.map_eq_some_iff.mp has
        exact ⟨kept, hkept⟩
      · exact ⟨as, has⟩
    obtain ⟨kept, hkept⟩ := hview'
    refine ⟨kept, hkept, ?_⟩
    split at hkept
    · obtain ⟨bs, hbs, rfl⟩ := Option.map_eq_some_iff.mp hkept
      obtain ⟨hnd, hiff⟩ := h n bs hbs
      refine ⟨hnd.filter _, fun b => ?_⟩
      rw [List.mem_filter, hiff, decide_eq_true_iff, and_comm]
    · rename_i htip
      obtain ⟨hnd, hiff⟩ := h n kept hkept
      refine ⟨hnd, fun b => ?_⟩
      rw [hiff, iff_and_self]
      rintro ⟨x, hx, hxn⟩ rfl
      obtain rfl := Option.some_inj.mp (hold.symm.trans hx)
      exact htip hxn
  simp only [hkept] at has
  split at has
  · rename_i htip
    obtain rfl := Option.some_inj.mp has
    refine ⟨List.nodup_append.mpr ⟨hnd, List.nodup_singleton _, fun x hx y hy hxy => ?_⟩,
      fun b => ?_⟩
    · exact ((hiff x).mp hx).1 (List.mem_singleton.mp hy ▸ hxy)
    · rw [hmem, List.mem_append, List.mem_singleton, hiff, or_comm]
      simp [htip]
  · rename_i htip
    obtain rfl := Option.some_inj.mp has
    refine ⟨hnd, fun b => ?_⟩
    rw [hmem, hiff]
    simp [htip]

/-- The list of a node is empty if no arc has the node at that end. -/
theorem eq_nil_iff (h : Lists arcs tip view) {n : Node} (hn : ∃ as, view n = some as) :
    view n = some [] ↔ ∀ arc ∈ arcs.toList, tip arc ≠ n := by
  obtain ⟨as, has⟩ := hn
  obtain ⟨-, hiff⟩ := h n as has
  rw [has, Option.some_inj, List.eq_nil_iff_forall_not_mem]
  constructor
  · intro hnil arc harc htip
    obtain ⟨a, ha⟩ := Arena.exists_get?_of_mem harc
    exact hnil a ((hiff a).mpr ⟨arc, ha, htip⟩)
  · intro hnone a ha
    obtain ⟨arc, harc, htip⟩ := (hiff a).mp ha
    exact hnone arc (Arena.mem_of_get? harc) htip

/-- The far ends of the listed arcs of a node are the nodes that an arc joins it to. -/
theorem mem_ends_iff {far : Arc → Node} (h : Lists arcs tip view) {n n' : Node}
    (hn : ∀ arc ∈ arcs.toList, ∃ as, view (tip arc) = some as) :
    (n' ∈ ((view n).getD []).filterMap fun a => (arcs.get? a).map far) ↔
      ∃ arc ∈ arcs.toList, tip arc = n ∧ far arc = n' := by
  rw [List.mem_filterMap]
  constructor
  · rintro ⟨a, ha, hfar⟩
    obtain ⟨arc, harc, rfl⟩ := Option.map_eq_some_iff.mp hfar
    cases has : view n with
    | none =>
        rw [has] at ha
        exact absurd ha List.not_mem_nil
    | some as =>
        rw [has, Option.getD_some] at ha
        obtain ⟨arc', harc', rfl⟩ := ((h n as has).2 a).mp ha
        obtain rfl := Option.some_inj.mp (harc.symm.trans harc')
        exact ⟨arc, Arena.mem_of_get? harc, rfl, rfl⟩
  · rintro ⟨arc, harc, rfl, rfl⟩
    obtain ⟨as, has⟩ := hn arc harc
    obtain ⟨a, ha⟩ := Arena.exists_get?_of_mem harc
    refine ⟨a, ?_, by rw [ha]; rfl⟩
    rw [has, Option.getD_some]
    exact ((h _ as has).2 a).mpr ⟨arc, ha, rfl⟩

/-- The listed arcs of a node are the arcs with the node at that end, in some order. -/
theorem perm (h : Lists arcs tip view) {n : Node} {as : List ArcId} (has : view n = some as) :
    (as.filterMap arcs.get?).Perm (arcs.toList.filter fun arc => tip arc = n) := by
  obtain ⟨hnd, hiff⟩ := h n as has
  have hperm : as.Perm (arcs.indices.filter fun a => (arcs.get? a).any (tip · = n)) := by
    refine (List.perm_ext_iff_of_nodup hnd ?_).mpr fun a => ?_
    · exact (List.nodup_range.map fun i j hij => congrArg Index.position hij).filter _
    · rw [hiff, List.mem_filter, Arena.mem_indices_iff, Option.any_eq_true]
      simp only [decide_eq_true_iff]
      exact ⟨fun ⟨arc, ha, hn⟩ => ⟨Arena.contains_of_get? ha, arc, ha, hn⟩, And.right⟩
  -- both lists hold the numbers of the same arcs, each once
  refine (hperm.filterMap _).trans (List.Perm.of_eq ?_)
  rw [← Arena.filterMap_get?_indices arcs, List.filterMap_filter, List.filter_filterMap]
  refine List.filterMap_congr fun a _ => ?_
  cases arcs.get? a <;> simp [Option.filter]

end Lists

/-! ## Views of the operations -/

namespace Net

theorem contains_iff_outgoing? {net : Net} {n : Node} :
    net.contains n = true ↔ ∃ as, net.outgoing? n = some as := by
  obtain ⟨k, i⟩ := n
  cases k <;> simp [contains, outgoing?, Arena.contains_iff_exists]

theorem contains_iff_incoming? {net : Net} {n : Node} :
    net.contains n = true ↔ ∃ as, net.incoming? n = some as := by
  obtain ⟨k, i⟩ := n
  cases k <;> simp [contains, incoming?, Arena.contains_iff_exists]

theorem contains_iff_nodeName? {net : Net} {n : Node} :
    net.contains n = true ↔ ∃ id, net.nodeName? n = some id := by
  obtain ⟨k, i⟩ := n
  cases k <;> simp [contains, nodeName?, Arena.contains_iff_exists]

section

variable (net : Net) (m n : Node) (f : List ArcId → List ArcId)

@[simp] theorem arcs_modifyOutgoing : (net.modifyOutgoing m f).arcs = net.arcs := by
  unfold modifyOutgoing; split <;> rfl

@[simp] theorem arcs_modifyIncoming : (net.modifyIncoming m f).arcs = net.arcs := by
  unfold modifyIncoming; split <;> rfl

@[simp] theorem contains_modifyOutgoing :
    (net.modifyOutgoing m f).contains n = net.contains n := by
  obtain ⟨k, i⟩ := m
  obtain ⟨l, j⟩ := n
  cases k <;> cases l <;> simp [modifyOutgoing, contains]

@[simp] theorem contains_modifyIncoming :
    (net.modifyIncoming m f).contains n = net.contains n := by
  obtain ⟨k, i⟩ := m
  obtain ⟨l, j⟩ := n
  cases k <;> cases l <;> simp [modifyIncoming, contains]

theorem outgoing?_modifyOutgoing : (net.modifyOutgoing m f).outgoing? n
    = if m = n then (net.outgoing? n).map f else net.outgoing? n := by
  obtain ⟨k, i⟩ := m
  obtain ⟨l, j⟩ := n
  cases k <;> cases l <;>
    simp only [modifyOutgoing, outgoing?, Arena.get?_modify, Index.position, Node.mk.injEq,
      true_and, reduceCtorEq, false_and, if_false]
  all_goals split <;> simp [Function.comp_def]

theorem incoming?_modifyIncoming : (net.modifyIncoming m f).incoming? n
    = if m = n then (net.incoming? n).map f else net.incoming? n := by
  obtain ⟨k, i⟩ := m
  obtain ⟨l, j⟩ := n
  cases k <;> cases l <;>
    simp only [modifyIncoming, incoming?, Arena.get?_modify, Index.position, Node.mk.injEq,
      true_and, reduceCtorEq, false_and, if_false]
  all_goals split <;> simp [Function.comp_def]

@[simp] theorem incoming?_modifyOutgoing :
    (net.modifyOutgoing m f).incoming? n = net.incoming? n := by
  obtain ⟨k, i⟩ := m
  obtain ⟨l, j⟩ := n
  cases k <;> cases l <;> simp only [modifyOutgoing, incoming?, Arena.get?_modify]
  all_goals split <;> simp [Function.comp_def]

@[simp] theorem outgoing?_modifyIncoming :
    (net.modifyIncoming m f).outgoing? n = net.outgoing? n := by
  obtain ⟨k, i⟩ := m
  obtain ⟨l, j⟩ := n
  cases k <;> cases l <;> simp only [modifyIncoming, outgoing?, Arena.get?_modify]
  all_goals split <;> simp [Function.comp_def]

end

theorem outgoing?_addPlace (net : Net) (p : Place) (n : Node) : (net.addPlace p).outgoing? n
    = if n = net.places.next.node then some [] else net.outgoing? n := by
  obtain ⟨k, i⟩ := n
  cases k with
  | place =>
      simp only [addPlace, outgoing?, Arena.get?_push_eq, Node.mk_eq_node_iff]
      split <;> rfl
  | transition => simp [addPlace, outgoing?, Handle.node]

theorem incoming?_addPlace (net : Net) (p : Place) (n : Node) : (net.addPlace p).incoming? n
    = if n = net.places.next.node then some [] else net.incoming? n := by
  obtain ⟨k, i⟩ := n
  cases k with
  | place =>
      simp only [addPlace, incoming?, Arena.get?_push_eq, Node.mk_eq_node_iff]
      split <;> rfl
  | transition => simp [addPlace, incoming?, Handle.node]

theorem outgoing?_addTransition (net : Net) (t : Transition) (n : Node) :
    (net.addTransition t).outgoing? n
      = if n = net.transitions.next.node then some [] else net.outgoing? n := by
  obtain ⟨k, i⟩ := n
  cases k with
  | place => simp [addTransition, outgoing?, Handle.node]
  | transition =>
      simp only [addTransition, outgoing?, Arena.get?_push_eq, Node.mk_eq_node_iff]
      split <;> rfl

theorem incoming?_addTransition (net : Net) (t : Transition) (n : Node) :
    (net.addTransition t).incoming? n
      = if n = net.transitions.next.node then some [] else net.incoming? n := by
  obtain ⟨k, i⟩ := n
  cases k with
  | place => simp [addTransition, incoming?, Handle.node]
  | transition =>
      simp only [addTransition, incoming?, Arena.get?_push_eq, Node.mk_eq_node_iff]
      split <;> rfl

theorem contains_addPlace (net : Net) (p : Place) (n : Node) : (net.addPlace p).contains n = true ↔
    n = net.places.next.node ∨ net.contains n = true := by
  rw [contains_iff_outgoing?, contains_iff_outgoing?, outgoing?_addPlace]
  split <;> simp_all

theorem contains_addTransition (net : Net) (t : Transition) (n : Node) :
    (net.addTransition t).contains n = true ↔
      n = net.transitions.next.node ∨ net.contains n = true := by
  rw [contains_iff_outgoing?, contains_iff_outgoing?, outgoing?_addTransition]
  split <;> simp_all

/-- The number that a new place gets is that of no node. -/
theorem not_contains_next_place (net : Net) : ¬net.contains net.places.next.node = true := by
  show ¬net.places.contains net.places.next = true
  rw [Arena.contains_iff_exists, Arena.get?_next]
  simp

/-- The number that a new transition gets is that of no node. -/
theorem not_contains_next_transition (net : Net) :
    ¬net.contains net.transitions.next.node = true := by
  show ¬net.transitions.contains net.transitions.next = true
  rw [Arena.contains_iff_exists, Arena.get?_next]
  simp

@[simp] theorem contains_enlist (net : Net) (a : ArcId) (arc : Arc) (n : Node) :
    (net.enlist a arc).contains n = net.contains n := by
  simp [enlist]

@[simp] theorem contains_delist (net : Net) (a : ArcId) (arc : Arc) (n : Node) :
    (net.delist a arc).contains n = net.contains n := by
  simp [delist]

@[simp] theorem arcs_enlist (net : Net) (a : ArcId) (arc : Arc) :
    (net.enlist a arc).arcs = net.arcs := by
  simp [enlist]

@[simp] theorem arcs_delist (net : Net) (a : ArcId) (arc : Arc) :
    (net.delist a arc).arcs = net.arcs := by
  simp [delist]

theorem outgoing?_enlist (net : Net) (a : ArcId) (arc : Arc) (n : Node) :
    (net.enlist a arc).outgoing? n
      = if arc.source = n then (net.outgoing? n).map (· ++ [a]) else net.outgoing? n := by
  rw [enlist, outgoing?_modifyIncoming, outgoing?_modifyOutgoing]

theorem incoming?_enlist (net : Net) (a : ArcId) (arc : Arc) (n : Node) :
    (net.enlist a arc).incoming? n
      = if arc.target = n then (net.incoming? n).map (· ++ [a]) else net.incoming? n := by
  rw [enlist, incoming?_modifyIncoming, incoming?_modifyOutgoing]

theorem outgoing?_delist (net : Net) (a : ArcId) (arc : Arc) (n : Node) :
    (net.delist a arc).outgoing? n
      = if arc.source = n then (net.outgoing? n).map (·.filter (· ≠ a)) else net.outgoing? n := by
  rw [delist, outgoing?_modifyIncoming, outgoing?_modifyOutgoing]

theorem incoming?_delist (net : Net) (a : ArcId) (arc : Arc) (n : Node) :
    (net.delist a arc).incoming? n
      = if arc.target = n then (net.incoming? n).map (·.filter (· ≠ a)) else net.incoming? n := by
  rw [delist, incoming?_modifyIncoming, incoming?_modifyOutgoing]

@[simp] theorem contains_join (net : Net) (arc : Arc) (n : Node) :
    (net.join arc).contains n = net.contains n := by
  rw [join, contains_enlist]
  rfl

@[simp] theorem arcs_join (net : Net) (arc : Arc) : (net.join arc).arcs = net.arcs.push arc := by
  rw [join, arcs_enlist]

/-! ## The operations keep nets well formed -/

/-- An arc that passes the check joins nodes of the net of different kinds. -/
theorem checkArc_eq_ok {net : Net} {arc : Arc} (h : net.checkArc arc = .ok ()) :
    net.contains arc.source = true ∧ net.contains arc.target = true ∧
      arc.source.kind ≠ arc.target.kind := by
  unfold checkArc at h
  split at h
  · cases h
  · cases h
  · rename_i source target hs ht
    split at h
    · cases h
    · rename_i hk
      refine ⟨contains_iff_nodeName?.mpr ⟨_, hs⟩, contains_iff_nodeName?.mpr ⟨_, ht⟩, ?_⟩
      simpa [Node.sameKind] using hk

/-- A new node, which has no arcs yet. -/
theorem WellFormed.of_new {net net' : Net} {m : Node} (h : net.WellFormed)
    (harcs : net'.arcs = net.arcs) (hm : ¬net.contains m = true)
    (hcontains : ∀ n, net'.contains n = true ↔ n = m ∨ net.contains n = true)
    (hout : ∀ n, net'.outgoing? n = if n = m then some [] else net.outgoing? n)
    (hin : ∀ n, net'.incoming? n = if n = m then some [] else net.incoming? n) :
    net'.WellFormed := by
  -- the new node has no arcs, and the lists of the others stay
  have hlists {tip : Arc → Node} {view view' : Node → Option (List ArcId)}
      (htip : ∀ arc ∈ net.arcs.toList, net.contains (tip arc) = true)
      (hview : ∀ n, view' n = if n = m then some [] else view n)
      (hl : Lists net.arcs tip view) : Lists net'.arcs tip view' := by
    intro n as has
    rw [hview] at has
    rw [harcs]
    split at has
    · rename_i hnm
      obtain rfl := Option.some_inj.mp has
      refine ⟨List.nodup_nil, fun a => ⟨fun ha => absurd ha List.not_mem_nil, ?_⟩⟩
      rintro ⟨arc, ha, rfl⟩
      exact absurd (hnm ▸ htip arc (Arena.mem_of_get? ha)) hm
    · exact hl n as has
  refine ⟨fun arc ha => ?_, fun arc ha => ?_, fun arc ha => ?_, ?_, ?_⟩
  · exact (hcontains _).mpr (Or.inr (h.source arc (harcs ▸ ha)))
  · exact (hcontains _).mpr (Or.inr (h.target arc (harcs ▸ ha)))
  · exact h.kinds arc (harcs ▸ ha)
  · exact hlists h.source hout h.outgoing
  · exact hlists h.target hin h.incoming

/-- A change of the nodes that leaves their lists as they are. -/
theorem WellFormed.of_lists {net net' : Net} (h : net.WellFormed) (harcs : net'.arcs = net.arcs)
    (hout : ∀ n, net'.outgoing? n = net.outgoing? n)
    (hin : ∀ n, net'.incoming? n = net.incoming? n) : net'.WellFormed := by
  have hcontains (n : Node) (hn : net.contains n = true) : net'.contains n = true := by
    rw [contains_iff_outgoing?] at hn ⊢
    rwa [hout]
  constructor
  case source => exact fun arc ha => hcontains _ (h.source arc (harcs ▸ ha))
  case target => exact fun arc ha => hcontains _ (h.target arc (harcs ▸ ha))
  case kinds => exact fun arc ha => h.kinds arc (harcs ▸ ha)
  case outgoing =>
    intro n as has
    rw [hout] at has
    exact harcs ▸ h.outgoing n as has
  case incoming =>
    intro n as has
    rw [hin] at has
    exact harcs ▸ h.incoming n as has

/-- A change of one place that leaves its lists as they are. -/
theorem WellFormed.modify_place {net : Net} (h : net.WellFormed) (p : PlaceId) {f : Place → Place}
    (hout : ∀ x, (f x).outgoing = x.outgoing) (hin : ∀ x, (f x).incoming = x.incoming) :
    { net with places := net.places.modify p f }.WellFormed := by
  refine h.of_lists rfl (fun ⟨k, i⟩ => ?_) fun ⟨k, i⟩ => ?_
  · cases k with
    | place => exact Arena.map_get?_modify hout net.places p ⟨i⟩
    | transition => rfl
  · cases k with
    | place => exact Arena.map_get?_modify hin net.places p ⟨i⟩
    | transition => rfl

/-- A change of one transition that leaves its lists as they are. -/
theorem WellFormed.modify_transition {net : Net} (h : net.WellFormed) (t : TransitionId)
    {f : Transition → Transition} (hout : ∀ x, (f x).outgoing = x.outgoing)
    (hin : ∀ x, (f x).incoming = x.incoming) :
    { net with transitions := net.transitions.modify t f }.WellFormed := by
  refine h.of_lists rfl (fun ⟨k, i⟩ => ?_) fun ⟨k, i⟩ => ?_
  · cases k with
    | place => rfl
    | transition => exact Arena.map_get?_modify hout net.transitions t ⟨i⟩
  · cases k with
    | place => rfl
    | transition => exact Arena.map_get?_modify hin net.transitions t ⟨i⟩

theorem WellFormed.empty (id : String) : (Net.empty id).WellFormed := by
  have harcs : (Net.empty id).arcs.toList = [] := rfl
  have hout (n : Node) : (Net.empty id).outgoing? n = none := by
    obtain ⟨k, i⟩ := n
    cases k <;> rfl
  have hin (n : Node) : (Net.empty id).incoming? n = none := by
    obtain ⟨k, i⟩ := n
    cases k <;> rfl
  refine ⟨by simp [harcs], by simp [harcs], by simp [harcs], fun n as has => ?_,
    fun n as has => ?_⟩
  · rw [hout] at has
    cases has
  · rw [hin] at has
    cases has

theorem WellFormed.addPlace {net : Net} (h : net.WellFormed) (p : Place) :
    (net.addPlace p).WellFormed :=
  h.of_new rfl net.not_contains_next_place (net.contains_addPlace p) (net.outgoing?_addPlace p)
    (net.incoming?_addPlace p)

theorem WellFormed.addTransition {net : Net} (h : net.WellFormed) (t : Transition) :
    (net.addTransition t).WellFormed :=
  h.of_new rfl net.not_contains_next_transition (net.contains_addTransition t)
    (net.outgoing?_addTransition t) (net.incoming?_addTransition t)

theorem WellFormed.join {net : Net} {arc : Arc} (h : net.WellFormed)
    (hs : net.contains arc.source = true) (ht : net.contains arc.target = true)
    (hk : arc.source.kind ≠ arc.target.kind) : (net.join arc).WellFormed := by
  have hmem : ∀ x ∈ (net.join arc).arcs.toList, x ∈ net.arcs.toList ∨ x = arc := by
    intro x hx
    rwa [arcs_join, Arena.toList_push, List.mem_append, List.mem_singleton] at hx
  refine ⟨fun x hx => ?_, fun x hx => ?_, fun x hx => ?_, ?_, ?_⟩
  · rw [contains_join]
    rcases hmem x hx with hx | rfl
    · exact h.source x hx
    · exact hs
  · rw [contains_join]
    rcases hmem x hx with hx | rfl
    · exact h.target x hx
    · exact ht
  · rcases hmem x hx with hx | rfl
    · exact h.kinds x hx
    · exact hk
  · rw [arcs_join]
    exact h.outgoing.push fun n => outgoing?_enlist _ _ _ n
  · rw [arcs_join]
    exact h.incoming.push fun n => incoming?_enlist _ _ _ n

theorem WellFormed.addArc {net net' : Net} {arc : Arc} (h : net.WellFormed)
    (ha : net.addArc arc = .ok net') : net'.WellFormed := by
  unfold Net.addArc at ha
  cases hc : net.checkArc arc with
  | error e =>
      rw [hc] at ha
      cases ha
  | ok u =>
      rw [hc] at ha
      cases ha
      obtain ⟨hs, ht, hk⟩ := checkArc_eq_ok hc
      exact h.join hs ht hk

theorem WellFormed.addArcOnce {net net' : Net} {arc : Arc} {a : ArcId} (h : net.WellFormed)
    (ha : net.addArcOnce arc = .ok (net', a)) : net'.WellFormed := by
  unfold Net.addArcOnce at ha
  cases hf : net.findArc arc with
  | error e =>
      rw [hf] at ha
      cases ha
  | ok found =>
      rw [hf] at ha
      cases found with
      | some b =>
          cases ha
          exact h
      | none =>
          cases hadd : net.addArc arc with
          | error e =>
              simp only [hadd] at ha
              cases ha
          | ok net'' =>
              simp only [hadd] at ha
              cases ha
              exact h.addArc hadd

theorem WellFormed.repoint {net net' : Net} {a : ArcId} {old new : Arc} (h : net.WellFormed)
    (hold : net.arcs.get? a = some old) (ha : net.repoint a old new = .ok net') :
    net'.WellFormed := by
  unfold Net.repoint at ha
  cases hc : net.checkArc new with
  | error e =>
      rw [hc] at ha
      cases ha
  | ok u =>
      obtain ⟨hs, ht, hk⟩ := checkArc_eq_ok hc
      simp only [hc, h.source old (Arena.mem_of_get? hold), h.target old (Arena.mem_of_get? hold),
        Bool.and_self, if_true] at ha
      cases ha
      -- besides the arcs of the net there is only the new form of the arc
      have hmem : ∀ x ∈ (net.arcs.set a new).toList, x ∈ net.arcs.toList ∨ x = new := by
        intro x hx
        obtain ⟨b, hb⟩ := Arena.exists_get?_of_mem hx
        rw [Arena.set, Arena.get?_modify] at hb
        split at hb
        · obtain ⟨y, -, rfl⟩ := Option.map_eq_some_iff.mp hb
          exact Or.inr rfl
        · exact Or.inl (Arena.mem_of_get? hb)
      have hcontains (n : Node) : ({ net.delist a old with
          arcs := (net.delist a old).arcs.set a new }.enlist a new).contains n
            = net.contains n := by
        rw [contains_enlist]
        exact net.contains_delist a old n
      refine ⟨fun x hx => ?_, fun x hx => ?_, fun x hx => ?_, ?_, ?_⟩
      · rw [hcontains]
        rcases hmem x (by simpa using hx) with hx | rfl
        · exact h.source x hx
        · exact hs
      · rw [hcontains]
        rcases hmem x (by simpa using hx) with hx | rfl
        · exact h.target x hx
        · exact ht
      · rcases hmem x (by simpa using hx) with hx | rfl
        · exact h.kinds x hx
        · exact hk
      · rw [arcs_enlist, arcs_delist]
        refine h.outgoing.move hold fun n => ?_
        rw [outgoing?_enlist, ← outgoing?_delist]
        rfl
      · rw [arcs_enlist, arcs_delist]
        refine h.incoming.move hold fun n => ?_
        rw [incoming?_enlist, ← incoming?_delist]
        rfl

theorem WellFormed.setSource {net net' : Net} {a : ArcId} {n : Node} (h : net.WellFormed)
    (ha : net.setSource a n = .ok net') : net'.WellFormed := by
  unfold Net.setSource at ha
  split at ha
  · cases ha
  · rename_i arc hold
    exact h.repoint hold ha

theorem WellFormed.setTarget {net net' : Net} {a : ArcId} {n : Node} (h : net.WellFormed)
    (ha : net.setTarget a n = .ok net') : net'.WellFormed := by
  unfold Net.setTarget at ha
  split at ha
  · cases ha
  · rename_i arc hold
    exact h.repoint hold ha

theorem Made.join {net : Net} {arc : Arc} (h : net.Made) (ha : net.checkArc arc = .ok ()) :
    (net.join arc).Made :=
  h.addArc (by rw [Net.addArc, ha]; rfl)

/-- **The checked operations only make well-formed nets.** -/
theorem Made.wellFormed {net : Net} (h : net.Made) : net.WellFormed := by
  induction h with
  | empty id => exact .empty id
  | addPlace _ _ ih => exact ih.addPlace _
  | addTransition _ ih => exact ih.addTransition _
  | addArc _ ha ih => exact ih.addArc ha
  | addArcOnce _ ha ih => exact ih.addArcOnce ha
  | setSource _ ha ih => exact ih.setSource ha
  | setTarget _ ha ih => exact ih.setTarget ha

/-! ## Arcs that are found and arcs that are accepted -/

section

variable {net : Net} {arc : Arc}

/-- The first of the listed arcs that leads to a node is found. -/
theorem firstArcTo_eq_ok {target : Node} {as : List ArcId}
    (has : ∀ a ∈ as, ∃ arc, net.arcs.get? a = some arc) :
    net.firstArcTo target as
      = .ok (as.find? fun a => (net.arcs.get? a).any (·.target = target)) := by
  induction as with
  | nil => rfl
  | cons a as ih =>
      obtain ⟨⟨arc, ha⟩, has⟩ := List.forall_mem_cons.mp has
      rw [firstArcTo, Arena.require_eq_ok_iff.mpr ha, ok_bind, List.find?_cons, ha, Option.any_some]
      by_cases ht : arc.target = target
      · rw [if_pos ht, decide_eq_true ht]
        rfl
      · rw [if_neg ht, decide_eq_false ht]
        exact ih has

theorem WellFormed.findArc (h : net.WellFormed) (arc : Arc) : ∃ found, net.findArc arc = .ok found ∧
    (found.isSome = true ↔ arc ∈ net.arcs.toList) ∧
    ∀ a, found = some a → net.arcs.get? a = some arc := by
  unfold Net.findArc
  cases hout : net.outgoing? arc.source with
  | none =>
      refine ⟨none, rfl, iff_of_false Bool.false_ne_true fun harc => ?_, fun a ha => by cases ha⟩
      obtain ⟨as, has⟩ := contains_iff_outgoing?.mp (h.source arc harc)
      rw [hout] at has
      cases has
  | some as =>
      obtain ⟨-, hmem⟩ := h.outgoing arc.source as hout
      have hleads {a : ArcId} (ha : a ∈ as) :
          (net.arcs.get? a).any (·.target = arc.target) = true ↔ net.arcs.get? a = some arc := by
        obtain ⟨arc', harc', hsource⟩ := (hmem a).mp ha
        rw [harc', Option.any_some, decide_eq_true_eq, Option.some_inj]
        exact ⟨fun htarget => by cases arc; cases arc'; simp_all, fun heq => by rw [heq]⟩
      refine ⟨_, firstArcTo_eq_ok fun a ha => ((hmem a).mp ha).imp fun _ => And.left, ?_, ?_⟩
      · rw [List.find?_isSome]
        constructor
        · rintro ⟨a, ha, htarget⟩
          exact Arena.mem_of_get? ((hleads ha).mp htarget)
        · intro harc
          obtain ⟨a, ha⟩ := Arena.exists_get?_of_mem harc
          have hin := (hmem a).mpr ⟨arc, ha, rfl⟩
          exact ⟨a, hin, (hleads hin).mpr ha⟩
      · intro a ha
        obtain ⟨htarget, -⟩ := List.find?_eq_some_iff_append.mp ha
        exact (hleads (List.mem_of_find?_eq_some ha)).mp htarget

/-- An arc between nodes of the net of different kinds passes the check. -/
theorem addArc_eq_ok (hs : net.contains arc.source = true) (ht : net.contains arc.target = true)
    (hk : arc.source.kind ≠ arc.target.kind) : net.addArc arc = .ok (net.join arc) := by
  obtain ⟨source, hsource⟩ := contains_iff_nodeName?.mp hs
  obtain ⟨target, htarget⟩ := contains_iff_nodeName?.mp ht
  simp only [Net.addArc, checkArc, hsource, htarget, Node.sameKind, decide_eq_false hk]
  rfl

theorem WellFormed.addArcOnce_eq_ok (h : net.WellFormed) (hs : net.contains arc.source = true)
    (ht : net.contains arc.target = true) (hk : arc.source.kind ≠ arc.target.kind) :
    (net.addArcOnce arc).map Prod.fst = .ok (net.joinOnce arc) := by
  obtain ⟨found, hfound, hmem, -⟩ := h.findArc arc
  rw [Net.addArcOnce, hfound, ok_bind, joinOnce]
  cases found with
  | some a =>
      rw [if_pos (hmem.mp rfl)]
      rfl
  | none =>
      rw [if_neg fun harc => absurd (hmem.mpr harc) Bool.false_ne_true]
      simp only [addArc_eq_ok hs ht hk]
      rfl

end

/-! ## The two kinds of arcs -/

theorem node_ne_node (p : PlaceId) (t : TransitionId) : p.node ≠ t.node := fun h =>
  absurd (congrArg Node.kind h) (by simp [Handle.node])

section

variable {net : Net} {arc : Arc} {t : TransitionId}

/-- An arc of the net leads from a place to a transition or back. -/
theorem WellFormed.exists_ends (h : net.WellFormed) (harc : arc ∈ net.arcs.toList) :
    (∃ (p : PlaceId) (t : TransitionId), arc = ⟨p.node, t.node⟩) ∨
      ∃ (t : TransitionId) (p : PlaceId), arc = ⟨t.node, p.node⟩ := by
  have hkinds := h.kinds arc harc
  obtain ⟨⟨k, i⟩, ⟨l, j⟩⟩ := arc
  cases k <;> cases l
  · exact absurd rfl hkinds
  · exact Or.inl ⟨⟨i⟩, ⟨j⟩, rfl⟩
  · exact Or.inr ⟨⟨i⟩, ⟨j⟩, rfl⟩
  · exact absurd rfl hkinds

/-- The other end of an arc to a transition is a place. -/
theorem WellFormed.exists_eq_into (h : net.WellFormed) (harc : arc ∈ net.arcs.toList)
    (ht : arc.target = t.node) : ∃ p : PlaceId, arc = ⟨p.node, t.node⟩ := by
  rcases h.exists_ends harc with ⟨p, t', rfl⟩ | ⟨t', p, rfl⟩
  · exact ⟨p, by rw [← ht]⟩
  · exact absurd ht (node_ne_node p t)

theorem WellFormed.exists_eq_from (h : net.WellFormed) (harc : arc ∈ net.arcs.toList)
    (ht : arc.source = t.node) : ∃ p : PlaceId, arc = ⟨t.node, p.node⟩ := by
  rcases h.exists_ends harc with ⟨p, t', rfl⟩ | ⟨t', p, rfl⟩
  · exact absurd ht (node_ne_node p t)
  · exact ⟨p, by rw [← ht]⟩

end

end Net

end RoutePolicy
