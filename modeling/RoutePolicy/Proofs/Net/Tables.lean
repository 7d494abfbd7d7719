import RoutePolicy.Net.Editing
import RoutePolicy.Proofs.Net.Data

set_option autoImplicit false

/-! # Tables of identifiers

The table that follows from the nodes of a kind gives for an identifier the last node that carries it
(`NameTable.lookup_ofArena_eq_some_iff`). The tables of a net grow with every node that is added, and
they stay as they are where nothing but arcs, markers and contexts change. So without renaming they
are the tables that follow from the nodes (`Net.Indexed`). -/

namespace RoutePolicy

/-- Every arena is filled entry by entry. -/
theorem Arena.induction_push {ι α : Type} {P : Arena ι α → Prop} (empty : P ∅)
    (push : ∀ a x, P a → P (a.push x)) (a : Arena ι α) : P a := by
  obtain ⟨⟨l⟩⟩ := a
  induction l using List.reverseRecOn with
  | nil => exact empty
  | append_singleton l x ih =>
      have hpush : (⟨⟨l ++ [x]⟩⟩ : Arena ι α) = Arena.push ⟨⟨l⟩⟩ x := by simp [Arena.push]
      exact hpush ▸ push _ x ih

/-- The entry has the identifier, and none after it has it. -/
def Arena.IsLast {ι α : Type} [Index ι] (a : Arena ι α) (name : α → String) (id : String) (i : ι) :
    Prop :=
  (∃ x, a.get? i = some x ∧ name x = id) ∧
    ∀ j x, a.get? j = some x → name x = id → Index.position j ≤ Index.position i

/-! ## The table of an arena -/

namespace NameTable

variable {ι α : Type} [Index ι] {name : α → String}

theorem ofArena_empty : ofArena name (∅ : Arena ι α) = [] := rfl

theorem ofArena_push (a : Arena ι α) (x : α) :
    ofArena name (a.push x) = (name x, a.next) :: ofArena name a := by
  simp only [ofArena, Arena.toPairs, Arena.toList_push, List.zipIdx_append, List.map_append,
    List.reverse_append]
  simp [Arena.next, Arena.size, Arena.toList]

/-- Only the identifiers of the entries matter. -/
theorem ofArena_congr {a b : Arena ι α} (h : a.toList.map name = b.toList.map name) :
    ofArena name a = ofArena name b := by
  have htable (a : Arena ι α) : ofArena name a = ((a.toList.map name).zipIdx.map fun entry =>
      (entry.1, (Index.ofPosition entry.2 : ι))).reverse := by
    rw [ofArena, Arena.toPairs, List.map_map, List.zipIdx_map, List.map_map]
    rfl
  rw [htable, htable, h]

/-- The table of an arena gives the last entry of an identifier. -/
theorem lookup_ofArena_eq_some_iff {a : Arena ι α} {id : String} {i : ι} :
    (ofArena name a).lookup id = some i ↔ a.IsLast name id i := by
  unfold Arena.IsLast
  -- entry by entry: the last one hides the others
  induction a using Arena.induction_push generalizing i with
  | empty =>
      rw [ofArena_empty]
      simp [Arena.get?, EmptyCollection.emptyCollection, Arena.empty]
  | push a x ih =>
      have hlt (j : ι) (y : α) (hj : a.get? j = some y) : Index.position j < a.size :=
        Arena.contains_iff.mp (Arena.contains_of_get? hj)
      simp only [ofArena_push, List.lookup_cons, Arena.get?_push_eq_some_iff]
      by_cases hid : id = name x
      · subst hid
        simp only [beq_self_eq_true, Option.some_inj]
        constructor
        · rintro rfl
          refine ⟨⟨x, Or.inl ⟨rfl, rfl⟩, rfl⟩, fun j y hj _ => ?_⟩
          rw [Arena.position_next]
          rcases hj with ⟨rfl, -⟩ | hj
          · exact Nat.le_of_eq (Arena.position_next a)
          · exact Nat.le_of_lt (hlt j y hj)
        · rintro ⟨⟨y, hy, -⟩, hlast⟩
          rcases hy with ⟨rfl, -⟩ | hy
          · rfl
          · have hle := hlast _ x (Or.inl ⟨rfl, rfl⟩) rfl
            rw [Arena.position_next] at hle
            exact absurd (hlt i y hy) (Nat.not_lt.mpr hle)
      · -- the new entry has another identifier
        have hx {j : ι} {y : α} (hy : name y = id) :
            (j = a.next ∧ y = x ∨ a.get? j = some y) ↔ a.get? j = some y := by
          refine or_iff_right ?_
          rintro ⟨-, rfl⟩
          exact hid hy.symm
        simp only [beq_false_of_ne hid, ih]
        refine and_congr (exists_congr fun y => and_congr_left fun hy => (hx hy).symm) ?_
        exact forall_congr' fun j => forall_congr' fun y =>
          ⟨fun h hj hy => h ((hx hy).mp hj) hy, fun h hj hy => h ((hx hy).mpr hj) hy⟩

/-- Under the identifier of an entry some entry is found. -/
theorem exists_lookup_ofArena {a : Arena ι α} {x : α} (hx : x ∈ a.toList) :
    ∃ i, (ofArena name a).lookup (name x) = some i := by
  induction a using Arena.induction_push with
  | empty => cases hx
  | push a y ih =>
      rw [ofArena_push, List.lookup_cons]
      cases hname : name x == name y with
      | true => exact ⟨_, rfl⟩
      | false =>
          rw [Arena.toList_push, List.mem_append, List.mem_singleton] at hx
          refine ih (hx.resolve_right ?_)
          rintro rfl
          exact absurd hname (by simp)

end NameTable

/-! ## The tables of a net -/

namespace Net

/-- The identifiers of the places, in order. -/
def placeIds (net : Net) : List String := net.places.toList.map (·.id)

/-- The tables are those that follow from the nodes. -/
structure Indexed (net : Net) : Prop where
  places : net.placeNames = .ofArena (·.id) net.places
  transitions : net.transitionNames = .ofArena (·.id) net.transitions

/-- The second net has the tables of the first one, and nodes of the same identifiers in the same
order. -/
structure KeepsNames (net net' : Net) : Prop where
  placeNames : net'.placeNames = net.placeNames
  transitionNames : net'.transitionNames = net.transitionNames
  placeIds : net'.placeIds = net.placeIds
  transitionIds : net'.transitionIds = net.transitionIds

variable {net net' : Net} {m : Marking}

theorem indexed_iff_reindex : net.Indexed ↔ net.reindex = net := by
  constructor
  · rintro ⟨hplaces, htransitions⟩
    rw [reindex, ← hplaces, ← htransitions]
  · intro h
    exact ⟨(congrArg Net.placeNames h).symm, (congrArg Net.transitionNames h).symm⟩

theorem Indexed.placeById_eq_some_iff (h : net.Indexed) {id : String} {p : PlaceId} :
    net.placeById id = some p ↔ net.places.IsLast (·.id) id p := by
  rw [placeById, h.places]
  exact NameTable.lookup_ofArena_eq_some_iff

theorem Indexed.transitionById_eq_some_iff (h : net.Indexed) {id : String} {t : TransitionId} :
    net.transitionById id = some t ↔ net.transitions.IsLast (·.id) id t := by
  rw [transitionById, h.transitions]
  exact NameTable.lookup_ofArena_eq_some_iff

theorem Indexed.of_keepsNames (h : net.Indexed) (hkeeps : net.KeepsNames net') : net'.Indexed where
  places := by
    rw [hkeeps.placeNames, h.places]
    exact NameTable.ofArena_congr hkeeps.placeIds.symm
  transitions := by
    rw [hkeeps.transitionNames, h.transitions]
    exact NameTable.ofArena_congr hkeeps.transitionIds.symm

/-! ## Operations that keep the names -/

theorem KeepsNames.refl (net : Net) : net.KeepsNames net := ⟨rfl, rfl, rfl, rfl⟩

theorem KeepsNames.trans {net'' : Net} (h : net.KeepsNames net') (h' : net'.KeepsNames net'') :
    net.KeepsNames net'' :=
  ⟨h'.placeNames.trans h.placeNames, h'.transitionNames.trans h.transitionNames,
    h'.placeIds.trans h.placeIds, h'.transitionIds.trans h.transitionIds⟩

theorem keepsNames_modifyOutgoing (net : Net) (n : Node) (f : List ArcId → List ArcId) :
    net.KeepsNames (net.modifyOutgoing n f) := by
  obtain ⟨k, i⟩ := n
  cases k with
  | place => exact ⟨rfl, rfl, Arena.map_toList_modify (by intro x; rfl) net.places _, rfl⟩
  | transition => exact ⟨rfl, rfl, rfl, Arena.map_toList_modify (by intro x; rfl) net.transitions _⟩

theorem keepsNames_modifyIncoming (net : Net) (n : Node) (f : List ArcId → List ArcId) :
    net.KeepsNames (net.modifyIncoming n f) := by
  obtain ⟨k, i⟩ := n
  cases k with
  | place => exact ⟨rfl, rfl, Arena.map_toList_modify (by intro x; rfl) net.places _, rfl⟩
  | transition => exact ⟨rfl, rfl, rfl, Arena.map_toList_modify (by intro x; rfl) net.transitions _⟩

theorem keepsNames_enlist (net : Net) (a : ArcId) (arc : Arc) :
    net.KeepsNames (net.enlist a arc) :=
  (net.keepsNames_modifyOutgoing _ _).trans (keepsNames_modifyIncoming _ _ _)

theorem keepsNames_delist (net : Net) (a : ArcId) (arc : Arc) :
    net.KeepsNames (net.delist a arc) :=
  (net.keepsNames_modifyOutgoing _ _).trans (keepsNames_modifyIncoming _ _ _)

theorem keepsNames_join (net : Net) (arc : Arc) : net.KeepsNames (net.join arc) := by
  have hpush : net.KeepsNames { net with arcs := net.arcs.push arc } := ⟨rfl, rfl, rfl, rfl⟩
  exact hpush.trans (keepsNames_enlist _ _ _)

theorem keepsNames_addArc {arc : Arc} (h : net.addArc arc = .ok net') : net.KeepsNames net' := by
  obtain ⟨-, -, h⟩ := bind_eq_ok_iff.mp h
  obtain rfl := Except.ok.inj h
  exact net.keepsNames_join arc

theorem keepsNames_addArcOnce {arc : Arc} {a : ArcId} (h : net.addArcOnce arc = .ok (net', a)) :
    net.KeepsNames net' := by
  obtain ⟨found, -, h⟩ := bind_eq_ok_iff.mp h
  cases found with
  | some b =>
      obtain ⟨rfl, -⟩ := Prod.mk.inj (Except.ok.inj h)
      exact .refl net
  | none =>
      obtain ⟨net'', hadd, h⟩ := bind_eq_ok_iff.mp h
      obtain ⟨rfl, -⟩ := Prod.mk.inj (Except.ok.inj h)
      exact keepsNames_addArc hadd

theorem keepsNames_repoint {a : ArcId} {old new : Arc} (h : net.repoint a old new = .ok net') :
    net.KeepsNames net' := by
  obtain ⟨-, -, h⟩ := bind_eq_ok_iff.mp h
  split at h
  · obtain rfl := Except.ok.inj h
    have hset : (net.delist a old).KeepsNames
        { net.delist a old with arcs := (net.delist a old).arcs.set a new } := ⟨rfl, rfl, rfl, rfl⟩
    exact ((net.keepsNames_delist a old).trans hset).trans (keepsNames_enlist _ _ _)
  · cases h

theorem keepsNames_setSource {a : ArcId} {n : Node} (h : net.setSource a n = .ok net') :
    net.KeepsNames net' := by
  unfold setSource at h
  split at h
  · cases h
  · exact keepsNames_repoint h

theorem keepsNames_setTarget {a : ArcId} {n : Node} (h : net.setTarget a n = .ok net') :
    net.KeepsNames net' := by
  unfold setTarget at h
  split at h
  · cases h
  · exact keepsNames_repoint h

theorem keepsNames_withMarking (hm : m.size = net.places.size) :
    net.KeepsNames (net.withMarking m) := by
  refine ⟨rfl, rfl, List.ext_getElem? fun i => ?_, rfl⟩
  have hget := get?_withMarking hm ⟨i⟩
  simp only [Arena.get?, Index.position] at hget
  simp only [placeIds, Arena.toList, List.getElem?_map, Array.getElem?_toList, hget, Option.map_map]
  rfl

theorem keepsNames_setMarkers (net : Net) (p : PlaceId) (n : Nat) :
    net.KeepsNames (net.setMarkers p n) :=
  ⟨rfl, rfl, Arena.map_toList_modify (by intro x; rfl) net.places _, rfl⟩

theorem keepsNames_modifyContext (net : Net) (t : TransitionId)
    (f : Option Context → Option Context) : net.KeepsNames (net.modifyContext t f) :=
  ⟨rfl, rfl, rfl, Arena.map_toList_modify (by intro x; rfl) net.transitions _⟩

/-! ## Operations that extend the tables -/

theorem Indexed.empty (id : String) : (Net.empty id).Indexed := ⟨rfl, rfl⟩

theorem Indexed.addPlace (h : net.Indexed) (x : Place) : (net.addPlace x).Indexed where
  places := by
    show (x.id, net.places.next) :: net.placeNames
      = NameTable.ofArena (·.id) (net.places.push _)
    rw [NameTable.ofArena_push, h.places]
  transitions := h.transitions

theorem Indexed.addTransition (h : net.Indexed) (x : Transition) :
    (net.addTransition x).Indexed where
  places := h.places
  transitions := by
    show (x.id, net.transitions.next) :: net.transitionNames
      = NameTable.ofArena (·.id) (net.transitions.push _)
    rw [NameTable.ofArena_push, h.transitions]

/-- The tables of a net made by adding nodes and arcs and moving arcs follow from its nodes. -/
theorem Made.indexed (h : net.Made) : net.Indexed := by
  induction h with
  | empty id => exact .empty id
  | addPlace _ _ ih => exact ih.addPlace _
  | addTransition _ ih => exact ih.addTransition _
  | addArc _ ha ih => exact ih.of_keepsNames (keepsNames_addArc ha)
  | addArcOnce _ ha ih => exact ih.of_keepsNames (keepsNames_addArcOnce ha)
  | setSource _ ha ih => exact ih.of_keepsNames (keepsNames_setSource ha)
  | setTarget _ ha ih => exact ih.of_keepsNames (keepsNames_setTarget ha)

end Net

end RoutePolicy
