import RoutePolicy.Proofs.Net.Firing

set_option autoImplicit false

/-! # What nodes hold apart from their arcs

Adding an arc changes nothing at a node but the lists of its arcs, and changing a context leaves
all arcs as they are. So what is known of the places, transitions and names of a net survives the
one, and that the net is well formed survives the other. -/

namespace RoutePolicy

/-- The place without the arcs at it. -/
def Place.data (p : Place) : Place := { p with incoming := [], outgoing := [] }

/-- The transition without the arcs at it. -/
def Transition.data (t : Transition) : Transition := { t with incoming := [], outgoing := [] }

namespace Net

/-- What a place of the net holds. -/
def placeData? (net : Net) (p : PlaceId) : Option Place := (net.places.get? p).map Place.data

/-- What a transition of the net holds. -/
def transitionData? (net : Net) (t : TransitionId) : Option Transition :=
  (net.transitions.get? t).map Transition.data

section

variable {net : Net} {p : PlaceId} {t : TransitionId}

theorem contains_iff_placeData? :
    net.contains p.node = true ↔ ∃ x, net.placeData? p = some x := by
  show net.places.contains p = true ↔ _
  rw [Arena.contains_iff_exists]
  simp [placeData?]

theorem contains_iff_transitionData? :
    net.contains t.node = true ↔ ∃ x, net.transitionData? t = some x := by
  show net.transitions.contains t = true ↔ _
  rw [Arena.contains_iff_exists]
  simp [transitionData?]

theorem placeData?_eq_some_iff {x : Place} :
    net.placeData? p = some x ↔ ∃ y, net.places.get? p = some y ∧ y.data = x := by
  rw [placeData?, Option.map_eq_some_iff]

theorem transitionData?_eq_some_iff {x : Transition} :
    net.transitionData? t = some x ↔ ∃ y, net.transitions.get? t = some y ∧ y.data = x := by
  rw [transitionData?, Option.map_eq_some_iff]

end

/-- What the places hold, in order. -/
def placeList (net : Net) : List Place := net.places.toList.map Place.data

/-- The identifiers of the transitions, in order. -/
def transitionIds (net : Net) : List String := net.transitions.toList.map (·.id)

theorem length_placeList (net : Net) : net.placeList.length = net.places.size := by
  simp [placeList, Arena.toList, Arena.size]

theorem nodeName?_transition (net : Net) (t : TransitionId) :
    net.nodeName? t.node = net.transitionIds[t.index]? := by
  simp [nodeName?, Handle.node, transitionIds, Arena.toList, Arena.get?, Index.position]

/-- The markers of a place are part of what it holds. -/
theorem tokens_marking (net : Net) (p : PlaceId) :
    net.marking.tokens p = ((net.placeData? p).map (·.markers)).getD 0 := by
  rw [Marking.tokens, placeData?, Option.map_map]
  simp only [marking, Arena.get?, Array.getElem?_map]
  rfl

/-! ## Arcs -/

section

variable (net : Net) (n : Node) (f : List ArcId → List ArcId) (a : ArcId) (arc : Arc)
  (p : PlaceId) (t : TransitionId)

@[simp] theorem placeData?_modifyOutgoing :
    (net.modifyOutgoing n f).placeData? p = net.placeData? p := by
  obtain ⟨k, i⟩ := n
  cases k <;> simp only [modifyOutgoing, placeData?, Arena.get?_modify]
  split
  · rw [Option.map_map]
    rfl
  · rfl

@[simp] theorem placeData?_modifyIncoming :
    (net.modifyIncoming n f).placeData? p = net.placeData? p := by
  obtain ⟨k, i⟩ := n
  cases k <;> simp only [modifyIncoming, placeData?, Arena.get?_modify]
  split
  · rw [Option.map_map]
    rfl
  · rfl

@[simp] theorem transitionData?_modifyOutgoing :
    (net.modifyOutgoing n f).transitionData? t = net.transitionData? t := by
  obtain ⟨k, i⟩ := n
  cases k <;> simp only [modifyOutgoing, transitionData?, Arena.get?_modify]
  split
  · rw [Option.map_map]
    rfl
  · rfl

@[simp] theorem transitionData?_modifyIncoming :
    (net.modifyIncoming n f).transitionData? t = net.transitionData? t := by
  obtain ⟨k, i⟩ := n
  cases k <;> simp only [modifyIncoming, transitionData?, Arena.get?_modify]
  split
  · rw [Option.map_map]
    rfl
  · rfl

@[simp] theorem placeList_modifyOutgoing : (net.modifyOutgoing n f).placeList = net.placeList := by
  obtain ⟨k, i⟩ := n
  cases k with
  | place => exact Arena.map_toList_modify (by intro x; rfl) net.places _
  | transition => rfl

@[simp] theorem placeList_modifyIncoming : (net.modifyIncoming n f).placeList = net.placeList := by
  obtain ⟨k, i⟩ := n
  cases k with
  | place => exact Arena.map_toList_modify (by intro x; rfl) net.places _
  | transition => rfl

@[simp] theorem transitionIds_modifyOutgoing :
    (net.modifyOutgoing n f).transitionIds = net.transitionIds := by
  obtain ⟨k, i⟩ := n
  cases k with
  | place => rfl
  | transition => exact Arena.map_toList_modify (by intro x; rfl) net.transitions _

@[simp] theorem transitionIds_modifyIncoming :
    (net.modifyIncoming n f).transitionIds = net.transitionIds := by
  obtain ⟨k, i⟩ := n
  cases k with
  | place => rfl
  | transition => exact Arena.map_toList_modify (by intro x; rfl) net.transitions _

@[simp] theorem placeData?_join : (net.join arc).placeData? p = net.placeData? p := by
  simp [join, enlist]
  rfl

@[simp] theorem transitionData?_join :
    (net.join arc).transitionData? t = net.transitionData? t := by
  simp [join, enlist]
  rfl

@[simp] theorem placeList_join : (net.join arc).placeList = net.placeList := by
  simp [join, enlist]
  rfl

@[simp] theorem transitionIds_join : (net.join arc).transitionIds = net.transitionIds := by
  simp [join, enlist]
  rfl

@[simp] theorem transitionNames_join : (net.join arc).transitionNames = net.transitionNames := by
  unfold join enlist modifyIncoming modifyOutgoing
  split <;> split <;> rfl

@[simp] theorem transitionById_join (id : String) :
    (net.join arc).transitionById id = net.transitionById id := by
  rw [transitionById, transitionNames_join, transitionById]

@[simp] theorem size_places_join : (net.join arc).places.size = net.places.size := by
  unfold join enlist modifyIncoming modifyOutgoing
  split <;> split <;> simp

@[simp] theorem size_transitions_join : (net.join arc).transitions.size = net.transitions.size := by
  unfold join enlist modifyIncoming modifyOutgoing
  split <;> split <;> simp

end

/-! ## New nodes -/

theorem placeData?_addPlace (net : Net) (x : Place) (p : PlaceId) :
    (net.addPlace x).placeData? p
      = if p = net.places.next then some x.data else net.placeData? p := by
  simp only [addPlace, placeData?, Arena.get?_push_eq]
  split <;> rfl

@[simp] theorem placeList_addPlace (net : Net) (x : Place) :
    (net.addPlace x).placeList = net.placeList ++ [x.data] := by
  simp [placeList, addPlace, Place.data]

@[simp] theorem transitionIds_addTransition (net : Net) (x : Transition) :
    (net.addTransition x).transitionIds = net.transitionIds ++ [x.id] := by
  simp [transitionIds, addTransition]

theorem transitionData?_addTransition (net : Net) (x : Transition) (t : TransitionId) :
    (net.addTransition x).transitionData? t
      = if t = net.transitions.next then some x.data else net.transitionData? t := by
  simp only [addTransition, transitionData?, Arena.get?_push_eq]
  split <;> rfl

@[simp] theorem placeData?_addTransition (net : Net) (x : Transition) (p : PlaceId) :
    (net.addTransition x).placeData? p = net.placeData? p := rfl

theorem transitionById_addTransition (net : Net) (x : Transition) (id : String) :
    (net.addTransition x).transitionById id
      = if id = x.id then some net.transitions.next else net.transitionById id := by
  show List.lookup id ((x.id, net.transitions.next) :: net.transitionNames) = _
  rw [List.lookup_cons]
  by_cases h : id = x.id
  · simp [h]
  · simp [h, beq_false_of_ne h, transitionById]

/-! ## Contexts -/

section

variable (net : Net) (t : TransitionId) (f : Option Context → Option Context)

@[simp] theorem arcs_modifyContext : (net.modifyContext t f).arcs = net.arcs := rfl

@[simp] theorem contains_modifyContext (n : Node) :
    (net.modifyContext t f).contains n = net.contains n := by
  obtain ⟨k, i⟩ := n
  cases k <;> simp [modifyContext, contains]

@[simp] theorem outgoing?_modifyContext (n : Node) :
    (net.modifyContext t f).outgoing? n = net.outgoing? n := by
  obtain ⟨k, i⟩ := n
  cases k <;> simp only [modifyContext, outgoing?, Arena.get?_modify]
  split <;> simp [Function.comp_def]

@[simp] theorem transitionById_modifyContext (id : String) :
    (net.modifyContext t f).transitionById id = net.transitionById id := rfl

@[simp] theorem transitionIds_modifyContext :
    (net.modifyContext t f).transitionIds = net.transitionIds :=
  Arena.map_toList_modify (by intro x; rfl) net.transitions t

theorem transitionData?_modifyContext (u : TransitionId) :
    (net.modifyContext t f).transitionData? u
      = if t = u then (net.transitionData? u).map fun x => { x with context := f x.context }
        else net.transitionData? u := by
  simp only [modifyContext, transitionData?, Arena.get?_modify, Arena.position_inj]
  split <;> simp [Function.comp_def, Transition.data]

end

theorem WellFormed.modifyContext {net : Net} (h : net.WellFormed) (t : TransitionId)
    (f : Option Context → Option Context) : (net.modifyContext t f).WellFormed :=
  h.modify_transition t (fun _ => rfl) fun _ => rfl

end Net

end RoutePolicy
