import RoutePolicy.Proofs.Net.InPlace
import RoutePolicy.Proofs.Net.Moves

set_option autoImplicit false

/-! # The state equation of a firing

A transition that fires goes along its arcs. For each arc into it a place loses a marker, as long as it
has one, and then for each arc out of it a place gains one. There may be several arcs between two
nodes, and a place may be at both ends of the transition. From a place of `n` markers, with `i` arcs to
the transition and `o` arcs from it, `max (n - i) 0 + o` markers remain; everything else in the net
stays as it is (`Net.state_equation`).

An enabled transition finds a marker in each place before it. Where there is only one arc between two
nodes it therefore loses nothing to the maximum, and the place changes by `o - i`. -/

namespace RoutePolicy

variable {net net' : Net} {m m' : Marking} {t : TransitionId}

/-- The place emptied of its markers. -/
def Place.unmarked (p : Place) : Place := { p with markers := 0 }

namespace Net

/-- The nets differ in the markers of their places at most: the places have the same identifiers, kinds
and lists of arcs, and all else is the same. -/
structure SameButMarkers (net net' : Net) : Prop where
  id : net'.id = net.id
  places : ∀ p : PlaceId,
    (net'.places.get? p).map Place.unmarked = (net.places.get? p).map Place.unmarked
  transitions : net'.transitions = net.transitions
  arcs : net'.arcs = net.arcs
  placeNames : net'.placeNames = net.placeNames
  transitionNames : net'.transitionNames = net.transitionNames

theorem sameButMarkers_withMarking (hm : m.size = net.places.size) :
    net.SameButMarkers (net.withMarking m) := by
  refine ⟨rfl, fun p => ?_, rfl, rfl, rfl, rfl⟩
  rw [get?_withMarking hm, Option.map_map]
  rfl

/-! ## The equation of a move -/

/-- A place keeps what is not taken, and gets what is put. -/
theorem Moves.tokens_eq_max (h : net.Moves m t m') (p : PlaceId) : (m'.tokens p : Int)
    = max ((m.tokens p : Int) - net.arcCount p.node t.node) 0 + net.arcCount t.node p.node := by
  have htokens := h.tokens p
  omega

/-- With single arcs there is enough to take, so the change is what is put less what is taken. -/
theorem Moves.tokens_sub_eq (h : net.Moves m t m') (hnodup : net.arcs.toList.Nodup) (p : PlaceId) :
    net.arcCount p.node t.node ≤ m.tokens p ∧ (m'.tokens p : Int) - m.tokens p
      = net.arcCount t.node p.node - net.arcCount p.node t.node := by
  have hle := arcCount_le_tokens hnodup h.enabled p
  have htokens := h.tokens p
  exact ⟨hle, by omega⟩

/-! ## The equation of a firing -/

/-- **A firing changes the markers by the state equation, and nothing else.** The call that writes into
the net, marker by marker, ends with the net that the function gives. -/
theorem state_equation (h : net.WellFormed) (hen : net.isEnabledAt net.marking t = .ok true)
    (hrange : ∀ p : PlaceId, 0 < net.arcCount t.node p.node → net.marking.tokens p
      - net.arcCount p.node t.node + net.arcCount t.node p.node < countRange) :
    ∃ net', net.fireTransition t = .ok net' ∧ (Edit.fireTransition t).run net = .ok () net' ∧
      net.SameButMarkers net' ∧
      (∀ p : PlaceId, (net'.marking.tokens p : Int)
        = max ((net.marking.tokens p : Int) - net.arcCount p.node t.node) 0
          + net.arcCount t.node p.node) ∧
      (net.arcs.toList.Nodup → ∀ p : PlaceId, net.arcCount p.node t.node ≤ net.marking.tokens p ∧
        (net'.marking.tokens p : Int) - net.marking.tokens p
          = net.arcCount t.node p.node - net.arcCount p.node t.node) := by
  have hsize := net.size_marking
  have henables : net.Enables net.marking t := (h.isEnabledAt_eq_true_iff hsize).mp hen
  obtain ⟨m', hm'⟩ := (h.exists_fireAt_iff hsize).mpr ⟨henables, hrange⟩
  have hfire : net.fireTransition t = .ok (net.withMarking m') :=
    fireTransition_eq_ok_iff.mpr ⟨m', hm', rfl⟩
  have hwritten : (Edit.fireTransition t).run net = .ok () (net.withMarking m') := by
    have hrealises := Edit.fireTransition_realises h t
    rw [hfire] at hrealises
    exact hrealises.ok () _ rfl
  have hsize' : m'.size = net.places.size := (size_fireAt hm').trans hsize
  have hmoves : net.Moves net.marking t m' := h.moves_of_fireAt hsize hm'
  refine ⟨_, hfire, hwritten, sameButMarkers_withMarking hsize', ?_⟩
  rw [marking_withMarking hsize']
  exact ⟨hmoves.tokens_eq_max, hmoves.tokens_sub_eq⟩

/-- Stamping a sheet on both sides takes two drops from the pad, which holds one, and gives one back. -/
def stamping : Net :=
  (((((((((((Net.empty "stamping").addPlace (.plain "pad" 1)).addPlace (.plain "pile" 3)
    ).addPlace (.plain "sides" 0)).addTransition (.bare "stamp" none)
    ).join ⟨⟨.place, 0⟩, ⟨.transition, 0⟩⟩).join ⟨⟨.place, 0⟩, ⟨.transition, 0⟩⟩
    ).join ⟨⟨.place, 1⟩, ⟨.transition, 0⟩⟩).join ⟨⟨.transition, 0⟩, ⟨.place, 0⟩⟩
    ).join ⟨⟨.transition, 0⟩, ⟨.place, 2⟩⟩).join ⟨⟨.transition, 0⟩, ⟨.place, 2⟩⟩)

theorem stamping_made : stamping.Made := by
  refine .join (.join (.join (.join (.join (.join (.addTransition (.addPlace (.addPlace (.addPlace
    (.empty "stamping") ?_) ?_) ?_)) rfl) rfl) rfl) rfl) rfl) rfl
  all_goals decide

theorem state_equation_stamping : ∃ net', stamping.fireTransition ⟨0⟩ = .ok net' ∧
    stamping.SameButMarkers net' ∧ net'.marking.tokens ⟨0⟩ = 1 ∧ net'.marking.tokens ⟨1⟩ = 2 ∧
    net'.marking.tokens ⟨2⟩ = 2 := by
  have hwf := stamping_made.wellFormed
  have hrange (p : PlaceId) (hp : 0 < stamping.arcCount (⟨0⟩ : TransitionId).node p.node) :
      stamping.marking.tokens p - stamping.arcCount p.node (⟨0⟩ : TransitionId).node
        + stamping.arcCount (⟨0⟩ : TransitionId).node p.node < countRange := by
    have hin : p.index < 3 := Arena.contains_iff.mp (hwf.target _ (arcCount_pos_iff.mp hp))
    obtain ⟨i⟩ := p
    match i, hin with
    | 0, _ | 1, _ | 2, _ => decide +kernel
  obtain ⟨net', hfire, -, hsame, htokens, -⟩ :=
    state_equation (t := ⟨0⟩) hwf (by decide +kernel) hrange
  have hcounts (p : PlaceId) (n : Nat) (hn : max ((stamping.marking.tokens p : Int)
      - stamping.arcCount p.node (⟨0⟩ : TransitionId).node) 0
        + stamping.arcCount (⟨0⟩ : TransitionId).node p.node = n) : net'.marking.tokens p = n :=
    Int.ofNat_inj.mp ((htokens p).trans hn)
  exact ⟨net', hfire, hsame, hcounts ⟨0⟩ 1 (by decide +kernel), hcounts ⟨1⟩ 2 (by decide +kernel),
    hcounts ⟨2⟩ 2 (by decide +kernel)⟩

end Net

end RoutePolicy
