import RoutePolicy.Proofs.Net.Agreement

set_option autoImplicit false

/-! # Agreement and agreement up to markers

Both compare the nodes and arcs of two nets by identifiers; agreement looks at the markers of a place
besides, agreement up to markers at its kind. So neither is finer than the other. Between nets whose
places of one identifier are of one kind, agreement is agreement up to markers of nets with the same
identifier and the same markers (`Net.agreement_up_to_markers`). A plain place and an inner one of the
same identifier agree, and do not agree up to markers (`Net.agreement_misses_kinds`). -/

namespace RoutePolicy

namespace Net

variable {κ : Type} {content : Place → κ} {a b : Net}

theorem SameOutline.symm (h : a.SameOutline b) : b.SameOutline a :=
  ⟨h.places.symm, h.transitions.symm, fun key => (h.arcs key).symm⟩

theorem SamePlaces.symm (h : a.SamePlaces content b) : b.SamePlaces content a :=
  fun y hy x hx hid => (h x hx y hy hid.symm).symm

theorem sameOutline_comm : b.SameOutline a ↔ a.SameOutline b := ⟨.symm, .symm⟩

theorem samePlaces_comm : b.SamePlaces content a ↔ a.SamePlaces content b := ⟨.symm, .symm⟩

namespace Identified

variable (ha : a.Identified) (hb : b.Identified)

include ha hb

/-- Both nets give the same answer on each other. -/
theorem agrees_comm : ∃ v, a.agrees b = .ok v ∧ b.agrees a = .ok v := by
  obtain ⟨v, hv, hiff⟩ := ha.agrees hb
  obtain ⟨v', hv', hiff'⟩ := hb.agrees ha
  rw [eq_comm (a := b.id), sameOutline_comm, samePlaces_comm, ← hiff, ← Bool.eq_iff_iff] at hiff'
  exact ⟨v, hv, hiff' ▸ hv'⟩

theorem agreesUpToMarkers_comm :
    ∃ v, a.agreesUpToMarkers b = .ok v ∧ b.agreesUpToMarkers a = .ok v := by
  obtain ⟨v, hv, hiff⟩ := ha.agreesUpToMarkers hb
  obtain ⟨v', hv', hiff'⟩ := hb.agreesUpToMarkers ha
  rw [sameOutline_comm, samePlaces_comm, ← hiff, ← Bool.eq_iff_iff] at hiff'
  exact ⟨v, hv, hiff' ▸ hv'⟩

end Identified

/-- **Agreement and agreement up to markers.** On nets whose places have identifiers of their own, and
whose transitions have, both have an answer, which does not depend on the side from which they are
asked. Nets that agree also agree up to markers, as long as places of one identifier are of one kind;
and nets that agree up to markers agree if they have the same identifier, and places of one identifier
the same markers. -/
theorem agreement_up_to_markers (ha : a.Made) (hb : b.Made) (haplaces : a.placeIds.Nodup)
    (hbplaces : b.placeIds.Nodup) (hatransitions : a.transitionIds.Nodup)
    (hbtransitions : b.transitionIds.Nodup) :
    (∃ v, a.agrees b = .ok v ∧ b.agrees a = .ok v) ∧
    (∃ v, a.agreesUpToMarkers b = .ok v ∧ b.agreesUpToMarkers a = .ok v) ∧
    (a.agrees b = .ok true →
      (a.agreesUpToMarkers b = .ok true ↔ a.SamePlaces (·.kind) b)) ∧
    (a.agreesUpToMarkers b = .ok true →
      (a.agrees b = .ok true ↔ a.id = b.id ∧ a.SamePlaces (·.markers) b)) := by
  have ha := ha.identified haplaces hatransitions
  have hb := hb.identified hbplaces hbtransitions
  refine ⟨ha.agrees_comm hb, ha.agreesUpToMarkers_comm hb, fun h => ?_, fun h => ?_⟩
  · obtain ⟨-, houtline, -⟩ := (ha.agrees_iff hb).mp h
    rw [ha.agreesUpToMarkers_iff hb, and_iff_right houtline]
  · obtain ⟨houtline, -⟩ := (ha.agreesUpToMarkers_iff hb).mp h
    rw [ha.agrees_iff hb, and_iff_right houtline]

/-- Work that one transition starts and another ends, with two markers when it is done. -/
def working : Net :=
  Net.empty "working" |>.addPlace (.plain "todo" 1) |>.addPlace (.inner "work" "task")
    |>.addPlace (.plain "done" 0) |>.addTransition (.bare "start" none)
    |>.addTransition (.bare "end" none)
    |>.join ⟨⟨.place, 0⟩, ⟨.transition, 0⟩⟩ |>.join ⟨⟨.transition, 0⟩, ⟨.place, 1⟩⟩
    |>.join ⟨⟨.place, 1⟩, ⟨.transition, 1⟩⟩ |>.join ⟨⟨.transition, 1⟩, ⟨.place, 2⟩⟩
    |>.join ⟨⟨.transition, 1⟩, ⟨.place, 2⟩⟩

/-- The same nodes and arcs, added in another order, and so many markers to begin with. -/
def workingReordered (todo : Nat) : Net :=
  Net.empty "working" |>.addTransition (.bare "end" none) |>.addPlace (.inner "work" "task")
    |>.addPlace (.plain "done" 0) |>.addTransition (.bare "start" none)
    |>.addPlace (.plain "todo" todo)
    |>.join ⟨⟨.transition, 0⟩, ⟨.place, 1⟩⟩ |>.join ⟨⟨.place, 0⟩, ⟨.transition, 0⟩⟩
    |>.join ⟨⟨.place, 2⟩, ⟨.transition, 1⟩⟩ |>.join ⟨⟨.transition, 1⟩, ⟨.place, 0⟩⟩

theorem made_working : working.Made :=
  Made.empty "working" |>.addPlace (by decide) |>.addPlace (by decide) |>.addPlace (by decide)
    |>.addTransition |>.addTransition |>.join rfl |>.join rfl |>.join rfl |>.join rfl |>.join rfl

theorem made_workingReordered (todo : Nat) (h : todo < countRange) :
    (workingReordered todo).Made :=
  Made.empty "working" |>.addTransition |>.addPlace (by decide) |>.addPlace (by decide)
    |>.addTransition |>.addPlace h |>.join rfl |>.join rfl |>.join rfl |>.join rfl

/-- The order of the nodes, and how often there is an arc, do not matter to either comparison; the
markers at the start matter to agreement only. -/
theorem agreement_up_to_markers_working :
    working.agreesUpToMarkers (workingReordered 1) = .ok true ∧
      working.agrees (workingReordered 1) = .ok true ∧
      working.agreesUpToMarkers (workingReordered 2) = .ok true ∧
      ¬working.agrees (workingReordered 2) = .ok true := by
  obtain ⟨-, -, hkinds, -⟩ := agreement_up_to_markers made_working
    (made_workingReordered 1 (by decide)) (by decide) (by decide) (by decide) (by decide)
  obtain ⟨-, -, -, hmarkers⟩ := agreement_up_to_markers made_working
    (made_workingReordered 2 (by decide)) (by decide) (by decide) (by decide) (by decide)
  have hagree : working.agrees (workingReordered 1) = .ok true := by decide
  have hup : working.agreesUpToMarkers (workingReordered 2) = .ok true := by decide
  refine ⟨(hkinds hagree).mpr ?_, hagree, hup, fun h => ?_⟩
  · show ∀ x ∈ working.places.toList, _
    decide
  · have hmore := ((hmarkers hup).mp h).2
    revert hmore
    show ¬∀ x ∈ working.places.toList, _
    decide

/-- A place where work rests, without arcs. -/
def pausePlain : Net := (Net.empty "n").addPlace (.plain "pause" 0)

/-- The place of the same identifier that stands for the work itself. -/
def pauseInner : Net := (Net.empty "n").addPlace (.inner "pause" "work")

/-- **Nets that agree need not agree up to markers.** A plain place and an inner one of one identifier
and without markers agree, from both sides, and their kinds differ. -/
theorem agreement_misses_kinds :
    (pausePlain.Made ∧ pauseInner.Made ∧ pausePlain.placeIds.Nodup ∧ pauseInner.placeIds.Nodup ∧
      pausePlain.transitionIds.Nodup ∧ pauseInner.transitionIds.Nodup) ∧
    pausePlain.agrees pauseInner = .ok true ∧ pauseInner.agrees pausePlain = .ok true ∧
    pausePlain.agreesUpToMarkers pauseInner = .ok false ∧
    pauseInner.agreesUpToMarkers pausePlain = .ok false :=
  ⟨⟨(Made.empty "n").addPlace (by decide), (Made.empty "n").addPlace (by decide), by decide,
    by decide, by decide, by decide⟩, by decide, by decide, by decide, by decide⟩

end Net

end RoutePolicy
