import RoutePolicy.Net.Unfolding
import RoutePolicy.Proofs.Net.Data

set_option autoImplicit false

/-! # The unfolded net

Transitions keep their order when a net is unfolded, and each processing step takes up one number
more than a structural one. So the start, the end and the inner place of a transition have numbers
that can be written down (`Net.startOf`, `Net.endOf`, `Net.innerOf`). In terms of these the arcs of
the unfolded net are those of the net and the two arcs at each inner place
(`Net.exists_unfoldsTo`). -/

namespace RoutePolicy

/-! ## Numbers in the unfolded net -/

/-- The number of processing steps among the first `i` of the transitions. -/
def appsBefore (ts : List Transition) (i : Nat) : Nat := (ts.take i).countP fun t => t.role = .app

/-- The transition that takes the arcs into the transition number `i`. -/
def startAt (ts : List Transition) (i : Nat) : TransitionId := ⟨i + appsBefore ts i⟩

/-- The transition that takes the arcs out of the transition number `i`. -/
def endAt (ts : List Transition) (i : Nat) : TransitionId := ⟨i + appsBefore ts (i + 1)⟩

/-- The inner place of the processing step number `i`, in a net of `places` places. -/
def innerAt (places : Nat) (ts : List Transition) (i : Nat) : PlaceId := ⟨places + appsBefore ts i⟩

section

variable {ts : List Transition} {t : Transition} {i j : Nat}

theorem appsBefore_succ (ht : ts[i]? = some t) :
    appsBefore ts (i + 1) = appsBefore ts i + if t.role = .app then 1 else 0 := by
  rw [appsBefore, List.take_add_one, ht, List.countP_append]
  simp [appsBefore, List.countP_cons]

theorem appsBefore_mono (ts : List Transition) (h : i ≤ j) : appsBefore ts i ≤ appsBefore ts j :=
  (List.take_sublist_take_left h).countP_le

theorem appsBefore_append (us : List Transition) (h : i ≤ ts.length) :
    appsBefore (ts ++ us) i = appsBefore ts i := by
  rw [appsBefore, List.take_append_of_le_length h, appsBefore]

theorem startAt_le_endAt (ts : List Transition) (i : Nat) :
    (startAt ts i).index ≤ (endAt ts i).index :=
  Nat.add_le_add_left (appsBefore_mono ts (Nat.le_succ i)) i

theorem endAt_lt_startAt (ts : List Transition) (h : i < j) :
    (endAt ts i).index < (startAt ts j).index :=
  Nat.add_lt_add_of_lt_of_le h (appsBefore_mono ts h)

/-- The numbers that two transitions take up do not overlap. -/
theorem eq_of_overlap (h : (startAt ts i).index ≤ (endAt ts j).index)
    (h' : (startAt ts j).index ≤ (endAt ts i).index) : i = j := by
  rcases Nat.lt_trichotomy i j with hlt | heq | hlt
  · have := endAt_lt_startAt ts hlt
    omega
  · exact heq
  · have := endAt_lt_startAt ts hlt
    omega

theorem eq_of_startAt_eq_endAt (h : startAt ts i = endAt ts j) : i = j := by
  have hindex : (startAt ts i).index = (endAt ts j).index := congrArg Handle.index h
  have hi := startAt_le_endAt ts i
  have hj := startAt_le_endAt ts j
  exact eq_of_overlap (Nat.le_of_eq hindex) (by omega)

theorem startAt_inj : startAt ts i = startAt ts j ↔ i = j :=
  ⟨fun h => eq_of_overlap (h ▸ startAt_le_endAt ts j) (h ▸ startAt_le_endAt ts i),
    fun h => h ▸ rfl⟩

theorem endAt_inj : endAt ts i = endAt ts j ↔ i = j :=
  ⟨fun h => eq_of_overlap (h ▸ startAt_le_endAt ts i) (h ▸ startAt_le_endAt ts j),
    fun h => h ▸ rfl⟩

/-- A processing step starts and ends with different transitions. -/
theorem startAt_ne_endAt (ht : ts[i]? = some t) (happ : t.role = .app) :
    startAt ts i ≠ endAt ts i := by
  intro h
  have h : i + appsBefore ts i = i + appsBefore ts (i + 1) := congrArg Handle.index h
  rw [appsBefore_succ ht, if_pos happ] at h
  omega

theorem startAt_eq_endAt (ht : ts[i]? = some t) (hcontrol : t.role = .control) :
    startAt ts i = endAt ts i := by
  rw [startAt, endAt, appsBefore_succ ht, hcontrol]
  rfl

/-- Processing steps that differ have different inner places. -/
theorem innerAt_inj {places : Nat} {t' : Transition} (ht : ts[i]? = some t) (happ : t.role = .app)
    (ht' : ts[j]? = some t') (happ' : t'.role = .app) (h : innerAt places ts i = innerAt places ts j) :
    i = j := by
  have h : places + appsBefore ts i = places + appsBefore ts j := congrArg Handle.index h
  -- a processing step counts from the number after its own on
  have hlt {i j : Nat} {t : Transition} (ht : ts[i]? = some t) (happ : t.role = .app) (hij : i < j) :
      appsBefore ts i < appsBefore ts j := by
    have hmono := appsBefore_mono ts hij
    rw [Nat.succ_eq_add_one, appsBefore_succ ht, if_pos happ] at hmono
    exact hmono
  rcases Nat.lt_trichotomy i j with hij | hij | hij
  · have := hlt ht happ hij
    omega
  · exact hij
  · have := hlt ht' happ' hij
    omega

/-- Every number that the transitions take up is that of a start or of an end. -/
theorem exists_startAt_or_endAt (ts : List Transition) {k : Nat}
    (hk : k < ts.length + appsBefore ts ts.length) :
    ∃ i, i < ts.length ∧ (startAt ts i = ⟨k⟩ ∨ endAt ts i = ⟨k⟩) := by
  induction ts using List.reverseRecOn with
  | nil => exact absurd hk (Nat.not_lt_zero k)
  | append_singleton ts t ih =>
      have hlength : (ts ++ [t]).length = ts.length + 1 := by simp
      have hlast : appsBefore (ts ++ [t]) (ts.length + 1)
          = appsBefore ts ts.length + if t.role = .app then 1 else 0 := by
        rw [appsBefore_succ (t := t) (by simp), appsBefore_append [t] (Nat.le_refl _)]
      rw [hlength, hlast] at hk
      rcases Nat.lt_or_ge k (ts.length + appsBefore ts ts.length) with hlt | hge
      · obtain ⟨i, hi, h⟩ := ih hlt
        refine ⟨i, by omega, ?_⟩
        rw [startAt, endAt, appsBefore_append [t] (Nat.le_of_lt hi), appsBefore_append [t] hi]
        exact h
      -- the last transition takes up the numbers that are left
      · refine ⟨ts.length, by omega, ?_⟩
        rw [startAt, endAt, hlast, appsBefore_append [t] (Nat.le_refl _), Handle.mk.injEq,
          Handle.mk.injEq]
        split at hk
        · rename_i happ
          rw [if_pos happ]
          omega
        · omega

end

/-! ## The places -/

theorem foldl_addPlace (ps : List Place) (base : Net) :
    (ps.foldl Net.addPlace base).places.toList = base.places.toList ++ ps.map Place.data ∧
    (ps.foldl Net.addPlace base).transitions = base.transitions ∧
    (ps.foldl Net.addPlace base).arcs = base.arcs ∧
    (base.WellFormed → (ps.foldl Net.addPlace base).WellFormed) := by
  induction ps generalizing base with
  | nil => exact ⟨by simp, rfl, rfl, id⟩
  | cons p ps ih =>
      obtain ⟨hplaces, htransitions, harcs, hwf⟩ := ih (base.addPlace p)
      refine ⟨?_, htransitions, harcs, fun h => hwf (h.addPlace p)⟩
      rw [List.foldl_cons, hplaces]
      show (base.places.push p.data).toList ++ _ = _
      rw [Arena.toList_push, List.append_assoc]
      rfl

theorem placeData?_eq (net : Net) (p : PlaceId) :
    net.placeData? p = (net.places.toList[p.index]?).map Place.data := by
  rw [Net.placeData?, Arena.get?, Arena.toList, Array.getElem?_toList]
  rfl

theorem tokens_marking_eq (net : Net) (p : PlaceId) :
    net.marking.tokens p = ((net.places.toList[p.index]?).map (·.markers)).getD 0 := by
  rw [Net.tokens_marking, Net.placeData?, Option.map_map]
  simp only [Arena.get?, Arena.toList, Array.getElem?_toList]
  rfl

/-- A place without markers does not count. -/
theorem tokens_marking_addPlace (net : Net) {x : Place} (hx : x.markers = 0) (p : PlaceId) :
    (net.addPlace x).marking.tokens p = net.marking.tokens p := by
  rw [Net.tokens_marking, Net.tokens_marking, Net.placeData?_addPlace]
  split
  · rename_i hp
    have hnone : net.placeData? p = none := by
      rw [Net.placeData?, hp, Arena.get?_next]
      rfl
    rw [hnone]
    exact hx
  · rfl

/-! ## The transitions -/

/-- The net with the transitions `ts` unfolded has the two arcs at each inner place and no other. -/
structure Unfolded.Split (net : Net) (ts : List Transition) (u : Unfolded) : Prop where
  wellFormed : u.net.WellFormed
  places : u.net.places.size = net.places.size + appsBefore ts ts.length
  transitions : u.net.transitions.size = ts.length + appsBefore ts ts.length
  size : u.ends.size = ts.length
  ends : ∀ i, i < ts.length → u.ends[i]? = some (startAt ts i, endAt ts i)
  tokens : ∀ p, u.net.marking.tokens p = net.marking.tokens p
  kept : ∀ p : PlaceId, net.contains p.node = true → u.net.contains p.node = true
  inner : ∀ i t, ts[i]? = some t → t.role = .app →
    u.net.placeData? (innerAt net.places.size ts i) = some (.inner (t.id ++ "#inner") t.id)
  place : ∀ p x, u.net.placeData? p = some x → net.placeData? p = some x ∨
    ∃ i t, ts[i]? = some t ∧ t.role = .app ∧ p = innerAt net.places.size ts i
  nodup : u.net.arcs.toList.Nodup
  arcs : ∀ arc, arc ∈ u.net.arcs.toList ↔ ∃ i t, ts[i]? = some t ∧ t.role = .app ∧
    (arc = ⟨(startAt ts i).node, (innerAt net.places.size ts i).node⟩ ∨
      arc = ⟨(innerAt net.places.size ts i).node, (endAt ts i).node⟩)

namespace Unfolded

variable {net : Net} {ts : List Transition} {t : Transition} {u : Unfolded}

theorem split_start (net : Net) : (start net).Split net [] := by
  obtain ⟨hplaces, htransitions, harcs, hwf⟩ :=
    foldl_addPlace net.places.toList (.empty (net.id ++ "#unfolded"))
  have hsize : (start net).net.places.size = net.places.size := by
    have hlength := congrArg List.length hplaces
    rw [List.length_append, List.length_map] at hlength
    exact hlength.trans (Nat.zero_add _)
  have hnil : (start net).net.arcs.toList = [] := congrArg Arena.toList harcs
  refine ⟨hwf (.empty _), hsize, congrArg Arena.size htransitions, rfl, fun i hi => absurd hi (by simp),
    fun p => ?_, fun p hp => ?_, fun i t ht => absurd ht (by simp), fun p x hx => Or.inl ?_,
    hnil ▸ List.nodup_nil, fun arc => ?_⟩
  · rw [tokens_marking_eq, tokens_marking_eq]
    show (((net.places.toList.foldl Net.addPlace _).places.toList[p.index]?).map _).getD 0 = _
    rw [hplaces]
    show ((([] ++ net.places.toList.map Place.data)[p.index]?).map _).getD 0 = _
    rw [List.nil_append, List.getElem?_map, Option.map_map]
    rfl
  · have hp : net.places.contains p = true := hp
    show (start net).net.places.contains p = true
    rw [Arena.contains_iff] at hp ⊢
    rwa [hsize]
  · have hdata : (start net).net.places.toList = net.places.toList.map Place.data := hplaces
    rw [← hx, placeData?_eq, placeData?_eq, hdata, List.getElem?_map, Option.map_map]
    rfl
  · rw [hnil]
    simp

/-- What is said of the transitions so far is said in the same words of a longer list. -/
theorem startAt_append (us : List Transition) {i : Nat} (h : i ≤ ts.length) :
    startAt (ts ++ us) i = startAt ts i := by
  rw [startAt, appsBefore_append us h, startAt]

theorem innerAt_append (places : Nat) (us : List Transition) {i : Nat} (h : i ≤ ts.length) :
    innerAt places (ts ++ us) i = innerAt places ts i := by
  rw [innerAt, appsBefore_append us h, innerAt]

theorem endAt_append (us : List Transition) {i : Nat} (h : i < ts.length) :
    endAt (ts ++ us) i = endAt ts i := by
  rw [endAt, appsBefore_append us h, endAt]

theorem appsBefore_length_append (ts : List Transition) (t : Transition) :
    appsBefore (ts ++ [t]) (ts ++ [t]).length
      = appsBefore ts ts.length + if t.role = .app then 1 else 0 := by
  rw [List.length_append, List.length_singleton, appsBefore_succ (t := t) (by simp),
    appsBefore_append [t] (Nat.le_refl _)]

theorem getElem?_concat_eq_some_iff {α : Type} {l : List α} {a x : α} {i : Nat} :
    (l ++ [a])[i]? = some x ↔ l[i]? = some x ∨ i = l.length ∧ x = a := by
  rcases Nat.lt_or_ge i l.length with hlt | hge
  · rw [List.getElem?_append_left hlt]
    exact ⟨Or.inl, fun h => h.elim id fun h => absurd h.1 (Nat.ne_of_lt hlt)⟩
  · rw [List.getElem?_append_right hge, List.getElem?_eq_none hge]
    by_cases hi : i = l.length
    · simp [hi, eq_comm]
    · have : i - l.length ≠ 0 := by omega
      simp [hi, this]

/-- A property of some numbered element of a list with one more element at the end. -/
theorem exists_getElem?_concat {α : Type} {l : List α} {a : α} {P : Nat → α → Prop} :
    (∃ i x, (l ++ [a])[i]? = some x ∧ P i x) ↔ (∃ i x, l[i]? = some x ∧ P i x) ∨ P l.length a := by
  simp only [getElem?_concat_eq_some_iff, or_and_right, exists_or, and_assoc]
  refine or_congr_right ⟨?_, fun hP => ⟨l.length, a, rfl, rfl, hP⟩⟩
  rintro ⟨i, x, rfl, rfl, hP⟩
  exact hP

theorem Split.ends_push (h : u.Split net ts) {first last : TransitionId}
    (hfirst : first = startAt (ts ++ [t]) ts.length) (hlast : last = endAt (ts ++ [t]) ts.length) :
    (u.ends.push (first, last)).size = (ts ++ [t]).length ∧
    ∀ i, i < (ts ++ [t]).length →
      (u.ends.push (first, last))[i]? = some (startAt (ts ++ [t]) i, endAt (ts ++ [t]) i) := by
  refine ⟨by rw [Array.size_push, h.size, List.length_append, List.length_singleton], fun i hi => ?_⟩
  rw [List.length_append, List.length_singleton] at hi
  rw [Array.getElem?_push, h.size]
  rcases Nat.lt_succ_iff_lt_or_eq.mp hi with hlt | rfl
  · rw [if_neg (Nat.ne_of_lt hlt), h.ends i hlt, startAt_append [t] (Nat.le_of_lt hlt),
      endAt_append [t] hlt]
  · rw [if_pos rfl, hfirst, hlast]

/-- The next transition gets the number at which the new one starts. -/
theorem Split.next_eq (h : u.Split net ts) (t : Transition) :
    u.net.transitions.next = startAt (ts ++ [t]) ts.length := by
  rw [startAt_append [t] (Nat.le_refl _)]
  show (⟨u.net.transitions.size⟩ : TransitionId) = _
  rw [h.transitions]
  rfl

/-- The arcs of the transitions so far, said of the longer list. -/
theorem Split.arcs_append (h : u.Split net ts) (t : Transition) (arc : Arc) :
    arc ∈ u.net.arcs.toList ↔ ∃ i x, ts[i]? = some x ∧ x.role = .app ∧
      (arc = ⟨(startAt (ts ++ [t]) i).node, (innerAt net.places.size (ts ++ [t]) i).node⟩ ∨
        arc = ⟨(innerAt net.places.size (ts ++ [t]) i).node, (endAt (ts ++ [t]) i).node⟩) := by
  rw [h.arcs]
  refine exists_congr fun i => exists_congr fun x => and_congr_right fun hi => ?_
  have hlt := (List.getElem?_eq_some_iff.mp hi).1
  rw [startAt_append [t] (Nat.le_of_lt hlt), innerAt_append _ [t] (Nat.le_of_lt hlt),
    endAt_append [t] hlt]

/-- The places are those of the net and the inner places, said of the longer list. -/
theorem Split.place_append (h : u.Split net ts) (t : Transition) {p : PlaceId} {x : Place}
    (hx : u.net.placeData? p = some x) : net.placeData? p = some x ∨
      ∃ i y, (ts ++ [t])[i]? = some y ∧ y.role = .app ∧ p = innerAt net.places.size (ts ++ [t]) i := by
  refine (h.place p x hx).imp_right ?_
  rintro ⟨i, y, hi, happ, rfl⟩
  refine ⟨i, y, getElem?_concat_eq_some_iff.mpr (Or.inl hi), happ, ?_⟩
  rw [innerAt_append _ [t] (Nat.le_of_lt (List.getElem?_eq_some_iff.mp hi).1)]

theorem Split.addControl (h : u.Split net ts) (hcontrol : t.role = .control) :
    (u.addTransition t).Split net (ts ++ [t]) := by
  have hrole : ¬t.role = .app := by simp [hcontrol]
  have hget : (ts ++ [t])[ts.length]? = some t := List.getElem?_concat_length
  have hnext := h.next_eq t
  obtain ⟨hsize, hends⟩ := h.ends_push hnext (hnext.trans (startAt_eq_endAt hget hcontrol))
  have heq : u.addTransition t = ⟨u.net.addTransition t,
      u.ends.push (u.net.transitions.next, u.net.transitions.next)⟩ := by
    unfold addTransition
    rw [hcontrol]
  have happs : appsBefore (ts ++ [t]) (ts ++ [t]).length = appsBefore ts ts.length := by
    rw [appsBefore_length_append, if_neg hrole, Nat.add_zero]
  rw [heq]
  refine ⟨h.wellFormed.addTransition t, ?_, ?_, hsize, hends, h.tokens, ?_, ?_,
    fun p x hx => h.place_append t hx, h.nodup, ?_⟩
  · exact h.places.trans (by rw [happs])
  · show (u.net.transitions.push _).size = _
    rw [Arena.size_push, h.transitions, happs, List.length_append, List.length_singleton]
    omega
  · exact fun p hp => (Net.contains_addTransition u.net t _).mpr (Or.inr (h.kept p hp))
  · intro i x hi happ
    rcases getElem?_concat_eq_some_iff.mp hi with hi | ⟨rfl, rfl⟩
    · rw [innerAt_append _ [t] (Nat.le_of_lt (List.getElem?_eq_some_iff.mp hi).1)]
      exact h.inner i x hi happ
    · exact absurd happ hrole
  · intro arc
    rw [exists_getElem?_concat, or_iff_left fun hlast => hrole hlast.1]
    exact h.arcs_append t arc

/-- The net with the start, the inner place and the end of a processing step, not yet joined. -/
def widened (net : Net) (t : Transition) : Net :=
  ((net.addTransition (.bare (t.id ++ "#start") t.context)).addPlace
    (.inner (t.id ++ "#inner") t.id)).addTransition (.bare (t.id ++ "#end") t.context)

/-- The number of the end of a processing step that is added next. -/
def nextEnd (net : Net) : TransitionId := ⟨net.transitions.next.index + 1⟩

/-- The net with the start, the inner place and the end of a processing step, joined. -/
def withStep (net : Net) (t : Transition) : Net :=
  ((widened net t).join ⟨net.transitions.next.node, net.places.next.node⟩).join
    ⟨net.places.next.node, (nextEnd net).node⟩

section

variable (old : Net) (t : Transition)

theorem addTransition_eq_of_app {u : Unfolded} (happ : t.role = .app) : u.addTransition t
    = ⟨withStep u.net t, u.ends.push (u.net.transitions.next, nextEnd u.net)⟩ := by
  unfold addTransition
  rw [happ]
  rfl

theorem contains_widened (n : Node) : (widened old t).contains n = true ↔
    n = (nextEnd old).node ∨ n = old.places.next.node ∨ n = old.transitions.next.node ∨
      old.contains n = true := by
  have hnext : ((old.addTransition (.bare (t.id ++ "#start") t.context)).addPlace
      (.inner (t.id ++ "#inner") t.id)).transitions.next = nextEnd old := by
    show (⟨(old.transitions.push _).size⟩ : TransitionId) = _
    rw [Arena.size_push]
    rfl
  rw [widened, Net.contains_addTransition, Net.contains_addPlace, Net.contains_addTransition, hnext]
  rfl

theorem contains_withStep (n : Node) : (withStep old t).contains n = true ↔
    n = (nextEnd old).node ∨ n = old.places.next.node ∨ n = old.transitions.next.node ∨
      old.contains n = true := by
  rw [withStep, Net.contains_join, Net.contains_join, contains_widened]

theorem placeData?_withStep (p : PlaceId) : (withStep old t).placeData? p
    = if p = old.places.next then some (.inner (t.id ++ "#inner") t.id) else old.placeData? p := by
  rw [withStep, Net.placeData?_join, Net.placeData?_join, widened, Net.placeData?_addTransition,
    Net.placeData?_addPlace]
  rfl

theorem size_places_withStep : (withStep old t).places.size = old.places.size + 1 := by
  rw [withStep, Net.size_places_join, Net.size_places_join]
  exact Arena.size_push old.places _

theorem size_transitions_withStep :
    (withStep old t).transitions.size = old.transitions.size + 2 := by
  rw [withStep, Net.size_transitions_join, Net.size_transitions_join]
  show ((old.transitions.push _).push _).size = _
  rw [Arena.size_push, Arena.size_push]

theorem tokens_withStep (p : PlaceId) :
    (withStep old t).marking.tokens p = old.marking.tokens p := by
  rw [Net.tokens_marking, withStep, Net.placeData?_join, Net.placeData?_join, ← Net.tokens_marking]
  exact tokens_marking_addPlace (old.addTransition _) rfl p

theorem arcs_withStep : (withStep old t).arcs.toList
    = old.arcs.toList ++ [⟨old.transitions.next.node, old.places.next.node⟩]
      ++ [⟨old.places.next.node, (nextEnd old).node⟩] := by
  rw [withStep, Net.arcs_join, Arena.toList_push, Net.arcs_join, Arena.toList_push]
  rfl

/-- The ends of both new arcs are nodes by the time they are joined. -/
theorem wellFormed_withStep (h : old.WellFormed) : (withStep old t).WellFormed := by
  have hwidened : (widened old t).WellFormed :=
    ((h.addTransition _).addPlace _).addTransition _
  have hjoined : ((widened old t).join
      ⟨old.transitions.next.node, old.places.next.node⟩).WellFormed := by
    refine hwidened.join ?_ ?_ ?_
    · exact (contains_widened old t _).mpr (by simp)
    · exact (contains_widened old t _).mpr (by simp)
    · simp [Handle.node]
  refine hjoined.join ?_ ?_ ?_
  · rw [Net.contains_join]
    exact (contains_widened old t _).mpr (by simp)
  · rw [Net.contains_join]
    exact (contains_widened old t _).mpr (by simp)
  · simp [Handle.node]

/-- No arc leaves one of the new nodes before. -/
theorem nodup_withStep (h : old.WellFormed) (hnodup : old.arcs.toList.Nodup) :
    (withStep old t).arcs.toList.Nodup := by
  rw [arcs_withStep]
  refine List.nodup_append.mpr ⟨List.nodup_append.mpr ⟨hnodup, List.nodup_singleton _, ?_⟩,
    List.nodup_singleton _, ?_⟩
  · intro arc harc arc' harc' hsame
    obtain rfl := List.mem_singleton.mp harc'
    exact Net.not_contains_next_transition old (h.source _ (hsame ▸ harc))
  · intro arc harc arc' harc' hsame
    obtain rfl := List.mem_singleton.mp harc'
    rcases List.mem_append.mp harc with harc | harc
    · exact Net.not_contains_next_place old (h.source _ (hsame ▸ harc))
    · rw [List.mem_singleton.mp harc] at hsame
      exact absurd (congrArg (fun a : Arc => a.source.kind) hsame) (by simp [Handle.node])

end

theorem Split.addApp (h : u.Split net ts) (happ : t.role = .app) :
    (u.addTransition t).Split net (ts ++ [t]) := by
  have hlength : (ts ++ [t]).length = ts.length + 1 := by simp
  have happs : appsBefore (ts ++ [t]) (ts ++ [t]).length = appsBefore ts ts.length + 1 := by
    rw [appsBefore_length_append, if_pos happ]
  have hfirst := h.next_eq t
  have hinner : u.net.places.next = innerAt net.places.size (ts ++ [t]) ts.length := by
    rw [innerAt_append _ [t] (Nat.le_refl _)]
    show (⟨u.net.places.size⟩ : PlaceId) = _
    rw [h.places]
    rfl
  have hlast : nextEnd u.net = endAt (ts ++ [t]) ts.length := by
    rw [nextEnd, hfirst, startAt_append [t] (Nat.le_refl _), endAt, ← hlength, happs]
    rfl
  obtain ⟨hsize, hends⟩ := h.ends_push hfirst hlast
  rw [addTransition_eq_of_app t happ]
  constructor
  case wellFormed => exact wellFormed_withStep u.net t h.wellFormed
  case places =>
    rw [size_places_withStep, h.places, happs]
    rfl
  case transitions =>
    rw [size_transitions_withStep, h.transitions, happs, hlength]
    omega
  case size => exact hsize
  case ends => exact hends
  case tokens => exact fun p => (tokens_withStep u.net t p).trans (h.tokens p)
  case kept => exact fun p hp => (contains_withStep u.net t _).mpr (by simp [h.kept p hp])
  case inner =>
    intro i x hi hx
    rw [placeData?_withStep]
    rcases getElem?_concat_eq_some_iff.mp hi with hi | ⟨rfl, rfl⟩
    · have hold := h.inner i x hi hx
      rw [innerAt_append _ [t] (Nat.le_of_lt (List.getElem?_eq_some_iff.mp hi).1), if_neg, hold]
      -- an older inner place is not the new one
      intro hnext
      exact Net.not_contains_next_place u.net
        (hnext ▸ Net.contains_iff_placeData?.mpr ⟨_, hold⟩)
    · rw [if_pos hinner.symm]
  case place =>
    intro p x hx
    rw [placeData?_withStep] at hx
    split at hx
    · rename_i hp
      exact Or.inr ⟨ts.length, t, List.getElem?_concat_length, happ, hp.trans hinner⟩
    · exact h.place_append t hx
  case nodup => exact nodup_withStep u.net t h.wellFormed h.nodup
  case arcs =>
    intro arc
    rw [arcs_withStep, List.mem_append, List.mem_append, List.mem_singleton, List.mem_singleton,
      exists_getElem?_concat, ← h.arcs_append t arc, ← hfirst, ← hinner, ← hlast, or_assoc]
    exact or_congr_right ⟨fun h => ⟨happ, h⟩, And.right⟩

end Unfolded

/-! ## The arcs -/

theorem foldl_join (arcs : List Arc) (net : Net) :
    (arcs.foldl Net.join net).arcs.toList = net.arcs.toList ++ arcs ∧
    (∀ p, (arcs.foldl Net.join net).placeData? p = net.placeData? p) ∧
    (∀ n, (arcs.foldl Net.join net).contains n = net.contains n) ∧
    (net.WellFormed → (∀ arc ∈ arcs, net.contains arc.source = true ∧
      net.contains arc.target = true ∧ arc.source.kind ≠ arc.target.kind) →
      (arcs.foldl Net.join net).WellFormed) := by
  induction arcs generalizing net with
  | nil => exact ⟨by simp, fun _ => rfl, fun _ => rfl, fun h _ => h⟩
  | cons arc arcs ih =>
      obtain ⟨harcs, hplaces, hnodes, hwf⟩ := ih (net.join arc)
      refine ⟨?_, fun p => ?_, fun n => ?_, fun h hall => ?_⟩
      · rw [List.foldl_cons, harcs, Net.arcs_join, Arena.toList_push, List.append_assoc]
        rfl
      · rw [List.foldl_cons, hplaces, Net.placeData?_join]
      · rw [List.foldl_cons, hnodes, Net.contains_join]
      · obtain ⟨⟨hs, ht, hk⟩, hall⟩ := List.forall_mem_cons.mp hall
        exact hwf (h.join hs ht hk) fun a ha => by
          simpa only [Net.contains_join] using hall a ha

namespace Net

/-- The transition of the unfolded net that takes the arcs into a transition. -/
def startOf (net : Net) (t : TransitionId) : TransitionId := startAt net.transitions.toList t.index

/-- The transition of the unfolded net that takes the arcs out of a transition. -/
def endOf (net : Net) (t : TransitionId) : TransitionId := endAt net.transitions.toList t.index

/-- The inner place of a processing step. -/
def innerOf (net : Net) (t : TransitionId) : PlaceId :=
  innerAt net.places.size net.transitions.toList t.index

/-- The unfolded net starts with the markers of the net. A transition takes in by its start and puts
out by its end; for a processing step these are two, with the inner place between them. -/
structure UnfoldsTo (net unfolded : Net) : Prop where
  wellFormed : unfolded.WellFormed
  tokens : ∀ p, unfolded.marking.tokens p = net.marking.tokens p
  hasStart : ∀ t : TransitionId, net.contains t.node = true →
    unfolded.contains (net.startOf t).node = true
  hasEnd : ∀ t : TransitionId, net.contains t.node = true →
    unfolded.contains (net.endOf t).node = true
  takes : ∀ t : TransitionId, net.contains t.node = true → ∀ p : PlaceId,
    unfolded.arcCount p.node (net.startOf t).node = net.arcCount p.node t.node
  puts : ∀ t : TransitionId, net.contains t.node = true → ∀ p : PlaceId,
    unfolded.arcCount (net.endOf t).node p.node = net.arcCount t.node p.node
  control : ∀ t x, net.transitions.get? t = some x → x.role = .control →
    net.startOf t = net.endOf t
  inner : ∀ t x, net.transitions.get? t = some x → x.role = .app →
    unfolded.placeData? (net.innerOf t) = some (.inner (x.id ++ "#inner") x.id)
  place : ∀ p x, unfolded.placeData? p = some x → net.placeData? p = some x ∨
    ∃ t y, net.transitions.get? t = some y ∧ y.role = .app ∧ p = net.innerOf t
  covers : ∀ v : TransitionId, unfolded.contains v.node = true →
    ∃ t : TransitionId, net.contains t.node = true ∧ (v = net.startOf t ∨ v = net.endOf t)
  begins : ∀ t x, net.transitions.get? t = some x → x.role = .app → ∀ p : PlaceId,
    unfolded.arcCount (net.startOf t).node p.node = if p = net.innerOf t then 1 else 0
  finishes : ∀ t x, net.transitions.get? t = some x → x.role = .app → ∀ p : PlaceId,
    unfolded.arcCount p.node (net.endOf t).node = if p = net.innerOf t then 1 else 0

/-- Where an arc leaves a node in the unfolded net. -/
def exitOf (net : Net) (n : Node) : Node :=
  match n.transition? with
  | some t => (net.endOf t).node
  | none => n

/-- Where an arc enters a node in the unfolded net. -/
def entryOf (net : Net) (n : Node) : Node :=
  match n.transition? with
  | some t => (net.startOf t).node
  | none => n

section

variable {net : Net} {u : Unfolded}

theorem split_foldl (net : Net) (ts : List Transition) :
    (ts.foldl Unfolded.addTransition (.start net)).Split net ts := by
  induction ts using List.reverseRecOn with
  | nil => exact Unfolded.split_start net
  | append_singleton ts t ih =>
      rw [List.foldl_append]
      cases hrole : t.role with
      | app => exact ih.addApp hrole
      | control => exact ih.addControl hrole

theorem index_lt_of_contains {t : TransitionId} (h : net.contains t.node = true) :
    t.index < net.transitions.toList.length := Arena.contains_iff.mp h

theorem contains_startOf (hu : u.Split net net.transitions.toList) {t : TransitionId}
    (ht : net.contains t.node = true) : u.net.contains (net.startOf t).node = true := by
  have hlt := index_lt_of_contains ht
  have := appsBefore_mono net.transitions.toList (Nat.le_of_lt hlt)
  refine Arena.contains_iff.mpr ?_
  rw [hu.transitions]
  show t.index + appsBefore _ t.index < _
  omega

theorem contains_endOf (hu : u.Split net net.transitions.toList) {t : TransitionId}
    (ht : net.contains t.node = true) : u.net.contains (net.endOf t).node = true := by
  have hlt := index_lt_of_contains ht
  have : appsBefore net.transitions.toList (t.index + 1) ≤ _ := appsBefore_mono _ hlt
  refine Arena.contains_iff.mpr ?_
  rw [hu.transitions]
  show t.index + appsBefore _ (t.index + 1) < _
  omega

/-- Every arc of the net has its place in the unfolded net. -/
theorem arcFor_eq_ok (h : net.WellFormed) (hu : u.Split net net.transitions.toList) {arc : Arc}
    (harc : arc ∈ net.arcs.toList) :
    u.arcFor net arc = .ok ⟨net.exitOf arc.source, net.entryOf arc.target⟩ := by
  have hs := h.source arc harc
  have ht := h.target arc harc
  have hkinds : arc.source.sameKind arc.target = false := by
    simpa [Node.sameKind] using h.kinds arc harc
  have hends (t : TransitionId) (ht : net.contains t.node = true) :
      u.ends[t.index]? = some (net.startOf t, net.endOf t) := hu.ends _ (index_lt_of_contains ht)
  unfold Unfolded.arcFor
  rw [if_neg (by simp [hkinds]), if_pos (by simp [hs, ht])]
  simp only [Except.ok.injEq, Arc.mk.injEq]
  constructor
  · unfold exitOf
    cases hst : arc.source.transition? with
    | none => rfl
    | some t =>
        rw [Node.transition?, Node.handle?_eq_some_iff] at hst
        simp only [hends t (hst ▸ hs), Option.map_some, Option.getD_some]
  · unfold entryOf
    cases hst : arc.target.transition? with
    | none => rfl
    | some t =>
        rw [Node.transition?, Node.handle?_eq_some_iff] at hst
        simp only [hends t (hst ▸ ht), Option.map_some, Option.getD_some]

theorem startOf_inj {t t' : TransitionId} : net.startOf t = net.startOf t' ↔ t = t' :=
  startAt_inj.trans ⟨fun h => Arena.position_inj.mp h, congrArg Handle.index⟩

theorem endOf_inj {t t' : TransitionId} : net.endOf t = net.endOf t' ↔ t = t' :=
  endAt_inj.trans ⟨fun h => Arena.position_inj.mp h, congrArg Handle.index⟩

theorem eq_of_startOf_eq_endOf {t t' : TransitionId} (h : net.startOf t = net.endOf t') : t = t' :=
  Arena.position_inj.mp (eq_of_startAt_eq_endAt h)

/-- The arcs into a start or an end, as far as they come with an inner place. -/
theorem mem_split_into_iff (hu : u.Split net net.transitions.toList) {p : PlaceId}
    {t : TransitionId} : ⟨p.node, t.node⟩ ∈ u.net.arcs.toList ↔
      ∃ t' x, net.transitions.get? t' = some x ∧ x.role = .app ∧ p = net.innerOf t' ∧
        t = net.endOf t' := by
  rw [hu.arcs]
  constructor
  · rintro ⟨i, x, hi, happ, harc | harc⟩
    · exact absurd (Arc.mk.inj harc).1 (node_ne_node _ _)
    · obtain ⟨hp, ht⟩ := Arc.mk.inj harc
      exact ⟨⟨i⟩, x, Arena.get?_eq_some_iff.mpr hi, happ, Handle.node_inj.mp hp,
        Handle.node_inj.mp ht⟩
  · rintro ⟨t', x, hget, happ, rfl, rfl⟩
    exact ⟨t'.index, x, Arena.get?_eq_some_iff.mp hget, happ, Or.inr rfl⟩

theorem mem_split_from_iff (hu : u.Split net net.transitions.toList) {p : PlaceId}
    {t : TransitionId} : ⟨t.node, p.node⟩ ∈ u.net.arcs.toList ↔
      ∃ t' x, net.transitions.get? t' = some x ∧ x.role = .app ∧ t = net.startOf t' ∧
        p = net.innerOf t' := by
  rw [hu.arcs]
  constructor
  · rintro ⟨i, x, hi, happ, harc | harc⟩
    · obtain ⟨ht, hp⟩ := Arc.mk.inj harc
      exact ⟨⟨i⟩, x, Arena.get?_eq_some_iff.mpr hi, happ, Handle.node_inj.mp ht,
        Handle.node_inj.mp hp⟩
    · exact absurd (Arc.mk.inj harc).1.symm (node_ne_node _ _)
  · rintro ⟨t', x, hget, happ, rfl, rfl⟩
    exact ⟨t'.index, x, Arena.get?_eq_some_iff.mp hget, happ, Or.inl rfl⟩

/-- A processing step starts and ends with different transitions. -/
theorem startOf_ne_endOf {t : TransitionId} {x : Transition}
    (ht : net.transitions.get? t = some x) (happ : x.role = .app) :
    net.startOf t ≠ net.endOf t := startAt_ne_endAt (Arena.get?_eq_some_iff.mp ht) happ

/-- The arc of the unfolded net that an arc of the net becomes. -/
def movedArc (net : Net) (arc : Arc) : Arc := ⟨net.exitOf arc.source, net.entryOf arc.target⟩

theorem movedArc_into (p : PlaceId) (t : TransitionId) :
    net.movedArc ⟨p.node, t.node⟩ = ⟨p.node, (net.startOf t).node⟩ := rfl

theorem movedArc_from (p : PlaceId) (t : TransitionId) :
    net.movedArc ⟨t.node, p.node⟩ = ⟨(net.endOf t).node, p.node⟩ := rfl

/-- An arc that is moved to a place before a transition is one from the place. -/
theorem movedArc_eq_into_iff (h : net.WellFormed) {arc : Arc} (harc : arc ∈ net.arcs.toList)
    {p : PlaceId} {v : TransitionId} : net.movedArc arc = ⟨p.node, v.node⟩ ↔
      ∃ t : TransitionId, arc = ⟨p.node, t.node⟩ ∧ net.startOf t = v := by
  rcases h.exists_ends harc with ⟨p', t', rfl⟩ | ⟨t', p', rfl⟩
  · rw [movedArc_into]
    simp only [Arc.mk.injEq, Handle.node_inj]
    constructor
    · rintro ⟨rfl, rfl⟩
      exact ⟨t', ⟨rfl, rfl⟩, rfl⟩
    · rintro ⟨t, ⟨rfl, rfl⟩, rfl⟩
      exact ⟨rfl, rfl⟩
  · rw [movedArc_from]
    simp only [Arc.mk.injEq]
    exact iff_of_false (fun hex => node_ne_node _ _ hex.1.symm)
      fun ⟨_, hex, _⟩ => node_ne_node _ _ hex.1.symm

theorem movedArc_eq_from_iff (h : net.WellFormed) {arc : Arc} (harc : arc ∈ net.arcs.toList)
    {p : PlaceId} {v : TransitionId} : net.movedArc arc = ⟨v.node, p.node⟩ ↔
      ∃ t : TransitionId, arc = ⟨t.node, p.node⟩ ∧ net.endOf t = v := by
  rcases h.exists_ends harc with ⟨p', t', rfl⟩ | ⟨t', p', rfl⟩
  · rw [movedArc_into]
    simp only [Arc.mk.injEq]
    exact iff_of_false (fun hex => node_ne_node _ _ hex.1)
      fun ⟨_, hex, _⟩ => node_ne_node _ _ hex.1
  · rw [movedArc_from]
    simp only [Arc.mk.injEq, Handle.node_inj]
    constructor
    · rintro ⟨rfl, rfl⟩
      exact ⟨t', ⟨rfl, rfl⟩, rfl⟩
    · rintro ⟨t, ⟨rfl, rfl⟩, rfl⟩
      exact ⟨rfl, rfl⟩

/-- The arcs at the inner places and the moved arcs, counted. -/
theorem count_append_movedArc (hu : u.Split net net.transitions.toList) (arc : Arc) :
    (u.net.arcs.toList ++ net.arcs.toList.map net.movedArc).count arc
      = (if arc ∈ u.net.arcs.toList then 1 else 0)
        + net.arcs.toList.countP fun a => net.movedArc a = arc := by
  rw [List.count_append, hu.nodup.count, List.count, List.countP_map]
  congr 1

/-! ## The arcs at starts and ends -/

/-- The arcs of the net into a transition are moved to its start. -/
theorem countP_movedArc_into_start (h : net.WellFormed) (p : PlaceId) (t : TransitionId) :
    (net.arcs.toList.countP fun a => net.movedArc a = ⟨p.node, (net.startOf t).node⟩)
      = net.arcCount p.node t.node := by
  refine List.countP_congr fun a ha => ?_
  rw [decide_eq_true_iff, beq_iff_eq, movedArc_eq_into_iff h ha]
  simp only [startOf_inj, exists_eq_right]

/-- The arcs of the net out of a transition are moved to its end. -/
theorem countP_movedArc_from_end (h : net.WellFormed) (p : PlaceId) (t : TransitionId) :
    (net.arcs.toList.countP fun a => net.movedArc a = ⟨(net.endOf t).node, p.node⟩)
      = net.arcCount t.node p.node := by
  refine List.countP_congr fun a ha => ?_
  rw [decide_eq_true_iff, beq_iff_eq, movedArc_eq_from_iff h ha]
  simp only [endOf_inj, exists_eq_right]

section

variable {t : TransitionId} {x : Transition}

/-- No arc of the net is moved out of the start of a processing step. -/
theorem countP_movedArc_from_start (h : net.WellFormed) (ht : net.transitions.get? t = some x)
    (happ : x.role = .app) (p : PlaceId) :
    (net.arcs.toList.countP fun a => net.movedArc a = ⟨(net.startOf t).node, p.node⟩) = 0 := by
  refine List.countP_eq_zero.mpr fun a ha => ?_
  rw [decide_eq_true_iff, movedArc_eq_from_iff h ha]
  rintro ⟨t', -, heq⟩
  exact startOf_ne_endOf ht happ (heq.symm.trans (eq_of_startOf_eq_endOf heq.symm ▸ rfl))

/-- No arc of the net is moved to the end of a processing step. -/
theorem countP_movedArc_into_end (h : net.WellFormed) (ht : net.transitions.get? t = some x)
    (happ : x.role = .app) (p : PlaceId) :
    (net.arcs.toList.countP fun a => net.movedArc a = ⟨p.node, (net.endOf t).node⟩) = 0 := by
  refine List.countP_eq_zero.mpr fun a ha => ?_
  rw [decide_eq_true_iff, movedArc_eq_into_iff h ha]
  rintro ⟨t', -, heq⟩
  exact startOf_ne_endOf ht happ (eq_of_startOf_eq_endOf heq ▸ heq)

/-- No inner place comes before a start. -/
theorem not_mem_split_into_start (hu : u.Split net net.transitions.toList) (p : PlaceId)
    (t : TransitionId) : ⟨p.node, (net.startOf t).node⟩ ∉ u.net.arcs.toList := by
  rw [mem_split_into_iff hu]
  rintro ⟨t', x, hget, happ, -, heq⟩
  exact startOf_ne_endOf hget happ (eq_of_startOf_eq_endOf heq ▸ heq)

/-- No inner place comes after an end. -/
theorem not_mem_split_from_end (hu : u.Split net net.transitions.toList) (p : PlaceId)
    (t : TransitionId) : ⟨(net.endOf t).node, p.node⟩ ∉ u.net.arcs.toList := by
  rw [mem_split_from_iff hu]
  rintro ⟨t', x, hget, happ, heq, -⟩
  exact startOf_ne_endOf hget happ (heq.symm.trans (eq_of_startOf_eq_endOf heq.symm ▸ rfl))

/-- The start of a processing step leads to its inner place. -/
theorem mem_split_from_start_iff (hu : u.Split net net.transitions.toList)
    (ht : net.transitions.get? t = some x) (happ : x.role = .app) {p : PlaceId} :
    ⟨(net.startOf t).node, p.node⟩ ∈ u.net.arcs.toList ↔ p = net.innerOf t := by
  rw [mem_split_from_iff hu]
  constructor
  · rintro ⟨t', x', -, -, heq, rfl⟩
    rw [startOf_inj.mp heq]
  · rintro rfl
    exact ⟨t, x, ht, happ, rfl, rfl⟩

/-- The inner place of a processing step leads to its end. -/
theorem mem_split_into_end_iff (hu : u.Split net net.transitions.toList)
    (ht : net.transitions.get? t = some x) (happ : x.role = .app) {p : PlaceId} :
    ⟨p.node, (net.endOf t).node⟩ ∈ u.net.arcs.toList ↔ p = net.innerOf t := by
  rw [mem_split_into_iff hu]
  constructor
  · rintro ⟨t', x', -, -, rfl, heq⟩
    rw [endOf_inj.mp heq]
  · rintro rfl
    exact ⟨t, x, ht, happ, rfl, rfl⟩

end

/-- **A net without faults can be unfolded**, and its transitions keep their arcs at their starts
and ends. -/
theorem exists_unfoldsTo (h : net.WellFormed) :
    ∃ unfolded, net.unfold = .ok unfolded ∧ net.UnfoldsTo unfolded := by
  obtain ⟨u, hfold⟩ : ∃ u, net.transitions.toList.foldl Unfolded.addTransition (.start net) = u :=
    ⟨_, rfl⟩
  have hu : u.Split net net.transitions.toList := hfold ▸ split_foldl net net.transitions.toList
  -- the arcs at the inner places come first, then those of the net in their order
  obtain ⟨harcs, hplaces, hnodes, hwf⟩ := foldl_join (net.arcs.toList.map net.movedArc) u.net
  refine ⟨(net.arcs.toList.map net.movedArc).foldl Net.join u.net, ?_, ?_⟩
  · rw [Net.unfold, hfold, mapM_eq_ok fun arc harc => arcFor_eq_ok h hu harc]
    rfl
  have hcount (arc : Arc) : ((net.arcs.toList.map net.movedArc).foldl Net.join u.net).arcs.toList.count
      arc = (if arc ∈ u.net.arcs.toList then 1 else 0)
        + net.arcs.toList.countP fun a => net.movedArc a = arc := by
    rw [harcs, count_append_movedArc hu]
  constructor
  case wellFormed =>
    refine hwf hu.wellFormed fun arc harc => ?_
    obtain ⟨a, ha, rfl⟩ := List.mem_map.mp harc
    have hs := h.source a ha
    have ht := h.target a ha
    rcases h.exists_ends ha with ⟨p, t, rfl⟩ | ⟨t, p, rfl⟩
    · exact ⟨hu.kept p hs, contains_startOf hu ht, by rw [movedArc_into]; simp [Handle.node]⟩
    · exact ⟨contains_endOf hu hs, hu.kept p ht, by rw [movedArc_from]; simp [Handle.node]⟩
  case tokens =>
    intro p
    rw [tokens_marking, hplaces, ← tokens_marking, hu.tokens]
  case hasStart =>
    intro t ht
    rw [hnodes]
    exact contains_startOf hu ht
  case hasEnd =>
    intro t ht
    rw [hnodes]
    exact contains_endOf hu ht
  case control =>
    exact fun t x ht hrole => startAt_eq_endAt (Arena.get?_eq_some_iff.mp ht) hrole
  case inner =>
    intro t x ht happ
    rw [hplaces]
    exact hu.inner t.index x (Arena.get?_eq_some_iff.mp ht) happ
  case place =>
    intro p x hx
    rw [hplaces] at hx
    refine (hu.place p x hx).imp_right ?_
    rintro ⟨i, y, hi, happ, rfl⟩
    exact ⟨⟨i⟩, y, Arena.get?_eq_some_iff.mpr hi, happ, rfl⟩
  case covers =>
    intro v hv
    rw [hnodes] at hv
    have hlt : v.index < u.net.transitions.size := Arena.contains_iff.mp hv
    rw [hu.transitions] at hlt
    obtain ⟨i, hi, h⟩ := exists_startAt_or_endAt _ hlt
    exact ⟨⟨i⟩, Arena.contains_iff.mpr hi, h.imp Eq.symm Eq.symm⟩
  case takes =>
    intro t ht p
    rw [arcCount, hcount, if_neg (not_mem_split_into_start hu p t), Nat.zero_add,
      countP_movedArc_into_start h]
  case puts =>
    intro t ht p
    rw [arcCount, hcount, if_neg (not_mem_split_from_end hu p t), Nat.zero_add,
      countP_movedArc_from_end h]
  case begins =>
    intro t x ht happ p
    rw [arcCount, hcount, countP_movedArc_from_start h ht happ, Nat.add_zero]
    exact if_congr (mem_split_from_start_iff hu ht happ) rfl rfl
  case finishes =>
    intro t x ht happ p
    rw [arcCount, hcount, countP_movedArc_into_end h ht happ, Nat.add_zero]
    exact if_congr (mem_split_into_end_iff hu ht happ) rfl rfl

/-- The places of a net are places of the unfolded net. -/
theorem contains_of_unfold {unfolded : Net} (h : net.unfold = .ok unfolded) {p : PlaceId}
    (hp : net.contains p.node = true) : unfolded.contains p.node = true := by
  obtain ⟨arcs, -, h⟩ := bind_eq_ok_iff.mp h
  obtain rfl := Except.ok.inj h
  obtain ⟨-, -, hnodes, -⟩ :=
    foldl_join arcs (net.transitions.toList.foldl Unfolded.addTransition (.start net)).net
  rw [hnodes]
  exact (split_foldl net net.transitions.toList).kept p hp

end

end Net

end RoutePolicy
