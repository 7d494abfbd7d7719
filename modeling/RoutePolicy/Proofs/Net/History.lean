import RoutePolicy.Proofs.Net.InPlace
import RoutePolicy.Proofs.Net.Tables

set_option autoImplicit false

/-! # What a net keeps whatever is done to it

Besides the calls that edit and run a net, its holder may write markers, contexts and identifiers
directly (`Change`). A property that every single write keeps is kept by every call, also where the
call fails halfway (`Net.Stable.after`). So counts stay in their range, and the tables stay those that
follow from the nodes as long as no node is renamed (`Net.indexed_history`). -/

namespace RoutePolicy

variable {α β : Type} {net net' : Net} {P : Net → Prop}

/-! ## Edits that keep a property -/

namespace Edit

/-- The net that the edit leaves, whether it fails or not. -/
def left (x : Edit α) (net : Net) : Net :=
  match x.run net with
  | .ok _ net' => net'
  | .error _ net' => net'

/-- The edit keeps the property, whether it fails or not. -/
def Keeps (P : Net → Prop) (x : Edit α) : Prop := ∀ net, P net → P (x.left net)

theorem left_bind_of_ok {x : Edit α} {f : α → Edit β} {a : α} (h : x.run net = .ok a net') :
    (x >>= f).left net = (f a).left net' := by
  rw [left, run_bind_of_ok h]
  rfl

theorem left_bind_of_error {x : Edit α} {f : α → Edit β} {e : Failure}
    (h : x.run net = .error e net') : (x >>= f).left net = net' := by
  rw [left, run_bind_of_error h]

theorem Keeps.bind {x : Edit α} {f : α → Edit β} (hx : x.Keeps P) (hf : ∀ a, (f a).Keeps P) :
    (x >>= f).Keeps P := by
  intro net h
  have hleft := hx net h
  cases hrun : x.run net with
  | ok a net' =>
      rw [left, hrun] at hleft
      rw [left_bind_of_ok hrun]
      exact hf a net' hleft
  | error e net' =>
      rw [left, hrun] at hleft
      rw [left_bind_of_error hrun]
      exact hleft

theorem keeps_pure (a : α) : (pure a : Edit α).Keeps P := fun _ h => h

theorem keeps_throw (e : Failure) : (throw e : Edit α).Keeps P := fun _ h => h

theorem keeps_get : (get : Edit Net).Keeps P := fun _ h => h

theorem keeps_modify {f : Net → Net} (hf : ∀ net, P net → P (f net)) :
    (modify f : Edit Unit).Keeps P := fun net h => hf net h

theorem keeps_ask (f : Net → Except Failure α) : (ask f).Keeps P := by
  intro net h
  have hleft : (ask f).left net = net := by
    cases hf : f net with
    | ok a => rw [left, run_ask_of_ok hf]
    | error e => rw [left, run_ask_of_error hf]
  rw [hleft]
  exact h

theorem keeps_forM {f : α → Edit Unit} (hf : ∀ a, (f a).Keeps P) (l : List α) :
    (forM l f : Edit Unit).Keeps P := by
  induction l with
  | nil => exact keeps_pure ()
  | cons a l ih =>
      rw [List.forM_cons]
      exact (hf a).bind fun _ => ih

end Edit

namespace Net

/-! ## Properties that writes keep -/

/-- The markers of each place are a count of 64 bits. -/
def Counted (net : Net) : Prop := ∀ x ∈ net.places.toList, x.markers < countRange

/-- A property of nets with counts in their range that no write breaks. -/
structure Stable (P : Net → Prop) : Prop where
  counted : ∀ {net}, P net → net.Counted
  addPlace : ∀ {net x}, x.markers < countRange → P net → P (net.addPlace x)
  addTransition : ∀ {net} x, P net → P (net.addTransition x)
  arcs : ∀ {net} arcs, P net → P { net with arcs }
  outgoing : ∀ {net} n f, P net → P (net.modifyOutgoing n f)
  incoming : ∀ {net} n f, P net → P (net.modifyIncoming n f)
  markers : ∀ {net n} p, n < countRange → P net → P (net.setMarkers p n)
  marking : ∀ {net m}, m.size = net.places.size → (∀ n ∈ m.toList, n < countRange) → P net →
    P (net.withMarking m)
  context : ∀ {net} t f, P net → P (net.modifyContext t f)

end Net

/-- The markers that a place comes with are a count of 64 bits. -/
def Call.HasCount : Call → Prop
  | addPlace x => x.markers < countRange
  | _ => True

namespace Net.Stable

variable (hP : Stable P)

include hP

theorem keeps_changeOutgoing (n : Node) (f : List ArcId → List ArcId) :
    (Edit.changeOutgoing n f).Keeps P := by
  refine Edit.keeps_get.bind fun net => ?_
  split
  · exact Edit.keeps_modify fun _ => hP.outgoing n f
  · exact Edit.keeps_throw _

theorem keeps_changeIncoming (n : Node) (f : List ArcId → List ArcId) :
    (Edit.changeIncoming n f).Keeps P := by
  refine Edit.keeps_get.bind fun net => ?_
  split
  · exact Edit.keeps_modify fun _ => hP.incoming n f
  · exact Edit.keeps_throw _

theorem keeps_enlist (a : ArcId) (arc : Arc) : (Edit.enlist a arc).Keeps P :=
  (hP.keeps_changeOutgoing _ _).bind fun _ => hP.keeps_changeIncoming _ _

theorem keeps_delist (a : ArcId) (arc : Arc) : (Edit.delist a arc).Keeps P :=
  (hP.keeps_changeOutgoing _ _).bind fun _ => hP.keeps_changeIncoming _ _

theorem keeps_addArc (arc : Arc) : (Edit.addArc arc).Keeps P :=
  (Edit.keeps_ask _).bind fun _ => Edit.keeps_get.bind fun _ =>
    (Edit.keeps_modify fun _ => hP.arcs _).bind fun _ =>
      (hP.keeps_enlist _ _).bind fun _ => Edit.keeps_pure _

theorem keeps_addArcOnce (arc : Arc) : (Edit.addArcOnce arc).Keeps P := by
  refine (Edit.keeps_ask _).bind fun found => ?_
  cases found with
  | none => exact hP.keeps_addArc arc
  | some a => exact Edit.keeps_pure a

theorem keeps_repoint (a : ArcId) (moved : Arc → Arc) : (Edit.repoint a moved).Keeps P := by
  refine Edit.keeps_get.bind fun net => ?_
  split
  · exact Edit.keeps_throw _
  · exact (Edit.keeps_ask _).bind fun _ => (hP.keeps_delist _ _).bind fun _ =>
      (Edit.keeps_modify fun _ => hP.arcs _).bind fun _ => hP.keeps_enlist _ _

/-- A change of markers keeps the property if it gives counts for counts. -/
theorem keeps_changeMarkers (p : PlaceId) {f : Nat → Except Failure Nat}
    (hf : ∀ n k, n < countRange → f n = .ok k → k < countRange) :
    (Edit.changeMarkers p f).Keeps P := by
  intro net h
  unfold Edit.changeMarkers
  -- nothing is written before the place is found and its new count is known
  cases hx : net.places.require p with
  | error e =>
      rw [Edit.left_bind_of_error (Edit.run_ask_of_error hx)]
      exact h
  | ok x =>
      have hcount : x.markers < countRange :=
        hP.counted h x (Arena.mem_of_get? (Arena.require_eq_ok_iff.mp hx))
      rw [Edit.left_bind_of_ok (Edit.run_ask_of_ok hx)]
      have hcases : (∃ e, f x.markers = .error e) ∨ ∃ k, f x.markers = .ok k := by
        cases f x.markers <;> simp
      rcases hcases with ⟨e, he⟩ | ⟨k, hk⟩
      · rw [Edit.left_bind_of_error (Edit.run_ask_of_error he)]
        exact h
      · rw [Edit.left_bind_of_ok (Edit.run_ask_of_ok hk)]
        exact hP.markers p (hf _ k hcount hk) h

theorem keeps_fireTransition (t : TransitionId) : (Edit.fireTransition t).Keeps P := by
  have hfewer (n k : Nat) (hn : n < countRange) (hk : Edit.fewer n = .ok k) : k < countRange := by
    obtain rfl := Except.ok.inj hk
    omega
  have hmore (n k : Nat) (_ : n < countRange) (hk : Edit.more n = .ok k) : k < countRange := by
    unfold Edit.more at hk
    split at hk
    · obtain rfl := Except.ok.inj hk
      assumption
    · cases hk
  refine (Edit.keeps_ask _).bind fun enabled => ?_
  split
  · exact (Edit.keeps_ask _).bind fun _ => (Edit.keeps_ask _).bind fun _ =>
      (Edit.keeps_forM (fun p => hP.keeps_changeMarkers p hfewer) _).bind fun _ =>
        Edit.keeps_forM (fun p => hP.keeps_changeMarkers p hmore) _
  · exact Edit.keeps_throw _

theorem keeps_fire : Edit.fire.Keeps P := by
  have hchanged (change : Int) (n k : Nat) (_ : n < countRange)
      (hk : Net.changedCount n change = .ok k) : k < countRange := by
    unfold Net.changedCount at hk
    simp only at hk
    split at hk
    · obtain rfl := Except.ok.inj hk
      simp only [signedRange, countRange] at *
      omega
    · cases hk
  exact (Edit.keeps_ask _).bind fun _ => (Edit.keeps_ask _).bind fun change =>
    Edit.keeps_get.bind fun _ =>
      (Edit.keeps_forM (fun p => hP.keeps_changeMarkers p (hchanged (change p))) _).bind fun _ =>
        Edit.keeps_pure _

/-- **A call keeps what every write keeps**, also where it fails. -/
theorem after {call : Call} (hcall : call.HasCount) (h : P net) : P (net.after call) := by
  have hkeeps : call.edit.Keeps P := by
    cases call with
    | addPlace x => exact Edit.keeps_modify fun _ => hP.addPlace hcall
    | addTransition x => exact Edit.keeps_modify fun _ => hP.addTransition x
    | addArc arc => exact (hP.keeps_addArc arc).bind fun _ => Edit.keeps_pure _
    | addArcOnce arc => exact (hP.keeps_addArcOnce arc).bind fun _ => Edit.keeps_pure _
    | setSource a n => exact hP.keeps_repoint a _
    | setTarget a n => exact hP.keeps_repoint a _
    | fireTransition t => exact hP.keeps_fireTransition t
    | fire => exact hP.keeps_fire.bind fun _ => Edit.keeps_pure _
  have hleft : net.after call = call.edit.left net := by
    unfold Net.after Edit.left
    cases call.edit.run net <;> rfl
  rw [hleft]
  exact hkeeps net h

end Net.Stable

/-! ## Histories -/

/-- What the holder of a net does to it. Not all of it goes through a call. -/
inductive Change where
  | call (call : Call)
  | setMarkers (p : PlaceId) (markers : Nat)
  | applyMarking (m : Marking)
  | setContext (t : TransitionId) (f : Option Context → Option Context)
  | renamePlace (p : PlaceId) (id : String)
  | renameTransition (t : TransitionId) (id : String)

namespace Change

/-- The net after the change. What is refused changes nothing. -/
def apply (net : Net) : Change → Net
  | call c => net.after c
  | setMarkers p markers => net.setMarkers p markers
  | applyMarking m => (net.applyMarking m).toOption.getD net
  | setContext t f => net.modifyContext t f
  | renamePlace p id => net.renamePlace p id
  | renameTransition t id => net.renameTransition t id

theorem apply_applyMarking (net : Net) (m : Marking) : apply net (.applyMarking m) =
    if m.size = net.places.size then net.withMarking m else net := by
  show (net.applyMarking m).toOption.getD net = _
  unfold Net.applyMarking
  split <;> rfl

/-- The markers written are counts of 64 bits. -/
def HasCounts : Change → Prop
  | call c => c.HasCount
  | setMarkers _ markers => markers < countRange
  | applyMarking m => ∀ n ∈ m.toList, n < countRange
  | _ => True

/-- The change gives another identifier to a node. -/
def renames : Change → Bool
  | renamePlace _ _ | renameTransition _ _ => true
  | _ => false

end Change

/-- The net after several changes. -/
def Net.history (net : Net) (changes : List Change) : Net := changes.foldl Change.apply net

namespace Net

theorem Stable.apply (hP : Stable P) {change : Change} (hcounts : change.HasCounts)
    (hrename : change.renames = false) (h : P net) : P (change.apply net) := by
  cases change with
  | call c => exact hP.after hcounts h
  | setMarkers p n => exact hP.markers p hcounts h
  | applyMarking m =>
      rw [Change.apply_applyMarking]
      split
      · exact hP.marking ‹_› hcounts h
      · exact h
  | setContext t f => exact hP.context t f h
  | renamePlace p id => cases hrename
  | renameTransition t id => cases hrename

/-- A step lemma makes a lemma on histories. -/
theorem history_induction {changes : List Change} (hstep : ∀ change ∈ changes, ∀ net, P net →
    P (change.apply net)) (h : P net) : P (net.history changes) := by
  induction changes generalizing net with
  | nil => exact h
  | cons change changes ih =>
      exact ih (fun c hc => hstep c (List.mem_cons_of_mem _ hc))
        (hstep change List.mem_cons_self net h)

/-- No change touches the arcs without their lists. -/
theorem WellFormed.change (h : net.WellFormed) (change : Change) :
    (change.apply net).WellFormed := by
  cases change with
  | call c => exact h.after c
  | setMarkers p n => exact h.modify_place p (fun _ => rfl) fun _ => rfl
  | applyMarking m =>
      rw [Change.apply_applyMarking]
      split
      · exact h.withMarking ‹_›
      · exact h
  | setContext t f => exact h.modifyContext t f
  | renamePlace p id => exact h.modify_place p (fun _ => rfl) fun _ => rfl
  | renameTransition t id => exact h.modify_transition t (fun _ => rfl) fun _ => rfl

theorem wellFormed_history (id : String) (changes : List Change) :
    ((empty id).history changes).WellFormed :=
  history_induction (fun change _ _ h => h.change change) (.empty id)

/-! ## Counts -/

/-- A change of the places keeps counts in their range if it makes counts of counts. -/
theorem Counted.of_places {net : Net} {p : PlaceId} {f : Place → Place} (h : net.Counted)
    (hf : ∀ x, x.markers < countRange → (f x).markers < countRange) :
    ∀ x ∈ (net.places.modify p f).toList, x.markers < countRange := by
  intro x hx
  obtain ⟨i, hi⟩ := Arena.exists_get?_of_mem hx
  rw [Arena.get?_modify] at hi
  split at hi
  · obtain ⟨y, hy, rfl⟩ := Option.map_eq_some_iff.mp hi
    exact hf y (h y (Arena.mem_of_get? hy))
  · exact h x (Arena.mem_of_get? hi)

theorem stable_counted : Stable Counted where
  counted h := h
  addPlace {net x} hx h y hy := by
    have hpush : y ∈ net.places.toList ++ [{ x with incoming := [], outgoing := [] }] := by
      rw [← Arena.toList_push]
      exact hy
    rcases List.mem_append.mp hpush with hy | hy
    · exact h y hy
    · rw [List.mem_singleton.mp hy]
      exact hx
  addTransition _ h := h
  arcs _ h := h
  outgoing {net} n f h := by
    obtain ⟨k, i⟩ := n
    cases k with
    | place => exact h.of_places fun _ hx => hx
    | transition => exact h
  incoming {net} n f h := by
    obtain ⟨k, i⟩ := n
    cases k with
    | place => exact h.of_places fun _ hx => hx
    | transition => exact h
  markers p hn h := h.of_places fun _ _ => hn
  marking {net m} hsize hm h x hx := by
    have hmem : x.markers ∈ (net.withMarking m).marking.toList := by
      rw [Net.marking, Arena.toList, Array.toList_map]
      exact List.mem_map_of_mem hx
    rw [marking_withMarking hsize] at hmem
    exact hm _ hmem
  context _ _ h := h

/-! ## Tables -/

/-- Without renaming, the tables stay those that follow from the nodes. -/
theorem stable_indexed : Stable fun net => net.Counted ∧ net.Indexed where
  counted h := h.1
  addPlace hx h := ⟨stable_counted.addPlace hx h.1, h.2.addPlace _⟩
  addTransition x h := ⟨stable_counted.addTransition x h.1, h.2.addTransition x⟩
  arcs arcs h := ⟨stable_counted.arcs arcs h.1, h.2.of_keepsNames ⟨rfl, rfl, rfl, rfl⟩⟩
  outgoing n f h := ⟨stable_counted.outgoing n f h.1,
    h.2.of_keepsNames (keepsNames_modifyOutgoing _ n f)⟩
  incoming n f h := ⟨stable_counted.incoming n f h.1,
    h.2.of_keepsNames (keepsNames_modifyIncoming _ n f)⟩
  markers p hn h := ⟨stable_counted.markers p hn h.1,
    h.2.of_keepsNames (keepsNames_setMarkers _ p _)⟩
  marking hsize hm h := ⟨stable_counted.marking hsize hm h.1,
    h.2.of_keepsNames (keepsNames_withMarking hsize)⟩
  context t f h := ⟨stable_counted.context t f h.1,
    h.2.of_keepsNames (keepsNames_modifyContext _ t f)⟩

theorem counted_history (id : String) {changes : List Change}
    (hcounts : ∀ change ∈ changes, change.HasCounts) :
    ((empty id).history changes).Counted := by
  refine history_induction (fun change hchange net h => ?_) (by rintro x ⟨⟩)
  -- a node has the same count under another name, so nothing is asked of the names here
  cases change with
  | renamePlace p id => exact h.of_places fun _ hx => hx
  | renameTransition t id => exact h
  | _ => exact stable_counted.apply (hcounts _ hchange) rfl h

/-- **As long as no node is renamed, the tables are those that follow from the nodes.** -/
theorem indexed_history (id : String) {changes : List Change}
    (hcounts : ∀ change ∈ changes, change.HasCounts)
    (hrenames : ∀ change ∈ changes, change.renames = false) :
    ((empty id).history changes).Indexed := by
  have hempty : (empty id).Counted ∧ (empty id).Indexed := ⟨by rintro x ⟨⟩, .empty id⟩
  exact (history_induction (P := fun net => net.Counted ∧ net.Indexed) (fun change hchange _ =>
    stable_indexed.apply (hcounts change hchange) (hrenames change hchange)) hempty).2

end Net

end RoutePolicy
