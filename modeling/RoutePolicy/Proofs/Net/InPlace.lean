import RoutePolicy.Proofs.Net.Firing

set_option autoImplicit false

/-! # Editing a net in place

A net is built and run by calls that write into it one after the other: the arc first, then the lists
at its two ends; the markers of one place, then those of the next. A call that fails does not take
back what it has written (`Edit`). Still, on a net that was started empty each call does what the
function on nets says that it stands for, and a call that fails has written nothing, unless a count
left its range (`Call.realises`). So after any calls, failed ones among them, each arc is on exactly
the lists of its two ends (`registered_session`). -/

namespace RoutePolicy

/-- A change of a net in place. It may fail, and what it has written by then stays. -/
abbrev Edit := EStateM Failure Net

variable {α β : Type} {net net' : Net} {m m' : Marking}

namespace Edit

/-! ## Calls, write by write -/

/-- What the net answers, or fails to answer; nothing is written. -/
def ask (f : Net → Except Failure α) : Edit α := fun net =>
  match f net with
  | .ok x => .ok x net
  | .error e => .error e net

/-- Changes the list of arcs that leave a node. -/
def changeOutgoing (n : Node) (f : List ArcId → List ArcId) : Edit Unit := do
  if (← get).contains n then modify (·.modifyOutgoing n f) else throw .outside

/-- Changes the list of arcs that enter a node. -/
def changeIncoming (n : Node) (f : List ArcId → List ArcId) : Edit Unit := do
  if (← get).contains n then modify (·.modifyIncoming n f) else throw .outside

/-- Puts an arc on the lists of its two ends. -/
def enlist (a : ArcId) (arc : Arc) : Edit Unit := do
  changeOutgoing arc.source (· ++ [a])
  changeIncoming arc.target (· ++ [a])

/-- Takes an arc off the lists of its two ends. -/
def delist (a : ArcId) (arc : Arc) : Edit Unit := do
  changeOutgoing arc.source (·.filter (· ≠ a))
  changeIncoming arc.target (·.filter (· ≠ a))

/-- Adds an arc, which gets the next number. -/
def addArc (arc : Arc) : Edit ArcId := do
  ask (·.checkArc arc)
  let a := (← get).arcs.next
  modify fun net => { net with arcs := net.arcs.push arc }
  enlist a arc
  return a

/-- Adds an arc, unless there is one between these nodes. -/
def addArcOnce (arc : Arc) : Edit ArcId := do
  match ← ask (·.findArc arc) with
  | some a => return a
  | none => addArc arc

/-- Moves an end of an arc. -/
def repoint (a : ArcId) (moved : Arc → Arc) : Edit Unit := do
  match (← get).arcs.get? a with
  | none => throw (.unknownArc a)
  | some arc =>
    ask (·.checkArc (moved arc))
    delist a arc
    modify fun net => { net with arcs := net.arcs.set a (moved arc) }
    enlist a (moved arc)

/-- Changes the number of markers in a place. -/
def changeMarkers (p : PlaceId) (f : Nat → Except Failure Nat) : Edit Unit := do
  let place ← ask (·.places.require p)
  let markers ← ask fun _ => f place.markers
  modify (·.setMarkers p markers)

/-- One marker less, if there is any. -/
def fewer (n : Nat) : Except Failure Nat := .ok (n - 1)

/-- One marker more, within the range of counts. -/
def more (n : Nat) : Except Failure Nat :=
  if n + 1 < countRange then .ok (n + 1) else .error .overflow

/-- Fires an enabled transition: takes the markers one by one, then puts the others. -/
def fireTransition (t : TransitionId) : Edit Unit := do
  if ← ask fun net => net.isEnabledAt net.marking t then
    let inputs ← ask (·.preset t)
    let outputs ← ask (·.postset t)
    forM inputs (changeMarkers · fewer)
    forM outputs (changeMarkers · more)
  else
    throw (.notEnabled t)

/-- Fires all enabled transitions together, place by place. -/
def fire : Edit (List TransitionId) := do
  let fired ← ask (·.enabled)
  let change ← ask (·.batchChange fired)
  forM (← get).places.indices fun p => changeMarkers p (Net.changedCount · (change p))
  return fired

/-! ## Steps of a call -/

section

variable {x : Edit α} {f : α → Edit β} {a : α} {e : Failure}

theorem run_bind_of_ok (h : x.run net = .ok a net') : (x >>= f).run net = (f a).run net' := by
  rw [EStateM.run_bind, h]

theorem run_bind_of_error (h : x.run net = .error e net') :
    (x >>= f).run net = .error e net' := by
  rw [EStateM.run_bind, h]

end

theorem run_ask_of_ok {f : Net → Except Failure α} {a : α} (h : f net = .ok a) :
    (ask f).run net = .ok a net := by
  simp only [ask, EStateM.run, h]

theorem run_ask_of_error {f : Net → Except Failure α} {e : Failure} (h : f net = .error e) :
    (ask f).run net = .error e net := by
  simp only [ask, EStateM.run, h]

theorem run_changeOutgoing {n : Node} (h : net.contains n = true) (f : List ArcId → List ArcId) :
    (changeOutgoing n f).run net = .ok () (net.modifyOutgoing n f) := by
  rw [changeOutgoing, run_bind_of_ok (EStateM.run_get _), if_pos h, EStateM.run_modify]

theorem run_changeIncoming {n : Node} (h : net.contains n = true) (f : List ArcId → List ArcId) :
    (changeIncoming n f).run net = .ok () (net.modifyIncoming n f) := by
  rw [changeIncoming, run_bind_of_ok (EStateM.run_get _), if_pos h, EStateM.run_modify]

theorem run_enlist {a : ArcId} {arc : Arc} (hs : net.contains arc.source = true)
    (ht : net.contains arc.target = true) : (enlist a arc).run net = .ok () (net.enlist a arc) := by
  rw [enlist, run_bind_of_ok (run_changeOutgoing hs _), run_changeIncoming]
  · rfl
  · rwa [Net.contains_modifyOutgoing]

theorem run_delist {a : ArcId} {arc : Arc} (hs : net.contains arc.source = true)
    (ht : net.contains arc.target = true) : (delist a arc).run net = .ok () (net.delist a arc) := by
  rw [delist, run_bind_of_ok (run_changeOutgoing hs _), run_changeIncoming]
  · rfl
  · rwa [Net.contains_modifyOutgoing]

/-! ## Calls on arcs -/

/-- The edit ends as the computation does: with its result and the new net, or with its failure and
the net as it was. Only where a count overflows other markers may have been changed before. -/
structure Realises (x : Edit α) (net : Net) (r : Except Failure (α × Net)) : Prop where
  ok : ∀ a net', r = .ok (a, net') → x.run net = .ok a net'
  error : ∀ e, r = .error e → ∃ net', x.run net = .error e net' ∧
    (net' = net ∨ e = .overflow ∧ ∃ m, m.size = net.places.size ∧ net' = net.withMarking m)

theorem realises_of_ok {x : Edit α} {a : α} (h : x.run net = .ok a net') :
    x.Realises net (.ok (a, net')) := by
  refine ⟨fun b net'' heq => ?_, fun e heq => by cases heq⟩
  obtain ⟨rfl, rfl⟩ := Prod.mk.inj (Except.ok.inj heq)
  exact h

theorem realises_of_error {x : Edit α} {e : Failure} (h : x.run net = .error e net) :
    x.Realises net (.error e) := by
  refine ⟨fun b net'' heq => (by cases heq), fun e' heq => ?_⟩
  obtain rfl := Except.error.inj heq
  exact ⟨net, h, Or.inl rfl⟩

theorem Realises.of_run_eq {x y : Edit α} {r : Except Failure (α × Net)} (h : x.Realises net r)
    (hrun : y.run net = x.run net) : y.Realises net r :=
  ⟨fun a net' heq => hrun.trans (h.ok a net' heq), fun e heq => hrun ▸ h.error e heq⟩

theorem addArc_realises (net : Net) (arc : Arc) :
    (addArc arc).Realises net ((net.addArc arc).map (net.arcs.next, ·)) := by
  cases hc : net.checkArc arc with
  | error e =>
      rw [Net.addArc, hc]
      exact realises_of_error (run_bind_of_error (run_ask_of_error hc))
  | ok u =>
      obtain ⟨hs, ht, -⟩ := Net.checkArc_eq_ok hc
      have henlist : (enlist net.arcs.next arc).run { net with arcs := net.arcs.push arc }
          = .ok () (net.join arc) := run_enlist hs ht
      rw [Net.addArc, hc]
      refine realises_of_ok ?_
      rw [addArc, run_bind_of_ok (run_ask_of_ok hc), run_bind_of_ok (EStateM.run_get _),
        run_bind_of_ok (EStateM.run_modify _ _), run_bind_of_ok henlist, EStateM.run_pure]

theorem addArcOnce_realises (net : Net) (arc : Arc) :
    (addArcOnce arc).Realises net ((net.addArcOnce arc).map Prod.swap) := by
  cases hf : net.findArc arc with
  | error e =>
      rw [Net.addArcOnce, hf]
      exact realises_of_error (run_bind_of_error (run_ask_of_error hf))
  | ok found =>
      have hrun := run_bind_of_ok (f := fun found => match found with
        | some a => pure a
        | none => addArc arc) (run_ask_of_ok (f := (·.findArc arc)) hf)
      cases found with
      | some a =>
          rw [Net.addArcOnce, hf]
          exact realises_of_ok hrun
      | none =>
          have hadd : (net.addArcOnce arc).map Prod.swap
              = (net.addArc arc).map (net.arcs.next, ·) := by
            rw [Net.addArcOnce, hf]
            cases net.addArc arc <;> rfl
          rw [hadd]
          exact (addArc_realises net arc).of_run_eq hrun

/-- Moving an end of an arc of the net. -/
theorem repoint_realises (h : net.WellFormed) {a : ArcId} {arc : Arc}
    (ha : net.arcs.get? a = some arc) (moved : Arc → Arc) :
    (repoint a moved).Realises net ((net.repoint a arc (moved arc)).map ((), ·)) := by
  have hrun : (repoint a moved).run net = (do
      ask (·.checkArc (moved arc))
      delist a arc
      modify fun net => { net with arcs := net.arcs.set a (moved arc) }
      enlist a (moved arc) : Edit Unit).run net := by
    rw [repoint, run_bind_of_ok (EStateM.run_get _), ha]
  refine Realises.of_run_eq ?_ hrun
  cases hc : net.checkArc (moved arc) with
  | error e =>
      rw [Net.repoint, hc]
      exact realises_of_error (run_bind_of_error (run_ask_of_error hc))
  | ok u =>
      obtain ⟨hs, ht, -⟩ := Net.checkArc_eq_ok hc
      have hold := Arena.mem_of_get? ha
      have hsource := h.source arc hold
      have htarget := h.target arc hold
      have hpure : net.repoint a arc (moved arc) = .ok ({ net.delist a arc with
          arcs := (net.delist a arc).arcs.set a (moved arc) }.enlist a (moved arc)) := by
        rw [Net.repoint, hc, hsource, htarget]
        rfl
      rw [hpure]
      refine realises_of_ok ?_
      rw [run_bind_of_ok (run_ask_of_ok hc), run_bind_of_ok (run_delist hsource htarget),
        run_bind_of_ok (EStateM.run_modify _ _), run_enlist]
      · exact (net.contains_delist a arc _).trans hs
      · exact (net.contains_delist a arc _).trans ht

theorem repoint_realises_of_none {a : ArcId} (ha : net.arcs.get? a = none) (moved : Arc → Arc) :
    (repoint a moved).Realises net (.error (.unknownArc a)) := by
  refine realises_of_error ?_
  rw [repoint, run_bind_of_ok (EStateM.run_get _), ha]
  rfl

end Edit

/-! ## Counting markers in place -/

/-- The marking with the count of a place changed. -/
def Marking.change (m : Marking) (p : PlaceId) (f : Nat → Except Failure Nat) :
    Except Failure Marking := do
  let tokens ← m.require p
  return m.set p (← f tokens)

theorem Marking.change_more (m : Marking) (p : PlaceId) : m.change p Edit.more = m.put p := by
  unfold change put Edit.more
  refine bind_congr fun n => ?_
  split <;> rfl

theorem Marking.change_of_contains {p : PlaceId} (hp : m.contains p = true)
    (f : Nat → Except Failure Nat) :
    m.change p f = (f (m.tokens p)).map (m.set p) := by
  rw [change, require_eq_ok_iff.mpr ⟨hp, rfl⟩, ok_bind]
  rfl

/-- Writing a count into a place changes the marking of the net there. -/
theorem Net.setMarkers_withMarking (net : Net) (m : Marking) (p : PlaceId) (n : Nat) :
    (net.withMarking m).setMarkers p n = net.withMarking (m.set p n) := by
  obtain ⟨id, ⟨ps⟩, ts, as, pn, tn⟩ := net
  obtain ⟨xs⟩ := m
  simp only [setMarkers, withMarking, Arena.set, Arena.modify, mk.injEq, Arena.mk.injEq, and_self,
    and_true, true_and]
  refine Array.ext (by simp) fun i hi hi' => ?_
  simp only [Array.getElem_modify, Array.getElem_zipWith]
  split <;> rfl

namespace Marking

theorem change_append (done : List Nat) (n : Nat) (rest : List Nat) (f : Nat → Except Failure Nat) :
    change (.ofList (done ++ n :: rest)) ⟨done.length⟩ f
      = (f n).map fun k => .ofList (done ++ k :: rest) := by
  have hin : Arena.contains (.ofList (done ++ n :: rest) : Marking) ⟨done.length⟩ = true := by
    rw [Arena.contains_iff]
    simp [Arena.ofList, Arena.size, Index.position]
  have htokens : tokens (.ofList (done ++ n :: rest)) ⟨done.length⟩ = n := by
    simp [tokens, Arena.get?, Arena.ofList, Index.position]
  have hset (k : Nat) : Arena.set (.ofList (done ++ n :: rest) : Marking) ⟨done.length⟩ k
      = .ofList (done ++ k :: rest) := by
    simp only [Arena.set, Arena.modify, Arena.ofList, Arena.mk.injEq, Index.position,
      List.modify_toArray]
    rw [List.modify_eq_take_cons_drop (by simp)]
    simp
  rw [change_of_contains hin, htokens]
  exact congrArg (fun g => (f n).map g) (funext hset)

/-- The counts from a position on, changed place by place. -/
theorem foldlM_change_append (f : PlaceId → Nat → Except Failure Nat) (done rest : List Nat) :
    ((List.range' done.length rest.length).map Index.ofPosition).foldlM
        (fun m p => change m p (f p)) (.ofList (done ++ rest))
      = ((rest.zipIdx done.length).mapM fun x => f (Index.ofPosition x.2) x.1).map
          fun ks => .ofList (done ++ ks) := by
  induction rest generalizing done with
  | nil => simp [pure, Except.pure, Except.map]
  | cons n rest ih =>
      rw [List.length_cons, List.range'_succ, List.map_cons, List.foldlM_cons]
      have hchange : change (.ofList (done ++ n :: rest)) (Index.ofPosition done.length)
          (f (Index.ofPosition done.length)) = _ := change_append done n rest _
      have hrest (k : Nat) := ih (done ++ [k])
      simp only [List.length_append, List.length_singleton, List.append_assoc,
        List.singleton_append] at hrest
      rw [hchange, List.zipIdx_cons, List.mapM_cons]
      cases f (Index.ofPosition done.length) n with
      | error e => rfl
      | ok k =>
          show List.foldlM _ _ _ = _
          rw [hrest k, ok_bind]
          cases List.mapM (fun x => f (Index.ofPosition x.2) x.1) (rest.zipIdx (done.length + 1))
            <;> rfl

/-- Changing the counts place by place changes all of them. -/
theorem foldlM_change_indices (f : PlaceId → Nat → Except Failure Nat) (m : Marking) :
    m.indices.foldlM (fun m p => change m p (f p)) m
      = (m.toPairs.mapM fun (p, n) => f p n).map .ofList := by
  have hall := foldlM_change_append f [] m.toList
  have hm : Arena.ofList ([] ++ m.toList) = m := rfl
  rw [hm] at hall
  rw [Arena.indices, List.range_eq_range', Arena.toPairs, List.mapM_map]
  exact hall

end Marking

namespace Edit

/-- The edit changes the markers as the computation does. Where it fails a count overflows, and other
markers may have been changed before. -/
structure Recounts (x : Edit Unit) (net : Net) (m : Marking) (r : Except Failure Marking) :
    Prop where
  ok : ∀ m', r = .ok m' →
    m'.size = net.places.size ∧ x.run (net.withMarking m) = .ok () (net.withMarking m')
  error : ∀ e, r = .error e → e = .overflow ∧
    ∃ m', m'.size = net.places.size ∧ x.run (net.withMarking m) = .error e (net.withMarking m')

theorem Recounts.bind {x y : Edit Unit} {r : Except Failure Marking}
    {f : Marking → Except Failure Marking} (hx : x.Recounts net m r)
    (hy : ∀ m', m'.size = net.places.size → y.Recounts net m' (f m')) :
    (do x; y : Edit Unit).Recounts net m (r >>= f) := by
  cases r with
  | error e =>
      obtain ⟨he, m', hm', hrun⟩ := hx.error e rfl
      refine ⟨fun m'' h => (by cases h), fun e' h => ?_⟩
      obtain rfl := Except.error.inj h
      exact ⟨he, m', hm', run_bind_of_error hrun⟩
  | ok m₁ =>
      obtain ⟨hm₁, hrun⟩ := hx.ok m₁ rfl
      have hnext := hy m₁ hm₁
      refine ⟨fun m'' h => ?_, fun e h => ?_⟩
      · obtain ⟨hm', hlast⟩ := hnext.ok m'' h
        exact ⟨hm', (run_bind_of_ok hrun).trans hlast⟩
      · obtain ⟨he, m', hm', hlast⟩ := hnext.error e h
        exact ⟨he, m', hm', (run_bind_of_ok hrun).trans hlast⟩

/-- One place of the net. -/
theorem changeMarkers_recounts (hm : m.size = net.places.size) {p : PlaceId}
    (hp : net.contains p.node = true) {f : Nat → Except Failure Nat}
    (hf : ∀ n e, f n = .error e → e = .overflow) :
    (changeMarkers p f).Recounts net m (m.change p f) := by
  obtain ⟨x, hx⟩ : ∃ x, net.places.get? p = some x := Arena.contains_iff_exists.mp hp
  have hin : m.contains p = true := by
    rw [Arena.contains_iff, hm]
    exact Arena.contains_iff.mp hp
  have hplace : (net.withMarking m).places.require p = .ok { x with markers := m.tokens p } := by
    rw [Arena.require_eq_ok_iff, Net.get?_withMarking hm, hx]
    rfl
  rw [Marking.change_of_contains hin]
  cases hfn : f (m.tokens p) with
  | error e =>
      refine ⟨fun m' h => (by cases h), fun e' h => ?_⟩
      obtain rfl := Except.error.inj h
      refine ⟨hf _ _ hfn, m, hm, ?_⟩
      rw [changeMarkers, run_bind_of_ok (run_ask_of_ok hplace)]
      exact run_bind_of_error (run_ask_of_error hfn)
  | ok n =>
      refine ⟨fun m' h => ?_, fun e h => by cases h⟩
      obtain rfl := Except.ok.inj h
      refine ⟨(Arena.size_modify _ _ _).trans hm, ?_⟩
      rw [changeMarkers, run_bind_of_ok (run_ask_of_ok hplace), run_bind_of_ok (run_ask_of_ok hfn),
        EStateM.run_modify, Net.setMarkers_withMarking]

/-- A row of places of the net, one after the other. -/
theorem forM_recounts (hm : m.size = net.places.size) {ps : List PlaceId}
    (hps : ∀ p ∈ ps, net.contains p.node = true) {f : PlaceId → Nat → Except Failure Nat}
    (hf : ∀ p n e, f p n = .error e → e = .overflow) :
    (forM ps fun p => changeMarkers p (f p)).Recounts net m
      (ps.foldlM (fun m p => m.change p (f p)) m) := by
  induction ps generalizing m with
  | nil =>
      refine ⟨fun m' h => ?_, fun e h => by cases h⟩
      obtain rfl := Except.ok.inj h
      exact ⟨hm, rfl⟩
  | cons p ps ih =>
      obtain ⟨hp, hps⟩ := List.forall_mem_cons.mp hps
      rw [List.forM_cons, List.foldlM_cons]
      exact (changeMarkers_recounts hm hp (hf p)).bind fun m' hm' => ih hm' hps

/-- What changes the markers of the net, followed by a result. -/
theorem Recounts.realises {x : Edit Unit} {r : Except Failure Marking}
    (h : x.Recounts net net.marking r) (a : α) :
    (do x; return a : Edit α).Realises net (r.map fun m => (a, net.withMarking m)) := by
  have hstart := net.withMarking_marking
  cases r with
  | error e =>
      obtain ⟨he, m, hm, hrun⟩ := h.error e rfl
      rw [hstart] at hrun
      refine ⟨fun b net' heq => (by cases heq), fun e' heq => ?_⟩
      obtain rfl := Except.error.inj heq
      exact ⟨_, run_bind_of_error hrun, Or.inr ⟨he, m, hm, rfl⟩⟩
  | ok m =>
      obtain ⟨-, hrun⟩ := h.ok m rfl
      rw [hstart] at hrun
      exact realises_of_ok (run_bind_of_ok hrun)

theorem takes_recounts (hm : m.size = net.places.size) {ps : List PlaceId}
    (hps : ∀ p ∈ ps, net.contains p.node = true) :
    (forM ps (changeMarkers · fewer)).Recounts net m (ps.foldlM Marking.take m) :=
  forM_recounts hm hps fun p n e h => by cases h

theorem puts_recounts (hm : m.size = net.places.size) {ps : List PlaceId}
    (hps : ∀ p ∈ ps, net.contains p.node = true) :
    (forM ps (changeMarkers · more)).Recounts net m (ps.foldlM Marking.put m) := by
  have hputs := forM_recounts hm hps (f := fun _ => more) fun p n e h => by
    unfold more at h
    split at h
    · cases h
    · exact (Except.error.inj h).symm
  simpa only [Marking.change_more] using hputs

theorem fireTransition_realises (h : net.WellFormed) (t : TransitionId) :
    (fireTransition t).Realises net ((net.fireTransition t).map ((), ·)) := by
  cases hen : net.isEnabledAt net.marking t with
  | error e =>
      rw [Net.fireTransition, Net.fireAt, hen]
      exact realises_of_error (run_bind_of_error (run_ask_of_error hen))
  | ok b =>
      cases b with
      | false =>
          rw [Net.fireTransition, Net.fireAt, hen]
          refine realises_of_error ?_
          rw [fireTransition, run_bind_of_ok (run_ask_of_ok hen)]
          rfl
      | true =>
          have ht := Net.contains_of_isEnabledAt hen
          obtain ⟨ps, hps, hcount⟩ := h.preset ht
          obtain ⟨qs, hqs, hcount'⟩ := h.postset ht
          have htakes : ∀ p ∈ ps, net.contains p.node = true := fun p hp =>
            h.source _ (Net.arcCount_pos_iff.mp (hcount p ▸ List.count_pos_iff.mpr hp))
          have hputs : ∀ p ∈ qs, net.contains p.node = true := fun p hp =>
            h.target _ (Net.arcCount_pos_iff.mp (hcount' p ▸ List.count_pos_iff.mpr hp))
          have hmoves := (takes_recounts net.size_marking htakes).bind fun m' hm' =>
            puts_recounts hm' hputs
          have hpure : (net.fireTransition t).map ((), ·) = (ps.foldlM Marking.take net.marking
              >>= fun m => qs.foldlM Marking.put m).map fun m => ((), net.withMarking m) := by
            rw [Net.fireTransition, Net.fireAt, hen, ok_bind, if_pos rfl, hps, ok_bind, hqs, ok_bind]
            cases ps.foldlM Marking.take net.marking >>= fun m => qs.foldlM Marking.put m <;> rfl
          rw [hpure]
          refine (hmoves.realises ()).of_run_eq ?_
          rw [fireTransition, run_bind_of_ok (run_ask_of_ok hen), if_pos rfl,
            run_bind_of_ok (run_ask_of_ok hps), run_bind_of_ok (run_ask_of_ok hqs), bind_pure_unit]

theorem fire_realises (net : Net) : fire.Realises net (net.fireAll.map Prod.swap) := by
  cases hfired : net.enabled with
  | error e =>
      have hpure : net.fireAll = .error e := by
        rw [Net.fireAll, Net.fireAllAt, ← Net.enabled, hfired]
        rfl
      rw [hpure]
      exact realises_of_error (run_bind_of_error (run_ask_of_error hfired))
  | ok fired =>
      cases hchange : net.batchChange fired with
      | error e =>
          have hpure : net.fireAll = .error e := by
            rw [Net.fireAll, Net.fireAllAt, ← Net.enabled, hfired, ok_bind, hchange]
            rfl
          rw [hpure]
          refine realises_of_error ?_
          rw [fire, run_bind_of_ok (run_ask_of_ok hfired)]
          exact run_bind_of_error (run_ask_of_error hchange)
      | ok change =>
          have hplaces : ∀ p ∈ net.places.indices, net.contains p.node = true := fun p hp =>
            Arena.mem_indices_iff.mp hp
          have hcounts := forM_recounts net.size_marking hplaces
            (f := fun p n => Net.changedCount n (change p)) fun p n e h => by
              unfold Net.changedCount at h
              dsimp only at h
              split at h
              · cases h
              · exact (Except.error.inj h).symm
          have hindices : net.places.indices = net.marking.indices := by
            rw [Arena.indices, Arena.indices, net.size_marking]
          have hpure : net.fireAll.map Prod.swap = (net.places.indices.foldlM
              (fun (m : Marking) p => m.change p (Net.changedCount · (change p))) net.marking).map
                fun m => (fired, net.withMarking m) := by
            rw [hindices, Marking.foldlM_change_indices, Net.fireAll, Net.fireAllAt, ← Net.enabled,
              hfired, ok_bind, hchange, ok_bind]
            generalize (net.marking.toPairs.mapM _ : Except Failure (List Nat)) = counts
            cases counts <;> rfl
          rw [hpure]
          refine (hcounts.realises fired).of_run_eq ?_
          rw [fire, run_bind_of_ok (run_ask_of_ok hfired), run_bind_of_ok (run_ask_of_ok hchange),
            run_bind_of_ok (EStateM.run_get _)]

end Edit

/-! ## Sessions -/

/-- A call that edits or runs a net. -/
inductive Call where
  | addPlace (p : Place)
  | addTransition (t : Transition)
  | addArc (arc : Arc)
  | addArcOnce (arc : Arc)
  | setSource (a : ArcId) (source : Node)
  | setTarget (a : ArcId) (target : Node)
  | fireTransition (t : TransitionId)
  | fire

namespace Call

/-- What the call writes into the net. -/
def edit : Call → Edit Unit
  | addPlace p => modify (·.addPlace p)
  | addTransition t => modify (·.addTransition t)
  | addArc arc => do _ ← Edit.addArc arc
  | addArcOnce arc => do _ ← Edit.addArcOnce arc
  | setSource a source => Edit.repoint a ({ · with source })
  | setTarget a target => Edit.repoint a ({ · with target })
  | fireTransition t => Edit.fireTransition t
  | fire => do _ ← Edit.fire

/-- The net that the call makes of a net. -/
def run (net : Net) : Call → Except Failure Net
  | addPlace p => .ok (net.addPlace p)
  | addTransition t => .ok (net.addTransition t)
  | addArc arc => net.addArc arc
  | addArcOnce arc => (net.addArcOnce arc).map Prod.fst
  | setSource a source => net.setSource a source
  | setTarget a target => net.setTarget a target
  | fireTransition t => net.fireTransition t
  | fire => net.fireAll.map Prod.fst

end Call

/-- The net after a call, also after one that fails. -/
def Net.after (net : Net) (call : Call) : Net :=
  match call.edit.run net with
  | .ok _ net' => net'
  | .error _ net' => net'

/-- The net after several calls. -/
def Net.session (net : Net) (calls : List Call) : Net := calls.foldl Net.after net

/-- An edit whose result is not looked at. -/
theorem Edit.Realises.forget {x : Edit α} {r : Except Failure (α × Net)} (h : x.Realises net r) :
    (do _ ← x : Edit Unit).Realises net (r.map fun (_, net') => ((), net')) := by
  cases r with
  | error e =>
      obtain ⟨net', hrun, hkept⟩ := h.error e rfl
      refine ⟨fun b net' heq => (by cases heq), fun e' heq => ?_⟩
      obtain rfl := Except.error.inj heq
      exact ⟨net', run_bind_of_error hrun, hkept⟩
  | ok y => exact realises_of_ok (run_bind_of_ok (h.ok y.1 y.2 rfl))

/-- **A call does to a well-formed net what the function on nets says**, and where it fails it leaves
the net as it was, unless a count overflows. -/
theorem Call.realises (h : net.WellFormed) (call : Call) :
    call.edit.Realises net ((call.run net).map ((), ·)) := by
  cases call with
  | addPlace p => exact Edit.realises_of_ok (EStateM.run_modify _ _)
  | addTransition t => exact Edit.realises_of_ok (EStateM.run_modify _ _)
  | addArc arc =>
      have hadd := (Edit.addArc_realises net arc).forget
      show Edit.Realises _ net ((net.addArc arc).map _)
      cases hr : net.addArc arc <;> rwa [hr] at hadd
  | addArcOnce arc =>
      have hadd := (Edit.addArcOnce_realises net arc).forget
      show Edit.Realises _ net (((net.addArcOnce arc).map Prod.fst).map _)
      cases hr : net.addArcOnce arc <;> rwa [hr] at hadd
  | setSource a source =>
      show Edit.Realises _ net ((net.setSource a source).map _)
      rw [Net.setSource]
      cases ha : net.arcs.get? a with
      | none => exact Edit.repoint_realises_of_none ha _
      | some arc => exact Edit.repoint_realises h ha _
  | setTarget a target =>
      show Edit.Realises _ net ((net.setTarget a target).map _)
      rw [Net.setTarget]
      cases ha : net.arcs.get? a with
      | none => exact Edit.repoint_realises_of_none ha _
      | some arc => exact Edit.repoint_realises h ha _
  | fireTransition t => exact Edit.fireTransition_realises h t
  | fire =>
      have hfire := (Edit.fire_realises net).forget
      show Edit.Realises _ net ((net.fireAll.map Prod.fst).map _)
      cases hr : net.fireAll <;> rwa [hr] at hfire

namespace Net

/-- Other markers leave the arcs and their lists as they are. -/
theorem WellFormed.withMarking (h : net.WellFormed) (hm : m.size = net.places.size) :
    (net.withMarking m).WellFormed :=
  h.of_lists rfl (outgoing?_withMarking hm) (incoming?_withMarking hm)

theorem size_fireAllAt {fired : List TransitionId} (h : net.fireAllAt m = .ok (m', fired)) :
    m'.size = m.size := by
  obtain ⟨fired', -, h⟩ := bind_eq_ok_iff.mp h
  obtain ⟨change, -, h⟩ := bind_eq_ok_iff.mp h
  obtain ⟨counts, hcounts, h⟩ := bind_eq_ok_iff.mp h
  obtain ⟨rfl, -⟩ := Prod.mk.inj (Except.ok.inj h)
  have hlen := length_of_mapM_eq_ok hcounts
  simpa [Arena.size, Arena.ofList, Arena.toPairs, Arena.toList] using hlen

theorem WellFormed.run (h : net.WellFormed) {call : Call} (hr : call.run net = .ok net') :
    net'.WellFormed := by
  cases call with
  | addPlace p =>
      obtain rfl := Except.ok.inj hr
      exact h.addPlace p
  | addTransition t =>
      obtain rfl := Except.ok.inj hr
      exact h.addTransition t
  | addArc arc => exact h.addArc hr
  | addArcOnce arc =>
      obtain ⟨⟨net'', a⟩, hadd, rfl⟩ := map_eq_ok_iff.mp hr
      exact h.addArcOnce hadd
  | setSource a source => exact h.setSource hr
  | setTarget a target => exact h.setTarget hr
  | fireTransition t =>
      obtain ⟨m', hm', rfl⟩ := fireTransition_eq_ok_iff.mp hr
      exact h.withMarking ((size_fireAt hm').trans net.size_marking)
  | fire =>
      obtain ⟨⟨net'', fired⟩, hfire, rfl⟩ := map_eq_ok_iff.mp hr
      obtain ⟨⟨m', fired'⟩, hm', hfire⟩ := bind_eq_ok_iff.mp hfire
      obtain ⟨rfl, rfl⟩ := Prod.mk.inj (Except.ok.inj hfire)
      exact h.withMarking ((size_fireAllAt hm').trans net.size_marking)

/-- **A call keeps a net well formed, also where it fails.** -/
theorem WellFormed.after (h : net.WellFormed) (call : Call) : (net.after call).WellFormed := by
  have hcall := call.realises h
  unfold Net.after
  cases hr : call.run net with
  | ok net' =>
      rw [hr] at hcall
      rw [hcall.ok () net' rfl]
      exact h.run hr
  | error e =>
      rw [hr] at hcall
      obtain ⟨net', hrun, hkept⟩ := hcall.error e rfl
      rw [hrun]
      rcases hkept with rfl | ⟨-, m, hm, rfl⟩
      · exact h
      · exact h.withMarking hm

theorem WellFormed.session (h : net.WellFormed) (calls : List Call) :
    (net.session calls).WellFormed := by
  induction calls generalizing net with
  | nil => exact h
  | cons call calls ih => exact ih (h.after call)

/-! ## What well-formed nets promise -/

/-- Every arc joins a place and a transition of the net, and is once on the lists of its two ends and
on no other list of its kind; only arcs are listed; and the arc between two nodes is found if there
is one. -/
structure Registered (net : Net) : Prop where
  ends : ∀ a arc, net.arcs.get? a = some arc → ∃ (p : PlaceId) (t : TransitionId),
    net.contains p.node = true ∧ net.contains t.node = true ∧
      (arc = ⟨p.node, t.node⟩ ∨ arc = ⟨t.node, p.node⟩)
  outgoing : ∀ a arc, net.arcs.get? a = some arc → ∀ n as, net.outgoing? n = some as →
    as.count a = if n = arc.source then 1 else 0
  incoming : ∀ a arc, net.arcs.get? a = some arc → ∀ n as, net.incoming? n = some as →
    as.count a = if n = arc.target then 1 else 0
  existing : ∀ n as, net.outgoing? n = some as ∨ net.incoming? n = some as →
    ∀ a ∈ as, net.arcs.contains a = true
  found : ∀ arc, ∃ found, net.findArc arc = .ok found ∧
    (found.isSome = true ↔ arc ∈ net.arcs.toList) ∧
    ∀ a, found = some a → net.arcs.get? a = some arc

end Net

theorem Lists.count_eq {arcs : Arena ArcId Arc} {tip : Arc → Node}
    {view : Node → Option (List ArcId)} (h : Lists arcs tip view) {a : ArcId} {arc : Arc}
    (ha : arcs.get? a = some arc) {n : Node} {as : List ArcId} (has : view n = some as) :
    as.count a = if n = tip arc then 1 else 0 := by
  obtain ⟨hnodup, hmem⟩ := h n as has
  split
  · rename_i hn
    exact List.count_eq_one_of_mem hnodup ((hmem a).mpr ⟨arc, ha, hn.symm⟩)
  · rename_i hn
    refine List.count_eq_zero.mpr fun hin => ?_
    obtain ⟨arc', ha', htip⟩ := (hmem a).mp hin
    obtain rfl := Option.some_inj.mp (ha.symm.trans ha')
    exact hn htip.symm

theorem Net.WellFormed.registered (h : net.WellFormed) : net.Registered := by
  constructor
  case ends =>
    intro a arc ha
    have harc := Arena.mem_of_get? ha
    have hs := h.source arc harc
    have ht := h.target arc harc
    rcases h.exists_ends harc with ⟨p, t, rfl⟩ | ⟨t, p, rfl⟩
    · exact ⟨p, t, hs, ht, Or.inl rfl⟩
    · exact ⟨p, t, ht, hs, Or.inr rfl⟩
  case outgoing => exact fun a arc ha n as has => h.outgoing.count_eq ha has
  case incoming => exact fun a arc ha n as has => h.incoming.count_eq ha has
  case existing =>
    rintro n as (has | has) a ha
    · obtain ⟨arc, harc, -⟩ := ((h.outgoing n as has).2 a).mp ha
      exact Arena.contains_of_get? harc
    · obtain ⟨arc, harc, -⟩ := ((h.incoming n as has).2 a).mp ha
      exact Arena.contains_of_get? harc
  case found => exact h.findArc

/-- **After any calls, failed ones among them, the arcs of a net are on the right lists, and a call
that fails changes nothing.** -/
theorem registered_session (id : String) (calls : List Call) :
    let net := (Net.empty id).session calls
    net.Registered ∧
    (∀ (call : Call) (net' : Net), call.run net = .ok net' → call.edit.run net = .ok () net') ∧
    ∀ (call : Call) (e : Failure) (net' : Net), call.edit.run net = .error e net' →
      e ≠ .overflow → net' = net := by
  intro net
  have hwf : net.WellFormed := (Net.WellFormed.empty id).session calls
  refine ⟨hwf.registered, fun call net' hr => ?_, fun call e net' hrun hne => ?_⟩
  · have hcall := call.realises hwf
    rw [hr] at hcall
    exact hcall.ok () net' rfl
  · have hcall := call.realises hwf
    cases hr : call.run net with
    | ok net'' =>
        rw [hr] at hcall
        rw [hcall.ok () net'' rfl] at hrun
        cases hrun
    | error e' =>
        rw [hr] at hcall
        obtain ⟨net'', hrun', hkept⟩ := hcall.error e' rfl
        obtain ⟨rfl, rfl⟩ := EStateM.Result.error.inj (hrun.symm.trans hrun')
        exact hkept.resolve_right fun hover => hne hover.1

/-- Parallel arcs, a copy of a place with its list of arcs, an arc that moves to the copy, an arc
between two places and a transition that fires although another one cannot. -/
def rearranging : List Call :=
  [.addPlace (.plain "p" 1), .addTransition (.bare "t" none), .addArc ⟨⟨.place, 0⟩, ⟨.transition, 0⟩⟩,
    .addArc ⟨⟨.place, 0⟩, ⟨.transition, 0⟩⟩,
    .addPlace { Place.plain "p" 1 with outgoing := [⟨0⟩, ⟨1⟩] },
    .setSource ⟨0⟩ ⟨.place, 1⟩, .addArc ⟨⟨.place, 0⟩, ⟨.place, 1⟩⟩, .setTarget ⟨7⟩ ⟨.place, 1⟩,
    .addArcOnce ⟨⟨.transition, 0⟩, ⟨.place, 0⟩⟩, .fireTransition ⟨0⟩, .fireTransition ⟨0⟩]

/-- The transition cannot fire a second time, and the attempt leaves the net as it was. -/
theorem registered_session_rearranging :
    let net := (Net.empty "net").session rearranging
    net.Registered ∧ net.outgoing? ⟨.place, 0⟩ = some [⟨1⟩] ∧ net.outgoing? ⟨.place, 1⟩ = some [⟨0⟩] ∧
    (Call.fireTransition ⟨0⟩).edit.run net = .error (.notEnabled ⟨0⟩) net := by
  intro net
  obtain ⟨hregistered, -, hfailed⟩ := registered_session "net" rearranging
  have hout : net.outgoing? ⟨.place, 0⟩ = some [⟨1⟩] := by decide +kernel
  have hout' : net.outgoing? ⟨.place, 1⟩ = some [⟨0⟩] := by decide +kernel
  have hfails : (match (Call.fireTransition ⟨0⟩).edit.run net with
      | .ok _ _ => none
      | .error e _ => some e) = some (.notEnabled ⟨0⟩) := by decide +kernel
  cases hrun : (Call.fireTransition ⟨0⟩).edit.run net with
  | ok u net' =>
      rw [hrun] at hfails
      cases hfails
  | error e net' =>
      rw [hrun] at hfails
      obtain rfl := Option.some_inj.mp hfails
      have hkept := hfailed (.fireTransition ⟨0⟩) _ net' hrun (by decide)
      exact ⟨hregistered, hout, hout', by rw [hkept]⟩

end RoutePolicy
