import Mathlib.Logic.Equiv.Basic
import RoutePolicy.Proofs.Net.Renumbering
import RoutePolicy.Proofs.Route.Declared

set_option autoImplicit false

/-! # Routes listed in another order

A route is relisted when branches, endpoints and outputs are put in another order at any of its
stages (`Route.Relisted`). If all stages have identifiers of their own, every stage is translated
(`Route.stages_eq_allStages`), so the stages of the relisted route are the same ones, relisted each
and in another order (`Route.Relisted.stages`). If all endpoints are processing steps, what a
transition reads does not depend on when the pass takes it (`RouteNet.Spreads.mem_read_iff`), and the
net of the relisted route is a renumbered net (`Route.Relisted.exists_renumbers`). -/

namespace RoutePolicy

/-! ## Lists in another order -/

/-- The permutation that keeps the first number and permutes those after it. -/
def shiftPerm (σ : Equiv.Perm ℕ) : Equiv.Perm ℕ where
  toFun
    | 0 => 0
    | i + 1 => σ i + 1
  invFun
    | 0 => 0
    | i + 1 => σ.symm i + 1
  left_inv i := by cases i <;> simp
  right_inv i := by cases i <;> simp

/-- In a list in another order each element has a new position, and the numbers beyond the list can
be kept. -/
theorem exists_perm_getElem? {α : Type} {l l' : List α} (h : l.Perm l') :
    ∃ σ : Equiv.Perm ℕ, (∀ i, l'[σ i]? = l[i]?) ∧ ∀ i, l.length ≤ i → σ i = i := by
  induction h with
  | nil => exact ⟨.refl ℕ, fun _ => rfl, fun _ _ => rfl⟩
  | cons x _ ih =>
      obtain ⟨σ, hσ, hbeyond⟩ := ih
      refine ⟨shiftPerm σ, fun i => ?_, fun i hi => ?_⟩
      · cases i with
        | zero => rfl
        | succ i => exact hσ i
      · cases i with
        | zero => exact absurd hi (Nat.not_succ_le_zero _)
        | succ i => exact congrArg (· + 1) (hbeyond i (Nat.le_of_succ_le_succ hi))
  | swap x y l =>
      refine ⟨Equiv.swap 0 1, fun i => ?_, fun i hi => ?_⟩
      · match i with
        | 0 => rw [Equiv.swap_apply_left]; rfl
        | 1 => rw [Equiv.swap_apply_right]; rfl
        | i + 2 =>
            rw [Equiv.swap_apply_of_ne_of_ne (by omega) (by omega)]
            rfl
      · have htwo : 2 ≤ i := Nat.le_trans (Nat.le_add_left 2 l.length) hi
        exact Equiv.swap_apply_of_ne_of_ne (by omega) (by omega)
  | trans h _ ih ih' =>
      obtain ⟨σ, hσ, hbeyond⟩ := ih
      obtain ⟨τ, hτ, hbeyond'⟩ := ih'
      refine ⟨σ.trans τ, fun i => (hτ _).trans (hσ i), fun i hi => ?_⟩
      rw [Equiv.trans_apply, hbeyond i hi]
      exact hbeyond' i (h.length_eq ▸ hi)

theorem rel_getElem? {α : Type} {R : α → α → Prop} {l l' : List α} (h : List.Forall₂ R l l')
    (i : ℕ) : Option.Rel R l[i]? l'[i]? := by
  induction h generalizing i with
  | nil => exact .none
  | cons hx _ ih =>
      cases i with
      | zero => exact .some hx
      | succ i => exact ih i

theorem exists_of_rel {α : Type} {R : α → α → Prop} {x y : Option α} {a : α} (h : Option.Rel R x y)
    (hx : x = some a) : ∃ b, y = some b ∧ R a b := by
  subst hx
  cases h with
  | some hab => exact ⟨_, rfl, hab⟩

/-! ## Relisted stages -/

/-- The stage with its endpoints and its outputs in another order. -/
structure Stage.Relisted (s s' : Stage) : Prop where
  id : s'.id = s.id
  starts : s.starts.Perm s'.starts
  ends : s.ends.Perm s'.ends
  outputs : s.outputs.Perm s'.outputs

theorem Stage.Relisted.symm {s s' : Stage} (h : s.Relisted s') : s'.Relisted s :=
  ⟨h.id.symm, h.starts.symm, h.ends.symm, h.outputs.symm⟩

theorem Stage.Relisted.mem_endpoints {s s' : Stage} (h : s.Relisted s') {e : Endpoint} :
    e ∈ s'.endpoints ↔ e ∈ s.endpoints := (h.starts.append h.ends).symm.mem_iff

/-- The second list has the stages of the first one, relisted each and in another order. -/
def RelistedStages (stages stages' : List Stage) : Prop :=
  ∃ each, List.Forall₂ Stage.Relisted stages each ∧ each.Perm stages'

theorem RelistedStages.append {stages stages' others others' : List Stage}
    (h : RelistedStages stages stages') (hothers : RelistedStages others others') :
    RelistedStages (stages ++ others) (stages' ++ others') := by
  obtain ⟨each, hstages, hperm⟩ := h
  obtain ⟨each', hothers, hperm'⟩ := hothers
  exact ⟨each ++ each', List.rel_append hstages hothers, hperm.append hperm'⟩

theorem RelistedStages.symm {stages stages' : List Stage} (h : RelistedStages stages stages') :
    RelistedStages stages' stages := by
  obtain ⟨each, hstages, hperm⟩ := h
  exact List.perm_comp_forall₂ hperm.symm (hstages.imp fun _ _ hs => hs.symm).flip

theorem RelistedStages.perm_ids {stages stages' : List Stage} (h : RelistedStages stages stages') :
    (stages.map (·.id)).Perm (stages'.map (·.id)) := by
  obtain ⟨each, hstages, hperm⟩ := h
  have hids : stages.map (·.id) = each.map (·.id) := by
    rw [← List.forall₂_eq_eq_eq, List.forall₂_map_left_iff, List.forall₂_map_right_iff]
    exact hstages.imp fun _ _ hs => hs.id.symm
  rw [hids]
  exact hperm.map _

theorem RelistedStages.exists_mem {stages stages' : List Stage} (h : RelistedStages stages stages')
    {s : Stage} (hs : s ∈ stages) : ∃ s' ∈ stages', s.Relisted s' := by
  obtain ⟨each, hstages, hperm⟩ := h
  obtain ⟨i, hi⟩ := List.mem_iff_getElem?.mp hs
  obtain ⟨s', hs', hrel⟩ := exists_of_rel (rel_getElem? hstages i) hi
  exact ⟨s', hperm.subset (List.mem_of_getElem? hs'), hrel⟩

/-- All endpoints of the stages are processing steps. -/
def OnlyProcesses (stages : List Stage) : Prop := ∀ s ∈ stages, ∀ e ∈ s.endpoints, e.role = .app

instance (stages : List Stage) : Decidable (OnlyProcesses stages) :=
  inferInstanceAs (Decidable (∀ s ∈ stages, ∀ e ∈ s.endpoints, e.role = .app))

/-! ## Relisted trees -/

namespace Route

mutual

/-- The tree with the lists at any of its stages in another order. -/
inductive Relisted : Route → Route → Prop
  | node {stage stage' : Stage} {branches each branches' : List Route} : stage.Relisted stage' →
      RelistedEach branches each → each.Perm branches' →
      Relisted (.node stage branches) (.node stage' branches')

/-- The trees one by one, with the lists at any of their stages in another order. -/
inductive RelistedEach : List Route → List Route → Prop
  | nil : RelistedEach [] []
  | cons {route route' : Route} {routes routes' : List Route} : Relisted route route' →
      RelistedEach routes routes' → RelistedEach (route :: routes) (route' :: routes')

end

mutual

/-- The stages of a tree, each before what lies below it. -/
def allStages : Route → List Stage
  | .node stage branches => stage :: allStagesIn branches

def allStagesIn : List Route → List Stage
  | [] => []
  | route :: routes => allStages route ++ allStagesIn routes

end

theorem allStagesIn_eq (routes : List Route) : allStagesIn routes = routes.flatMap allStages := by
  induction routes with
  | nil => rfl
  | cons route routes ih => rw [allStagesIn, List.flatMap_cons, ih]

/-- The identifiers of the stages of a tree are all different. -/
def HasDistinctIds (route : Route) : Prop := (route.allStages.map (·.id)).Nodup

instance (route : Route) : Decidable route.HasDistinctIds :=
  inferInstanceAs (Decidable (List.Nodup _))

/-! ## Every stage is translated -/

/-- The identifiers are all different, and none of them was seen. -/
def New (seen : List String) (stages : List Stage) : Prop :=
  (stages.map (·.id) ++ seen).Nodup

/-- A walk in which nothing was seen before lists all the stages. -/
def ListsAll (seen : List String) (stages : List Stage) (result : List Stage × List String) : Prop :=
  result.1 = stages ∧ result.2.Perm (stages.map (·.id) ++ seen)

mutual

theorem newStages_listsAll (seen : List String) : ∀ route : Route, New seen route.allStages →
    ListsAll seen route.allStages (newStages seen route)
  | .node stage branches, h => by
    obtain ⟨hstage, hbelow⟩ := List.nodup_cons.mp h
    rw [newStages, if_neg fun hseen => hstage (List.mem_append_right _ hseen)]
    have hperm : ((allStagesIn branches).map (·.id) ++ stage.id :: seen).Perm
        (stage.id :: ((allStagesIn branches).map (·.id) ++ seen)) := List.perm_middle
    obtain ⟨hstages, hseen⟩ := newStagesAll_listsAll (stage.id :: seen) branches
      (hperm.nodup_iff.mpr h)
    exact ⟨congrArg (stage :: ·) hstages, hseen.trans hperm⟩

theorem newStagesAll_listsAll (seen : List String) : ∀ routes : List Route,
    New seen (allStagesIn routes) →
    ListsAll seen (allStagesIn routes) (newStagesAll seen routes)
  | [], _ => ⟨rfl, .refl _⟩
  | route :: routes, h => by
    rw [New, allStagesIn, List.map_append] at h
    -- what was seen before the later trees are the identifiers of the first one
    have hperm : ((allStagesIn routes).map (·.id) ++ (route.allStages.map (·.id) ++ seen)).Perm
        (route.allStages.map (·.id) ++ (allStagesIn routes).map (·.id) ++ seen) := by
      rw [← List.append_assoc]
      exact List.perm_append_comm.append_right seen
    have hroutes := hperm.nodup_iff.mpr h
    obtain ⟨hstages, hseen⟩ := newStages_listsAll seen route
      (List.nodup_append.mp hroutes).2.1
    obtain ⟨hlater, hseen'⟩ := newStagesAll_listsAll (newStages seen route).2 routes
      ((hseen.append_left _).nodup_iff.mpr hroutes)
    refine ⟨congrArg₂ (· ++ ·) hstages hlater, ?_⟩
    rw [allStagesIn, List.map_append]
    exact (hseen'.trans (hseen.append_left _)).trans hperm

end

/-- **Every stage with an identifier of its own is translated.** -/
theorem stages_eq_allStages {route : Route} (h : route.HasDistinctIds) :
    stages [route] = route.allStages := by
  have hnew : New [] route.allStages := by
    rw [New, List.append_nil]
    exact h
  exact (List.append_nil _).trans (newStages_listsAll [] route hnew).1

/-! ## The stages of relisted trees -/

mutual

theorem Relisted.stages : ∀ {route route' : Route}, route.Relisted route' →
    RelistedStages route.allStages route'.allStages
  | .node _ _, _, .node hstage heach hperm => by
    obtain ⟨each, hstages, hpermStages⟩ := RelistedEach.stages heach
    refine ⟨_, .cons hstage hstages, .cons _ (hpermStages.trans ?_)⟩
    rw [allStagesIn_eq, allStagesIn_eq]
    exact hperm.flatMap_right _

theorem RelistedEach.stages : ∀ {routes routes' : List Route}, RelistedEach routes routes' →
    RelistedStages (allStagesIn routes) (allStagesIn routes')
  | [], _, .nil => ⟨[], .nil, .nil⟩
  | _ :: _, _, .cons hroute hroutes => (Relisted.stages hroute).append (RelistedEach.stages hroutes)

end

end Route

/-! ## Nets of relisted stages -/

/-- The handles with their numbers permuted. -/
def Handle.renumber {k : Kind} (σ : Equiv.Perm ℕ) : Equiv.Perm (Handle k) where
  toFun h := ⟨σ h.index⟩
  invFun h := ⟨σ.symm h.index⟩
  left_inv h := by simp
  right_inv h := by simp

/-- The renumbering of places by one permutation and of transitions by another one. -/
def Renumbering.ofPerms (σ τ : Equiv.Perm ℕ) : Renumbering
  | .place => Handle.renumber σ
  | .transition => Handle.renumber τ

namespace RouteNet

/-- Under the new numbers the stages of the second net are those of the first one, relisted each, and
the transitions have the same names. -/
structure Relists (ρ : Renumbering) (b b' : RouteNet) (stages stages' : List Stage) : Prop where
  stage : ∀ p : PlaceId, Option.Rel Stage.Relisted stages[p.index]? stages'[(ρ .place p).index]?
  name : ∀ t, b'.net.nodeName? (ρ .transition t).node = b.net.nodeName? t.node
  source : b'.source = ρ .place b.source
  sink : b'.sink = ρ .place b.sink

variable {ρ : Renumbering} {b b' : RouteNet} {id : String} {stages stages' : List Stage} {arc : Arc}
  {t u : TransitionId} {p : PlaceId} {r : String} {s : Stage}

namespace Relists

theorem symm (h : b.Relists ρ b' stages stages') : b'.Relists ρ.symm b stages' stages where
  stage p := by
    have hrel := h.stage (ρ.symm .place p)
    rw [ρ.apply_symm_apply] at hrel
    generalize stages[(ρ.symm .place p).index]? = x at hrel
    generalize stages'[p.index]? = y at hrel
    cases hrel with
    | some hrel => exact .some hrel.symm
    | none => exact .none
  name t := by rw [← h.name, ρ.apply_symm_apply]
  source := by rw [h.source, ρ.symm_apply_apply]
  sink := by rw [h.sink, ρ.symm_apply_apply]

section

variable (h : b.Relists ρ b' stages stages')

include h

theorem exists_stage (hs : stages[p.index]? = some s) :
    ∃ s', stages'[(ρ .place p).index]? = some s' ∧ s.Relisted s' :=
  exists_of_rel (h.stage p) hs

theorem exists_mem (hs : s ∈ stages) : ∃ s' ∈ stages', s.Relisted s' := by
  obtain ⟨i, hi⟩ := List.mem_iff_getElem?.mp hs
  obtain ⟨s', hs', hrel⟩ := h.exists_stage (p := ⟨i⟩) hi
  exact ⟨s', List.mem_of_getElem? hs', hrel⟩

theorem joins (hjoins : b.Joins stages arc) : b'.Joins stages' (ρ.arc arc) := by
  cases hjoins with
  | @start i s e t hi he ht =>
      obtain ⟨s', hs', hrel⟩ := h.exists_stage (p := ⟨i⟩) hi
      exact .start hs' (hrel.starts.mem_iff.mp he) ((h.name _).trans ht)
  | @finish i s e t hi he ht =>
      obtain ⟨s', hs', hrel⟩ := h.exists_stage (p := ⟨i⟩) hi
      exact .finish hs' (hrel.ends.mem_iff.mp he) ((h.name _).trans ht)
  -- a stage that ends or starts at the transition would have a counterpart in the first list
  | source ht hnone =>
      have hjoins : b'.Joins stages' _ := .source ((h.name _).trans ht) fun s' hs' e he => by
        obtain ⟨s, hs, hrel⟩ := h.symm.exists_mem hs'
        exact hnone s hs e (hrel.ends.mem_iff.mp he)
      rwa [h.source] at hjoins
  | sink ht hnone =>
      have hjoins : b'.Joins stages' _ := .sink ((h.name _).trans ht) fun s' hs' e he => by
        obtain ⟨s, hs, hrel⟩ := h.symm.exists_mem hs'
        exact hnone s hs e (hrel.starts.mem_iff.mp he)
      rwa [h.sink] at hjoins

theorem joins_iff : b'.Joins stages' (ρ.arc arc) ↔ b.Joins stages arc := by
  refine ⟨fun hjoins => ?_, h.joins⟩
  have hback := h.symm.joins hjoins
  rwa [ρ.arc_symm_apply] at hback

theorem declares (hdeclares : b.Declares stages t r) :
    b'.Declares stages' (ρ .transition t) r := by
  obtain ⟨s, hs, ⟨e, he, ht⟩, hr⟩ := hdeclares
  obtain ⟨s', hs', hrel⟩ := h.exists_mem hs
  exact ⟨s', hs', ⟨e, hrel.starts.mem_iff.mp he, (h.name t).trans ht⟩, hrel.outputs.mem_iff.mp hr⟩

theorem declares_iff : b'.Declares stages' (ρ .transition t) r ↔ b.Declares stages t r := by
  refine ⟨fun hdeclares => ?_, h.declares⟩
  have hback := h.symm.declares hdeclares
  rwa [ρ.symm_apply_apply] at hback

end

end Relists

/-- The identifiers of the endpoints stay, and so the transitions get new numbers. -/
theorem Translates.exists_relists (hb : b.Translates id stages) (hb' : b'.Translates id stages')
    (h : RelistedStages stages stages') : ∃ ρ, b.Relists ρ b' stages stages' := by
  have hids : b.net.transitionIds.Perm b'.net.transitionIds := by
    rw [hb.transitions, hb'.transitions]
    refine (List.perm_ext_iff_of_nodup (nodup_eraseDups _) (nodup_eraseDups _)).mpr fun id => ?_
    have hkept {stages stages' : List Stage} (h : RelistedStages stages stages')
        (hid : id ∈ (stages.flatMap Stage.endpoints).map (·.id)) :
        id ∈ (stages'.flatMap Stage.endpoints).map (·.id) := by
      obtain ⟨e, he, rfl⟩ := List.mem_map.mp hid
      obtain ⟨s, hs, he⟩ := List.mem_flatMap.mp he
      obtain ⟨s', hs', hrel⟩ := h.exists_mem hs
      exact List.mem_map_of_mem (List.mem_flatMap.mpr ⟨s', hs', hrel.mem_endpoints.mpr he⟩)
    rw [List.mem_eraseDups, List.mem_eraseDups]
    exact ⟨hkept h, hkept h.symm⟩
  obtain ⟨τ, hτ, -⟩ := exists_perm_getElem? hids
  obtain ⟨each, hstages, hperm⟩ := h
  obtain ⟨σ, hσ, hbeyond⟩ := exists_perm_getElem? hperm
  have hlength : each.length = stages.length := hstages.length_eq.symm
  refine ⟨.ofPerms σ τ, fun p => ?_, fun t => ?_, ?_, ?_⟩
  · exact (hσ p.index) ▸ rel_getElem? hstages p.index
  · rw [Net.nodeName?_transition, Net.nodeName?_transition]
    exact hτ t.index
  · rw [hb.source, hb'.source, ← hperm.length_eq]
    exact congrArg Handle.mk (hlength ▸ (hbeyond _ (Nat.le_refl _)).symm)
  · rw [hb.sink, hb'.sink, ← hperm.length_eq]
    exact congrArg Handle.mk (hlength ▸ (hbeyond _ (Nat.le_succ _)).symm)

/-! ## Contexts -/

/-- What a place of the net holds depends on its stage, if it has one. -/
theorem Translates.placeData?_eq (h : b.Translates id stages) (p : PlaceId) :
    b.net.placeData? p = match stages[p.index]? with
      | some s => some (.plain s.id 0)
      | none => if p = b.source then some (.plain (id ++ "#source") 1)
        else if p = b.sink then some (.plain (id ++ "#sink") 0) else none := by
  rw [RoutePolicy.placeData?_eq, ← List.getElem?_map]
  show b.net.placeList[p.index]? = _
  rw [h.places, h.source, h.sink, List.getElem?_append, List.length_map, List.getElem?_map]
  cases hs : stages[p.index]? with
  | some s =>
      rw [if_pos (List.getElem?_eq_some_iff.mp hs).1]
      rfl
  | none =>
      obtain ⟨i⟩ := p
      obtain ⟨k, rfl⟩ := Nat.exists_eq_add_of_le (List.getElem?_eq_none_iff.mp hs)
      rw [if_neg (by simp)]
      match k with
      | 0 | 1 | k + 2 => simp

/-- A transition holds its name and its context. -/
theorem Translates.transitionData?_eq (h : b.Translates id stages) (t : TransitionId) :
    b.net.transitionData? t = (b.net.nodeName? t.node).map fun name =>
      ⟨name, some (b.net.contextAt t), [], []⟩ := by
  show (b.net.transitions.get? t).map Transition.data
    = ((b.net.transitions.get? t).map (·.id)).map _
  cases hx : b.net.transitions.get? t with
  | none => rfl
  | some x =>
      obtain ⟨c, hc, -⟩ := h.context t x hx
      have hcontext : b.net.contextAt t = c := by
        rw [Net.contextAt, hx, Option.bind_some, hc, Option.getD_some]
      rw [hcontext, ← hc]
      rfl

/-- The context of a transition unites those of the endpoints with its name. -/
theorem Translates.unites_contextAt (h : b.Translates id stages) {name : String}
    (ht : b.net.nodeName? t.node = some name) :
    (b.net.contextAt t).Unites name (stages.flatMap Stage.endpoints) := by
  obtain ⟨x, hx, rfl⟩ := Option.map_eq_some_iff.mp ht
  obtain ⟨c, hc, hunites⟩ := h.context t x hx
  have hx : b.net.transitions.get? t = some x := hx
  rwa [Net.contextAt, hx, Option.bind_some, hc, Option.getD_some]

theorem Translates.role_contextAt (h : b.Translates id stages) (happ : OnlyProcesses stages)
    (ht : b.net.contains t.node = true) : (b.net.contextAt t).role = .app := by
  obtain ⟨name, ht⟩ := Net.contains_iff_nodeName?.mp ht
  obtain ⟨e, he, hrole⟩ := Option.map_eq_some_iff.mp (h.unites_contextAt ht).role
  obtain ⟨s, hs, he⟩ := List.mem_flatMap.mp (List.mem_of_find?_eq_some he)
  rw [← hrole, happ s hs e he]

/-- A transition reads what the stages declare at its suppliers, whether the pass takes these before
it or after it. -/
theorem Spreads.mem_read_iff (h : b.Spreads stages) (hb : b.Translates id stages)
    (happ : OnlyProcesses stages) : r ∈ (b.net.contextAt t).read ↔
      ∃ u, b.net.Feeds u t ∧ b.Declares stages u r := by
  rw [h.read]
  refine exists_congr fun u => and_congr_right fun hfeeds => ?_
  have hrole := hb.role_contextAt happ (hb.wellFormed.contains_of_feeds hfeeds).1
  split
  · exact (h.app u hrole).1 r
  · rfl

namespace Relists

section

variable (h : b.Relists ρ b' stages stages')

include h

theorem mem_endpoints {e : Endpoint} (he : e ∈ stages.flatMap Stage.endpoints) :
    e ∈ stages'.flatMap Stage.endpoints := by
  obtain ⟨s, hs, he⟩ := List.mem_flatMap.mp he
  obtain ⟨s', hs', hrel⟩ := h.exists_mem hs
  exact List.mem_flatMap.mpr ⟨s', hs', hrel.mem_endpoints.mpr he⟩

theorem mem_endpoints_iff {e : Endpoint} :
    e ∈ stages'.flatMap Stage.endpoints ↔ e ∈ stages.flatMap Stage.endpoints :=
  ⟨h.symm.mem_endpoints, h.mem_endpoints⟩

theorem onlyProcesses (happ : OnlyProcesses stages) : OnlyProcesses stages' := by
  intro s' hs' e he
  obtain ⟨s, hs, hrel⟩ := h.symm.exists_mem hs'
  exact happ s hs e (hrel.mem_endpoints.mpr he)

variable (hb : b.Translates id stages) (hb' : b'.Translates id stages')

include hb hb'

theorem placeData? (p : PlaceId) : b'.net.placeData? (ρ .place p) = b.net.placeData? p := by
  have hrel := h.stage p
  rw [hb.placeData?_eq, hb'.placeData?_eq, h.source, h.sink]
  simp only [(ρ .place).apply_eq_iff_eq]
  generalize stages[p.index]? = x at hrel
  generalize stages'[(ρ .place p).index]? = y at hrel
  cases hrel with
  | some hrel => simp only [hrel.id]
  | none => rfl

theorem arcs (arc : Arc) : ρ.arc arc ∈ b'.net.arcs.toList ↔ arc ∈ b.net.arcs.toList := by
  rw [hb.arcs, hb'.arcs, h.joins_iff]

theorem feeds_iff : b'.net.Feeds (ρ .transition u) (ρ .transition t) ↔ b.net.Feeds u t := by
  unfold Net.Feeds
  rw [← (ρ .place).exists_congr_right]
  exact exists_congr fun p => and_congr (h.arcs hb hb' ⟨u.node, p.node⟩)
    (h.arcs hb hb' ⟨p.node, t.node⟩)

variable (hspreads : b.Spreads stages) (hspreads' : b'.Spreads stages')
  (happ : OnlyProcesses stages)

include hspreads hspreads' happ

/-- **The contexts are the same.** All their sets depend on the endpoints and the outputs of stages,
and on the arcs. -/
theorem contextAt_eq (ht : b.net.contains t.node = true) :
    b'.net.contextAt (ρ .transition t) = b.net.contextAt t := by
  obtain ⟨name, hname⟩ := Net.contains_iff_nodeName?.mp ht
  have hname' := (h.name t).trans hname
  have ht' : b'.net.contains (ρ .transition t).node = true :=
    Net.contains_iff_nodeName?.mpr ⟨name, hname'⟩
  have happ' := h.onlyProcesses happ
  have hrole := hb.role_contextAt happ ht
  have hrole' := hb'.role_contextAt happ' ht'
  have htags : (b'.net.contextAt (ρ .transition t)).tags = (b.net.contextAt t).tags :=
    SortedSet.ext_mem fun tag => by
      rw [(hb.unites_contextAt hname).tags, (hb'.unites_contextAt hname').tags]
      simp only [h.mem_endpoints_iff]
  have hread : (b'.net.contextAt (ρ .transition t)).read = (b.net.contextAt t).read :=
    SortedSet.ext_mem fun r => by
      rw [hspreads.mem_read_iff hb happ, hspreads'.mem_read_iff hb' happ',
        ← (ρ .transition).exists_congr_right]
      exact exists_congr fun u => and_congr (h.feeds_iff hb hb') h.declares_iff
  have hwrite : (b'.net.contextAt (ρ .transition t)).write = (b.net.contextAt t).write :=
    SortedSet.ext_mem fun r => by
      rw [(hspreads.app t hrole).1, (hspreads'.app _ hrole').1, h.declares_iff]
  have herase : (b'.net.contextAt (ρ .transition t)).erase = (b.net.contextAt t).erase := by
    rw [(hspreads.app t hrole).2, (hspreads'.app _ hrole').2, hread, hwrite]
  generalize b'.net.contextAt (ρ .transition t) = c' at *
  generalize b.net.contextAt t = c at *
  obtain ⟨_, _, _, _, _⟩ := c
  obtain ⟨_, _, _, _, _⟩ := c'
  rw [Context.mk.injEq]
  exact ⟨htags, hread, hwrite, herase, hrole'.trans hrole.symm⟩

theorem transitionData? (t : TransitionId) :
    b'.net.transitionData? (ρ .transition t) = b.net.transitionData? t := by
  rw [hb.transitionData?_eq, hb'.transitionData?_eq, h.name]
  cases hname : b.net.nodeName? t.node with
  | none => rfl
  | some name =>
      rw [h.contextAt_eq hb hb' hspreads hspreads' happ (Net.contains_iff_nodeName?.mpr ⟨_, hname⟩)]

/-- **The net of relisted stages is a renumbered net.** -/
theorem renumbers : b.net.Renumbers ρ b'.net :=
  ⟨h.placeData? hb hb', h.transitionData? hb hb' hspreads hspreads' happ, h.arcs hb hb'⟩

end

end Relists

end RouteNet

/-! ## Nets of relisted routes -/

namespace Net

theorem id_join (net : Net) (arc : Arc) : (net.join arc).id = net.id := by
  unfold join enlist modifyIncoming modifyOutgoing
  split <;> split <;> rfl

theorem id_joinOnce (net : Net) (arc : Arc) : (net.joinOnce arc).id = net.id := by
  unfold joinOnce
  split
  · rfl
  · exact net.id_join arc

theorem id_addEndpoint (net : Net) (e : Endpoint) : (net.addEndpoint e).1.id = net.id := by
  unfold addEndpoint
  cases net.transitionById e.id <;> rfl

theorem id_addStage (net : Net) (s : Stage) : (net.addStage s).id = net.id := by
  have hstart (net' : Net) (e : Endpoint) :
      (addStart net.places.next s.outputs net' e).id = net'.id :=
    (id_joinOnce _ _).trans (net'.id_addEndpoint e)
  have hend (net' : Net) (e : Endpoint) :
      (addEnd net.places.next s.outputs net' e).id = net'.id :=
    (id_joinOnce _ _).trans (net'.id_addEndpoint e)
  refine List.foldlRecOn (motive := fun net' : Net => net'.id = net.id) s.ends _ ?_
    fun net' hnet e _ => (hend net' e).trans hnet
  exact List.foldlRecOn (motive := fun net' : Net => net'.id = net.id) s.starts _
    (b := net.addPlace (.plain s.id 0)) rfl fun net' hnet e _ => (hstart net' e).trans hnet

theorem id_closeTransition (source sink : PlaceId) (net : Net) (t : TransitionId) :
    (closeTransition source sink net t).id = net.id := by
  simp only [closeTransition]
  split <;> split <;> simp only [id_join]

end Net

/-- The net of stages has the identifier it is given. -/
theorem RouteNet.id_ofStages (id : String) (stages : List Stage) :
    (ofStages id stages).net.id = id := by
  have hstages : (Net.ofStages id stages).id = id :=
    List.foldlRecOn (motive := fun net : Net => net.id = id) stages Net.addStage rfl
      fun net hnet s _ => (net.id_addStage s).trans hnet
  refine Net.foldl_passTransition (P := fun net => net.id = id) _ (fun _ _ _ hnet => hnet) ?_
  exact List.foldlRecOn (motive := fun net : Net => net.id = id) _ _ hstages
    fun net hnet t _ => (Net.id_closeTransition _ _ net t).trans hnet

/-- **The net of a relisted route is a renumbered net**, with the same identifier and with the source
at its new number, if the stages have identifiers of their own and all endpoints are processing
steps. -/
theorem Route.Relisted.exists_renumbers {route route' : Route} (h : route.Relisted route')
    (hids : route.HasDistinctIds) (happ : OnlyProcesses route.allStages) : ∃ ρ : Renumbering,
    (RouteNet.ofRoute route).net.Renumbers ρ (RouteNet.ofRoute route').net ∧
    (RouteNet.ofRoute route').source = ρ .place (RouteNet.ofRoute route).source ∧
    (RouteNet.ofRoute route').net.id = (RouteNet.ofRoute route).net.id := by
  have hid : route'.id = route.id := by
    cases h with
    | node hstage => exact hstage.id
  have hstages := h.stages
  have hids' : route'.HasDistinctIds := hstages.perm_ids.nodup_iff.mp hids
  have hnet {route : Route} (hids : route.HasDistinctIds) :
      RouteNet.ofRoute route = .ofStages route.id route.allStages := by
    rw [RouteNet.ofRoute, RouteNet.ofRoutes, Route.stages_eq_allStages hids]
  rw [hnet hids, hnet hids', hid]
  have htranslates := RouteNet.translates_ofStages route.id route.allStages
  have htranslates' := RouteNet.translates_ofStages route.id route'.allStages
  obtain ⟨ρ, hrelists⟩ := htranslates.exists_relists htranslates' hstages
  refine ⟨ρ, ?_, hrelists.source, ?_⟩
  · exact hrelists.renumbers htranslates htranslates' (RouteNet.spreads_ofStages _ _)
      (RouteNet.spreads_ofStages _ _) happ
  · rw [RouteNet.id_ofStages, RouteNet.id_ofStages]

end RoutePolicy
