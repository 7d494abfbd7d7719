import RoutePolicy.Proofs.Net.Agreement
import RoutePolicy.Proofs.Net.Matching
import RoutePolicy.Proofs.Net.Steps

set_option autoImplicit false

/-! # Nets that agree do the same

In nets without ambiguity agreement matches the nodes of one net with those of the other by their
identifiers (`Net.Reorders.matching`). So transitions of one identifier are enabled together, fire
together or fail for the same reason, and the nets agree again afterwards
(`Net.Agreeing.fireTransition`); a batched step fires transitions of the same identifiers
(`Net.Agreeing.fireAll`). -/

namespace RoutePolicy

/-- Two computations both succeed with related results, or both fail for related reasons. -/
inductive EndAlike {α β : Type} (R : α → β → Prop) (C : Failure → Failure → Prop) :
    Except Failure α → Except Failure β → Prop
  | ok {x : α} {y : β} : R x y → EndAlike R C (.ok x) (.ok y)
  | error {e e' : Failure} : C e e' → EndAlike R C (.error e) (.error e')

namespace Net

/-- A node of one net and a node of the other have the same identifier. -/
def Namesakes (a b : Net) (n n' : Node) : Prop :=
  ∃ id, a.nodeName? n = some id ∧ b.nodeName? n' = some id

/-- Nets without ambiguity that agree. -/
structure Agreeing (a b : Net) : Prop where
  left : a.Unambiguous
  right : b.Unambiguous
  agrees : a.agrees b = .ok true

/-- The reasons for which namesakes may not fire: a count that leaves its range, or a transition
that is not enabled. -/
inductive SameReason (a b : Net) : Failure → Failure → Prop
  | overflow : SameReason a b .overflow .overflow
  | notEnabled {t t' : TransitionId} :
      a.Namesakes b t.node t'.node → SameReason a b (.notEnabled t) (.notEnabled t')

/-- The net holds a transition of the identifier exactly if the other one does. The two are enabled
together; fired, they leave nets that are alike, or fail for the same reason. -/
def FiresAlike (a b : Net) (id : String) : Prop :=
  (a.transitionById id = none ∧ b.transitionById id = none) ∨
    ∃ t t', a.transitionById id = some t ∧ b.transitionById id = some t' ∧
      (∃ enabled, a.isEnabledAt a.marking t = .ok enabled ∧
        b.isEnabledAt b.marking t' = .ok enabled) ∧
      EndAlike Agreeing (a.SameReason b) (a.fireTransition t) (b.fireTransition t')

/-- A batched step fires transitions of the same identifiers in both nets and leaves nets that are
alike, or a count leaves its range in both. -/
def FireAllAlike (a b : Net) : Prop :=
  EndAlike (fun r r' => Agreeing r.1 r'.1 ∧
      (r.2.map fun t => a.nodeName? t.node).Perm (r'.2.map fun t => b.nodeName? t.node))
    (fun e e' => e = .overflow ∧ e' = .overflow) a.fireAll b.fireAll

variable {κ : Type} {content : Place → κ} {net a b : Net} {n n' : Node} {k : Kind} {m m' : Marking}
  {t t' : TransitionId} {p p' : PlaceId} {id : String}

namespace Namesakes

theorem symm (h : a.Namesakes b n n') : b.Namesakes a n' n := by
  obtain ⟨id, hn, hn'⟩ := h
  exact ⟨id, hn', hn⟩

theorem left (h : a.Namesakes b n n') : a.contains n = true := by
  obtain ⟨id, hn, -⟩ := h
  exact contains_iff_nodeName?.mpr ⟨id, hn⟩

theorem right (h : a.Namesakes b n n') : b.contains n' = true := h.symm.left

theorem nodeName?_eq (h : a.Namesakes b n n') : b.nodeName? n' = a.nodeName? n := by
  obtain ⟨id, hn, hn'⟩ := h
  rw [hn, hn']

theorem nameAt_eq (h : a.Namesakes b n n') : b.nameAt n' = a.nameAt n := by
  rw [nameAt, h.nodeName?_eq, nameAt]

/-- In nets without ambiguity a node has one namesake of its kind. -/
theorem unique (ha : a.Unambiguous) (hb : b.Unambiguous) {x y : Handle k} {x' y' : Handle k}
    (h : a.Namesakes b x.node x'.node) (h' : a.Namesakes b y.node y'.node) : x = y ↔ x' = y' := by
  obtain ⟨id, hx, hx'⟩ := h
  obtain ⟨id', hy, hy'⟩ := h'
  constructor
  · rintro rfl
    obtain rfl := Option.some_inj.mp (hx.symm.trans hy)
    exact Handle.node_inj.mp (hb.eq_of_nodeName? rfl hx' hy')
  · rintro rfl
    obtain rfl := Option.some_inj.mp (hx'.symm.trans hy')
    exact Handle.node_inj.mp (ha.eq_of_nodeName? rfl hx hy)

end Namesakes

/-! ## Arcs and markers by identifiers -/

/-- Arcs can be counted by the identifiers of their ends. -/
theorem Unambiguous.arcCount_eq (h : net.Unambiguous) (hn : net.contains n = true)
    (hn' : net.contains n' = true) (hkinds : n.kind ≠ n'.kind) :
    net.arcCount n n' = (net.arcs.toList.map net.arcKey).count (net.arcKey ⟨n, n'⟩) := by
  rw [arcCount, List.count, List.count, List.countP_map]
  refine List.countP_congr fun arc harc => ?_
  rw [Function.comp_apply, beq_iff_eq, beq_iff_eq]
  refine ⟨congrArg net.arcKey, h.eq_of_arcKey ?_ ⟨hn, hn'⟩ (h.wellFormed.kinds _ harc) hkinds⟩
  exact ⟨h.wellFormed.source _ harc, h.wellFormed.target _ harc⟩

theorem mem_placeMarkers_iff {tokens : Nat} :
    (id, tokens) ∈ (net.places.toList.map fun x => (x.id, x.markers)) ↔
      ∃ p : PlaceId, net.nodeName? p.node = some id ∧ net.marking.tokens p = tokens := by
  have htokens {p : PlaceId} {x : Place} (hx : net.places.get? p = some x) :
      net.marking.tokens p = x.markers := by
    rw [tokens_marking, placeData?, hx]
    rfl
  rw [List.mem_map]
  constructor
  · rintro ⟨x, hx, heq⟩
    obtain ⟨rfl, rfl⟩ := Prod.mk.inj heq
    obtain ⟨p, hp⟩ := Arena.exists_get?_of_mem hx
    exact ⟨p, Option.map_eq_some_iff.mpr ⟨x, hp, rfl⟩, htokens hp⟩
  · rintro ⟨p, hname, rfl⟩
    obtain ⟨x, hx, rfl⟩ := Option.map_eq_some_iff.mp hname
    exact ⟨x, Arena.mem_of_get? hx, congrArg (Prod.mk x.id) (htokens hx).symm⟩

theorem Unambiguous.nodup_placeMarkers (h : net.Unambiguous) :
    (net.places.toList.map fun x => (x.id, x.markers)).Nodup := by
  refine List.Nodup.of_map Prod.fst ?_
  rw [List.map_map]
  exact h.placeIds

/-! ## Nodes matched by identifiers -/

theorem Reorders.exists_namesake (h : a.Reorders content b) (x : Handle k)
    (hx : a.contains x.node = true) : ∃ x' : Handle k, a.Namesakes b x.node x'.node := by
  obtain ⟨id, hid⟩ := contains_iff_nodeName?.mp hx
  obtain ⟨x', hx'⟩ := exists_nodeName?_iff.mpr
    ((h.ids k).mem_iff.mp (exists_nodeName?_iff.mp ⟨x, hid⟩))
  exact ⟨x', id, hid, hx'⟩

section

variable (ha : a.Unambiguous) (hb : b.Unambiguous)

include ha hb

theorem Reorders.arcCount_eq (h : a.Reorders content b) {l : Kind} {x x' : Handle k}
    {y y' : Handle l} (hkinds : k ≠ l) (hx : a.Namesakes b x.node x'.node)
    (hy : a.Namesakes b y.node y'.node) :
    b.arcCount x'.node y'.node = a.arcCount x.node y.node := by
  have hkey : b.arcKey ⟨x'.node, y'.node⟩ = a.arcKey ⟨x.node, y.node⟩ := by
    simp only [arcKey, hx.nameAt_eq, hy.nameAt_eq]
    rfl
  rw [ha.arcCount_eq hx.left hy.left hkinds, hb.arcCount_eq hx.right hy.right hkinds, hkey,
    h.arcs.count_eq]

omit ha in
theorem Reorders.tokens_eq (h : a.Reorders (·.markers) b) (hp : a.Namesakes b p.node p'.node) :
    b.marking.tokens p' = a.marking.tokens p := by
  obtain ⟨id, hid, hid'⟩ := hp
  have hmem := h.places.mem_iff.mp (mem_placeMarkers_iff.mpr ⟨p, hid, rfl⟩)
  obtain ⟨q, hq, htokens⟩ := mem_placeMarkers_iff.mp hmem
  have hnode : q.node = p'.node := hb.eq_of_nodeName? rfl hq hid'
  rwa [Handle.node_inj.mp hnode] at htokens

/-- **Nets that agree match by identifiers.** -/
theorem Reorders.matching (h : a.Reorders (·.markers) b) :
    a.Matching b (fun p p' => a.Namesakes b p.node p'.node)
      (fun t t' => a.Namesakes b t.node t'.node) where
  places hp := ⟨hp.left, hp.right⟩
  unique hp hq := hp.unique ha hb hq
  right p hp := h.exists_namesake p hp
  left p' hp' := (h.symm.exists_namesake p' hp').imp fun _ hp => hp.symm
  transitions ht := ⟨ht.left, ht.right⟩
  rightTransition t ht := h.exists_namesake t ht
  leftTransition t' ht' := (h.symm.exists_namesake t' ht').imp fun _ ht => ht.symm
  takes hp ht := h.arcCount_eq ha hb (Kind.noConfusion) hp ht
  puts hp ht := h.arcCount_eq ha hb (Kind.noConfusion) ht hp
  tokens hp := h.tokens_eq hb hp

end

/-! ## Markers changed alike -/

namespace Agreeing

theorem reorders (h : Agreeing a b) : a.id = b.id ∧ a.Reorders (·.markers) b :=
  (h.left.agrees_iff h.right).mp h.agrees

theorem symm (h : Agreeing a b) : Agreeing b a := by
  obtain ⟨hid, hre⟩ := h.reorders
  exact ⟨h.right, h.left, (h.right.agrees_iff h.left).mpr ⟨hid.symm, hre.symm⟩⟩

theorem matching (h : Agreeing a b) :
    a.Matching b (fun p p' => a.Namesakes b p.node p'.node)
      (fun t t' => a.Namesakes b t.node t'.node) :=
  h.reorders.2.matching h.left h.right

/-- Markings that give namesakes as many markers leave the nets alike. -/
theorem withMarking (h : Agreeing a b)
    (hm : a.Corresponds b (fun p p' => a.Namesakes b p.node p'.node) m m') :
    Agreeing (a.withMarking m) (b.withMarking m') := by
  have hleft := h.left.withMarking hm.size
  have hright := h.right.withMarking hm.size'
  obtain ⟨hid, hre⟩ := h.reorders
  refine ⟨hleft, hright, (hleft.agrees_iff hright).mpr ⟨hid, ?_, hre.transitions, ?_⟩⟩
  · rw [List.perm_ext_iff_of_nodup hleft.nodup_placeMarkers hright.nodup_placeMarkers]
    rintro ⟨id, tokens⟩
    simp only [mem_placeMarkers_iff, marking_withMarking hm.size, marking_withMarking hm.size',
      (keepsNames_withMarking hm.size).nodeName?, (keepsNames_withMarking hm.size').nodeName?]
    constructor
    · rintro ⟨p, hp, rfl⟩
      obtain ⟨p', hpp'⟩ := h.matching.right p (contains_iff_nodeName?.mpr ⟨id, hp⟩)
      exact ⟨p', hpp'.nodeName?_eq.trans hp, hm.tokens hpp'⟩
    · rintro ⟨p', hp', rfl⟩
      obtain ⟨p, hpp'⟩ := h.matching.left p' (contains_iff_nodeName?.mpr ⟨id, hp'⟩)
      exact ⟨p, hpp'.nodeName?_eq.symm.trans hp', (hm.tokens hpp').symm⟩
  · rw [arcKey_withMarking hm.size, arcKey_withMarking hm.size']
    exact hre.arcs

/-! ## One transition -/

theorem enables_iff (h : Agreeing a b) (ht : a.Namesakes b t.node t'.node) :
    a.Enables a.marking t ↔ b.Enables b.marking t' :=
  ⟨h.matching.enables h.right.wellFormed ht h.matching.corresponds_marking,
    h.symm.matching.enables h.left.wellFormed ht.symm h.symm.matching.corresponds_marking⟩

/-- **Namesakes are enabled together.** -/
theorem isEnabledAt (h : Agreeing a b) (ht : a.Namesakes b t.node t'.node) :
    ∃ enabled, a.isEnabledAt a.marking t = .ok enabled ∧
      b.isEnabledAt b.marking t' = .ok enabled := by
  obtain ⟨r, hr, hiff⟩ := h.left.wellFormed.isEnabledAt a.size_marking ht.left
  obtain ⟨r', hr', hiff'⟩ := h.right.wellFormed.isEnabledAt b.size_marking ht.right
  have hen := h.enables_iff ht
  rw [Enables, Enables, and_iff_right ht.left, and_iff_right ht.right, ← hiff, ← hiff'] at hen
  obtain rfl : r = r' := Bool.eq_iff_iff.mpr hen
  exact ⟨r, hr, hr'⟩

/-- **Namesakes fire together, or fail for the same reason.** -/
theorem fireTransition (h : Agreeing a b) (ht : a.Namesakes b t.node t'.node) :
    EndAlike Agreeing (a.SameReason b) (a.fireTransition t) (b.fireTransition t') := by
  have hwf := h.left.wellFormed
  have hwf' := h.right.wellFormed
  obtain ⟨hnot, hen⟩ := hwf.fireAt_eq_error a.size_marking ht.left
  obtain ⟨hnot', hen'⟩ := hwf'.fireAt_eq_error b.size_marking ht.right
  rw [Net.fireTransition, Net.fireTransition]
  by_cases henabled : a.Enables a.marking t
  · rcases hen henabled with ⟨m₁, hf⟩ | hf
    · obtain ⟨m₁', hf', hcorr⟩ :=
        h.matching.exists_fireAt hwf hwf' ht h.matching.corresponds_marking hf
      rw [hf, hf']
      exact .ok (h.withMarking hcorr)
    · rcases hen' ((h.enables_iff ht).mp henabled) with ⟨m₁', hf'⟩ | hf'
      · -- it would fire in the first net, too
        obtain ⟨m₁, hok, -⟩ := h.symm.matching.exists_fireAt hwf' hwf ht.symm
          h.symm.matching.corresponds_marking hf'
        rw [hok] at hf
        cases hf
      · rw [hf, hf']
        exact .error .overflow
  · rw [hnot henabled, hnot' fun hen => henabled ((h.enables_iff ht).mpr hen)]
    exact .error (.notEnabled ht)

/-! ## All enabled transitions together -/

/-- Lists of transitions that hold the namesakes of each other match up to order. -/
theorem exists_perm (h : Agreeing a b) {ts us : List TransitionId} (hts : ts.Nodup) (hus : us.Nodup)
    (hin : ∀ t ∈ ts, a.contains t.node = true) (hin' : ∀ u ∈ us, b.contains u.node = true)
    (hmem : ∀ t u, a.Namesakes b t.node u.node → (t ∈ ts ↔ u ∈ us)) :
    ∃ φ : TransitionId → TransitionId, us.Perm (ts.map φ) ∧
      ∀ t ∈ ts, a.Namesakes b t.node (φ t).node := by
  choose! φ hφ using fun t (ht : a.contains t.node = true) => h.matching.rightTransition t ht
  refine ⟨φ, ?_, fun t ht => hφ t (hin t ht)⟩
  have hnodup : (ts.map φ).Nodup := hts.map_on fun t ht u hu heq =>
    ((hφ t (hin t ht)).unique h.left h.right (hφ u (hin u hu))).mpr heq
  rw [List.perm_ext_iff_of_nodup hus hnodup]
  intro u
  rw [List.mem_map]
  constructor
  · intro hu
    obtain ⟨t, ht⟩ := h.matching.leftTransition u (hin' u hu)
    exact ⟨t, (hmem t u ht).mpr hu, ((hφ t ht.left).unique h.left h.right ht).mp rfl⟩
  · rintro ⟨t, ht, rfl⟩
    exact (hmem t (φ t) (hφ t (hin t ht))).mp ht

/-- Places of one identifier change alike when namesakes fire. -/
theorem batchSum_eq (h : Agreeing a b) {ts us : List TransitionId} {φ : TransitionId → TransitionId}
    (hperm : us.Perm (ts.map φ)) (hφ : ∀ t ∈ ts, a.Namesakes b t.node (φ t).node)
    (hp : a.Namesakes b p.node p'.node) : b.batchSum us p' = a.batchSum ts p := by
  have hsum {f g : TransitionId → Nat} (hfg : ∀ t ∈ ts, g (φ t) = f t) :
      (us.map g).sum = (ts.map f).sum := by
    rw [(hperm.map g).sum_eq, List.map_map]
    exact congrArg List.sum (List.map_congr_left hfg)
  rw [batchSum, batchSum, hsum fun t ht => h.matching.puts hp (hφ t ht),
    hsum fun t ht => h.matching.takes hp (hφ t ht)]

/-- **A batched step fires namesakes.** -/
theorem fireAll (h : Agreeing a b) : a.FireAllAlike b := by
  obtain ⟨ts, -, hts, hnodup, hok, herror⟩ := h.left.wellFormed.fireAllAt a.size_marking
  obtain ⟨us, -, hus, hnodup', hok', herror'⟩ := h.right.wellFormed.fireAllAt b.size_marking
  obtain ⟨φ, hperm, hφ⟩ := h.exists_perm hnodup hnodup' (fun t ht => ((hts t).mp ht).1)
    (fun u hu => ((hus u).mp hu).1) fun t u htu => by rw [hts, hus, h.enables_iff htu]
  have hsum {p p' : PlaceId} (hp : a.Namesakes b p.node p'.node) :
      b.batchSum us p' = a.batchSum ts p := h.batchSum_eq hperm hφ hp
  have htokens {p p' : PlaceId} (hp : a.Namesakes b p.node p'.node) :
      b.marking.tokens p' = a.marking.tokens p := h.matching.tokens hp
  rw [FireAllAlike, Net.fireAll, Net.fireAll]
  by_cases hfits : ∀ p, a.contains p.node = true →
      FitsSigned (a.marking.tokens p) (a.batchSum ts p)
  · have hfits' (p' : PlaceId) (hp' : b.contains p'.node = true) :
        FitsSigned (b.marking.tokens p') (b.batchSum us p') := by
      obtain ⟨p, hp⟩ := h.matching.left p' hp'
      rw [htokens hp, hsum hp]
      exact hfits p hp.left
    rw [hok hfits, hok' hfits']
    refine .ok ⟨h.withMarking ⟨a.size_markingOf _, b.size_markingOf _, fun {p p'} hp => ?_⟩, ?_⟩
    · rw [tokens_markingOf, tokens_markingOf, if_pos hp.left, if_pos hp.right, htokens hp, hsum hp]
    · refine (List.Perm.trans (hperm.map _) (.of_eq ?_)).symm
      rw [List.map_map]
      exact List.map_congr_left fun t ht => (hφ t ht).nodeName?_eq
  · push Not at hfits
    obtain ⟨p, hp, hno⟩ := hfits
    obtain ⟨p', hpp'⟩ := h.matching.right p hp
    have hno' : ¬FitsSigned (b.marking.tokens p') (b.batchSum us p') := by
      rwa [htokens hpp', hsum hpp']
    rw [herror ⟨p, hp, hno⟩, herror' ⟨p', hpp'.right, hno'⟩]
    exact .error ⟨rfl, rfl⟩

/-! ## Transitions by identifier -/

theorem firesAlike (h : Agreeing a b) (id : String) : a.FiresAlike b id := by
  have hby {net : Net} (hnet : net.Unambiguous) {t : TransitionId} :
      net.transitionById id = some t ↔ net.nodeName? t.node = some id := by
    rw [hnet.transitionById_eq_some_iff]
    exact Option.map_eq_some_iff.symm
  cases hfind : a.transitionById id with
  | none =>
      refine Or.inl ⟨hfind, Option.eq_none_iff_forall_ne_some.mpr fun t' ht' => ?_⟩
      have hid := (hby h.right).mp ht'
      obtain ⟨t, ht⟩ := h.matching.leftTransition t' (contains_iff_nodeName?.mpr ⟨id, hid⟩)
      rw [(hby h.left).mpr (ht.nodeName?_eq.symm.trans hid)] at hfind
      cases hfind
  | some t =>
      have hid := (hby h.left).mp hfind
      obtain ⟨t', ht⟩ := h.matching.rightTransition t (contains_iff_nodeName?.mpr ⟨id, hid⟩)
      exact Or.inr ⟨t, t', hfind, (hby h.right).mpr (ht.nodeName?_eq.trans hid), h.isEnabledAt ht,
        h.fireTransition ht⟩

end Agreeing

/-! ## Agreement is a congruence -/

/-- **On nets without ambiguity agreement is an equivalence that firing respects**, and so is
agreement up to markers an equivalence. Both have an answer for any two such nets, which depends on
what the nets hold and not on its order. -/
theorem agreement_congruence :
    Equivalence (fun a b : {net : Net // net.Unambiguous} => a.1.agrees b.1 = .ok true) ∧
      Equivalence
        (fun a b : {net : Net // net.Unambiguous} => a.1.agreesUpToMarkers b.1 = .ok true) ∧
      (∀ a b : Net, a.Unambiguous → b.Unambiguous →
        (∃ r, a.agrees b = .ok r ∧ (r = true ↔ a.id = b.id ∧ a.Reorders (·.markers) b)) ∧
          ∃ r, a.agreesUpToMarkers b = .ok r ∧ (r = true ↔ a.Reorders (·.kind) b)) ∧
      ∀ a b : Net, a.Unambiguous → b.Unambiguous → a.agrees b = .ok true →
        (∀ id, a.FiresAlike b id) ∧ a.FireAllAlike b := by
  refine ⟨⟨?_, ?_, ?_⟩, ⟨?_, ?_, ?_⟩, fun a b ha hb => ⟨ha.agrees hb, ha.agreesUpToMarkers hb⟩,
    fun a b ha hb hab => ?_⟩
  · exact fun a => (a.2.agrees_iff a.2).mpr ⟨rfl, .refl a.1⟩
  · exact fun {a b} hab => (Agreeing.mk a.2 b.2 hab).symm.agrees
  · intro a b c hab hbc
    obtain ⟨hid, hre⟩ := (a.2.agrees_iff b.2).mp hab
    obtain ⟨hid', hre'⟩ := (b.2.agrees_iff c.2).mp hbc
    exact (a.2.agrees_iff c.2).mpr ⟨hid.trans hid', hre.trans hre'⟩
  · exact fun a => (a.2.agreesUpToMarkers_iff a.2).mpr (.refl a.1)
  · exact fun {a b} hab => (b.2.agreesUpToMarkers_iff a.2).mpr
      ((a.2.agreesUpToMarkers_iff b.2).mp hab).symm
  · exact fun {a b c} hab hbc => (a.2.agreesUpToMarkers_iff c.2).mpr
      (((a.2.agreesUpToMarkers_iff b.2).mp hab).trans ((b.2.agreesUpToMarkers_iff c.2).mp hbc))
  · have hagreeing : Agreeing a b := ⟨ha, hb, hab⟩
    exact ⟨hagreeing.firesAlike, hagreeing.fireAll⟩

/-- A marker that one transition hands on and another takes away. -/
def relay : Net :=
  Net.empty "relay" |>.addPlace (.plain "p0" 1) |>.addPlace (.plain "p1" 0)
    |>.addTransition (.bare "t0" none) |>.addTransition (.bare "t1" none)
    |>.join ⟨⟨.place, 0⟩, ⟨.transition, 0⟩⟩ |>.join ⟨⟨.transition, 0⟩, ⟨.place, 1⟩⟩
    |>.join ⟨⟨.place, 1⟩, ⟨.transition, 1⟩⟩

/-- The same nodes and arcs, added in another order. -/
def relayReordered : Net :=
  Net.empty "relay" |>.addTransition (.bare "t1" none) |>.addPlace (.plain "p1" 0)
    |>.addTransition (.bare "t0" none) |>.addPlace (.plain "p0" 1)
    |>.join ⟨⟨.place, 0⟩, ⟨.transition, 0⟩⟩ |>.join ⟨⟨.transition, 1⟩, ⟨.place, 0⟩⟩
    |>.join ⟨⟨.place, 1⟩, ⟨.transition, 1⟩⟩

theorem unambiguous_relay : relay.Unambiguous := by
  refine Made.unambiguous ?_ (by decide) (by decide) (by decide)
  exact Made.empty "relay" |>.addPlace (by decide) |>.addPlace (by decide) |>.addTransition
    |>.addTransition |>.join rfl |>.join rfl |>.join rfl

theorem unambiguous_relayReordered : relayReordered.Unambiguous := by
  refine Made.unambiguous ?_ (by decide) (by decide) (by decide)
  exact Made.empty "relay" |>.addTransition |>.addPlace (by decide) |>.addTransition
    |>.addPlace (by decide) |>.join rfl |>.join rfl |>.join rfl

theorem agreement_congruence_relay :
    relay.Unambiguous ∧ relayReordered.Unambiguous ∧ relay.agrees relayReordered = .ok true ∧
      (relay.FiresAlike relayReordered "t0" ∧ relay.transitionById "t0" = some ⟨0⟩ ∧
        relayReordered.transitionById "t0" = some ⟨1⟩) ∧
      relay.FireAllAlike relayReordered := by
  have hagree : relay.agrees relayReordered = .ok true := by decide
  have hcongr := agreement_congruence.2.2.2 relay relayReordered unambiguous_relay
    unambiguous_relayReordered hagree
  exact ⟨unambiguous_relay, unambiguous_relayReordered, hagree, ⟨hcongr.1 "t0", rfl, rfl⟩, hcongr.2⟩

end Net

end RoutePolicy
