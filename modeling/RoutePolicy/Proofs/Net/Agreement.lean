import RoutePolicy.Net.Equality
import RoutePolicy.Proofs.Net.InPlace
import RoutePolicy.Proofs.Net.Tables

set_option autoImplicit false

/-! # What it means that nets agree

Agreement looks from one net into the other: as many nodes, each found in the other net by its
identifier, and the same arcs by the names of their ends. Where the nodes of a kind have identifiers of
their own (`Net.Identified`) this comes to a symmetric condition: the same outline by identifiers, and
places of one identifier with the same content (`Net.Identified.agrees`). In nets whose arcs are told
apart, too (`Net.Unambiguous`), the nodes and the arcs of one net are then those of the other in some
order (`Net.Reorders`). -/

namespace RoutePolicy

namespace Arena

variable {ι α κ : Type} [Index ι] {a b : Arena ι α} {name : α → String}

/-- Entries with identifiers of their own are told apart by them. -/
theorem eq_of_name_eq (h : (a.toList.map name).Nodup) {i j : ι} {x y : α} (hi : a.get? i = some x)
    (hj : a.get? j = some y) (hname : name x = name y) : i = j := by
  have hpos {i : ι} {x : α} (hi : a.get? i = some x) :
      (a.toList.map name)[Index.position i]? = some (name x) := by
    rw [List.getElem?_map, get?_eq_some_iff.mp hi, Option.map_some]
  have hlt : Index.position i < (a.toList.map name).length :=
    (List.getElem?_eq_some_iff.mp (hpos hi)).1
  refine position_inj.mp ((List.getElem?_inj hlt h).mp ?_)
  rw [hpos hi, hpos hj, hname]

/-- Such an entry is found in the table by its identifier. -/
theorem lookup_ofArena_of_nodup (h : (a.toList.map name).Nodup) {id : String} {i : ι} :
    (NameTable.ofArena name a).lookup id = some i ↔ ∃ x, a.get? i = some x ∧ name x = id := by
  rw [NameTable.lookup_ofArena_eq_some_iff, IsLast]
  refine and_iff_left_of_imp ?_
  rintro ⟨x, hx, rfl⟩ j y hy hname
  exact Nat.le_of_eq (congrArg Index.position (eq_of_name_eq h hy hx hname))

/-- Every entry of one arena is matched in the other one, which is as large, exactly if both hold
the same in some order. -/
theorem matched_iff_perm {find : String → Option ι} {key : α → κ} {p : α → α → Bool}
    (ha : (a.toList.map name).Nodup)
    (hfind : ∀ id i, find id = some i ↔ ∃ x, b.get? i = some x ∧ name x = id)
    (hp : ∀ x y, p x y = true ↔ key x = key y) (hkey : ∀ x y, key x = key y → name x = name y) :
    (decide (a.size = b.size) && a.toList.all fun x => ((find (name x)).bind b.get?).any (p x))
      = true ↔ (a.toList.map key).Perm (b.toList.map key) := by
  have hlength (c : Arena ι α) : (c.toList.map key).length = c.size := by
    rw [List.length_map]
    rfl
  have hfound (x : α) : ((find (name x)).bind b.get?).any (p x) = true
      ↔ key x ∈ b.toList.map key := by
    rw [Option.any_eq_true, List.mem_map]
    constructor
    · rintro ⟨y, hy, hpy⟩
      obtain ⟨i, -, hget⟩ := Option.bind_eq_some_iff.mp hy
      exact ⟨y, mem_of_get? hget, ((hp x y).mp hpy).symm⟩
    · rintro ⟨y, hy, hxy⟩
      obtain ⟨i, hget⟩ := exists_get?_of_mem hy
      exact ⟨y, Option.bind_eq_some_iff.mpr
        ⟨i, (hfind _ _).mpr ⟨y, hget, hkey _ _ hxy⟩, hget⟩, (hp x y).mpr hxy.symm⟩
  have hall : (a.toList.all fun x => ((find (name x)).bind b.get?).any (p x)) = true ↔
      a.toList.map key ⊆ b.toList.map key := by
    rw [List.all_eq_true, List.subset_def, List.forall_mem_map]
    exact forall₂_congr fun x _ => hfound x
  rw [Bool.and_eq_true, decide_eq_true_iff, hall]
  constructor
  · rintro ⟨hsize, hsub⟩
    -- as many different entries, all among those of the other arena
    have hnodup : (a.toList.map key).Nodup :=
      (List.Nodup.of_map name ha).map_on fun x hx y hy hxy =>
        List.inj_on_of_nodup_map ha hx hy (hkey x y hxy)
    refine (List.subperm_of_subset hnodup hsub).perm_of_length_le (Nat.le_of_eq ?_)
    rw [hlength, hlength, hsize]
  · intro hperm
    refine ⟨?_, hperm.subset⟩
    rw [← hlength a, ← hlength b, hperm.length_eq]

end Arena

/-- Entries with identifiers of their own are the same in some order if their identifiers are, and
entries of one identifier have the same content. -/
theorem perm_map_content_iff {α κ : Type} {l l' : List α} {name : α → String} (content : α → κ)
    (hl : (l.map name).Nodup) (hl' : (l'.map name).Nodup) :
    (l.map fun x => (name x, content x)).Perm (l'.map fun x => (name x, content x)) ↔
      (l.map name).Perm (l'.map name) ∧
        ∀ x ∈ l, ∀ y ∈ l', name x = name y → content x = content y := by
  have hfst (l : List α) : (l.map fun x => (name x, content x)).map Prod.fst = l.map name := by
    rw [List.map_map]
    rfl
  constructor
  · intro hperm
    refine ⟨by simpa only [hfst] using hperm.map Prod.fst, fun x hx y hy hname => ?_⟩
    obtain ⟨z, hz, heq⟩ := List.mem_map.mp (hperm.mem_iff.mp (List.mem_map_of_mem hx))
    obtain ⟨hid, hcontent⟩ := Prod.mk.inj heq
    obtain rfl := List.inj_on_of_nodup_map hl' hz hy (hid.trans hname)
    exact hcontent.symm
  · rintro ⟨hperm, hsame⟩
    have hnodup (l : List α) (hl : (l.map name).Nodup) :
        (l.map fun x => (name x, content x)).Nodup := List.Nodup.of_map Prod.fst (by rwa [hfst])
    have hmem {l l' : List α} (hsub : l.map name ⊆ l'.map name)
        (hsame : ∀ x ∈ l, ∀ y ∈ l', name x = name y → content x = content y) :
        (l.map fun x => (name x, content x)) ⊆ l'.map fun x => (name x, content x) := by
      intro entry hentry
      obtain ⟨x, hx, rfl⟩ := List.mem_map.mp hentry
      obtain ⟨y, hy, hid⟩ := List.mem_map.mp (hsub (List.mem_map_of_mem hx))
      exact List.mem_map.mpr ⟨y, hy, Prod.ext hid (hsame x hx y hy hid.symm).symm⟩
    refine (List.perm_ext_iff_of_nodup (hnodup l hl) (hnodup l' hl')).mpr fun entry => ⟨?_, ?_⟩
    · exact fun h => hmem hperm.subset hsame h
    · exact fun h => hmem hperm.symm.subset
        (fun y hy x hx hid => (hsame x hx y hy hid.symm).symm) h

namespace Net

/-! ## Nodes and arcs told by identifiers -/

/-- The identifiers of the nodes of a kind, in order. -/
def ids (net : Net) : Kind → List String
  | .place => net.placeIds
  | .transition => net.transitionIds

/-- The identifier of a node. -/
def nameAt (net : Net) (n : Node) : String := (net.nodeName? n).getD ""

/-- An arc told by identifiers. -/
def arcKey (net : Net) (arc : Arc) : Bool × String × String :=
  (decide (arc.source.kind = .place), net.nameAt arc.source, net.nameAt arc.target)

/-- The second net has the same nodes and arcs in some order. Of a place the identifier counts, and
what `content` gives. -/
structure Reorders {κ : Type} (content : Place → κ) (net net' : Net) : Prop where
  places : (net.places.toList.map fun x => (x.id, content x)).Perm
    (net'.places.toList.map fun x => (x.id, content x))
  transitions : (net.transitions.toList.map fun x => (x.id, x.context)).Perm
    (net'.transitions.toList.map fun x => (x.id, x.context))
  arcs : (net.arcs.toList.map net.arcKey).Perm (net'.arcs.toList.map net'.arcKey)

/-- The same identifiers of places, the same transitions, and arcs between the same nodes. -/
structure SameOutline (a b : Net) : Prop where
  places : a.placeIds.Perm b.placeIds
  transitions : (a.transitions.toList.map fun x => (x.id, x.context)).Perm
    (b.transitions.toList.map fun x => (x.id, x.context))
  arcs : ∀ key, key ∈ a.arcs.toList.map a.arcKey ↔ key ∈ b.arcs.toList.map b.arcKey

/-- Places of one identifier have the same content. -/
def SamePlaces {κ : Type} (content : Place → κ) (a b : Net) : Prop :=
  ∀ x ∈ a.places.toList, ∀ y ∈ b.places.toList, x.id = y.id → content x = content y

/-- The nodes of a kind have identifiers of their own, and the tables find them by these. -/
structure Identified (net : Net) : Prop where
  wellFormed : net.WellFormed
  indexed : net.Indexed
  placeIds : net.placeIds.Nodup
  transitionIds : net.transitionIds.Nodup

/-- A net built by adding nodes and arcs, with any markers, in which places have identifiers of
their own, transitions have identifiers of their own, and at most one arc leads from one node to
another. -/
structure Unambiguous (net : Net) : Prop where
  made : ∃ (start : Net) (m : Marking), start.Made ∧ m.size = start.places.size ∧
    net = start.withMarking m
  placeIds : net.placeIds.Nodup
  transitionIds : net.transitionIds.Nodup
  arcs : net.arcs.toList.Nodup

variable {κ : Type} {content : Place → κ} {net net' a b c : Net} {n n' : Node} {m : Marking}

theorem nodeName?_eq (net : Net) (n : Node) : net.nodeName? n = (net.ids n.kind)[n.index]? := by
  obtain ⟨k, i⟩ := n
  cases k <;> simp [nodeName?, ids, placeIds, transitionIds, Arena.toList, Arena.get?,
    Index.position]

theorem nodeName?_eq_nameAt (hn : net.contains n = true) :
    net.nodeName? n = some (net.nameAt n) := by
  obtain ⟨id, hid⟩ := contains_iff_nodeName?.mp hn
  rw [nameAt, hid, Option.getD_some]

theorem nodeName_eq_nameAt (hn : net.contains n = true) : net.nodeName n = .ok (net.nameAt n) := by
  rw [nodeName, nodeName?_eq_nameAt hn]

theorem exists_nodeName?_iff {k : Kind} {id : String} :
    (∃ h : Handle k, net.nodeName? h.node = some id) ↔ id ∈ net.ids k := by
  rw [List.mem_iff_getElem?]
  constructor
  · rintro ⟨h, hid⟩
    exact ⟨h.index, (net.nodeName?_eq h.node).symm.trans hid⟩
  · rintro ⟨i, hi⟩
    exact ⟨⟨i⟩, (net.nodeName?_eq _).trans hi⟩

theorem KeepsNames.nodeName? (h : net.KeepsNames net') (n : Node) :
    net'.nodeName? n = net.nodeName? n := by
  have hids : net'.ids n.kind = net.ids n.kind := by
    cases n.kind with
    | place => exact h.placeIds
    | transition => exact h.transitionIds
  rw [nodeName?_eq, nodeName?_eq, hids]

theorem arcKey_withMarking (hm : m.size = net.places.size) :
    (net.withMarking m).arcKey = net.arcKey := by
  have hname (n : Node) : (net.withMarking m).nameAt n = net.nameAt n := by
    rw [nameAt, (keepsNames_withMarking hm).nodeName?, nameAt]
  funext arc
  rw [arcKey, hname, hname, arcKey]

/-! ## Reordering -/

namespace Reorders

theorem refl (net : Net) : net.Reorders content net := ⟨.refl _, .refl _, .refl _⟩

theorem symm (h : a.Reorders content b) : b.Reorders content a :=
  ⟨h.places.symm, h.transitions.symm, h.arcs.symm⟩

theorem trans (h : a.Reorders content b) (h' : b.Reorders content c) : a.Reorders content c :=
  ⟨h.places.trans h'.places, h.transitions.trans h'.transitions, h.arcs.trans h'.arcs⟩

/-- Nodes have the same identifiers in another order. -/
theorem ids (h : a.Reorders content b) (k : Kind) : (a.ids k).Perm (b.ids k) := by
  cases k with
  | place => simpa [Net.ids, placeIds, Function.comp_def] using h.places.map Prod.fst
  | transition => simpa [Net.ids, transitionIds, Function.comp_def] using h.transitions.map Prod.fst

end Reorders

/-! ## Nets whose nodes have identifiers of their own -/

theorem Made.identified (h : net.Made) (hplaces : net.placeIds.Nodup)
    (htransitions : net.transitionIds.Nodup) : net.Identified :=
  ⟨h.wellFormed, h.indexed, hplaces, htransitions⟩

theorem Identified.placeById_eq_some_iff (h : net.Identified) {id : String} {p : PlaceId} :
    net.placeById id = some p ↔ ∃ x, net.places.get? p = some x ∧ x.id = id := by
  rw [placeById, h.indexed.places]
  exact Arena.lookup_ofArena_of_nodup h.placeIds

theorem Identified.transitionById_eq_some_iff (h : net.Identified) {id : String}
    {t : TransitionId} :
    net.transitionById id = some t ↔ ∃ x, net.transitions.get? t = some x ∧ x.id = id := by
  rw [transitionById, h.indexed.transitions]
  exact Arena.lookup_ofArena_of_nodup h.transitionIds

/-! ## Nets without ambiguity -/

theorem Made.unambiguous (h : net.Made) (hplaces : net.placeIds.Nodup)
    (htransitions : net.transitionIds.Nodup) (harcs : net.arcs.toList.Nodup) : net.Unambiguous :=
  ⟨⟨net, net.marking, h, net.size_marking, net.withMarking_marking.symm⟩, hplaces, htransitions,
    harcs⟩

namespace Unambiguous

theorem wellFormed (h : net.Unambiguous) : net.WellFormed := by
  obtain ⟨start, m, hmade, hm, rfl⟩ := h.made
  exact hmade.wellFormed.withMarking hm

theorem indexed (h : net.Unambiguous) : net.Indexed := by
  obtain ⟨start, m, hmade, hm, rfl⟩ := h.made
  exact hmade.indexed.of_keepsNames (keepsNames_withMarking hm)

/-- Other markers make nothing ambiguous. -/
theorem withMarking (h : net.Unambiguous) (hm : m.size = net.places.size) :
    (net.withMarking m).Unambiguous where
  made := by
    obtain ⟨start, m₁, hmade, hm₁, rfl⟩ := h.made
    have hsize : (start.withMarking m₁).places.size = start.places.size := by
      rw [← size_marking, marking_withMarking hm₁, hm₁]
    exact ⟨start, m, hmade, hm.trans hsize, withMarking_withMarking hm₁ m⟩
  placeIds := by
    rw [(keepsNames_withMarking hm).placeIds]
    exact h.placeIds
  transitionIds := h.transitionIds
  arcs := h.arcs

theorem nodup_ids (h : net.Unambiguous) (k : Kind) : (net.ids k).Nodup := by
  cases k with
  | place => exact h.placeIds
  | transition => exact h.transitionIds

theorem identified (h : net.Unambiguous) : net.Identified :=
  ⟨h.wellFormed, h.indexed, h.placeIds, h.transitionIds⟩

theorem transitionById_eq_some_iff (h : net.Unambiguous) {id : String} {t : TransitionId} :
    net.transitionById id = some t ↔ ∃ x, net.transitions.get? t = some x ∧ x.id = id :=
  h.identified.transitionById_eq_some_iff

/-- A node is known by its kind and its identifier. -/
theorem eq_of_nodeName? (h : net.Unambiguous) {id : String} (hkind : n.kind = n'.kind)
    (hn : net.nodeName? n = some id) (hn' : net.nodeName? n' = some id) : n = n' := by
  obtain ⟨k, i⟩ := n
  obtain ⟨k', j⟩ := n'
  obtain rfl : k = k' := hkind
  rw [nodeName?_eq] at hn hn'
  have hlt : i < (net.ids k).length := (List.getElem?_eq_some_iff.mp hn).1
  obtain rfl : i = j := (List.getElem?_inj hlt (h.nodup_ids k)).mp (hn.trans hn'.symm)
  rfl

/-- Arcs are told apart by the identifiers of their ends. -/
theorem eq_of_arcKey (h : net.Unambiguous) {arc arc' : Arc}
    (hin : net.contains arc.source = true ∧ net.contains arc.target = true)
    (hin' : net.contains arc'.source = true ∧ net.contains arc'.target = true)
    (hkinds : arc.source.kind ≠ arc.target.kind) (hkinds' : arc'.source.kind ≠ arc'.target.kind)
    (hkey : net.arcKey arc = net.arcKey arc') : arc = arc' := by
  obtain ⟨hkind, hnames⟩ := Prod.mk.inj hkey
  obtain ⟨hsource, htarget⟩ := Prod.mk.inj hnames
  have hsources : arc.source.kind = arc'.source.kind := by
    have hiff := decide_eq_decide.mp hkind
    cases hs : arc.source.kind <;> cases hs' : arc'.source.kind <;> simp_all
  have htargets : arc.target.kind = arc'.target.kind := by
    rw [← hsources] at hkinds'
    cases hs : arc.source.kind <;> cases ht : arc.target.kind <;> cases ht' : arc'.target.kind <;>
      simp_all
  obtain ⟨source, target⟩ := arc
  obtain ⟨source', target'⟩ := arc'
  refine Arc.mk.injEq _ _ _ _ ▸ ⟨?_, ?_⟩
  · exact h.eq_of_nodeName? hsources (nodeName?_eq_nameAt hin.1)
      ((nodeName?_eq_nameAt hin'.1).trans (congrArg some hsource.symm))
  · exact h.eq_of_nodeName? htargets (nodeName?_eq_nameAt hin.2)
      ((nodeName?_eq_nameAt hin'.2).trans (congrArg some htarget.symm))

theorem nodup_arcKeys (h : net.Unambiguous) : (net.arcs.toList.map net.arcKey).Nodup :=
  h.arcs.map_on fun _ harc _ harc' hkey =>
    h.eq_of_arcKey ⟨h.wellFormed.source _ harc, h.wellFormed.target _ harc⟩
      ⟨h.wellFormed.source _ harc', h.wellFormed.target _ harc'⟩ (h.wellFormed.kinds _ harc)
      (h.wellFormed.kinds _ harc') hkey

end Unambiguous

theorem WellFormed.arcKeys (h : net.WellFormed) :
    net.arcKeys = .ok (net.arcs.toList.map net.arcKey) := by
  refine mapM_eq_ok fun arc harc => ?_
  rw [nodeName_eq_nameAt (h.source arc harc), ok_bind, nodeName_eq_nameAt (h.target arc harc),
    ok_bind]
  rfl

/-- Arcs are compared as sets, by the identifiers of their ends. -/
theorem WellFormed.matchesArcs (ha : a.WellFormed) (hb : b.WellFormed) :
    a.matchesArcs b
      = .ok (sameElements (a.arcs.toList.map a.arcKey) (b.arcs.toList.map b.arcKey)) := by
  rw [Net.matchesArcs, ha.arcKeys, ok_bind, hb.arcKeys, ok_bind]
  rfl

/-! ## Agreement where nodes have identifiers of their own -/

theorem Identified.matchesPlaces_iff (ha : a.Identified) (hb : b.Identified) (content : Place → κ)
    {p : Place → Place → Bool} (hp : ∀ x y, p x y = true ↔ (x.id, content x) = (y.id, content y)) :
    a.matchesPlaces b p = true ↔ (a.places.toList.map fun x => (x.id, content x)).Perm
      (b.places.toList.map fun x => (x.id, content x)) :=
  Arena.matched_iff_perm ha.placeIds (fun _ _ => hb.placeById_eq_some_iff) hp
    fun _ _ hxy => (Prod.mk.inj hxy).1

theorem Identified.matchesTransitions_iff (ha : a.Identified) (hb : b.Identified) :
    a.matchesTransitions b = true ↔ (a.transitions.toList.map fun x => (x.id, x.context)).Perm
      (b.transitions.toList.map fun x => (x.id, x.context)) := by
  refine Arena.matched_iff_perm ha.transitionIds (fun _ _ => hb.transitionById_eq_some_iff)
    (fun x y => ?_) fun _ _ hxy => (Prod.mk.inj hxy).1
  rw [Transition.agrees, Bool.and_eq_true, decide_eq_true_iff, decide_eq_true_iff, Prod.mk.injEq]

namespace Identified

variable (ha : a.Identified) (hb : b.Identified)

include ha hb

/-- A comparison of the nodes by identifiers and of the places by their content as well, followed by
one of the arcs. -/
theorem compared (content : Place → κ) (same : Bool) {p : Place → Place → Bool}
    (hp : ∀ x y, p x y = true ↔ (x.id, content x) = (y.id, content y)) :
    ∃ v, (if same && a.matchesPlaces b p && a.matchesTransitions b then a.matchesArcs b
        else .ok false) = .ok v ∧
      (v = true ↔ same = true ∧ a.SameOutline b ∧ a.SamePlaces content b) := by
  have hplaces : a.matchesPlaces b p = true ↔
      a.placeIds.Perm b.placeIds ∧ a.SamePlaces content b :=
    (ha.matchesPlaces_iff hb content hp).trans
      (perm_map_content_iff content ha.placeIds hb.placeIds)
  have htransitions := ha.matchesTransitions_iff hb
  split
  · rename_i hnodes
    simp only [Bool.and_eq_true] at hnodes
    obtain ⟨⟨hsame, hmatch⟩, hmatch'⟩ := hnodes
    obtain ⟨hids, hcontent⟩ := hplaces.mp hmatch
    refine ⟨_, ha.wellFormed.matchesArcs hb.wellFormed, ?_⟩
    rw [sameElements_iff]
    exact ⟨fun harcs => ⟨hsame, ⟨hids, htransitions.mp hmatch', harcs⟩, hcontent⟩,
      fun h => h.2.1.arcs⟩
  · rename_i hdiffer
    refine ⟨false, rfl, iff_of_false Bool.false_ne_true fun ⟨hsame, houtline, hcontent⟩ => ?_⟩
    simp only [Bool.and_eq_true] at hdiffer
    exact hdiffer ⟨⟨hsame, hplaces.mpr ⟨houtline.places, hcontent⟩⟩,
      htransitions.mpr houtline.transitions⟩

/-- Agreement of nets whose nodes are told apart by identifiers. -/
theorem agrees : ∃ v, a.agrees b = .ok v ∧
    (v = true ↔ a.id = b.id ∧ a.SameOutline b ∧ a.SamePlaces (·.markers) b) := by
  obtain ⟨v, hv, hiff⟩ := ha.compared hb (·.markers) (decide (a.id = b.id)) (p := Place.agrees)
    fun x y => by
      rw [Place.agrees, Bool.and_eq_true, decide_eq_true_iff, decide_eq_true_iff, Prod.mk.injEq]
  exact ⟨v, hv, hiff.trans (and_congr_left' decide_eq_true_iff)⟩

/-- Agreement up to markers of nets whose nodes are told apart by identifiers. -/
theorem agreesUpToMarkers : ∃ v, a.agreesUpToMarkers b = .ok v ∧
    (v = true ↔ a.SameOutline b ∧ a.SamePlaces (·.kind) b) := by
  obtain ⟨v, hv, hiff⟩ := ha.compared hb (·.kind) true (p := Place.agreesUpToMarkers)
    fun x y => by
      rw [Place.agreesUpToMarkers, Bool.and_eq_true, decide_eq_true_iff, decide_eq_true_iff,
        Prod.mk.injEq]
  exact ⟨v, hv, hiff.trans (and_iff_right rfl)⟩

theorem agrees_iff : a.agrees b = .ok true ↔
    a.id = b.id ∧ a.SameOutline b ∧ a.SamePlaces (·.markers) b := by
  obtain ⟨v, hv, hiff⟩ := ha.agrees hb
  rw [hv, Except.ok.injEq, hiff]

theorem agreesUpToMarkers_iff : a.agreesUpToMarkers b = .ok true ↔
    a.SameOutline b ∧ a.SamePlaces (·.kind) b := by
  obtain ⟨v, hv, hiff⟩ := ha.agreesUpToMarkers hb
  rw [hv, Except.ok.injEq, hiff]

end Identified

/-! ## Agreement is reordering -/

section

variable (ha : a.Unambiguous) (hb : b.Unambiguous)

include ha hb

/-- Where arcs are told apart, too, it does not matter how often they are counted. -/
theorem Unambiguous.reorders_iff :
    a.Reorders content b ↔ a.SameOutline b ∧ a.SamePlaces content b := by
  have hplaces := perm_map_content_iff content ha.placeIds hb.placeIds
  have harcs := List.perm_ext_iff_of_nodup ha.nodup_arcKeys hb.nodup_arcKeys
  constructor
  · intro h
    obtain ⟨hids, hcontent⟩ := hplaces.mp h.places
    exact ⟨⟨hids, h.transitions, harcs.mp h.arcs⟩, hcontent⟩
  · rintro ⟨h, hcontent⟩
    exact ⟨hplaces.mpr ⟨h.places, hcontent⟩, h.transitions, harcs.mpr h.arcs⟩

/-- **Agreement of nets without ambiguity**: it has an answer, and says that the nets have the same
identifier and the same nodes, markers and arcs in some order. -/
theorem Unambiguous.agrees : ∃ r, a.agrees b = .ok r ∧
    (r = true ↔ a.id = b.id ∧ a.Reorders (·.markers) b) := by
  rw [ha.reorders_iff hb]
  exact ha.identified.agrees hb.identified

/-- **Agreement up to markers of nets without ambiguity.** -/
theorem Unambiguous.agreesUpToMarkers : ∃ r, a.agreesUpToMarkers b = .ok r ∧
    (r = true ↔ a.Reorders (·.kind) b) := by
  rw [ha.reorders_iff hb]
  exact ha.identified.agreesUpToMarkers hb.identified

theorem Unambiguous.agrees_iff :
    a.agrees b = .ok true ↔ a.id = b.id ∧ a.Reorders (·.markers) b := by
  rw [ha.reorders_iff hb]
  exact ha.identified.agrees_iff hb.identified

theorem Unambiguous.agreesUpToMarkers_iff :
    a.agreesUpToMarkers b = .ok true ↔ a.Reorders (·.kind) b := by
  rw [ha.reorders_iff hb]
  exact ha.identified.agreesUpToMarkers_iff hb.identified

end

end Net

end RoutePolicy
