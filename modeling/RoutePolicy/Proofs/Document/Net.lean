import Mathlib.Data.Option.Basic
import RoutePolicy.Document.Net
import RoutePolicy.Proofs.Document.Ron

set_option autoImplicit false

/-! # Nets are read back with new tables

Nodes, arcs and contexts are read from what shows their documents, as far as their numbers fit the
bits in which they are kept (`Net.Fits`). The tables of a net are not written, so what is read is the
net with the tables that follow from its nodes (`read?_net`). -/

namespace RoutePolicy

/-- The count of a place and the numbers of its arcs fit the bits in which they are kept. -/
structure Place.Fits (p : Place) : Prop where
  markers : p.markers < countRange
  incoming : ∀ a ∈ p.incoming, a.index < handleRange
  outgoing : ∀ a ∈ p.outgoing, a.index < handleRange

/-- The numbers of the arcs at a transition fit the bits in which they are kept. -/
structure Transition.Fits (t : Transition) : Prop where
  incoming : ∀ a ∈ t.incoming, a.index < handleRange
  outgoing : ∀ a ∈ t.outgoing, a.index < handleRange

/-- The numbers of the ends of an arc fit the bits in which they are kept. -/
structure Arc.Fits (a : Arc) : Prop where
  source : a.source.index < handleRange
  target : a.target.index < handleRange

/-- All counts and numbers in the net fit the bits in which they are kept. -/
structure Net.Fits (net : Net) : Prop where
  places : ∀ p ∈ net.places.toList, p.Fits
  transitions : ∀ t ∈ net.transitions.toList, t.Fits
  arcs : ∀ a ∈ net.arcs.toList, a.Fits

section

variable {σ : Type} [Source σ] {Shows : σ → Document → Prop} (h : Keeps Shows)

include h

/-! ## Contexts -/

theorem returns_role : ∀ r : Role, Returns Shows r :=
  returns_of_readWord h (fun _ => rfl) (fun _ => rfl) (by rintro ⟨⟩ <;> rfl)

theorem returns_context (c : Context) : Returns Shows c := by
  intro v hv
  obtain ⟨fields, hread, hshow⟩ := h.record "Context" ["tags", "read", "write", "erase", "kind"] rfl
    (by decide) hv
  have htags := hshow.required "tags" rfl (returns_nameSet h c.tags)
  have hreads := hshow.required "read" rfl (returns_nameSet h c.read)
  have hwrites := hshow.required "write" rfl (returns_nameSet h c.write)
  have herases := hshow.required "erase" rfl (returns_nameSet h c.erase)
  have hrole := hshow.required "kind" rfl (returns_role h c.role)
  exact bind_eq_some hread (bind_eq_some htags (bind_eq_some hreads (bind_eq_some hwrites
    (bind_eq_some herases (bind_eq_some hrole rfl)))))

/-! ## Nodes and arcs -/

theorem returns_arcId {a : ArcId} (ha : a.index < handleRange) : Returns Shows a :=
  fun _ hv => read?_index h ha "ArcId" hv

/-- A node is read under the name of its kind, and not under the other one. -/
theorem returns_node {n : Node} (hn : n.index < handleRange) : Returns Shows n := by
  intro v hv
  obtain ⟨kind, index⟩ := n
  obtain ⟨⟨w, hcase, hw⟩, hother⟩ := h.case hv
  have hhandle : (read? w : Option (Handle kind)) = some ⟨index⟩ :=
    read?_index h (i := (⟨index⟩ : Handle kind)) hn kind.numberType hw
  have hkind : (do
      let found : Handle kind ← read? (← Source.case? kind.caseName v)
      return found.node) = some (⟨kind, index⟩ : Node) :=
    bind_eq_some hcase (bind_eq_some hhandle rfl)
  cases kind with
  | place => exact (Option.orElse_eq_some _ _ _).mpr (Or.inl hkind)
  | transition =>
      have hne : Kind.place.caseName ≠ Kind.transition.caseName := by decide
      have hplace : Source.case? Kind.place.caseName v = none := hother _ hne
      refine (Option.orElse_eq_some _ _ _).mpr (Or.inr ⟨?_, hkind⟩)
      exact congrArg (Option.bind · _) hplace

theorem returns_arc {a : Arc} (ha : a.Fits) : Returns Shows a := by
  intro v hv
  obtain ⟨fields, hread, hshow⟩ := h.record "Arc" ["source", "target"] rfl (by decide) hv
  have hsource := hshow.required "source" rfl (returns_node h ha.source)
  have htarget := hshow.required "target" rfl (returns_node h ha.target)
  exact bind_eq_some hread (bind_eq_some hsource (bind_eq_some htarget rfl))

theorem returns_placeKind (k : PlaceKind) : Returns Shows k := by
  intro v hv
  cases k with
  | plain => exact (Option.orElse_eq_some _ _ _).mpr (Or.inl (readWord?_eq h hv))
  | inner origin =>
      obtain ⟨hword, fields, hread, hshow⟩ := h.recordCase ["origin"] rfl (by decide) hv
      have horigin := hshow.required "origin" rfl (returns_string h origin)
      refine (Option.orElse_eq_some _ _ _).mpr (Or.inr ⟨?_, ?_⟩)
      · exact congrArg (Option.bind · _) hword
      · exact bind_eq_some hread (bind_eq_some horigin rfl)

theorem returns_place {p : Place} (hp : p.Fits) : Returns Shows p := by
  intro v hv
  obtain ⟨fields, hread, hshow⟩ := h.record "Place"
    ["id", "markers", "kind", "incoming", "outgoing"] rfl (by decide) hv
  have hid := hshow.required "id" rfl (returns_string h p.id)
  have hmarkers := hshow.required "markers" rfl (returns_count h hp.markers)
  have hkind := hshow.required "kind" rfl (returns_placeKind h p.kind)
  have hincoming := hshow.required "incoming" rfl
    (returns_list h fun a ha => returns_arcId h (hp.incoming a ha))
  have houtgoing := hshow.required "outgoing" rfl
    (returns_list h fun a ha => returns_arcId h (hp.outgoing a ha))
  exact bind_eq_some hread (bind_eq_some hid (bind_eq_some hmarkers (bind_eq_some hkind
    (bind_eq_some hincoming (bind_eq_some houtgoing rfl)))))

theorem returns_transition {t : Transition} (ht : t.Fits) : Returns Shows t := by
  intro v hv
  obtain ⟨fields, hread, hshow⟩ := h.record "Transition" ["id", "context", "incoming", "outgoing"]
    rfl (by decide) hv
  have hid := hshow.required "id" rfl (returns_string h t.id)
  have hcontext := hshow.optional "context" rfl
    (returns_option h (o := t.context) (fun c _ => returns_context h c) fun _ => rfl)
  have hincoming := hshow.required "incoming" rfl
    (returns_list h fun a ha => returns_arcId h (ht.incoming a ha))
  have houtgoing := hshow.required "outgoing" rfl
    (returns_list h fun a ha => returns_arcId h (ht.outgoing a ha))
  exact bind_eq_some hread (bind_eq_some hid (bind_eq_some hcontext
    (bind_eq_some hincoming (bind_eq_some houtgoing rfl))))

/-! ## Nets -/

/-- **A net is read back with the tables that follow from its nodes.** -/
theorem read?_net {net : Net} (hnet : net.Fits) {v : σ} (hv : Shows v (document net)) :
    read? v = some net.reindex := by
  obtain ⟨fields, hread, hshow⟩ := h.record "NetDocument" ["id", "places", "transitions", "arcs"]
    rfl (by decide) hv
  have hid := hshow.required "id" rfl (returns_string h net.id)
  have hplaces := hshow.required "places" rfl
    (returns_arena h fun p hp => returns_place h (hnet.places p hp))
  have htransitions := hshow.required "transitions" rfl
    (returns_arena h fun t ht => returns_transition h (hnet.transitions t ht))
  have harcs := hshow.required "arcs" rfl
    (returns_arena h fun a ha => returns_arc h (hnet.arcs a ha))
  exact bind_eq_some hread (bind_eq_some hid (bind_eq_some hplaces (bind_eq_some htransitions
    (bind_eq_some harcs rfl))))

end

/-! ## Texts -/

theorem writableIn_index {ι : Type} [Index ι] (i : ι) : (Index.document i).WritableIn 1 :=
  ⟨trivial, Nat.le_refl 1⟩

theorem writableIn_nameSet (s : NameSet) : (document s).WritableIn 2 :=
  Document.writableIn_documents fun s _ => Document.writableIn_text s 0

theorem writableIn_arcIds (l : List ArcId) : (document l).WritableIn 3 :=
  Document.writableIn_documents fun a _ => writableIn_index a

theorem writableIn_node (n : Node) : (document n).WritableIn 3 := by
  have hname : ∀ k : Kind, Ron.isPlainName k.caseName = true ∧ k.caseName ≠ "Some" := by
    rintro ⟨⟩ <;> decide
  exact ⟨⟨(hname n.kind).1, (hname n.kind).2, trivial⟩, Nat.le_refl 3⟩

theorem writableIn_arc (a : Arc) : (document a).WritableIn 5 := by
  refine Document.writableIn_record (by simp) ?_
  simp only [List.forall_mem_cons]
  exact ⟨⟨by decide, writableIn_node a.source⟩, ⟨by decide, writableIn_node a.target⟩,
    List.forall_mem_nil _⟩

theorem writableIn_placeKind (k : PlaceKind) : (document k).WritableIn 3 := by
  cases k with
  | plain => exact (Document.writableIn_word (by decide)).mono (by decide)
  | inner origin =>
      exact ⟨⟨by decide, by simp, ⟨by decide, trivial, trivial⟩⟩, Nat.le_refl 3⟩

theorem writableIn_place (p : Place) : (document p).WritableIn 5 := by
  refine Document.writableIn_record (by simp) ?_
  simp only [List.forall_mem_cons]
  exact ⟨⟨by decide, Document.writableIn_text p.id 3⟩, ⟨by decide, trivial, Nat.zero_le 3⟩,
    ⟨by decide, writableIn_placeKind p.kind⟩, ⟨by decide, writableIn_arcIds p.incoming⟩,
    ⟨by decide, writableIn_arcIds p.outgoing⟩, List.forall_mem_nil _⟩

theorem writableIn_role (r : Role) : (document r).WritableIn 2 := by
  have hname : ∀ r : Role, Ron.isPlainName r.word = true := by rintro ⟨⟩ <;> decide
  exact Document.writableIn_word (hname r)

theorem writableIn_context (c : Context) : (document c).WritableIn 4 := by
  refine Document.writableIn_record (by simp) ?_
  simp only [List.forall_mem_cons]
  exact ⟨⟨by decide, writableIn_nameSet c.tags⟩, ⟨by decide, writableIn_nameSet c.read⟩,
    ⟨by decide, writableIn_nameSet c.write⟩, ⟨by decide, writableIn_nameSet c.erase⟩,
    ⟨by decide, writableIn_role c.role⟩, List.forall_mem_nil _⟩

theorem writableIn_transition (t : Transition) : (document t).WritableIn 7 := by
  have harcs (l : List ArcId) : (document l).WritableIn 5 := (writableIn_arcIds l).mono (by decide)
  refine Document.writableIn_record (by simp) ?_
  simp only [List.forall_mem_cons]
  exact ⟨⟨by decide, Document.writableIn_text t.id 5⟩,
    ⟨by decide, Document.writableIn_option fun c _ => writableIn_context c⟩,
    ⟨by decide, harcs t.incoming⟩, ⟨by decide, harcs t.outgoing⟩, List.forall_mem_nil _⟩

theorem writableIn_net (net : Net) : (document net).WritableIn 11 := by
  have hplaces : (document net.places).WritableIn 7 :=
    Document.writableIn_documents fun p _ => writableIn_place p
  have htransitions : (document net.transitions).WritableIn 9 :=
    Document.writableIn_documents fun t _ => writableIn_transition t
  have harcs : (document net.arcs).WritableIn 7 :=
    Document.writableIn_documents fun a _ => writableIn_arc a
  refine Document.writableIn_record (by simp) ?_
  simp only [List.forall_mem_cons]
  exact ⟨⟨by decide, Document.writableIn_text net.id 9⟩, ⟨by decide, hplaces.mono (by decide)⟩,
    ⟨by decide, htransitions⟩, ⟨by decide, harcs.mono (by decide)⟩, List.forall_mem_nil _⟩

/-- **A net is read back from its text with the tables that follow from its nodes**, in either
notation. -/
theorem Format.read?_write_net {net : Net} (hnet : net.Fits) (f : Format) :
    f.read? (f.write net) = some net.reindex := by
  obtain ⟨hwritable, hlevels⟩ := writableIn_net net
  cases f with
  | json =>
      have hdepth : (document net).toJson.nesting < Json.Located.maxDepth :=
        Nat.lt_of_le_of_lt ((document net).nesting_le_levels.trans hlevels) (by decide)
      exact ofJsonText?_toJsonText (fun _ => read?_net Json.Located.keeps hnet) hdepth
  | ron =>
      exact ofRonText?_toRonText hwritable (fun _ => read?_net Ron.Located.keeps hnet)
        (hlevels.trans (by decide))

end RoutePolicy
