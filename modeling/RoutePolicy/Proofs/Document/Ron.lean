import RoutePolicy.Document.Format
import RoutePolicy.Proofs.Document.Json
import RoutePolicy.Proofs.Ron.RoundTrip

set_option autoImplicit false

/-! # The object notation keeps documents

A value denotes a document if it is of the form in which the document is written (`Ron.Denotes`). It
shows the document where its reader has enabled nothing and may enter all its levels
(`Ron.Located.Shows`). So the object notation keeps documents (`Ron.Located.keeps`). -/

namespace RoutePolicy

/-! ## Levels -/

namespace Document

theorem levelsOfItems_le_iff {items : List Document} {n : Nat} :
    levelsOfItems items ≤ n ↔ ∀ item ∈ items, item.levels ≤ n := by
  induction items with
  | nil => simp [levelsOfItems]
  | cons item items ih => simp [levelsOfItems, ih]

theorem levelsOfFields_le_iff {fields : List (String × Document)} {n : Nat} :
    levelsOfFields fields ≤ n ↔ ∀ field ∈ fields, field.2.levels ≤ n := by
  induction fields with
  | nil => simp [levelsOfFields]
  | cons field fields ih => simp [levelsOfFields, ih]

theorem areWritable_iff {items : List Document} :
    AreWritable items ↔ ∀ item ∈ items, item.IsWritable := by
  induction items with
  | nil => simp [AreWritable]
  | cons item items ih => simp [AreWritable, ih]

theorem fieldsAreWritable_iff {fields : List (String × Document)} : FieldsAreWritable fields ↔
    ∀ field ∈ fields, Ron.isName field.1 = true ∧ field.2.IsWritable := by
  induction fields with
  | nil => simp [FieldsAreWritable]
  | cons field fields ih => simp [FieldsAreWritable, ih, and_assoc]

/-- The document can be written, and has so many levels at most. -/
structure WritableIn (d : Document) (n : Nat) : Prop where
  isWritable : d.IsWritable
  levels_le : d.levels ≤ n

theorem WritableIn.mono {d : Document} {m n : Nat} (h : d.WritableIn m) (hle : m ≤ n) :
    d.WritableIn n :=
  ⟨h.isWritable, h.levels_le.trans hle⟩

theorem writableIn_text (s : String) (n : Nat) : (Document.text s).WritableIn n :=
  ⟨trivial, Nat.zero_le n⟩

theorem writableIn_word {name : String} (h : Ron.isPlainName name = true) :
    (Document.word name).WritableIn 2 :=
  ⟨h, Nat.le_refl 2⟩

theorem writableIn_list {items : List Document} {n : Nat} (h : ∀ item ∈ items, item.WritableIn n) :
    (Document.list items).WritableIn (n + 2) where
  isWritable := areWritable_iff.mpr fun item hitem => (h item hitem).isWritable
  levels_le := Nat.add_le_add_right
    (levelsOfItems_le_iff.mpr fun item hitem => (h item hitem).levels_le) 2

theorem writableIn_record {fields : List (String × Document)} {n : Nat} (hne : fields ≠ [])
    (h : ∀ field ∈ fields, Ron.isName field.1 = true ∧ field.2.WritableIn n) :
    (Document.record fields).WritableIn (n + 2) where
  isWritable := ⟨hne, fieldsAreWritable_iff.mpr fun field hfield =>
    ⟨(h field hfield).1, (h field hfield).2.isWritable⟩⟩
  levels_le := Nat.add_le_add_right
    (levelsOfFields_le_iff.mpr fun field hfield => (h field hfield).2.levels_le) 2

theorem writableIn_documents {α : Type} [Documented α] {l : List α} {n : Nat}
    (h : ∀ a ∈ l, (document a).WritableIn n) : (document l).WritableIn (n + 2) :=
  writableIn_list (List.forall_mem_map.mpr h)

theorem writableIn_option {α : Type} [Documented α] {o : Option α} {n : Nat}
    (h : ∀ a ∈ o, (document a).WritableIn n) : (document o).WritableIn (n + 1) := by
  cases o with
  | none => exact ⟨trivial, Nat.zero_le _⟩
  | some a => exact ⟨(h a rfl).isWritable, Nat.add_le_add_right (h a rfl).levels_le 1⟩

mutual

/-- JSON nests no deeper. -/
theorem nesting_le_levels : ∀ d : Document, d.toJson.nesting ≤ d.levels
  | .text _ | .count _ | .flag _ | .absent => Nat.zero_le _
  | .word _ => Nat.zero_le _
  | .present d => (nesting_le_levels d).trans (Nat.le_succ _)
  | .wrapped d => (nesting_le_levels d).trans (Nat.le_succ _)
  | .list items => by
      have hitems := nestingOfItems_le_levels items
      simp only [toJson, Json.nesting, levels]
      omega
  | .record fields => by
      have hfields := nestingOfMembers_le_levels fields
      simp only [toJson, Json.nesting, levels]
      omega
  | .case _ d => by
      have hd := nesting_le_levels d
      simp only [toJson, Json.nesting, Json.nestingOfMembers, levels]
      omega
  | .recordCase _ fields => by
      have hfields := nestingOfMembers_le_levels fields
      simp only [toJson, Json.nesting, Json.nestingOfMembers, levels]
      omega

theorem nestingOfItems_le_levels : ∀ items : List Document,
    Json.nestingOfItems (toJsonItems items) ≤ levelsOfItems items
  | [] => Nat.le_refl 0
  | item :: items => by
      have hitem := nesting_le_levels item
      have hitems := nestingOfItems_le_levels items
      simp only [toJsonItems, Json.nestingOfItems, levelsOfItems]
      omega

theorem nestingOfMembers_le_levels : ∀ fields : List (String × Document),
    Json.nestingOfMembers (toJsonMembers fields) ≤ levelsOfFields fields
  | [] => Nat.le_refl 0
  | (_, value) :: fields => by
      have hvalue := nesting_le_levels value
      have hfields := nestingOfMembers_le_levels fields
      simp only [toJsonMembers, Json.nestingOfMembers, levelsOfFields]
      omega

end

end Document

namespace Ron

namespace Located

/-! ## What a value shows -/

/-- The reader of the value has enabled nothing, and knows where the value begins and what it is. -/
structure Plain (v : Located) : Prop where
  extensions_eq : v.extensions = .none
  not_opened : v.opened = false
  not_held : v.held = false

/-- The value denotes the document, and its reader, who has enabled nothing, may enter all levels. -/
structure Shows (v : Located) (d : Document) : Prop extends v.Plain where
  denotes : Denotes v.value d
  levels_le : d.levels ≤ v.depth

variable {v : Located}

theorem Shows.exists_eq {d : Document} (h : v.Shows d) :
    ∃ r depth, v = ⟨r, .none, depth, false, false⟩ ∧ Denotes r d ∧ d.levels ≤ depth := by
  obtain ⟨r, extensions, depth, opened, held⟩ := v
  obtain ⟨⟨rfl, rfl, rfl⟩, hr, hlevels⟩ := h
  exact ⟨r, depth, rfl, hr, hlevels⟩

/-- A part shows what it denotes. -/
theorem Plain.part (h : v.Plain) {n : Nat} {r : Ron} {d : Document} (hr : Denotes r d)
    (hlevels : d.levels + n ≤ v.depth) : ∃ w, v.part? n r = some w ∧ w.Shows d :=
  ⟨_, if_pos (by omega), ⟨h.extensions_eq, rfl, h.not_held⟩, hr, Nat.le_sub_of_add_le hlevels⟩

theorem Plain.items (h : v.Plain) {rs : List Ron} {items : List Document}
    (hrs : List.Forall₂ Denotes rs items) (hlevels : Document.levelsOfItems items + 2 ≤ v.depth) :
    ∃ ws, rs.mapM (v.part? 2) = some ws ∧ List.Forall₂ Shows ws items := by
  induction hrs with
  | nil => exact ⟨[], rfl, .nil⟩
  | cons hr hrs ih =>
      rw [Document.levelsOfItems] at hlevels
      obtain ⟨w, hw, hshows⟩ := h.part (n := 2) hr (by omega)
      obtain ⟨ws, hws, hshow⟩ := ih (by omega)
      refine ⟨w :: ws, ?_, .cons hshows hshow⟩
      rw [List.mapM_cons, hws]
      exact bind_eq_some hw rfl

theorem Plain.parts (h : v.Plain) : ∀ {parts : List (String × Ron)}
    {fields : List (String × Document)}, FieldsDenote parts fields →
    Document.levelsOfFields fields + 2 ≤ v.depth →
    ∃ located, (parts.mapM fun (key, value) => do return (key, ← v.part? 2 value)) = some located ∧
      PartsShow Shows located fields
  | _, _, .nil, _ => ⟨[], rfl, .nil⟩
  | (key, _) :: _, _, .cons hr hparts, hlevels => by
      rw [Document.levelsOfFields] at hlevels
      obtain ⟨w, hw, hshows⟩ := h.part (n := 2) hr (by omega)
      obtain ⟨located, hlocated, hshow⟩ := h.parts hparts (by omega)
      refine ⟨(key, w) :: located, ?_, .cons ⟨rfl, hshows⟩ hshow⟩
      rw [List.mapM_cons, hlocated]
      exact bind_eq_some (bind_eq_some hw rfl) rfl

/-- The fields of a record are found. -/
theorem Plain.fields (h : v.Plain) {parts : List (String × Ron)}
    {fields : List (String × Document)} (hparts : FieldsDenote parts fields)
    (hlevels : Document.levelsOfFields fields + 2 ≤ v.depth) {names : List String}
    (hnames : fields.map Prod.fst = names) (hnodup : names.Nodup) :
    ∃ found, v.fields? names parts = some found ∧ found.Show Shows fields := by
  obtain ⟨located, hlocated, hshow⟩ := h.parts hparts hlevels
  have hfst := hshow.map_fst.trans hnames
  refine ⟨⟨located, true⟩, ?_, hshow.show true⟩
  rw [fields?, if_neg (by omega)]
  refine bind_eq_some hlocated ?_
  rw [if_pos]
  · exact Fields.ofNamed_eq hfst hnodup
  · -- every key is one of the names
    refine List.all_eq_true.mpr fun part hpart => Bool.or_eq_true_iff.mpr (Or.inl ?_)
    exact decide_eq_true (hfst ▸ List.mem_map_of_mem hpart)

/-- **The object notation keeps documents.** -/
theorem keeps : Keeps Shows where
  text {v s} h := by
    obtain ⟨r, depth, rfl, hr, -⟩ := h.exists_eq
    cases hr
    rfl
  count {v n bits} hn h := by
    obtain ⟨r, depth, rfl, hr, -⟩ := h.exists_eq
    cases hr
    exact if_pos (decide_eq_true hn)
  flag {v b} h := by
    obtain ⟨r, depth, rfl, hr, -⟩ := h.exists_eq
    cases hr
    cases b <;> rfl
  absent {v} h := by
    obtain ⟨r, depth, rfl, hr, -⟩ := h.exists_eq
    cases hr
    rfl
  present {v d} _ h := by
    obtain ⟨r, depth, rfl, hr, hlevels⟩ := h.exists_eq
    cases hr with
    | present outlook hr =>
        obtain ⟨w, hw, hshows⟩ := h.part (n := 1) hr hlevels
        exact ⟨w, bind_eq_some hw rfl, hshows⟩
  list {v items} h := by
    obtain ⟨r, depth, rfl, hr, hlevels⟩ := h.exists_eq
    cases hr with
    | list hrs =>
        obtain ⟨ws, hws, hshow⟩ := h.items hrs hlevels
        have hdepth : depth ≠ 0 := by
          rw [Document.levels] at hlevels
          omega
        exact ⟨ws, (if_neg hdepth).trans hws, hshow⟩
  record {v fields} typeName names hnames hnodup h := by
    obtain ⟨r, depth, rfl, hr, hlevels⟩ := h.exists_eq
    cases hr with
    | record hparts => exact h.fields hparts hlevels hnames hnodup
  wrapped {v d} typeName h := by
    obtain ⟨r, depth, rfl, hr, hlevels⟩ := h.exists_eq
    cases hr with
    | wrapped hr => exact h.part hr hlevels
  word {v name} h := by
    obtain ⟨r, depth, rfl, hr, hlevels⟩ := h.exists_eq
    cases hr
    exact if_pos hlevels
  case {v name d} h := by
    obtain ⟨r, depth, rfl, hr, hlevels⟩ := h.exists_eq
    cases hr with
    | case _ hr =>
        obtain ⟨w, hw, hshows⟩ := h.part (n := 2) hr hlevels
        refine ⟨⟨w, (if_pos rfl).trans hw, hshows⟩, fun other hother => if_neg ?_⟩
        exact fun heq => hother (Option.some_inj.mp heq).symm
  recordCase {v name fields} names hnames hnodup h := by
    obtain ⟨r, depth, rfl, hr, hlevels⟩ := h.exists_eq
    cases hr with
    | @recordCase parts _ _ hparts =>
        rw [Document.levels] at hlevels
        -- the case takes a level of its own before its fields are looked at
        let inner : Located := ⟨.record (some ⟨name, false⟩) parts, .none, depth - 1, false, false⟩
        obtain ⟨found, hfound, hshow⟩ := Plain.fields (v := inner) ⟨rfl, rfl, rfl⟩ hparts
          (Nat.le_sub_of_add_le hlevels) hnames hnodup
        refine ⟨rfl, found, (if_pos rfl).trans (bind_eq_some ?_ hfound), hshow⟩
        exact if_pos (by show 1 ≤ depth; omega)

end Located

end Ron

section

variable {α : Type} [Documented α]

/-- **What is read from the document of a value is read from its text**, unless it has too many
levels. -/
theorem ofRonText?_toRonText {a b : α} (hwritable : (document a).IsWritable)
    (hread : ∀ v : Ron.Located, v.Shows (document a) → read? v = some b)
    (hlevels : (document a).levels ≤ Ron.maxDepth) : ofRonText? (toRonText a) = some b := by
  have hnesting : (document a).levels ≤ Ron.maxNesting := hlevels.trans (by decide)
  obtain ⟨r, hr, hdenotes⟩ := Ron.exists_parse_print hwritable hnesting
  exact bind_eq_some hr (hread _ ⟨⟨rfl, rfl, rfl⟩, hdenotes, hlevels⟩)

end

end RoutePolicy
