import RoutePolicy.Document.Format
import RoutePolicy.Proofs.Document.Notation
import RoutePolicy.Proofs.Json.RoundTrip

set_option autoImplicit false

/-! # JSON keeps documents

A JSON value shows a document if it is the value written for it and nests no deeper than its reader
may enter (`Json.Located.Shows`). JSON keeps documents (`Json.Located.keeps`), also records that say
themselves which fields they have (`Json.Located.exists_tagged`). As JSON text is read as it was
written, a value is read back from its text (`ofJsonText?_toJsonText`). -/

namespace RoutePolicy

namespace Json

/-! ## Nesting -/

mutual

/-- The lists and objects of a value that lie one in another. -/
def nesting : Json → Nat
  | .list items => nestingOfItems items + 1
  | .object members => nestingOfMembers members + 1
  | _ => 0

def nestingOfItems : List Json → Nat
  | [] => 0
  | item :: items => max (nesting item) (nestingOfItems items)

def nestingOfMembers : List (Option String × Json) → Nat
  | [] => 0
  | (_, value) :: members => max (nesting value) (nestingOfMembers members)

end

theorem nestingOfItems_le_iff {items : List Json} {n : Nat} :
    nestingOfItems items ≤ n ↔ ∀ item ∈ items, item.nesting ≤ n := by
  induction items with
  | nil => simp [nestingOfItems]
  | cons item items ih => simp [nestingOfItems, ih]

theorem nestingOfMembers_le_iff {members : List (Option String × Json)} {n : Nat} :
    nestingOfMembers members ≤ n ↔ ∀ member ∈ members, member.2.nesting ≤ n := by
  induction members with
  | nil => simp [nestingOfMembers]
  | cons member members ih => simp [nestingOfMembers, ih]

end Json

namespace Document

theorem toJsonItems_eq (items : List Document) : toJsonItems items = items.map toJson := by
  induction items with
  | nil => rfl
  | cons item items ih => rw [toJsonItems, ih, List.map_cons]

theorem toJsonMembers_eq (fields : List (String × Document)) :
    toJsonMembers fields = fields.map fun field => (some field.1, toJson field.2) := by
  induction fields with
  | nil => rfl
  | cons field fields ih => rw [toJsonMembers, ih, List.map_cons]

theorem nesting_list_le_iff {items : List Document} {n : Nat} :
    (Document.list items).toJson.nesting ≤ n + 1 ↔ ∀ item ∈ items, item.toJson.nesting ≤ n := by
  rw [toJson, Json.nesting, Nat.add_le_add_iff_right, toJsonItems_eq, Json.nestingOfItems_le_iff,
    List.forall_mem_map]

theorem nesting_record_le_iff {fields : List (String × Document)} {n : Nat} :
    (Document.record fields).toJson.nesting ≤ n + 1
      ↔ ∀ field ∈ fields, field.2.toJson.nesting ≤ n := by
  rw [toJson, Json.nesting, Nat.add_le_add_iff_right, toJsonMembers_eq,
    Json.nestingOfMembers_le_iff, List.forall_mem_map]

theorem nesting_documents_le {α : Type} [Documented α] {l : List α} {n : Nat}
    (h : ∀ a ∈ l, (document a).toJson.nesting ≤ n) : (document l).toJson.nesting ≤ n + 1 :=
  nesting_list_le_iff.mpr (List.forall_mem_map.mpr h)

theorem nesting_option_le {α : Type} [Documented α] {o : Option α} {n : Nat}
    (h : ∀ a ∈ o, (document a).toJson.nesting ≤ n) : (document o).toJson.nesting ≤ n := by
  cases o with
  | none => exact Nat.zero_le n
  | some a => exact h a rfl

/-- Only what shows nothing of its own is written as nothing. -/
theorem toJson_ne_null : ∀ {d : Document}, d.isNull = false → d.toJson ≠ .null
  | .text _, _ => by simp [toJson, Json.ofText]
  | .count _, _ => by simp [toJson, Json.ofNat]
  | .flag _, _ => by simp [toJson]
  | .present d, h => by
      rw [toJson]
      exact toJson_ne_null (d := d) h
  | .list _, _ => by simp [toJson]
  | .record _, _ => by simp [toJson]
  | .wrapped d, h => by
      rw [toJson]
      exact toJson_ne_null (d := d) h
  | .word _, _ => by simp [toJson, Json.ofText]
  | .case _ _, _ => by simp [toJson]
  | .recordCase _ _, _ => by simp [toJson]

mutual

/-- All texts of a document are readable. -/
theorem isLegible_toJson : ∀ d : Document, Json.IsLegible d.toJson
  | .text _ => by simp [toJson, Json.ofText, Json.IsLegible]
  | .count _ => by simp [toJson, Json.ofNat, Json.IsLegible]
  | .flag _ => by simp [toJson, Json.IsLegible]
  | .absent => by simp [toJson, Json.IsLegible]
  | .present d => by
      rw [toJson]
      exact isLegible_toJson d
  | .list items => by
      rw [toJson, Json.IsLegible]
      exact areLegible_toJsonItems items
  | .record fields => by
      rw [toJson, Json.IsLegible]
      exact membersAreLegible_toJsonMembers fields
  | .wrapped d => by
      rw [toJson]
      exact isLegible_toJson d
  | .word _ => by simp [toJson, Json.ofText, Json.IsLegible]
  | .case _ d => by
      simp only [toJson, Json.IsLegible, Json.MembersAreLegible]
      exact ⟨rfl, isLegible_toJson d, trivial⟩
  | .recordCase _ fields => by
      simp only [toJson, Json.IsLegible, Json.MembersAreLegible]
      exact ⟨rfl, membersAreLegible_toJsonMembers fields, trivial⟩

theorem areLegible_toJsonItems : ∀ items : List Document, Json.AreLegible (toJsonItems items)
  | [] => trivial
  | item :: items => ⟨isLegible_toJson item, areLegible_toJsonItems items⟩

theorem membersAreLegible_toJsonMembers :
    ∀ fields : List (String × Document), Json.MembersAreLegible (toJsonMembers fields)
  | [] => trivial
  | (_, value) :: fields => ⟨rfl, isLegible_toJson value, membersAreLegible_toJsonMembers fields⟩

end

end Document

namespace Json.Located

/-! ## What a value shows -/

/-- The value is written for the document, and its reader may enter all that is nested in it. -/
structure Shows (v : Located) (d : Document) : Prop where
  value_eq : v.value = d.toJson
  nesting_lt : v.value.nesting < v.depth

variable {v : Located}

theorem Shows.exists_eq {d : Document} (h : v.Shows d) : ∃ depth, v = ⟨d.toJson, depth⟩ := by
  obtain ⟨value, depth⟩ := v
  exact ⟨depth, congrArg (Located.mk · depth) h.value_eq⟩

/-- A list or an object may be entered, and its parts nest less deeply. -/
theorem enter?_eq {n : Nat} (hnesting : v.value.nesting = n + 1)
    (hdepth : v.value.nesting < v.depth) :
    v.enter? = some (v.depth - 1) ∧ n < v.depth - 1 := by
  rw [enter?, if_neg (by omega)]
  exact ⟨rfl, by omega⟩

/-- The members that are written for fields show them. -/
theorem exists_members {fields : List (String × Document)}
    (hvalue : v.value = .object (Document.toJsonMembers fields))
    (hdepth : v.value.nesting < v.depth) :
    ∃ parts, v.members? = some parts ∧ PartsShow Shows parts fields := by
  have hnesting : v.value.nesting = nestingOfMembers (Document.toJsonMembers fields) + 1 := by
    rw [hvalue, nesting]
  obtain ⟨henter, hlt⟩ := enter?_eq hnesting hdepth
  rw [members?, hvalue]
  simp only [henter, Option.bind_eq_bind, Option.bind_some]
  clear hvalue hdepth hnesting henter
  generalize v.depth - 1 = depth at hlt ⊢
  induction fields with
  | nil => exact ⟨[], rfl, .nil⟩
  | cons field fields ih =>
      rw [Document.toJsonMembers, nestingOfMembers, Nat.max_lt] at hlt
      obtain ⟨parts, hparts, hshow⟩ := ih hlt.2
      refine ⟨(field.1, ⟨field.2.toJson, depth⟩) :: parts, ?_, .cons ⟨rfl, rfl, hlt.1⟩ hshow⟩
      rw [Document.toJsonMembers, List.mapM_cons, hparts]
      rfl

/-- The fields of a record are found. -/
theorem exists_record {fields : List (String × Document)}
    (hvalue : v.value = .object (Document.toJsonMembers fields))
    (hdepth : v.value.nesting < v.depth) {names : List String}
    (hnames : fields.map Prod.fst = names) (hnodup : names.Nodup) :
    ∃ found, v.record? names = some found ∧ found.Show Shows fields := by
  obtain ⟨parts, hparts, hshow⟩ := exists_members hvalue hdepth
  refine ⟨⟨parts, true⟩, ?_, hshow.show true⟩
  rw [record?, hvalue]
  exact bind_eq_some hparts (Fields.ofNamed_eq (hshow.map_fst.trans hnames) hnodup)

/-- The part of a case is found under its name. -/
theorem exists_case {name : String} {j : Json} (hvalue : v.value = .object [(some name, j)])
    (hdepth : v.value.nesting < v.depth) :
    ∃ part, v.case? = some (name, part) ∧ part.value = j ∧ j.nesting < part.depth := by
  have hnesting : v.value.nesting = nesting j + 1 := by
    rw [hvalue, nesting, nestingOfMembers, nestingOfMembers, Nat.max_zero]
  obtain ⟨henter, hlt⟩ := enter?_eq hnesting hdepth
  refine ⟨⟨j, v.depth - 1⟩, ?_, rfl, hlt⟩
  rw [case?, members?, hvalue]
  simp only [henter, Option.bind_eq_bind, Option.bind_some]
  rfl

/-- **JSON keeps documents.** -/
theorem keeps : Keeps Shows where
  text {v s} h := by
    obtain ⟨depth, rfl⟩ := h.exists_eq
    rfl
  count {v n bits} hn h := by
    obtain ⟨depth, rfl⟩ := h.exists_eq
    exact if_pos hn
  flag {v b} h := by
    obtain ⟨depth, rfl⟩ := h.exists_eq
    rfl
  absent {v} h := by
    obtain ⟨depth, rfl⟩ := h.exists_eq
    rfl
  present {v d} hnull h := by
    have hvalue : v.value = d.toJson := by rw [h.value_eq, Document.toJson]
    have hne : v.value ≠ .null := hvalue ▸ Document.toJson_ne_null hnull
    refine ⟨v, ?_, hvalue, h.nesting_lt⟩
    obtain ⟨value, depth⟩ := v
    cases value with
    | null => exact absurd rfl hne
    | _ => rfl
  list {v items} h := by
    have hvalue : v.value = .list (items.map Document.toJson) := by
      rw [h.value_eq, Document.toJson, Document.toJsonItems_eq]
    have hnesting : v.value.nesting = nestingOfItems (items.map Document.toJson) + 1 := by
      rw [hvalue, nesting]
    obtain ⟨henter, hlt⟩ := enter?_eq hnesting h.nesting_lt
    refine ⟨(items.map Document.toJson).map (⟨·, v.depth - 1⟩), ?_, ?_⟩
    · show v.items? = _
      rw [items?, hvalue]
      exact bind_eq_some henter rfl
    · rw [List.map_map, List.forall₂_map_left_iff, List.forall₂_same]
      intro item hitem
      refine ⟨rfl, Nat.lt_of_le_of_lt ?_ hlt⟩
      exact nestingOfItems_le_iff.mp (Nat.le_refl _) _ (List.mem_map_of_mem hitem)
  record {v fields} typeName names hnames hnodup h :=
    exists_record (h.value_eq.trans (by rw [Document.toJson])) h.nesting_lt hnames hnodup
  wrapped {v d} typeName h := ⟨v, rfl, by rw [h.value_eq, Document.toJson], h.nesting_lt⟩
  word {v name} h := by
    obtain ⟨depth, rfl⟩ := h.exists_eq
    rfl
  case {v name d} h := by
    obtain ⟨part, hcase, hvalue, hdepth⟩ :=
      exists_case (h.value_eq.trans (by rw [Document.toJson])) h.nesting_lt
    refine ⟨⟨part, bind_eq_some hcase (if_pos rfl), hvalue, hvalue ▸ hdepth⟩, fun other hother => ?_⟩
    exact (congrArg (Option.bind · _) hcase).trans (if_neg hother.symm)
  recordCase {v name fields} names hnames hnodup h := by
    obtain ⟨part, hcase, hvalue, hdepth⟩ :=
      exists_case (h.value_eq.trans (by rw [Document.toJson])) h.nesting_lt
    obtain ⟨found, hfound, hshow⟩ := exists_record hvalue (hvalue ▸ hdepth) hnames hnodup
    refine ⟨?_, found, bind_eq_some hcase ((if_pos rfl).trans hfound), hshow⟩
    show v.word? = none
    rw [word?, h.value_eq, Document.toJson]
    refine (congrArg (Option.bind · _) hcase).trans ?_
    obtain ⟨value, depth⟩ := part
    subst hvalue
    rfl

/-- A record that says in its first field which further ones it has. These are read beforehand, so
they have to be readable whatever they are. -/
theorem exists_tagged {tag word : String} {fields : List (String × Document)} {names : List String}
    (fieldNames : String → Option (List String))
    (h : Shows v (.record ((tag, .text word) :: fields))) (hword : fieldNames word = some names)
    (hnames : fields.map Prod.fst = names) (hnodup : names.Nodup) (htag : tag ∉ names)
    (hreadable : ∀ field ∈ fields, ∀ part, Shows part field.2 →
      Json.Located.isReadable part.depth part.value = true) :
    ∃ found, Source.tagged? tag fieldNames v = some (word, found) ∧ found.Show Shows fields := by
  have hvalue : v.value = .object (Document.toJsonMembers ((tag, .text word) :: fields)) :=
    h.value_eq.trans (by rw [Document.toJson])
  obtain ⟨parts, hparts, hshow⟩ := exists_members hvalue h.nesting_lt
  cases hshow with
  | @cons first _ rest _ hfirst hrest =>
      obtain ⟨key, value, depth⟩ := first
      obtain ⟨rfl, hfirst⟩ : key = tag ∧ Shows ⟨value, depth⟩ (.text word) := hfirst
      obtain rfl : value = .text (some word) := hfirst.value_eq
      have hrest : PartsShow Shows rest fields := hrest
      have hfst : rest.map Prod.fst = names := hrest.map_fst.trans hnames
      have hne : ∀ part ∈ rest, part.1 ≠ key := by
        rintro part hpart rfl
        exact htag (hfst ▸ List.mem_map_of_mem hpart)
      have hpartition : ((key, (⟨.text (some word), depth⟩ : Located)) :: rest).partition (·.1 = key)
          = ([(key, ⟨.text (some word), depth⟩)], rest) := by
        simp only [List.partition_eq_filter_filter, List.filter_cons, decide_true, if_true,
          Function.comp_apply, Bool.not_true, Bool.false_eq_true, if_false]
        rw [List.filter_eq_nil_iff.mpr fun part hpart => by simpa using hne part hpart,
          List.filter_eq_self.mpr fun part hpart => by simpa using hne part hpart]
      have hall : rest.all (fun part => Json.Located.isReadable part.2.depth part.2.value) = true := by
        refine List.all_eq_true.mpr fun part hpart => ?_
        obtain ⟨field, hfield, hshows⟩ := hrest.exists_of_mem hpart
        exact hreadable field hfield _ hshows
      refine ⟨⟨rest, true⟩, ?_, hrest.show true⟩
      show v.tagged? key fieldNames = _
      rw [tagged?, hvalue]
      refine bind_eq_some hparts ?_
      simp only [hpartition, hall, Bool.not_true, Bool.false_eq_true, if_false]
      exact bind_eq_some hword (bind_eq_some (Fields.ofNamed_eq hfst hnodup) rfl)

end Json.Located

section

variable {α : Type} [Documented α]

/-- **What is read from the document of a value is read from its text**, unless the text nests too
deeply. -/
theorem ofJsonText?_toJsonText {a b : α}
    (hread : ∀ v : Json.Located, v.Shows (document a) → read? v = some b)
    (hdepth : (document a).toJson.nesting < Json.Located.maxDepth) :
    ofJsonText? (toJsonText a) = some b :=
  bind_eq_some (Json.parse_pretty (Document.isLegible_toJson _)) (hread _ ⟨rfl, hdepth⟩)

end

end RoutePolicy
