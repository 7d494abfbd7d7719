import Mathlib.Data.List.Forall2
import Mathlib.Data.List.Nodup
import RoutePolicy.Document.Documented
import RoutePolicy.Net.Failure
import RoutePolicy.Proofs.Except

set_option autoImplicit false

/-! # Notations that keep documents

A notation keeps documents if its values, where they show a document, answer every question of a
reader as the document says (`Keeps`). A value of a type is then read back from whatever shows its
document (`Returns`), if its parts are. Texts, counts, words, lists, options and sets are settled
here once for all notations. -/

namespace RoutePolicy

/-- The document shows nothing of its own in a notation without options. -/
def Document.isNull : Document → Bool
  | .absent => true
  | .present value => value.isNull
  | .wrapped value => value.isNull
  | _ => false

variable {σ : Type}

/-- Parts with names show the fields of a document in their order. -/
def PartsShow (Shows : σ → Document → Prop) (parts : List (String × σ))
    (fields : List (String × Document)) : Prop :=
  List.Forall₂ (fun part field => part.1 = field.1 ∧ Shows part.2 field.2) parts fields

/-- The fields of a document are found under their names. -/
def Fields.Show (Shows : σ → Document → Prop) (found : Fields σ)
    (fields : List (String × Document)) : Prop :=
  ∀ name d, fields.lookup name = some d → ∃ v, found.entries.lookup name = some v ∧ Shows v d

/-- Values that show a document answer as the document says. -/
structure Keeps [Source σ] (Shows : σ → Document → Prop) : Prop where
  text : ∀ {v s}, Shows v (.text s) → Source.text? v = some s
  count : ∀ {v n bits}, n < Nat.pow 2 bits → Shows v (.count n) → Source.count? bits v = some n
  flag : ∀ {v b}, Shows v (.flag b) → Source.flag? v = some b
  absent : ∀ {v}, Shows v .absent → Source.option? v = some none
  present : ∀ {v d}, d.isNull = false → Shows v (.present d) →
    ∃ w, Source.option? v = some (some w) ∧ Shows w d
  list : ∀ {v ds}, Shows v (.list ds) → ∃ ws, Source.items? v = some ws ∧ List.Forall₂ Shows ws ds
  record : ∀ {v fields} (typeName : String) (names : List String), fields.map Prod.fst = names →
    names.Nodup → Shows v (.record fields) →
    ∃ found, Source.record? typeName names v = some found ∧ found.Show Shows fields
  wrapped : ∀ {v d} (typeName : String), Shows v (.wrapped d) →
    ∃ w, Source.wrapped? typeName v = some w ∧ Shows w d
  word : ∀ {v name}, Shows v (.word name) → Source.word? v = some name
  case : ∀ {v name d}, Shows v (.case name d) →
    (∃ w, Source.case? name v = some w ∧ Shows w d) ∧
      ∀ other, other ≠ name → Source.case? other v = none
  recordCase : ∀ {v name fields} (names : List String), fields.map Prod.fst = names →
    names.Nodup → Shows v (.recordCase name fields) →
    Source.word? v = none ∧
      ∃ found, Source.recordCase? name names v = some found ∧ found.Show Shows fields

/-- The value is read from whatever shows its document. -/
def Returns [Source σ] (Shows : σ → Document → Prop) {α : Type} [Documented α] (a : α) : Prop :=
  ∀ v : σ, Shows v (document a) → read? v = some a

section

variable {α : Type} {v : σ}

variable [Source σ] {Shows : σ → Document → Prop}

/-! ## Fields -/

section

variable {found : Fields σ} {fields : List (String × Document)}

/-- A field is read that shows the document of a value. -/
theorem Fields.Show.required [Documented α] (h : found.Show Shows fields) (name : String) {a : α}
    (hname : fields.lookup name = some (document a)) (ha : Returns Shows a) :
    found.required name read? = some a := by
  obtain ⟨v, hv, hshows⟩ := h name _ hname
  rw [Fields.required, hv, Option.bind_some, ha v hshows]

omit [Source σ] in
theorem Fields.Show.withDefault (h : found.Show Shows fields) (name : String) {d : Document} {a : α}
    (hname : fields.lookup name = some d) {read : σ → Option α}
    (ha : ∀ v, Shows v d → read v = some a) (default : α) :
    found.withDefault name default read = some a := by
  obtain ⟨v, hv, hshows⟩ := h name _ hname
  rw [Fields.withDefault, hv]
  exact ha v hshows

theorem Fields.Show.optional [Documented α] (h : found.Show Shows fields) (name : String)
    {o : Option α} (hname : fields.lookup name = some (document o)) (ho : Returns Shows o) :
    found.optional name read? = some o := by
  obtain ⟨v, hv, hshows⟩ := h name _ hname
  rw [Fields.optional, hv]
  exact ho v hshows

omit [Source σ] in
theorem PartsShow.map_fst {parts : List (String × σ)} (h : PartsShow Shows parts fields) :
    parts.map Prod.fst = fields.map Prod.fst := by
  induction h with
  | nil => rfl
  | cons hhead _ ih => rw [List.map_cons, List.map_cons, hhead.1, ih]

omit [Source σ] in
theorem PartsShow.exists_of_mem {parts : List (String × σ)} (h : PartsShow Shows parts fields)
    {part : String × σ} (hpart : part ∈ parts) : ∃ field ∈ fields, Shows part.2 field.2 := by
  induction h with
  | nil => cases hpart
  | @cons _ field _ fields hhead _ ih =>
      rcases List.mem_cons.mp hpart with rfl | hpart
      · exact ⟨field, List.mem_cons_self, hhead.2⟩
      · obtain ⟨field, hfield, hshows⟩ := ih hpart
        exact ⟨field, List.mem_cons_of_mem _ hfield, hshows⟩

omit [Source σ] in
/-- Fields are found that stand under their names in the order of the record. -/
theorem PartsShow.show {parts : List (String × σ)} (h : PartsShow Shows parts fields)
    (named : Bool) : (Fields.mk parts named).Show Shows fields := by
  induction h with
  | nil =>
      rintro name d ⟨⟩
  | @cons part field parts fields hhead htail ih =>
      obtain ⟨key, value⟩ := part
      obtain ⟨_, d⟩ := field
      obtain ⟨rfl, hshows⟩ : key = _ ∧ Shows value d := hhead
      intro name d' hname
      by_cases hkey : name = key
      · subst hkey
        rw [List.lookup_cons_self, Option.some_inj] at hname
        subst hname
        exact ⟨value, List.lookup_cons_self, hshows⟩
      · have hne : (name == key) = false := beq_false_of_ne hkey
        rw [List.lookup_cons, hne] at hname
        obtain ⟨v, hv, hshows⟩ := ih name d' hname
        refine ⟨v, ?_, hshows⟩
        rw [List.lookup_cons, hne]
        exact hv

omit [Source σ] in
/-- No name stands twice among the fields of a record. -/
theorem Fields.ofNamed_eq {parts : List (String × σ)} {names : List String}
    (hparts : parts.map Prod.fst = names) (hnodup : names.Nodup) :
    Fields.ofNamed names parts = some ⟨parts, true⟩ := by
  have hcount (name : String) : parts.countP (·.1 = name) = names.count name := by
    rw [← hparts, List.count, List.countP_map]
    rfl
  have honce : (names.all fun name => parts.countP (·.1 = name) ≤ 1) = true := by
    simp only [List.all_eq_true, decide_eq_true_eq, hcount]
    exact fun name _ => List.nodup_iff_count_le_one.mp hnodup name
  rw [Fields.ofNamed, if_pos honce]

end

/-! ## Values without parts -/

section

variable (h : Keeps Shows)

include h

theorem returns_string (s : String) : Returns Shows s := fun _ hv => h.text hv

theorem returns_count {n : Nat} (hn : n < countRange) : Returns Shows n :=
  have hn : n < Nat.pow 2 64 := hn
  fun _ hv => h.count hn hv

/-- The number of a node or an arc is read back if it has 32 bits. -/
theorem read?_index {ι : Type} [Index ι] {i : ι} (hi : Index.position i < handleRange)
    (typeName : String) (hv : Shows v (Index.document i)) :
    Index.read? typeName v = some i := by
  obtain ⟨w, hw, hcount⟩ := h.wrapped typeName hv
  have hi : Index.position i < Nat.pow 2 32 := hi
  exact bind_eq_some hw (bind_eq_some (h.count hi hcount)
    (congrArg some (Index.ofPosition_position i)))

theorem readWord?_eq {meanings : List (String × α)} {name : String} (hv : Shows v (.word name)) :
    readWord? meanings v = meanings.lookup name := by
  rw [readWord?, h.word hv, Option.bind_eq_bind, Option.bind_some]

/-- A type whose values are words. -/
theorem returns_of_readWord [Documented α] {word : α → String} {meanings : List (String × α)}
    (hdocument : ∀ a : α, document a = .word (word a))
    (hread : ∀ v : σ, read? v = readWord? meanings v)
    (hmeanings : ∀ a, meanings.lookup (word a) = some a) (a : α) : Returns Shows a := by
  intro v hv
  rw [hread, readWord?_eq h (hdocument a ▸ hv), hmeanings]

theorem readWordOr?_eq {meanings : List (String × α)} {other : α} {name : String}
    (hv : Shows v (.word name)) :
    readWordOr? other meanings v = some ((meanings.lookup name).getD other) := by
  exact bind_eq_some (h.word hv) rfl

/-- A type whose values are words, one of which stands for all words else. -/
theorem returns_of_readWordOr [Documented α] {word : α → String} {other : α}
    {meanings : List (String × α)} (hdocument : ∀ a : α, document a = .word (word a))
    (hread : ∀ v : σ, read? v = readWordOr? other meanings v)
    (hmeanings : ∀ a, (meanings.lookup (word a)).getD other = a) (a : α) : Returns Shows a := by
  intro v hv
  rw [hread, readWordOr?_eq h (hdocument a ▸ hv), hmeanings]

/-! ## Values with parts -/

/-- A list is read item by item. -/
theorem items_eq {β : Type} {doc : β → Document} {read : σ → Option β} {l : List β}
    (hl : ∀ b ∈ l, ∀ v, Shows v (doc b) → read v = some b)
    (hv : Shows v (.list (l.map doc))) : (Source.items? v).bind (·.mapM read) = some l := by
  obtain ⟨ws, hws, hshow⟩ := h.list hv
  rw [hws, Option.bind_some]
  clear hv hws
  induction l generalizing ws with
  | nil =>
      cases hshow
      rfl
  | cons b l ih =>
      obtain ⟨hb, hl⟩ := List.forall_mem_cons.mp hl
      cases hshow with
      | cons hhead htail =>
          rw [List.mapM_cons, hb _ hhead, Option.bind_eq_bind, Option.bind_some, ih hl _ htail]
          rfl

theorem returns_list [Documented α] {l : List α} (hl : ∀ a ∈ l, Returns Shows a) :
    Returns Shows l := fun _ hv => items_eq h hl hv

theorem returns_option [Documented α] {o : Option α} (ho : ∀ a ∈ o, Returns Shows a)
    (hnull : ∀ a : α, (document a).isNull = false) : Returns Shows o := by
  intro v hv
  cases o with
  | none =>
      exact bind_eq_some (h.absent hv) rfl
  | some a =>
      obtain ⟨w, hw, hshow⟩ := h.present (hnull a) hv
      exact bind_eq_some hw (bind_eq_some (ho a rfl w hshow) rfl)

theorem returns_arena {ι : Type} [Documented α] {a : Arena ι α}
    (ha : ∀ x ∈ a.toList, Returns Shows x) : Returns Shows a := by
  intro v hv
  show (read? v).map Arena.ofList = some a
  rw [returns_list h ha v hv]
  rfl

theorem returns_nameSet (s : NameSet) : Returns Shows s := by
  intro v hv
  have hset : SortedSet.ofList s.toList = s := SortedSet.ext_mem fun _ => SortedSet.mem_ofList
  show (read? v).map SortedSet.ofList = some s
  rw [returns_list h (fun x _ => returns_string h x) v hv, Option.map_some, hset]

end

end

end RoutePolicy
