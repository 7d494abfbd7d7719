import RoutePolicy.Net.Node

set_option autoImplicit false

/-! # Rows of entries with numbers of their own type

An arena keeps its entries in the order in which they came, and hands out a number of type `ι`
for each. Places, transitions, arcs and token counts live in arenas, so the number of one is
never used to look up another. -/

namespace RoutePolicy

/-- A type of numbers that entries are looked up with. -/
class Index (ι : Type) where
  position : ι → Nat
  ofPosition : Nat → ι
  label : ι → String
  position_ofPosition : ∀ n, position (ofPosition n) = n
  ofPosition_position : ∀ i, ofPosition (position i) = i

instance {k : Kind} : Index (Handle k) where
  position h := h.index
  ofPosition n := ⟨n⟩
  label h := h.label
  position_ofPosition _ := rfl
  ofPosition_position _ := rfl

instance : Index ArcId where
  position a := a.index
  ofPosition n := ⟨n⟩
  label a := a.label
  position_ofPosition _ := rfl
  ofPosition_position _ := rfl

/-- Entries of type `α`, numbered from zero by `ι`. -/
structure Arena (ι α : Type) where
  entries : Array α
  deriving DecidableEq, Hashable

namespace Arena

variable {ι α β : Type}

/-- The arena without entries. -/
def empty : Arena ι α := ⟨#[]⟩

instance : EmptyCollection (Arena ι α) := ⟨empty⟩

instance : Inhabited (Arena ι α) := ⟨empty⟩

/-- The number of entries. -/
def size (a : Arena ι α) : Nat := a.entries.size

/-- The entries in order. -/
def toList (a : Arena ι α) : List α := a.entries.toList

/-- The arena with these entries. -/
def ofList (l : List α) : Arena ι α := ⟨l.toArray⟩

/-- All entries changed by one function. -/
def map (f : α → β) (a : Arena ι α) : Arena ι β := ⟨a.entries.map f⟩

/-- The arena with one more entry at the end. -/
def push (a : Arena ι α) (x : α) : Arena ι α := ⟨a.entries.push x⟩

@[simp] theorem size_push (a : Arena ι α) (x : α) : (a.push x).size = a.size + 1 := by
  simp [push, size]

@[simp] theorem toList_push (a : Arena ι α) (x : α) : (a.push x).toList = a.toList ++ [x] := by
  simp [push, toList]

variable [Index ι]

/-- The number that the next entry will get. -/
def next (a : Arena ι α) : ι := Index.ofPosition a.size

/-- The entry with number `i`. -/
def get? (a : Arena ι α) (i : ι) : Option α := a.entries[Index.position i]?

/-- The number belongs to an entry. -/
def contains (a : Arena ι α) (i : ι) : Bool := Index.position i < a.size

/-- The arena with the entry of number `i` changed; nothing happens without such an entry. -/
def modify (a : Arena ι α) (i : ι) (f : α → α) : Arena ι α :=
  ⟨a.entries.modify (Index.position i) f⟩

/-- The arena with the entry of number `i` replaced; nothing happens without such an entry. -/
def set (a : Arena ι α) (i : ι) (x : α) : Arena ι α := a.modify i fun _ => x

/-- The numbers of all entries, in order. -/
def indices (a : Arena ι α) : List ι := (List.range a.size).map Index.ofPosition

/-- The entries with their numbers, in order. -/
def toPairs (a : Arena ι α) : List (ι × α) :=
  a.toList.zipIdx.map fun (x, n) => (Index.ofPosition n, x)

/-- The number of the first entry that satisfies `p`. -/
def position? (a : Arena ι α) (p : α → Bool) : Option ι :=
  (a.entries.findIdx? p).map Index.ofPosition

/-! ## Views -/

@[simp] theorem size_modify (a : Arena ι α) (i : ι) (f : α → α) : (a.modify i f).size = a.size := by
  simp [modify, size]

theorem contains_iff {a : Arena ι α} {i : ι} : a.contains i = true ↔ Index.position i < a.size := by
  simp [contains]

@[simp] theorem contains_modify (a : Arena ι α) (i j : ι) (f : α → α) :
    (a.modify i f).contains j = a.contains j := by
  simp only [contains, size_modify]

theorem get?_eq_none_iff {a : Arena ι α} {i : ι} : a.get? i = none ↔ a.contains i = false := by
  rw [get?, contains, decide_eq_false_iff_not, Nat.not_lt, Array.getElem?_eq_none_iff, size]

theorem get?_eq_some_iff {a : Arena ι α} {i : ι} {x : α} :
    a.get? i = some x ↔ a.toList[Index.position i]? = some x := by
  simp [get?, toList]

theorem contains_iff_exists {a : Arena ι α} {i : ι} : a.contains i = true ↔ ∃ x, a.get? i = some x := by
  rw [← Option.ne_none_iff_exists', ne_eq, get?_eq_none_iff, Bool.not_eq_false]

theorem contains_of_get? {a : Arena ι α} {i : ι} {x : α} (h : a.get? i = some x) :
    a.contains i = true :=
  contains_iff_exists.mpr ⟨x, h⟩

theorem mem_of_get? {a : Arena ι α} {i : ι} {x : α} (h : a.get? i = some x) : x ∈ a.toList :=
  List.mem_of_getElem? (get?_eq_some_iff.mp h)

theorem exists_get?_of_mem {a : Arena ι α} {x : α} (h : x ∈ a.toList) : ∃ i, a.get? i = some x := by
  obtain ⟨n, hn⟩ := List.mem_iff_getElem?.mp h
  exact ⟨Index.ofPosition n, get?_eq_some_iff.mpr (by rwa [Index.position_ofPosition])⟩

theorem mem_indices_iff {a : Arena ι α} {i : ι} : i ∈ a.indices ↔ a.contains i = true := by
  rw [indices, List.mem_map, contains_iff]
  constructor
  · rintro ⟨n, hn, rfl⟩
    rwa [Index.position_ofPosition, ← List.mem_range]
  · intro h
    exact ⟨Index.position i, List.mem_range.mpr h, Index.ofPosition_position i⟩

@[simp] theorem position_next (a : Arena ι α) : Index.position (a.next : ι) = a.size :=
  Index.position_ofPosition _

/-- Below the range, the number of the next entry is stored as it is. -/
theorem wrapIndex_next {a : Arena ι α} (h : a.size < handleRange) :
    wrapIndex (Index.position (a.next : ι)) = Index.position (a.next : ι) := by
  rw [position_next]
  exact Nat.mod_eq_of_lt h

theorem get?_next (a : Arena ι α) : a.get? (a.next : ι) = none :=
  get?_eq_none_iff.mpr (by rw [← Bool.not_eq_true, contains_iff, position_next]; exact Nat.lt_irrefl _)

theorem get?_push (a : Arena ι α) (x : α) (i : ι) :
    (a.push x).get? i = if Index.position i = a.size then some x else a.get? i := by
  simp only [push, get?, size, Array.getElem?_push]
  split <;> simp_all

theorem position_inj {i j : ι} : Index.position i = Index.position j ↔ i = j :=
  ⟨fun h => by rw [← Index.ofPosition_position i, h, Index.ofPosition_position], congrArg _⟩

theorem get?_push_eq (a : Arena ι α) (x : α) (i : ι) [DecidableEq ι] :
    (a.push x).get? i = if i = a.next then some x else a.get? i := by
  have hnext : Index.position i = a.size ↔ i = a.next := by
    rw [← position_next (ι := ι) a, position_inj]
  simp only [get?_push, hnext]

theorem get?_push_eq_some_iff {a : Arena ι α} {x y : α} {i : ι} :
    (a.push x).get? i = some y ↔ (i = a.next ∧ y = x) ∨ a.get? i = some y := by
  classical
  rw [get?_push_eq]
  split
  · rename_i h
    rw [h, get?_next, Option.some_inj]
    simp [eq_comm]
  · rename_i h
    simp [h]

theorem get?_modify (a : Arena ι α) (i j : ι) (f : α → α) :
    (a.modify i f).get? j
      = if Index.position i = Index.position j then (a.get? j).map f else a.get? j := by
  simp only [modify, get?, Array.getElem?_modify]

theorem map_get?_modify {f : α → α} {g : α → β} (h : ∀ x, g (f x) = g x) (a : Arena ι α) (i j : ι) :
    ((a.modify i f).get? j).map g = (a.get? j).map g := by
  rw [get?_modify]
  split
  · rw [Option.map_map, Function.comp_def]
    simp only [h]
  · rfl

/-- A change of one entry does not show where `g` does not look at what is changed. -/
theorem map_toList_modify {f : α → α} {g : α → β} (h : ∀ x, g (f x) = g x) (a : Arena ι α) (i : ι) :
    (a.modify i f).toList.map g = a.toList.map g := by
  refine List.ext_getElem? fun n => ?_
  simp only [modify, toList, List.getElem?_map, Array.getElem?_toList, Array.getElem?_modify]
  split
  · rw [Option.map_map, Function.comp_def]
    simp only [h]
  · rfl

end Arena

end RoutePolicy
