import Mathlib.Data.List.Forall2
import RoutePolicy.Ron.Reader
import RoutePolicy.Proofs.Except
import RoutePolicy.Proofs.Ron.Literal

set_option autoImplicit false

/-! # Text of the object notation is read as it was written

A document is written with brackets, names and commas, each part on a line of its own. What is read
of the text is of the form in which the document was written (`Ron.Denotes`), part by part
(`Ron.isRead`) and as a whole (`Ron.exists_parse_print`). The documents are those with names that are
names and without empty records (`Document.IsWritable`). -/

namespace RoutePolicy

namespace Ron

/-! ## Forms -/

mutual

/-- The value is of the form in which the document is written. -/
inductive Denotes : Ron → Document → Prop
  | text (s : String) : Denotes (.text s) (.text s)
  | count (n : Nat) : Denotes (.whole ⟨false, n⟩ true none) (.count n)
  | flag (b : Bool) : Denotes (.word ⟨if b then "true" else "false", false⟩) (.flag b)
  | absent : Denotes (.word ⟨"None", false⟩) .absent
  | present {r : Ron} {d : Document} (outlook : Outlook) (hr : Denotes r d) :
      Denotes (.someOf outlook [r]) (.present d)
  | list {rs : List Ron} {ds : List Document} (hrs : List.Forall₂ Denotes rs ds) :
      Denotes (.list rs) (.list ds)
  | record {parts : List (String × Ron)} {fields : List (String × Document)}
      (hparts : FieldsDenote parts fields) : Denotes (.record none parts) (.record fields)
  | wrapped {r : Ron} {d : Document} (hr : Denotes r d) : Denotes (.group none [r]) (.wrapped d)
  | word (name : String) : Denotes (.word ⟨name, false⟩) (.word name)
  | case {r : Ron} {d : Document} (name : String) (hr : Denotes r d) :
      Denotes (.group (some ⟨name, false⟩) [r]) (.case name d)
  | recordCase {parts : List (String × Ron)} {fields : List (String × Document)} (name : String)
      (hparts : FieldsDenote parts fields) :
      Denotes (.record (some ⟨name, false⟩) parts) (.recordCase name fields)

/-- The fields are of the forms in which those of a document are written. -/
inductive FieldsDenote : List (String × Ron) → List (String × Document) → Prop
  | nil : FieldsDenote [] []
  | cons {key : String} {r : Ron} {d : Document} {parts : List (String × Ron)}
      {fields : List (String × Document)} (hr : Denotes r d) (hparts : FieldsDenote parts fields) :
      FieldsDenote ((key, r) :: parts) ((key, d) :: fields)

end

/-- The text is a name that is no beginning of a text or of bytes. -/
def isPlainName (s : String) : Bool :=
  isName s && s.toList.head?.all fun c => c ≠ 'r' && c ≠ 'b'

end Ron

namespace Document

mutual

/-- The names in the document are names, those of its cases plain ones, and its records have
fields. -/
def IsWritable : Document → Prop
  | .present value => IsWritable value
  | .list items => AreWritable items
  | .record fields => fields ≠ [] ∧ FieldsAreWritable fields
  | .wrapped value => IsWritable value
  | .word name => Ron.isPlainName name = true
  | .case name value => Ron.isPlainName name = true ∧ name ≠ "Some" ∧ IsWritable value
  | .recordCase name fields =>
    Ron.isPlainName name = true ∧ fields ≠ [] ∧ FieldsAreWritable fields
  | _ => True

def AreWritable : List Document → Prop
  | [] => True
  | item :: items => IsWritable item ∧ AreWritable items

def FieldsAreWritable : List (String × Document) → Prop
  | [] => True
  | (key, value) :: fields =>
    Ron.isName key = true ∧ IsWritable value ∧ FieldsAreWritable fields

end

mutual

/-- The levels that a reader enters, or a few more. -/
def levels : Document → Nat
  | .present value => levels value + 1
  | .list items => levelsOfItems items + 2
  | .record fields => levelsOfFields fields + 2
  | .wrapped value => levels value + 1
  | .word _ => 2
  | .case _ value => levels value + 2
  | .recordCase _ fields => levelsOfFields fields + 3
  | _ => 0

def levelsOfItems : List Document → Nat
  | [] => 0
  | item :: items => max (levels item) (levelsOfItems items)

def levelsOfFields : List (String × Document) → Nat
  | [] => 0
  | (_, value) :: fields => max (levels value) (levelsOfFields fields)

end

end Document

namespace Ron

/-! ## Texts as lists of characters -/

section

variable (depth : Nat)

theorem toList_print_text (s : String) : (print depth (.text s)).toList
    = '"' :: (s.toList.flatMap (Text.escapeChar ['"', '\'']) ++ ['"']) := by
  rw [print, Text.quoteWith, String.toList_ofList]

theorem toList_print_present (value : Document) : (print depth (.present value)).toList
    = "Some".toList ++ '(' :: ((print depth value).toList ++ [')']) := by
  simp [print, String.toList_append]

theorem toList_print_list (item : Document) (items : List Document) :
    (print depth (.list (item :: items))).toList
      = '[' :: '\n' :: ((printItems (depth + 1) (item :: items)).toList
        ++ ((margin depth).toList ++ [']'])) := by
  simp [print, String.toList_append]

theorem toList_print_record (fields : List (String × Document)) :
    (print depth (.record fields)).toList = '(' :: '\n' :: ((printFields (depth + 1) fields).toList
      ++ ((margin depth).toList ++ [')'])) := by
  simp [print, String.toList_append]

theorem toList_print_wrapped (value : Document) :
    (print depth (.wrapped value)).toList = '(' :: ((print depth value).toList ++ [')']) := by
  simp [print, String.toList_append]

theorem toList_print_case (name : String) (value : Document) :
    (print depth (.case name value)).toList
      = name.toList ++ '(' :: ((print depth value).toList ++ [')']) := by
  simp [print, String.toList_append]

theorem toList_print_recordCase (name : String) (fields : List (String × Document)) :
    (print depth (.recordCase name fields)).toList
      = name.toList ++ '(' :: '\n' :: ((printFields (depth + 1) fields).toList
        ++ ((margin depth).toList ++ [')'])) := by
  simp [print, String.toList_append]

theorem toList_printItems_cons (item : Document) (items : List Document) :
    (printItems depth (item :: items)).toList = (margin depth).toList
      ++ ((print depth item).toList ++ ',' :: '\n' :: (printItems depth items).toList) := by
  simp [printItems, String.toList_append]

theorem toList_printFields_cons (key : String) (value : Document)
    (fields : List (String × Document)) :
    (printFields depth ((key, value) :: fields)).toList = (margin depth).toList
      ++ (key.toList ++ ':' :: ' ' :: ((print depth value).toList
        ++ ',' :: '\n' :: (printFields depth fields).toList)) := by
  simp [printFields, String.toList_append]

end

/-! ## What a text starts with -/

/-- A value starts with the character if it does not start with a name. -/
def opensValue (c : Char) : Bool := c == '"' || c == '(' || c == '[' || c.isDigit

theorem opensValue_spec {c : Char} (hc : opensValue c = true) : isBlank c = false ∧
    c ∉ ['/', ')', ']', '#', 'r'] ∧ Text.isIdentifierStart c = false := by
  have hall : ∀ n < 0x80, opensValue (Char.ofNat n) = true → isBlank (Char.ofNat n) = false ∧
      Char.ofNat n ∉ ['/', ')', ']', '#', 'r'] ∧
      (Char.ofNat n == '_' || (Char.ofNat n).isAlpha) = false := by
    decide +kernel
  have hsmall : c.toNat < 0x80 := by
    simp only [opensValue, Bool.or_eq_true, beq_iff_eq, or_assoc] at hc
    rcases hc with rfl | rfl | rfl | hc
    · decide
    · decide
    · decide
    · exact toNat_lt_of_isAlphanum (by rw [Char.isAlphanum, hc, Bool.or_true])
  have hspec := hall c.toNat hsmall
  rw [Char.ofNat_toNat] at hspec
  rw [Text.isIdentifierStart_eq hsmall]
  exact hspec hc

theorem isAlpha_spec {c : Char} (hc : c.isAlpha = true) : isBlank c = false ∧
    c ∉ ['/', ')', ']', '#', '"', '\'', '[', '\x7b', '(', '+', '-', '.'] ∧ c.isDigit = false := by
  have hall : ∀ n < 0x80, (Char.ofNat n).isAlpha = true → isBlank (Char.ofNat n) = false ∧
      Char.ofNat n ∉ ['/', ')', ']', '#', '"', '\'', '[', '\x7b', '(', '+', '-', '.'] ∧
      (Char.ofNat n).isDigit = false := by
    decide +kernel
  have hspec := hall c.toNat (toNat_lt_of_isAlphanum (by rw [Char.isAlphanum, hc]; rfl))
  rw [Char.ofNat_toNat] at hspec
  exact hspec hc

theorem isName_of_isPlainName {s : String} (h : isPlainName s = true) : isName s = true :=
  (Bool.and_eq_true_iff.mp h).1

/-- A value starts with a bracket, a quote or a digit, or with a name, which a parenthesis may
follow. -/
theorem print_shape (depth : Nat) {d : Document} (hd : d.IsWritable) :
    (∃ c cs, (print depth d).toList = c :: cs ∧ opensValue c = true) ∨
    ∃ name tail, isName name = true ∧ (print depth d).toList = name.toList ++ tail ∧
      ∀ c ∈ tail.head?, c = '(' := by
  have hname (name : String) : name.toList = name.toList ++ [] := (List.append_nil _).symm
  cases d with
  | text s => exact Or.inl ⟨_, _, toList_print_text depth s, rfl⟩
  | count n =>
      obtain ⟨c, cs, hcons, hc⟩ := exists_toDigits_cons n
      refine Or.inl ⟨c, cs, ?_, ?_⟩
      · rw [print, toList_toString, hcons]
      · rw [opensValue, hc, Bool.or_true]
  | flag b =>
      cases b with
      | false => exact Or.inr ⟨"false", [], rfl, by rw [print]; exact hname _, by rintro c ⟨⟩⟩
      | true => exact Or.inr ⟨"true", [], rfl, by rw [print]; exact hname _, by rintro c ⟨⟩⟩
  | absent => exact Or.inr ⟨"None", [], rfl, by rw [print]; exact hname _, by rintro c ⟨⟩⟩
  | present value =>
      exact Or.inr ⟨"Some", _, rfl, toList_print_present depth value, by rintro c ⟨⟩; rfl⟩
  | list items =>
      cases items with
      | nil => exact Or.inl ⟨_, _, toList_print_nil depth, rfl⟩
      | cons item items => exact Or.inl ⟨_, _, toList_print_list depth item items, rfl⟩
  | record fields => exact Or.inl ⟨_, _, toList_print_record depth fields, rfl⟩
  | wrapped value => exact Or.inl ⟨_, _, toList_print_wrapped depth value, rfl⟩
  | word name =>
      exact Or.inr ⟨name, [], isName_of_isPlainName hd, by rw [print]; exact hname _, by rintro c ⟨⟩⟩
  | case name value =>
      exact Or.inr ⟨name, _, isName_of_isPlainName hd.1, toList_print_case depth name value,
        by rintro c ⟨⟩; rfl⟩
  | recordCase name fields =>
      exact Or.inr ⟨name, _, isName_of_isPlainName hd.1, toList_print_recordCase depth name fields,
        by rintro c ⟨⟩; rfl⟩

/-- A value starts with neither white space, a comment nor a bracket that closes another. -/
theorem exists_print_cons (depth : Nat) {d : Document} (hd : d.IsWritable) :
    ∃ c cs, (print depth d).toList = c :: cs ∧ isBlank c = false ∧ c ∉ ['/', ')', ']', '#'] := by
  rcases print_shape depth hd with ⟨c, cs, hcons, hc⟩ | ⟨name, tail, hname, happend, -⟩
  · obtain ⟨hblank, hne, -⟩ := opensValue_spec hc
    have hsubset : ['/', ')', ']', '#'] ⊆ ['/', ')', ']', '#', 'r'] := by simp
    exact ⟨c, cs, hcons, hblank, fun hc => hne (hsubset hc)⟩
  · obtain ⟨c, cs, hcons, hc, -⟩ := exists_of_isName hname
    obtain ⟨hblank, hne, -⟩ := isAlpha_spec hc
    have hsubset : ['/', ')', ']', '#']
        ⊆ ['/', ')', ']', '#', '"', '\'', '[', '\x7b', '(', '+', '-', '.'] := by simp
    exact ⟨c, cs ++ tail, by rw [happend, hcons]; rfl, hblank, fun hc => hne (hsubset hc)⟩

theorem skipBlank_print (depth : Nat) {d : Document} (hd : d.IsWritable) (cs : List Char) :
    skipBlank ((print depth d).toList ++ cs) = some ((print depth d).toList ++ cs) := by
  obtain ⟨c, tail, hcons, hblank, hne⟩ := exists_print_cons depth hd
  rw [hcons]
  exact skipBlank_cons hblank (fun hc => hne (hc ▸ List.mem_cons_self)) _

theorem EndsName.skipBlank_eq {cs : List Char} (h : EndsName cs) : skipBlank cs = some cs := by
  cases cs with
  | nil => rfl
  | cons c cs =>
      have hall : ∀ c ∈ ['(', ')', ',', ':'], isBlank c = false ∧ c ≠ '/' := by
        simp only [List.forall_mem_cons]
        exact ⟨by decide, by decide, by decide, by decide, List.forall_mem_nil _⟩
      obtain ⟨hblank, hslash⟩ := hall c (h c rfl)
      exact skipBlank_cons hblank hslash cs

/-- No value is taken for the name of a field. -/
theorem readKey_print (depth : Nat) {d : Document} (hd : d.IsWritable) {rest : List Char}
    (hrest : EndsValue rest) : readKey ((print depth d).toList ++ rest) = none := by
  rcases print_shape depth hd with ⟨c, cs, hcons, hc⟩ | ⟨name, tail, hname, happend, htail⟩
  · obtain ⟨-, hne, hstart⟩ := opensValue_spec hc
    have hr : c ≠ 'r' := by
      rintro rfl
      exact hne (by decide)
    have hread : readName (c :: (cs ++ rest)) = none := by
      rw [readName]
      · rw [if_neg (by simp [hstart])]
      · exact fun _ h _ => hr h
    rw [hcons, List.cons_append, readKey, hread]
    rfl
  · have hends : EndsValue (tail ++ rest) ∨ ∃ cs, tail ++ rest = '(' :: cs := by
      cases tail with
      | nil => exact Or.inl hrest
      | cons c tail =>
          obtain rfl := htail c rfl
          exact Or.inr ⟨_, rfl⟩
    have hname' : EndsName (tail ++ rest) := by
      rcases hends with hends | ⟨cs, hends⟩
      · exact hends.endsName
      · rw [hends]
        rintro c ⟨⟩
        decide
    have hcolon : expect ':' (tail ++ rest) = none := by
      rcases hends with hends | ⟨cs, hends⟩
      · cases hcs : tail ++ rest with
        | nil => rfl
        | cons c cs =>
            have hmem := hends c (by rw [hcs]; rfl)
            rw [expect, if_neg]
            rintro rfl
            exact absurd hmem (by decide)
      · rw [hends]
        rfl
    rw [happend, List.append_assoc, readKey, readName_eq hname hname']
    simp only [Option.bind_eq_bind, Option.bind_some, expectToken, hname'.skipBlank_eq, hcolon]
    rfl

/-! ## Steps of the reader -/

section

variable {fuel nesting : Nat}

theorem readValue_plainName {s : String} (hs : isPlainName s = true) (rest : List Char) :
    readValue false (fuel + 1) nesting (s.toList ++ rest) = do
      let (name, rest) ← readName (s.toList ++ rest)
      match ← skipBlank rest with
      | '(' :: inner => readGroup false fuel nesting (some name) (← skipBlank inner)
      | _ => return (.word name, rest) := by
  obtain ⟨c, cs, hcons, hc, -⟩ := exists_of_isName (isName_of_isPlainName hs)
  obtain ⟨-, hne, hdigit⟩ := isAlpha_spec hc
  have hmark : ∀ d ∈ ['"', '\'', '[', '\x7b', '(', '+', '-', '.', 'r', 'b'], c ≠ d := by
    have hhead := (Bool.and_eq_true_iff.mp hs).2
    rw [hcons, List.head?_cons, Option.all_some, Bool.and_eq_true, decide_eq_true_eq,
      decide_eq_true_eq] at hhead
    simp only [List.mem_cons, not_or] at hne
    simp [hne, hhead]
  have hsign : (c = '+' || c = '-' || c = '.' || c.isDigit) = false := by
    simp [hmark '+' (by decide), hmark '-' (by decide), hmark '.' (by decide), hdigit]
  rw [hcons, List.cons_append, readValue]
  · rw [hsign]
    rfl
  all_goals
    intros
    refine hmark _ ?_ ‹_›
    decide

theorem readValue_word {s : String} (hs : isPlainName s = true) {rest : List Char}
    (hrest : EndsValue rest) :
    readValue false (fuel + 1) nesting (s.toList ++ rest) = some (.word ⟨s, false⟩, rest) := by
  rw [readValue_plainName hs, readName_eq (isName_of_isPlainName hs) hrest.endsName]
  simp only [Option.bind_eq_bind, Option.bind_some, hrest.endsName.skipBlank_eq]
  split
  · rename_i inner _
    exact absurd (hrest '(' rfl) (by decide)
  · rfl

theorem readValue_named {s : String} (hs : isPlainName s = true) {inner cs : List Char}
    (hinner : skipBlank inner = some cs) :
    readValue false (fuel + 1) nesting (s.toList ++ '(' :: inner)
      = readGroup false fuel nesting (some ⟨s, false⟩) cs := by
  have hends : EndsName ('(' :: inner) := by
    rintro c ⟨⟩
    decide
  rw [readValue_plainName hs, readName_eq (isName_of_isPlainName hs) hends]
  simp only [Option.bind_eq_bind, Option.bind_some, hends.skipBlank_eq, hinner]

theorem readValue_group {c : Char} {inner cs : List Char} (hc : c ≠ ')')
    (hinner : skipBlank (c :: inner) = some cs) :
    readValue false (fuel + 1) nesting ('(' :: c :: inner)
      = readGroup false fuel nesting none cs := by
  rw [readValue]
  · rw [hinner]
    rfl
  · rintro rest heq
    exact hc (List.cons.inj heq).1

theorem readValue_list {inner cs rest : List Char} {items : List Ron}
    (hinner : skipBlank inner = some cs)
    (hitems : readItems false fuel nesting ']' cs = some (items, rest)) :
    readValue false (fuel + 1) (nesting + 1) ('[' :: inner) = some (.list items, rest) := by
  rw [readValue, hinner]
  simp only [Nat.add_one_ne_zero, if_false, Option.bind_eq_bind, Option.bind_some,
    Nat.add_sub_cancel, hitems]
  rfl

/-- A value that ends with a comma or a bracket is the only one in parentheses. -/
theorem readGroup_item {name : Option Name} {c : Char} {cs rest : List Char} {r : Ron}
    (hkey : readKey (c :: cs) = none) (hc : c ≠ ')')
    (hvalue : readValue false fuel nesting (c :: cs) = some (r, ')' :: rest)) :
    readGroup false (fuel + 2) (nesting + 1) name (c :: cs)
      = some (if name.any (·.isWord "Some") then .someOf (outlook (c :: cs)) [r]
          else .group name [r], rest) := by
  have hexpect : expect ')' (c :: cs) = none := if_neg hc
  have hcomma : skipComma (')' :: rest) = some (false, ')' :: rest) := rfl
  have hitems : readItems false (fuel + 1) nesting ')' (c :: cs) = some ([r], rest) := by
    rw [readItems, hexpect]
    simp only [Option.bind_eq_bind, Option.bind_some, hvalue, hcomma]
    rfl
  rw [readGroup, hkey]
  simp only [Nat.add_one_ne_zero, if_false, Option.isSome_none, Bool.false_eq_true,
    Nat.add_sub_cancel, hitems, Option.bind_eq_bind, Option.bind_some]
  split <;> rfl

theorem readGroup_fields {name : Option Name} {cs rest : List Char}
    {fields : List (String × Ron)} (hkey : (readKey cs).isSome = true)
    (hfields : readFields false fuel nesting cs = some (fields, rest)) :
    readGroup false (fuel + 1) (nesting + 1) name cs = some (.record name fields, rest) := by
  rw [readGroup]
  simp only [Nat.add_one_ne_zero, if_false, hkey, if_true, Nat.add_sub_cancel, hfields,
    Option.bind_eq_bind, Option.bind_some]
  rfl

theorem readItems_cons {c : Char} {cs tail cs' rest : List Char} {r : Ron} {rs : List Ron}
    (hc : c ≠ ']') (hvalue : readValue false fuel nesting (c :: cs) = some (r, ',' :: tail))
    (htail : skipBlank tail = some cs')
    (hitems : readItems false fuel nesting ']' cs' = some (rs, rest)) :
    readItems false (fuel + 1) nesting ']' (c :: cs) = some (r :: rs, rest) := by
  have hexpect : expect ']' (c :: cs) = none := if_neg hc
  have hcomma : skipComma (',' :: tail) = some (true, cs') :=
    bind_eq_some rfl (bind_eq_some htail rfl)
  rw [readItems, hexpect]
  simp only [Option.bind_eq_bind, Option.bind_some, hvalue, hcomma, hitems]
  rfl

theorem readFields_cons {key : String} {cs cs₁ tail cs' rest : List Char} {r : Ron}
    {parts : List (String × Ron)} (hexpect : expect ')' cs = none)
    (hkey : readKey cs = some (key, cs₁))
    (hvalue : readValue false fuel nesting cs₁ = some (r, ',' :: tail))
    (htail : skipBlank tail = some cs')
    (hparts : readFields false fuel nesting cs' = some (parts, rest)) :
    readFields false (fuel + 1) nesting cs = some ((key, r) :: parts, rest) := by
  have hcomma : skipComma (',' :: tail) = some (true, cs') :=
    bind_eq_some rfl (bind_eq_some htail rfl)
  rw [readFields, hexpect]
  simp only [Option.bind_eq_bind, Option.bind_some, hkey, hvalue, hcomma, hparts]
  rfl

/-! ## Parts of a text -/

/-- A value in parentheses is read up to the parenthesis. -/
theorem readGroup_print {depth : Nat} {d : Document} (hd : d.IsWritable) {rest : List Char} {r : Ron}
    (hvalue : readValue false fuel nesting ((print depth d).toList ++ ')' :: rest)
      = some (r, ')' :: rest)) (name : Option Name) : ∃ outlook,
    readGroup false (fuel + 2) (nesting + 1) name ((print depth d).toList ++ ')' :: rest)
      = some (if name.any (·.isWord "Some") then .someOf outlook [r] else .group name [r], rest) := by
  have hends : EndsValue (')' :: rest) := by
    rintro c ⟨⟩
    decide
  have hkey := readKey_print depth hd hends
  obtain ⟨c, cs, hcons, -, hne⟩ := exists_print_cons depth hd
  have hc : c ≠ ')' := by
    rintro rfl
    exact hne (by decide)
  rw [hcons, List.cons_append] at hkey hvalue ⊢
  exact ⟨_, readGroup_item hkey hc hvalue⟩

/-- The name of a field is read, and what follows it. -/
theorem readKey_field {key : String} (hkey : isName key = true) (depth : Nat) {d : Document}
    (hd : d.IsWritable) (cs : List Char) :
    readKey (key.toList ++ ':' :: ' ' :: ((print depth d).toList ++ cs))
      = some (key, (print depth d).toList ++ cs) := by
  have hends : EndsName (':' :: ' ' :: ((print depth d).toList ++ cs)) := by
    rintro c ⟨⟩
    decide
  rw [readKey, readName_eq hkey hends]
  simp only [Option.bind_eq_bind, Option.bind_some, expectToken, hends.skipBlank_eq, expect, if_true,
    skipBlank_blank (show isBlank ' ' = true from rfl), skipBlank_print depth hd]
  rfl

end

theorem length_le_flatMap {α β : Type} {f : α → List β} (h : ∀ a, f a ≠ []) (l : List α) :
    l.length ≤ (l.flatMap f).length := by
  induction l with
  | nil => exact Nat.le_refl 0
  | cons a l ih =>
      have ha := List.length_pos_of_ne_nil (h a)
      rw [List.flatMap_cons, List.length_append, List.length_cons]
      omega

theorem escapeChar_ne_nil (quotes : List Char) (c : Char) : Text.escapeChar quotes c ≠ [] := by
  unfold Text.escapeChar
  split_ifs <;> simp [Text.codePointEscape]

/-! ## Values, one form after the other

Each character of a text stands for three units of fuel at most, brackets for as many as they are. -/

/-- With fuel for its text and room for its levels, the value is read up to what follows it. -/
def IsRead (d : Document) : Prop :=
  ∀ (fuel nesting depth : Nat) (rest : List Char), EndsValue rest →
    3 * (print depth d).toList.length ≤ fuel → d.levels ≤ nesting →
    ∃ r, readValue false fuel nesting ((print depth d).toList ++ rest) = some (r, rest) ∧ Denotes r d

/-- The items are read up to the bracket behind them, and the bracket. -/
def AreRead (items : List Document) : Prop :=
  ∀ (fuel nesting depth close : Nat) (rest : List Char),
    3 * (printItems depth items).toList.length < fuel → Document.levelsOfItems items ≤ nesting →
    ∃ cs rs, skipBlank ((printItems depth items).toList ++ ((margin close).toList ++ ']' :: rest))
        = some cs ∧
      readItems false fuel nesting ']' cs = some (rs, rest) ∧ List.Forall₂ Denotes rs items

/-- The fields are read up to the parenthesis behind them, and the parenthesis. They start with a
key, unless there are none. -/
def FieldsAreRead (fields : List (String × Document)) : Prop :=
  ∀ (fuel nesting depth close : Nat) (rest : List Char),
    3 * (printFields depth fields).toList.length < fuel →
    Document.levelsOfFields fields ≤ nesting →
    ∃ cs parts, skipBlank ((printFields depth fields).toList ++ ((margin close).toList ++ ')' :: rest))
        = some cs ∧ (fields ≠ [] → (readKey cs).isSome = true) ∧
      readFields false fuel nesting cs = some (parts, rest) ∧ FieldsDenote parts fields

theorem isRead_text (s : String) : IsRead (.text s) := by
  intro fuel nesting depth rest _ hfuel _
  have hlength := length_le_flatMap (escapeChar_ne_nil ['"', '\'']) s.toList
  rw [toList_print_text] at hfuel ⊢
  simp only [List.length_cons, List.length_append, List.length_nil] at hfuel
  obtain ⟨fuel, rfl⟩ := Nat.exists_eq_add_of_le' (show 1 ≤ fuel by omega)
  refine ⟨.text s, ?_, .text s⟩
  rw [List.cons_append, List.append_assoc, List.singleton_append, readValue, readText,
    readQuoted_print (by omega)]
  simp only [Option.bind_eq_bind, Option.bind_some, String.ofList_toList]
  rfl

theorem isRead_count (n : Nat) : IsRead (.count n) := by
  intro fuel nesting depth rest hrest hfuel _
  obtain ⟨c, cs, hcons, hc⟩ := exists_toDigits_cons n
  have hread := readNumber_print n hrest
  rw [print, toList_toString, hcons] at hfuel
  rw [print]
  rw [toList_toString, hcons] at hread ⊢
  rw [List.length_cons] at hfuel
  obtain ⟨fuel, rfl⟩ := Nat.exists_eq_add_of_le' (show 1 ≤ fuel by omega)
  exact ⟨_, (readValue_of_isDigit hc _).trans hread, .count n⟩

/-- A plain name that stands alone is read as a word. -/
theorem exists_readValue_word {name : String} (hname : isPlainName name = true)
    {fuel nesting : Nat} {rest : List Char} (hrest : EndsValue rest)
    (hfuel : 3 * name.toList.length ≤ fuel) :
    readValue false fuel nesting (name.toList ++ rest) = some (.word ⟨name, false⟩, rest) := by
  obtain ⟨c, cs, hcons, -⟩ := exists_of_isName (isName_of_isPlainName hname)
  rw [hcons, List.length_cons] at hfuel
  obtain ⟨fuel, rfl⟩ := Nat.exists_eq_add_of_le' (show 1 ≤ fuel by omega)
  exact readValue_word hname hrest

theorem isRead_flag (b : Bool) : IsRead (.flag b) := by
  intro fuel nesting depth rest hrest hfuel _
  have hname : isPlainName (if b then "true" else "false") = true := by cases b <;> rfl
  rw [print] at hfuel ⊢
  exact ⟨_, exists_readValue_word hname hrest hfuel, .flag b⟩

theorem isRead_absent : IsRead .absent := by
  intro fuel nesting depth rest hrest hfuel _
  rw [print] at hfuel ⊢
  exact ⟨_, exists_readValue_word (by rfl) hrest hfuel, .absent⟩

theorem isRead_word {name : String} (hname : isPlainName name = true) : IsRead (.word name) := by
  intro fuel nesting depth rest hrest hfuel _
  rw [print] at hfuel ⊢
  exact ⟨_, exists_readValue_word hname hrest hfuel, .word name⟩

/-- A value in parentheses is read, whatever name stands in front of them. -/
theorem IsRead.exists_group {d : Document} (h : IsRead d) (hd : d.IsWritable)
    {fuel nesting : Nat} (depth : Nat) (hfuel : 3 * (print depth d).toList.length ≤ fuel)
    (hlevels : d.levels ≤ nesting) (rest : List Char) (name : Option Name) :
    ∃ r outlook, Denotes r d ∧
      readGroup false (fuel + 2) (nesting + 1) name ((print depth d).toList ++ ')' :: rest)
        = some (if name.any (·.isWord "Some") then .someOf outlook [r] else .group name [r], rest) := by
  have hends : EndsValue (')' :: rest) := by
    rintro c ⟨⟩
    decide
  obtain ⟨r, hr, hdenotes⟩ := h fuel nesting depth _ hends hfuel hlevels
  obtain ⟨outlook, hgroup⟩ := readGroup_print hd hr name
  exact ⟨r, outlook, hdenotes, hgroup⟩

/-- A value in parentheses is read under a name. -/
theorem IsRead.exists_named {d : Document} (h : IsRead d) (hd : d.IsWritable) {name : String}
    (hname : isPlainName name = true) {fuel nesting : Nat} (depth : Nat)
    (hfuel : 3 * (name.toList ++ '(' :: ((print depth d).toList ++ [')'])).length ≤ fuel)
    (hlevels : d.levels + 1 ≤ nesting) (rest : List Char) :
    ∃ r outlook, Denotes r d ∧
      readValue false fuel nesting (name.toList ++ '(' :: ((print depth d).toList ++ [')']) ++ rest)
        = some (if name = "Some" then .someOf outlook [r] else .group (some ⟨name, false⟩) [r],
          rest) := by
  simp only [List.length_append, List.length_cons, List.length_nil] at hfuel
  have hlength : 1 ≤ name.toList.length := by
    obtain ⟨c, cs, hcons, -⟩ := exists_of_isName (isName_of_isPlainName hname)
    rw [hcons]
    exact Nat.le_add_left 1 _
  obtain ⟨fuel, rfl⟩ := Nat.exists_eq_add_of_le' (show 3 ≤ fuel by omega)
  obtain ⟨nesting, rfl⟩ := Nat.exists_eq_add_of_le' (show 1 ≤ nesting by omega)
  obtain ⟨r, outlook, hr, hgroup⟩ := h.exists_group hd depth (show _ ≤ fuel by omega)
    (Nat.le_of_add_le_add_right hlevels) rest (some ⟨name, false⟩)
  have hword : (some ⟨name, false⟩ : Option Name).any (·.isWord "Some")
      = decide (name = "Some") := rfl
  simp only [hword, decide_eq_true_eq] at hgroup
  refine ⟨r, outlook, hr, ?_⟩
  rw [List.append_assoc, List.cons_append, List.append_assoc, List.singleton_append]
  exact (readValue_named hname (skipBlank_print depth hd _)).trans hgroup

theorem isRead_present {value : Document} (h : IsRead value) (hvalue : value.IsWritable) :
    IsRead (.present value) := by
  intro fuel nesting depth rest _ hfuel hlevels
  rw [toList_print_present] at hfuel ⊢
  rw [Document.levels] at hlevels
  obtain ⟨r, outlook, hr, hread⟩ := h.exists_named hvalue (by rfl) depth hfuel (by omega) rest
  rw [if_pos rfl] at hread
  exact ⟨_, hread, .present outlook hr⟩

theorem isRead_case {name : String} {value : Document} (hname : isPlainName name = true)
    (hsome : name ≠ "Some") (h : IsRead value) (hvalue : value.IsWritable) :
    IsRead (.case name value) := by
  intro fuel nesting depth rest _ hfuel hlevels
  rw [toList_print_case] at hfuel ⊢
  rw [Document.levels] at hlevels
  obtain ⟨r, outlook, hr, hread⟩ := h.exists_named hvalue hname depth hfuel
    (show value.levels + 1 ≤ nesting by omega) rest
  rw [if_neg hsome] at hread
  exact ⟨_, hread, .case name hr⟩

theorem isRead_wrapped {value : Document} (h : IsRead value) (hvalue : value.IsWritable) :
    IsRead (.wrapped value) := by
  intro fuel nesting depth rest _ hfuel hlevels
  rw [toList_print_wrapped] at hfuel ⊢
  simp only [List.length_cons, List.length_append, List.length_nil] at hfuel
  rw [Document.levels] at hlevels
  obtain ⟨fuel, rfl⟩ := Nat.exists_eq_add_of_le' (show 3 ≤ fuel by omega)
  obtain ⟨nesting, rfl⟩ := Nat.exists_eq_add_of_le' (show 1 ≤ nesting by omega)
  obtain ⟨r, outlook, hr, hgroup⟩ := h.exists_group hvalue depth (show _ ≤ fuel by omega)
    (Nat.le_of_add_le_add_right hlevels) rest none
  refine ⟨.group none [r], ?_, .wrapped hr⟩
  have hskip := skipBlank_print depth hvalue (')' :: rest)
  obtain ⟨c, cs, hcons, -, hne⟩ := exists_print_cons depth hvalue
  have hc : c ≠ ')' := by
    rintro rfl
    exact hne (by decide)
  rw [List.cons_append, List.append_assoc, List.singleton_append]
  rw [hcons, List.cons_append] at hskip hgroup ⊢
  exact (readValue_group hc hskip).trans hgroup

/-! ## Items and fields -/

theorem areRead_nil : AreRead [] := by
  intro fuel nesting depth close rest hfuel _
  obtain ⟨fuel, rfl⟩ := Nat.exists_eq_add_of_le' (show 1 ≤ fuel by omega)
  refine ⟨']' :: rest, [], ?_, ?_, .nil⟩
  · rw [printItems, show "".toList = [] from rfl, List.nil_append, skipBlank_margin]
    exact skipBlank_cons rfl (by decide) rest
  · rw [readItems, show expect ']' (']' :: rest) = some rest from rfl]

theorem AreRead.cons {item : Document} {items : List Document} (hitem : IsRead item)
    (hwritable : item.IsWritable) (hitems : AreRead items) : AreRead (item :: items) := by
  intro fuel nesting depth close rest hfuel hlevels
  rw [toList_printItems_cons] at hfuel ⊢
  simp only [List.length_cons, List.length_append] at hfuel
  rw [Document.levelsOfItems] at hlevels
  obtain ⟨fuel, rfl⟩ := Nat.exists_eq_add_of_le' (show 1 ≤ fuel by omega)
  -- the items after this one are read with one unit of fuel less, up to the same bracket
  obtain ⟨cs, rs, htail, hrest, hdenote⟩ :=
    hitems fuel nesting depth close rest (by omega) (by omega)
  have hends : EndsValue (',' :: '\n' :: ((printItems depth items).toList
      ++ ((margin close).toList ++ ']' :: rest))) := by
    rintro c ⟨⟩
    decide
  obtain ⟨r, hr, hdenotes⟩ := hitem fuel nesting depth _ hends (by omega) (by omega)
  have hline : skipBlank ('\n' :: ((printItems depth items).toList
      ++ ((margin close).toList ++ ']' :: rest))) = some cs := by
    rw [skipBlank_blank rfl, htail]
  have hstart := skipBlank_print depth hwritable (',' :: '\n' :: ((printItems depth items).toList
    ++ ((margin close).toList ++ ']' :: rest)))
  obtain ⟨c, tail, hcons, -, hne⟩ := exists_print_cons depth hwritable
  have hc : c ≠ ']' := by
    rintro rfl
    exact hne (by decide)
  simp only [List.append_assoc, List.cons_append, skipBlank_margin]
  rw [hcons, List.cons_append] at hstart hr ⊢
  exact ⟨_, r :: rs, hstart, readItems_cons hc hr hline hrest, .cons hdenotes hdenote⟩

theorem fieldsAreRead_nil : FieldsAreRead [] := by
  intro fuel nesting depth close rest hfuel _
  obtain ⟨fuel, rfl⟩ := Nat.exists_eq_add_of_le' (show 1 ≤ fuel by omega)
  refine ⟨')' :: rest, [], ?_, fun h => absurd rfl h, ?_, .nil⟩
  · rw [printFields, show "".toList = [] from rfl, List.nil_append, skipBlank_margin]
    exact skipBlank_cons rfl (by decide) rest
  · rw [readFields, show expect ')' (')' :: rest) = some rest from rfl]

theorem FieldsAreRead.cons {key : String} {value : Document} {fields : List (String × Document)}
    (hkey : isName key = true) (hvalue : IsRead value) (hwritable : value.IsWritable)
    (hfields : FieldsAreRead fields) : FieldsAreRead ((key, value) :: fields) := by
  intro fuel nesting depth close rest hfuel hlevels
  rw [toList_printFields_cons] at hfuel ⊢
  simp only [List.length_cons, List.length_append] at hfuel
  rw [Document.levelsOfFields] at hlevels
  obtain ⟨fuel, rfl⟩ := Nat.exists_eq_add_of_le' (show 1 ≤ fuel by omega)
  obtain ⟨cs, parts, htail, -, hrest, hdenote⟩ :=
    hfields fuel nesting depth close rest (by omega) (by omega)
  have hends : EndsValue (',' :: '\n' :: ((printFields depth fields).toList
      ++ ((margin close).toList ++ ')' :: rest))) := by
    rintro c ⟨⟩
    decide
  obtain ⟨r, hr, hdenotes⟩ := hvalue fuel nesting depth _ hends (by omega) (by omega)
  have hline : skipBlank ('\n' :: ((printFields depth fields).toList
      ++ ((margin close).toList ++ ')' :: rest))) = some cs := by
    rw [skipBlank_blank rfl, htail]
  have hread := readKey_field hkey depth hwritable (',' :: '\n' :: ((printFields depth fields).toList
    ++ ((margin close).toList ++ ')' :: rest)))
  simp only [List.append_assoc, List.cons_append, skipBlank_margin]
  refine ⟨_, (key, r) :: parts, ?_, fun _ => by rw [hread]; rfl,
    readFields_cons ?_ hread hr hline hrest, .cons hdenotes hdenote⟩
  -- a key starts with a letter, which is neither white space nor the closing parenthesis
  all_goals
    obtain ⟨c, tail, hcons, hc, -⟩ := exists_of_isName hkey
    obtain ⟨hblank, hne, -⟩ := isAlpha_spec hc
    simp only [List.mem_cons, not_or] at hne
    rw [hcons, List.cons_append]
  · exact skipBlank_cons hblank hne.1 _
  · exact if_neg hne.2.1

theorem isRead_list {items : List Document} (h : AreRead items) : IsRead (.list items) := by
  intro fuel nesting depth rest _ hfuel hlevels
  rw [Document.levels] at hlevels
  obtain ⟨nesting, rfl⟩ := Nat.exists_eq_add_of_le' (show 1 ≤ nesting by omega)
  cases items with
  | nil =>
      rw [toList_print_nil] at hfuel ⊢
      simp only [List.length_cons, List.length_nil] at hfuel
      obtain ⟨fuel, rfl⟩ := Nat.exists_eq_add_of_le' (show 2 ≤ fuel by omega)
      have hitems : readItems false (fuel + 1) nesting ']' (']' :: rest) = some ([], rest) := by
        rw [readItems, show expect ']' (']' :: rest) = some rest from rfl]
      exact ⟨.list [], readValue_list (skipBlank_cons rfl (by decide) rest) hitems, .list .nil⟩
  | cons item items =>
      rw [toList_print_list] at hfuel ⊢
      simp only [List.length_cons, List.length_append] at hfuel
      obtain ⟨fuel, rfl⟩ := Nat.exists_eq_add_of_le' (show 1 ≤ fuel by omega)
      obtain ⟨cs, rs, hskip, hitems, hdenote⟩ :=
        h fuel nesting (depth + 1) depth rest (by omega) (by omega)
      refine ⟨.list rs, ?_, .list hdenote⟩
      simp only [List.append_assoc, List.cons_append, List.nil_append]
      exact readValue_list ((skipBlank_blank rfl _).trans hskip) hitems

/-- Fields in parentheses are read, whatever name stands in front of them. -/
theorem FieldsAreRead.exists_group {fields : List (String × Document)} (h : FieldsAreRead fields)
    (hne : fields ≠ []) {fuel nesting : Nat} (depth : Nat)
    (hfuel : 3 * (printFields (depth + 1) fields).toList.length < fuel)
    (hlevels : Document.levelsOfFields fields ≤ nesting) (rest : List Char) (name : Option Name) :
    ∃ cs parts, skipBlank ('\n' :: ((printFields (depth + 1) fields).toList
        ++ ((margin depth).toList ++ ')' :: rest))) = some cs ∧ FieldsDenote parts fields ∧
      readGroup false (fuel + 1) (nesting + 1) name cs = some (.record name parts, rest) := by
  obtain ⟨cs, parts, hskip, hkey, hfields, hdenote⟩ :=
    h fuel nesting (depth + 1) depth rest hfuel hlevels
  exact ⟨cs, parts, (skipBlank_blank rfl _).trans hskip, hdenote,
    readGroup_fields (hkey hne) hfields⟩

theorem isRead_record {fields : List (String × Document)} (h : FieldsAreRead fields)
    (hne : fields ≠ []) : IsRead (.record fields) := by
  intro fuel nesting depth rest _ hfuel hlevels
  rw [toList_print_record] at hfuel ⊢
  simp only [List.length_cons, List.length_append] at hfuel
  rw [Document.levels] at hlevels
  obtain ⟨fuel, rfl⟩ := Nat.exists_eq_add_of_le' (show 2 ≤ fuel by omega)
  obtain ⟨nesting, rfl⟩ := Nat.exists_eq_add_of_le' (show 1 ≤ nesting by omega)
  obtain ⟨cs, parts, hskip, hdenote, hgroup⟩ :=
    h.exists_group hne depth (show _ < fuel by omega) (show _ ≤ nesting by omega) rest
      none
  refine ⟨.record none parts, ?_, .record hdenote⟩
  simp only [List.append_assoc, List.cons_append, List.nil_append]
  exact (readValue_group (by decide) hskip).trans hgroup

theorem isRead_recordCase {name : String} {fields : List (String × Document)}
    (hname : isPlainName name = true) (h : FieldsAreRead fields) (hne : fields ≠ []) :
    IsRead (.recordCase name fields) := by
  intro fuel nesting depth rest _ hfuel hlevels
  rw [toList_print_recordCase] at hfuel ⊢
  simp only [List.length_cons, List.length_append] at hfuel
  rw [Document.levels] at hlevels
  obtain ⟨fuel, rfl⟩ := Nat.exists_eq_add_of_le' (show 2 ≤ fuel by omega)
  obtain ⟨nesting, rfl⟩ := Nat.exists_eq_add_of_le' (show 1 ≤ nesting by omega)
  obtain ⟨cs, parts, hskip, hdenote, hgroup⟩ :=
    h.exists_group hne depth (show _ < fuel by omega) (show _ ≤ nesting by omega) rest
      (some ⟨name, false⟩)
  refine ⟨.record (some ⟨name, false⟩) parts, ?_, .recordCase name hdenote⟩
  simp only [List.append_assoc, List.cons_append, List.nil_append]
  exact (readValue_named hname hskip).trans hgroup

/-! ## All values -/

mutual

/-- **What is read of a value is of the form in which it was written.** -/
theorem isRead : ∀ d : Document, d.IsWritable → IsRead d
  | .text s, _ => isRead_text s
  | .count n, _ => isRead_count n
  | .flag b, _ => isRead_flag b
  | .absent, _ => isRead_absent
  | .present value, h => isRead_present (isRead value h) h
  | .list items, h => isRead_list (areRead items h)
  | .record fields, h => isRead_record (fieldsAreRead fields h.2) h.1
  | .wrapped value, h => isRead_wrapped (isRead value h) h
  | .word _, h => isRead_word h
  | .case _ value, h => isRead_case h.1 h.2.1 (isRead value h.2.2) h.2.2
  | .recordCase _ fields, h => isRead_recordCase h.1 (fieldsAreRead fields h.2.2) h.2.1

theorem areRead : ∀ items : List Document, Document.AreWritable items → AreRead items
  | [], _ => areRead_nil
  | item :: items, h => .cons (isRead item h.1) h.1 (areRead items h.2)

theorem fieldsAreRead : ∀ fields : List (String × Document), Document.FieldsAreWritable fields →
    FieldsAreRead fields
  | [], _ => fieldsAreRead_nil
  | (_, value) :: fields, h => .cons h.1 (isRead value h.2.1) h.2.1 (fieldsAreRead fields h.2.2)

end

/-- **What is read of a text is of the form in which its document was written**, and the text enables
nothing. -/
theorem exists_parse_print {d : Document} (hd : d.IsWritable) (hlevels : d.levels ≤ maxNesting) :
    ∃ r, parse (print 0 d) = some (.none, r) ∧ Denotes r d := by
  have hends : EndsValue [] := by
    rintro c ⟨⟩
  obtain ⟨r, hr, hdenotes⟩ := isRead d hd (4 * (print 0 d).toList.length + 4) maxNesting 0 [] hends
    (by omega) hlevels
  have hskip := skipBlank_print 0 hd []
  obtain ⟨c, cs, hcons, -, hne⟩ := exists_print_cons 0 hd
  have hmark : c ≠ '#' := by
    rintro rfl
    exact hne (by decide)
  have hextensions : readExtensions ((print 0 d).toList.length + 1) .none (print 0 d).toList
      = some (.none, (print 0 d).toList) := by
    rw [hcons, readExtensions]
    exact fun _ h => hmark (List.cons.inj h).1
  rw [List.append_nil] at hr hskip
  refine ⟨r, ?_, hdenotes⟩
  simp only [parse, hskip, hextensions, Option.bind_eq_bind, Option.bind_some,
    show Extensions.none.implicitSome = false from rfl, hr]
  rfl

end Ron

end RoutePolicy
