import RoutePolicy.Json.Printer
import RoutePolicy.Json.Reader
import RoutePolicy.Proofs.Number.Numeral

set_option autoImplicit false

/-! # JSON text is read as it was written

Each part of a text is read up to where its writing ends: characters and escapes
(`Json.readText_print`), numbers (`Json.readNumber_integer`, `Json.readNumber_decimal`), and from
these by induction whole values (`Json.readValue_print`). A value that holds readable texts only is
found again in its text (`Json.parse_pretty`). -/

namespace RoutePolicy

namespace Json

/-! ## Texts -/

/-- The four digits of a control character give its number. -/
theorem exists_hexDigits {n : Nat} (hn : n < 0x20) :
    ∃ a b c d, hexDigits n = [a, b, c, d] ∧ unitValue? a b c d = some n := by
  have hdigits : ∀ n < 0x20, hexDigits n = ['0', '0', Nat.digitChar (n / 16), Nat.digitChar (n % 16)]
      ∧ unitValue? '0' '0' (Nat.digitChar (n / 16)) (Nat.digitChar (n % 16)) = some n := by decide
  exact ⟨_, _, _, _, hdigits n hn⟩

/-- A unit that is no half of a pair stands for the character of its number. -/
theorem joinPieces_unit {n : Nat} (hn : n < 0xd800) (pieces : List Piece) :
    joinPieces (.unit n :: pieces) = (joinPieces pieces).map (Char.ofNat n :: ·) := by
  have hhigh : isHighHalf n = false := by simp [isHighHalf]; omega
  have hlow : isLowHalf n = false := by simp [isLowHalf]; omega
  cases pieces with
  | nil => simp [joinPieces, hhigh, hlow]
  | cons piece pieces =>
      cases piece with
      | char c => simp [joinPieces, hhigh, hlow]
      | unit m => simp [joinPieces, hhigh, hlow]

/-- A letter after a backslash is read as what it stands for. -/
theorem readPieces_escape {letter c : Char} (h : shortEscape? letter = some c) (cs : List Char) :
    readPieces ('\\' :: letter :: cs)
      = (readPieces cs).map fun (pieces, rest) => (.char c :: pieces, rest) := by
  have hu : letter ≠ 'u' := by
    rintro rfl
    cases h
  rw [readPieces]
  · rw [h, Option.bind_eq_bind, Option.bind_some]
    cases readPieces cs <;> rfl
  all_goals intros; simp_all

/-- Four digits after a backslash are read as a unit. -/
theorem readPieces_unit {n : Nat} (hn : n < 0x20) (cs : List Char) :
    readPieces ('\\' :: 'u' :: hexDigits n ++ cs)
      = (readPieces cs).map fun (pieces, rest) => (.unit n :: pieces, rest) := by
  obtain ⟨a, b, c, d, hdigits, hvalue⟩ := exists_hexDigits hn
  rw [hdigits]
  simp only [List.cons_append, List.nil_append]
  rw [readPieces, hvalue, Option.bind_eq_bind, Option.bind_some]
  cases readPieces cs <;> rfl

/-- What is written for a character is read as one piece, which stands for the character. -/
theorem exists_piece (c : Char) : ∃ piece,
    (∀ cs, readPieces (printChar c ++ cs)
      = (readPieces cs).map fun (pieces, rest) => (piece :: pieces, rest)) ∧
    ∀ pieces, joinPieces (piece :: pieces) = (joinPieces pieces).map (c :: ·) := by
  have hescape (letter : Char) (h : shortEscape? letter = some c)
      (hprint : printChar c = ['\\', letter]) : ∃ piece,
      (∀ cs, readPieces (printChar c ++ cs)
        = (readPieces cs).map fun (pieces, rest) => (piece :: pieces, rest)) ∧
      ∀ pieces, joinPieces (piece :: pieces) = (joinPieces pieces).map (c :: ·) :=
    ⟨.char c, fun cs => hprint ▸ readPieces_escape h cs, joinPieces_char c⟩
  by_cases hquote : c = '"'
  · subst hquote
    exact hescape '"' rfl rfl
  by_cases hslash : c = '\\'
  · subst hslash
    exact hescape '\\' rfl rfl
  by_cases hb : c = '\x08'
  · subst hb
    exact hescape 'b' rfl rfl
  by_cases ht : c = '\t'
  · subst ht
    exact hescape 't' rfl rfl
  by_cases hn : c = '\n'
  · subst hn
    exact hescape 'n' rfl rfl
  by_cases hf : c = '\x0c'
  · subst hf
    exact hescape 'f' rfl rfl
  by_cases hr : c = '\r'
  · subst hr
    exact hescape 'r' rfl rfl
  by_cases hlow : c.toNat < 0x20
  · refine ⟨.unit c.toNat, fun cs => ?_, fun pieces => ?_⟩
    · rw [printChar, if_neg hquote, if_neg hslash, if_neg hb, if_neg ht, if_neg hn, if_neg hf,
        if_neg hr, if_pos hlow]
      exact readPieces_unit hlow cs
    · rw [joinPieces_unit (by omega), Char.ofNat_toNat]
  · refine ⟨.char c, fun cs => ?_, joinPieces_char c⟩
    rw [printChar, if_neg hquote, if_neg hslash, if_neg hb, if_neg ht, if_neg hn, if_neg hf,
      if_neg hr, if_neg hlow]
    exact readPieces_plain hquote hslash (Nat.le_of_not_lt hlow) cs

/-- The characters of a text are read up to the quote that ends it. -/
theorem exists_readPieces (s : List Char) (rest : List Char) : ∃ pieces,
    readPieces (s.flatMap printChar ++ '"' :: rest) = some (pieces, rest) ∧
      joinPieces pieces = some s := by
  induction s with
  | nil => exact ⟨[], by simp [readPieces], by rw [joinPieces]⟩
  | cons c s ih =>
      obtain ⟨pieces, hread, hjoin⟩ := ih
      obtain ⟨piece, hpiece, hstands⟩ := exists_piece c
      refine ⟨piece :: pieces, ?_, ?_⟩
      · rw [List.flatMap_cons, List.append_assoc, hpiece, hread, Option.map_some]
      · rw [hstands, hjoin, Option.map_some]

/-- **A text is read as it was written.** -/
theorem readText_print (s : String) (rest : List Char) :
    readText (s.toList.flatMap printChar ++ '"' :: rest) = some (some s, rest) := by
  obtain ⟨pieces, hread, hjoin⟩ := exists_readPieces s.toList rest
  have hs : (joinPieces pieces).map String.ofList = some s := by
    rw [hjoin, Option.map_some, String.ofList_toList]
  rw [readText, hread, ← hs]
  rfl

/-! ## Numbers -/

/-- What follows does not go on with a number: it starts with neither a digit nor a character of a
fraction or an exponent. -/
def EndsNumber (cs : List Char) : Prop :=
  ∀ c ∈ cs.head?, c.isDigit = false ∧ c ≠ '.' ∧ c ≠ 'e' ∧ c ≠ 'E'

/-- The digits of a number end where something else follows. -/
theorem spanDigits_printNat (n : Nat) {rest : List Char}
    (h : ∀ c ∈ rest.head?, c.isDigit = false) :
    spanDigits (printNat n ++ rest) = (printNat n, rest) := by
  have hdigits : ∀ c ∈ printNat n, c.isDigit = true := by
    rw [printNat, toList_toString]
    exact fun c => isDigit_toDigits
  have hrest : rest.takeWhile Char.isDigit = [] ∧ rest.dropWhile Char.isDigit = rest := by
    cases rest with
    | nil => exact ⟨rfl, rfl⟩
    | cons c cs =>
        have hc : c.isDigit = false := h c rfl
        simp [hc]
  rw [spanDigits, List.takeWhile_append_of_pos hdigits, List.dropWhile_append_of_pos hdigits,
    hrest.1, hrest.2, List.append_nil]

/-- Only zero starts with a zero. -/
theorem toDigits_head (n : Nat) : n = 0 ∨ ∃ c cs, Nat.toDigits 10 n = c :: cs ∧ c ≠ '0' := by
  induction n using Nat.strong_induction_on with
  | _ n ih =>
      rcases Nat.lt_or_ge n 10 with hlt | hge
      · have hsmall : ∀ n < 10, n = 0 ∨ Nat.digitChar n ≠ '0' := by decide
        exact (hsmall n hlt).imp_right fun hne =>
          ⟨_, _, Nat.toDigits_of_lt_base hlt, hne⟩
      · obtain hzero | ⟨c, cs, hcons, hne⟩ := ih (n / 10) (by omega)
        · omega
        · refine Or.inr ⟨c, cs ++ [Nat.digitChar (n % 10)], ?_, hne⟩
          rw [Nat.toDigits_of_base_le (by decide) hge, hcons, List.cons_append]

theorem readWholePart_printNat (n : Nat) {rest : List Char}
    (h : ∀ c ∈ rest.head?, c.isDigit = false) :
    readWholePart (printNat n ++ rest) = some (printNat n, rest) := by
  rw [readWholePart, spanDigits_printNat n h]
  obtain rfl | ⟨c, cs, hcons, hne⟩ := toDigits_head n
  · rfl
  · rw [printNat, toList_toString, hcons]
    simp [hne]

/-- The digits of a number start with a digit. -/
theorem exists_printNat_cons (n : Nat) : ∃ c cs, printNat n = c :: cs ∧ c.isDigit = true := by
  rw [printNat, toList_toString]
  exact exists_toDigits_cons n

theorem digitsValue_printNat (n : Nat) : digitsValue (printNat n) = n := by
  rw [printNat, toList_toString, digitsValue_toDigits]

theorem readFraction_of_ne {cs : List Char} (h : ∀ c ∈ cs.head?, c ≠ '.') :
    readFraction cs = some (none, cs) := by
  unfold readFraction
  split
  · exact absurd rfl (h '.' rfl)
  · rfl

theorem readExponent_of_ne {cs : List Char} (h : ∀ c ∈ cs.head?, c ≠ 'e' ∧ c ≠ 'E') :
    readExponent cs = some (none, cs) := by
  unfold readExponent
  split
  · rename_i c cs
    rw [if_neg (not_or.mpr (h c rfl))]
  · rfl

/-- An exponent is read as it was written, with its sign. -/
theorem readExponent_print (negative : Bool) (e : Nat) {rest : List Char}
    (h : ∀ c ∈ rest.head?, c.isDigit = false) :
    readExponent ('e' :: (printInteger negative e ++ rest))
      = some (some (if negative then -(e : Int) else e), rest) := by
  obtain ⟨c, cs, hcons, hdigit⟩ := exists_printNat_cons e
  have hsplit : splitSign (printInteger negative e ++ rest) = (negative, printNat e ++ rest) := by
    cases negative with
    | true => rfl
    | false =>
        have hminus : c ≠ '-' := by
          rintro rfl
          cases hdigit
        have hplus : c ≠ '+' := by
          rintro rfl
          cases hdigit
        rw [printInteger, if_neg Bool.false_ne_true, hcons, List.cons_append, splitSign]
        all_goals intros; simp_all
  have hempty : (printNat e).isEmpty = false := by rw [hcons, List.isEmpty_cons]
  simp only [readExponent, true_or, if_true, hsplit, spanDigits_printNat e h, hempty,
    digitsValue_printNat, Bool.false_eq_true, if_false]

/-- A number without a fraction is whole if it has no exponent. -/
theorem readNumber_print (negative : Bool) (n : Nat) {exponent : Option Int} {cs rest : List Char}
    (hdigit : ∀ c ∈ cs.head?, c.isDigit = false) (hpoint : ∀ c ∈ cs.head?, c ≠ '.')
    (hexponent : readExponent cs = some (exponent, rest)) :
    readNumber (printInteger negative n ++ cs)
      = some (exponent.elim (.integer negative n) (.decimal negative n), rest) := by
  have hwhole := readWholePart_printNat n hdigit
  cases negative with
  | true =>
      rw [printInteger, if_pos rfl, List.cons_append, readNumber]
      simp only [hwhole, Option.bind_eq_bind, Option.bind_some, readFraction_of_ne hpoint, hexponent]
      cases exponent <;> simp [digitsValue_printNat]
  | false =>
      obtain ⟨c, tail, hcons, hc⟩ := exists_printNat_cons n
      have hminus : c ≠ '-' := by
        rintro rfl
        cases hc
      rw [printInteger, if_neg Bool.false_ne_true, readNumber]
      · simp only [hwhole, Option.bind_eq_bind, Option.bind_some, readFraction_of_ne hpoint,
          hexponent]
        cases exponent <;> simp [digitsValue_printNat]
      · intro tail' heq
        rw [hcons] at heq
        exact hminus (List.cons.inj heq).1

/-- **A whole number is read as it was written.** -/
theorem readNumber_integer (negative : Bool) (n : Nat) {rest : List Char} (h : EndsNumber rest) :
    readNumber (printInteger negative n ++ rest) = some (.integer negative n, rest) :=
  readNumber_print negative n (fun c hc => (h c hc).1) (fun c hc => (h c hc).2.1)
    (readExponent_of_ne fun c hc => (h c hc).2.2)

/-- **A number with an exponent is read as it was written.** -/
theorem readNumber_decimal (negative : Bool) (n : Nat) (minus : Bool) (e : Nat) {rest : List Char}
    (h : EndsNumber rest) :
    readNumber (printInteger negative n ++ 'e' :: (printInteger minus e ++ rest))
      = some (.decimal negative n (if minus then -(e : Int) else e), rest) := by
  refine readNumber_print negative n ?_ ?_ (readExponent_print minus e fun c hc => (h c hc).1)
  · rintro c ⟨⟩
    rfl
  · rintro c ⟨⟩
    decide

/-! ## Values -/

mutual

/-- The texts in the value, keys among them, can be read. -/
def IsLegible : Json → Prop
  | .text s => s.isSome = true
  | .list items => AreLegible items
  | .object members => MembersAreLegible members
  | _ => True

def AreLegible : List Json → Prop
  | [] => True
  | item :: items => IsLegible item ∧ AreLegible items

def MembersAreLegible : List (Option String × Json) → Prop
  | [] => True
  | (key, value) :: members => key.isSome = true ∧ IsLegible value ∧ MembersAreLegible members

end

mutual

/-- The fuel that it takes to read the value: one unit for each value, and one for each item. -/
def cost : Json → Nat
  | .list items => costOfItems items + 1
  | .object members => costOfMembers members + 1
  | _ => 1

def costOfItems : List Json → Nat
  | [] => 0
  | item :: items => cost item + costOfItems items + 1

def costOfMembers : List (Option String × Json) → Nat
  | [] => 0
  | (_, value) :: members => cost value + costOfMembers members + 1

end

/-- What is written for a number starts with a sign or a digit. -/
theorem exists_printInteger_cons (negative : Bool) (n : Nat) (rest : List Char) :
    ∃ c cs, printInteger negative n ++ rest = c :: cs ∧ (c = '-' ∨ c.isDigit = true) := by
  cases negative with
  | true => exact ⟨'-', printNat n ++ rest, rfl, Or.inl rfl⟩
  | false =>
      obtain ⟨c, cs, hcons, hc⟩ := exists_printNat_cons n
      exact ⟨c, cs ++ rest, congrArg (· ++ rest) hcons, Or.inr hc⟩

/-- A sign or a digit is none of the characters that other values and ends start with. -/
theorem ne_of_isDigit {c d : Char} (hc : c = '-' ∨ c.isDigit = true) (hd : d.isDigit = false)
    (hminus : d ≠ '-') : c ≠ d := by
  rintro rfl
  rcases hc with rfl | hc
  · exact hminus rfl
  · rw [hd] at hc
    cases hc

theorem readValue_of_isDigit {fuel : Nat} {c : Char} (hc : c = '-' ∨ c.isDigit = true)
    (cs : List Char) : readValue (fuel + 1) (c :: cs) = readNumber (c :: cs) := by
  have hne {d : Char} := ne_of_isDigit (d := d) hc
  have hblank : isBlank c = false := by
    simp [isBlank, hne (d := ' ') rfl (by decide), hne (d := '\n') rfl (by decide),
      hne (d := '\t') rfl (by decide), hne (d := '\r') rfl (by decide)]
  rw [readValue, skipBlank, List.dropWhile_cons_of_neg (by simp [hblank])]
  split
  case h_7 => rfl
  all_goals
    rename_i heq
    exact absurd (List.cons.inj heq).1 (hne rfl (by decide))

/-! White space before a value is skipped. -/

theorem skipBlank_newLine (depth : Nat) (cs : List Char) :
    skipBlank (newLine depth ++ cs) = skipBlank cs := by
  have hblank : ∀ c ∈ newLine depth, isBlank c = true := by
    intro c hc
    rcases List.mem_cons.mp hc with rfl | hc
    · rfl
    · rw [List.eq_of_mem_replicate hc]
      rfl
  rw [skipBlank, List.dropWhile_append_of_pos hblank, skipBlank]

theorem skipBlank_of_not_blank {c : Char} (hc : isBlank c = false) (cs : List Char) :
    skipBlank (c :: cs) = c :: cs := by
  rw [skipBlank, List.dropWhile_cons_of_neg (by simp [hc])]

theorem readItems_newLine (fuel depth : Nat) (cs : List Char) :
    readItems fuel (newLine depth ++ cs) = readItems fuel cs :=
  readItems_congr (skipBlank_newLine depth cs) fuel

theorem readMembers_newLine (fuel depth : Nat) (cs : List Char) :
    readMembers fuel (newLine depth ++ cs) = readMembers fuel cs :=
  readMembers_congr (skipBlank_newLine depth cs) fuel

/-- What is written for a value starts with a character that is no white space and ends nothing. -/
theorem exists_print_cons (depth : Nat) (j : Json) : ∃ c cs, print depth j = c :: cs ∧
    isBlank c = false ∧ c ≠ ']' := by
  have hnumber (negative : Bool) (n : Nat) (rest : List Char) : ∃ c cs,
      printInteger negative n ++ rest = c :: cs ∧ isBlank c = false ∧ c ≠ ']' := by
    obtain ⟨c, cs, hcons, hc⟩ := exists_printInteger_cons negative n rest
    have hne {d : Char} := ne_of_isDigit (d := d) hc
    refine ⟨c, cs, hcons, ?_, hne rfl (by decide)⟩
    simp [isBlank, hne (d := ' ') rfl (by decide), hne (d := '\n') rfl (by decide),
      hne (d := '\t') rfl (by decide), hne (d := '\r') rfl (by decide)]
  cases j with
  | null => exact ⟨_, _, rfl, rfl, by decide⟩
  | bool b => cases b <;> exact ⟨_, _, rfl, rfl, by decide⟩
  | integer negative n =>
      have h := hnumber negative n []
      rwa [List.append_nil] at h
  | decimal negative n e => cases e <;> exact hnumber negative n _
  | text s => exact ⟨_, _, rfl, rfl, by decide⟩
  | list items => cases items <;> exact ⟨_, _, rfl, rfl, by decide⟩
  | object members => cases members <;> exact ⟨_, _, rfl, rfl, by decide⟩

theorem cost_pos (j : Json) : 0 < cost j := by
  cases j <;> simp only [cost] <;> omega

/-- A line break ends a number, and so does a comma. -/
theorem endsNumber_items (depth close : Nat) (items : List Json) (rest : List Char) :
    EndsNumber (printItems depth items ++ (newLine close ++ rest)) := by
  cases items <;> (rintro c ⟨⟩; decide)

theorem endsNumber_members (depth close : Nat) (members : List (Option String × Json))
    (rest : List Char) : EndsNumber (printMembers depth members ++ (newLine close ++ rest)) := by
  cases members <;> (rintro c ⟨⟩; decide)

/-- A bracket that no bracket follows opens a list of items. -/
theorem readValue_list {fuel : Nat} {c : Char} {cs rest : List Char} {items : List Json}
    (hblank : isBlank c = false) (hc : c ≠ ']')
    (hitems : readItems fuel (c :: cs) = some (items, rest)) (depth : Nat) :
    readValue (fuel + 1) ('[' :: (newLine depth ++ c :: cs)) = some (.list items, rest) := by
  rw [readValue, skipBlank_of_not_blank rfl]
  simp only [skipBlank_newLine, skipBlank_of_not_blank hblank]
  split
  · rename_i heq
    exact absurd (List.cons.inj heq).1 hc
  · rw [hitems]
    rfl

/-- A brace that a quote follows opens an object with members. -/
theorem readValue_object {fuel : Nat} {cs rest : List Char}
    {members : List (Option String × Json)}
    (hmembers : readMembers fuel ('"' :: cs) = some (members, rest)) (depth : Nat) :
    readValue (fuel + 1) ('\x7b' :: (newLine depth ++ '"' :: cs))
      = some (.object members, rest) := by
  rw [readValue, skipBlank_of_not_blank rfl]
  simp only [skipBlank_newLine, skipBlank_of_not_blank (show isBlank '"' = false from rfl)]
  exact congrArg (Option.map _) hmembers

/-- The key of a member is read, and its value. -/
theorem readMembers_print_cons {fuel depth : Nat} {key : Option String} {value : Json}
    {rest : List Char} (hkey : key.isSome = true)
    (hvalue : readValue fuel (print depth value ++ rest) = some (value, rest)) :
    readMembers (fuel + 1) (printText (key.getD "") ++ ':' :: ' ' :: (print depth value ++ rest)) =
      match skipBlank rest with
      | '\x7d' :: rest => some ([(key, value)], rest)
      | ',' :: rest => do
        let (members, rest) ← readMembers fuel rest
        return ((key, value) :: members, rest)
      | _ => none := by
  obtain ⟨s, rfl⟩ := Option.isSome_iff_exists.mp hkey
  have hblank : skipBlank (' ' :: (print depth value ++ rest))
      = skipBlank (print depth value ++ rest) := List.dropWhile_cons_of_pos rfl
  have hspace : readValue fuel (' ' :: (print depth value ++ rest)) = some (value, rest) :=
    (readValue_congr hblank fuel).trans hvalue
  rw [printText, List.cons_append, List.append_assoc, List.singleton_append, readMembers,
    skipBlank_of_not_blank rfl]
  simp only [Option.getD_some, readText_print, Option.bind_eq_bind, Option.bind_some,
    skipBlank_of_not_blank (show isBlank ':' = false from rfl), hspace]
  rfl

mutual

/-- **A value is read as it was written**, as far as it goes. -/
theorem readValue_print : ∀ (j : Json) (fuel depth : Nat) (rest : List Char), IsLegible j →
    cost j ≤ fuel → EndsNumber rest → readValue fuel (print depth j ++ rest) = some (j, rest)
  | j, 0, _, _, _, hfuel, _ => absurd hfuel (Nat.not_le.mpr (cost_pos j))
  | .null, fuel + 1, _, _, _, _, _ => by
      rw [print, readValue]
      rfl
  | .bool b, fuel + 1, _, _, _, _, _ => by
      cases b with
      | true =>
          rw [print, readValue]
          rfl
      | false =>
          rw [print, readValue]
          rfl
  | .integer negative n, fuel + 1, _, rest, _, _, hrest => by
      obtain ⟨c, cs, hcons, hc⟩ := exists_printInteger_cons negative n rest
      rw [print, ← readNumber_integer negative n hrest, hcons, readValue_of_isDigit hc]
  | .decimal negative n (.ofNat e), fuel + 1, _, rest, _, _, hrest => by
      obtain ⟨c, cs, hcons, hc⟩ := exists_printInteger_cons negative n ('e' :: (printNat e ++ rest))
      have hread := readNumber_decimal negative n false e hrest
      rw [print, List.append_assoc, List.cons_append, hcons, readValue_of_isDigit hc, ← hcons]
      exact hread
  | .decimal negative n (.negSucc e), fuel + 1, _, rest, _, _, hrest => by
      obtain ⟨c, cs, hcons, hc⟩ :=
        exists_printInteger_cons negative n ('e' :: '-' :: (printNat (e + 1) ++ rest))
      have hread := readNumber_decimal negative n true (e + 1) hrest
      rw [print, List.append_assoc, List.cons_append, List.cons_append, hcons,
        readValue_of_isDigit hc, ← hcons]
      exact hread
  | .text s, fuel + 1, _, rest, hlegible, _, _ => by
      obtain ⟨t, rfl⟩ := Option.isSome_iff_exists.mp hlegible
      rw [print, printText, List.cons_append, List.append_assoc, readValue,
        skipBlank_of_not_blank rfl]
      exact congrArg (Option.map _) (readText_print t rest)
  | .list [], fuel + 1, _, rest, _, _, _ => by
      rw [print, readValue]
      rfl
  | .list (item :: items), fuel + 1, depth, rest, hlegible, hfuel, hrest => by
      have hitems := readItems_print (item :: items) fuel (depth + 1) depth rest
        (List.cons_ne_nil _ _) hlegible
        (by simp only [cost] at hfuel; omega)
      obtain ⟨c, cs, hcons, hblank, hne⟩ := exists_print_cons (depth + 1) item
      simp only [printItems, List.tail_cons, List.append_assoc, readItems_newLine, hcons,
        List.cons_append] at hitems
      simp only [print, hcons, List.append_assoc, List.cons_append, List.nil_append]
      exact readValue_list hblank hne hitems _
  | .object [], fuel + 1, _, rest, _, _, _ => by
      rw [print, readValue]
      rfl
  | .object ((key, value) :: members), fuel + 1, depth, rest, hlegible, hfuel, hrest => by
      have hmembers := readMembers_print ((key, value) :: members) fuel (depth + 1) depth rest
        (List.cons_ne_nil _ _) hlegible
        (by simp only [cost] at hfuel; omega)
      simp only [printMembers, List.tail_cons, List.append_assoc, readMembers_newLine, printText,
        List.cons_append, List.nil_append] at hmembers
      simp only [print, printText, List.append_assoc, List.cons_append, List.nil_append]
      exact readValue_object hmembers _

theorem readItems_print : ∀ (items : List Json) (fuel depth close : Nat) (rest : List Char),
    items ≠ [] → AreLegible items → costOfItems items ≤ fuel →
    readItems fuel ((printItems depth items).tail ++ (newLine close ++ ']' :: rest))
      = some (items, rest)
  | [], _, _, _, _, hne, _, _ => absurd rfl hne
  | _ :: _, 0, _, _, _, _, _, hfuel => by simp only [costOfItems] at hfuel; omega
  | item :: items, fuel + 1, depth, close, rest, _, hlegible, hfuel => by
      simp only [costOfItems] at hfuel
      have hitem := readValue_print item fuel depth _ hlegible.1 (by omega)
        (endsNumber_items depth close items (']' :: rest))
      rw [printItems, List.tail_cons, List.append_assoc, List.append_assoc, readItems_newLine,
        readItems, hitem, Option.bind_eq_bind, Option.bind_some]
      cases items with
      | nil =>
          simp only [printItems, List.nil_append, skipBlank_newLine]
          rfl
      | cons item' items =>
          have hitems := readItems_print (item' :: items) fuel depth close rest
            (List.cons_ne_nil _ _) hlegible.2 (by omega)
          simp only [printItems, List.tail_cons, List.cons_append] at hitems ⊢
          simp only [skipBlank_of_not_blank (show isBlank ',' = false from rfl), hitems]
          rfl

theorem readMembers_print : ∀ (members : List (Option String × Json)) (fuel depth close : Nat)
    (rest : List Char), members ≠ [] → MembersAreLegible members → costOfMembers members ≤ fuel →
    readMembers fuel ((printMembers depth members).tail ++ (newLine close ++ '\x7d' :: rest))
      = some (members, rest)
  | [], _, _, _, _, hne, _, _ => absurd rfl hne
  | _ :: _, 0, _, _, _, _, _, hfuel => by simp only [costOfMembers] at hfuel; omega
  | (key, value) :: members, fuel + 1, depth, close, rest, _, hlegible, hfuel => by
      simp only [costOfMembers] at hfuel
      have hvalue := readValue_print value fuel depth _ hlegible.2.1 (by omega)
        (endsNumber_members depth close members ('\x7d' :: rest))
      simp only [printMembers, List.tail_cons, List.append_assoc, readMembers_newLine,
        List.cons_append]
      rw [readMembers_print_cons hlegible.1 hvalue]
      cases members with
      | nil =>
          simp only [printMembers, List.nil_append, skipBlank_newLine]
          rfl
      | cons member members =>
          have hmembers := readMembers_print (member :: members) fuel depth close rest
            (List.cons_ne_nil _ _) hlegible.2.2 (by omega)
          obtain ⟨key', value'⟩ := member
          simp only [printMembers, List.tail_cons, List.cons_append] at hmembers ⊢
          simp only [skipBlank_of_not_blank (show isBlank ',' = false from rfl), hmembers]
          rfl

end

/-! ## Whole texts -/

mutual

/-- A value takes no more fuel than its text has characters. -/
theorem cost_le_length : ∀ (j : Json) (depth : Nat), cost j ≤ (print depth j).length
  | .null, _ => by simp [cost, print]
  | .bool true, _ => by simp [cost, print]
  | .bool false, _ => by simp [cost, print]
  | .integer negative n, depth => by
      obtain ⟨c, cs, hcons, -⟩ := exists_print_cons depth (.integer negative n)
      simp only [cost, hcons, List.length_cons]
      omega
  | .decimal negative n e, depth => by
      obtain ⟨c, cs, hcons, -⟩ := exists_print_cons depth (.decimal negative n e)
      simp only [cost, hcons, List.length_cons]
      omega
  | .text s, _ => by simp [cost, print, printText]
  | .list [], _ => by simp [cost, costOfItems, print]
  | .list (item :: items), depth => by
      have hitem := cost_le_length item (depth + 1)
      have hitems := costOfItems_le_length items (depth + 1)
      simp only [cost, costOfItems, print, newLine, List.length_cons, List.length_append]
      omega
  | .object [], _ => by simp [cost, costOfMembers, print]
  | .object ((key, value) :: members), depth => by
      have hvalue := cost_le_length value (depth + 1)
      have hmembers := costOfMembers_le_length members (depth + 1)
      simp only [cost, costOfMembers, print, newLine, List.length_cons, List.length_append]
      omega

theorem costOfItems_le_length : ∀ (items : List Json) (depth : Nat),
    costOfItems items ≤ (printItems depth items).length
  | [], _ => Nat.le_refl 0
  | item :: items, depth => by
      have hitem := cost_le_length item depth
      have hitems := costOfItems_le_length items depth
      simp only [costOfItems, printItems, newLine, List.length_cons, List.length_append]
      omega

theorem costOfMembers_le_length : ∀ (members : List (Option String × Json)) (depth : Nat),
    costOfMembers members ≤ (printMembers depth members).length
  | [], _ => Nat.le_refl 0
  | (key, value) :: members, depth => by
      have hvalue := cost_le_length value depth
      have hmembers := costOfMembers_le_length members depth
      simp only [costOfMembers, printMembers, newLine, List.length_cons, List.length_append]
      omega

end

/-- **A value whose texts are readable is found in its text.** -/
theorem parse_pretty {j : Json} (h : IsLegible j) : parse (pretty j) = some j := by
  have hfuel : cost j ≤ 2 * (print 0 j).length + 2 := by
    have hle := cost_le_length j 0
    omega
  have hread := readValue_print j _ 0 [] h hfuel (by rintro c ⟨⟩)
  rw [List.append_nil] at hread
  simp only [parse, pretty, String.toList_ofList, hread, Option.bind_eq_bind, Option.bind_some]
  rfl

end Json

end RoutePolicy
