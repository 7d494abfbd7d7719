import Mathlib.Data.List.TakeWhile
import RoutePolicy.Ron.Printer
import RoutePolicy.Ron.Gap
import RoutePolicy.Proofs.Number.Numeral

set_option autoImplicit false

/-! # Names, texts and numbers of the object notation are read as they were written

Each of them is read up to where it ends: a name at what cannot go on with it (`Ron.readName_eq`), a
text at its closing quote (`Ron.readQuoted_print`), a number at a comma or a bracket
(`Ron.readNumber_print`). -/

namespace RoutePolicy

namespace Text

/-! ## Letters -/

/-- Switches beyond a number do not matter for it. -/
theorem inBands_eq_take {switches : Array Nat} {n : Nat} (k : Nat)
    (h : ∀ s ∈ switches.toList.drop k, n < s) : inBands switches n
      = (switches.toList.take k).foldl (fun inside s => if s ≤ n then !inside else inside) false := by
  have hdrop : ∀ (l : List Nat) (inside : Bool), (∀ s ∈ l, n < s) →
      l.foldl (fun inside s => if s ≤ n then !inside else inside) inside = inside := by
    intro l
    induction l with
    | nil => exact fun _ _ => rfl
    | cons s l ih =>
        intro inside hl
        rw [List.forall_mem_cons] at hl
        rw [List.foldl_cons, if_neg (Nat.not_le.mpr hl.1), ih inside hl.2]
  conv_lhs => rw [inBands, ← Array.foldl_toList, ← List.take_append_drop k switches.toList]
  rw [List.foldl_append, hdrop _ _ h]

/-- Among the first 128 characters, a name may start with letters and the underscore only. -/
theorem isIdentifierStart_eq {c : Char} (hc : c.toNat < 0x80) :
    isIdentifierStart c = (c == '_' || c.isAlpha) := by
  have hbands : (identifierStartBands.toList.drop 4).all (0x80 ≤ ·) = true := by decide +kernel
  have hsmall : ∀ n < 0x80, (identifierStartBands.toList.take 4).foldl
      (fun inside s => if s ≤ n then !inside else inside) false = (Char.ofNat n).isAlpha := by
    decide +kernel
  rw [isIdentifierStart, inBands_eq_take 4 fun s hs => ?_, hsmall _ hc, Char.ofNat_toNat]
  exact Nat.lt_of_lt_of_le hc (of_decide_eq_true (List.all_eq_true.mp hbands s hs))

/-- Among the first 128 characters, a name may go on with letters, digits and the underscore. -/
theorem isIdentifierContinue_eq {c : Char} (hc : c.toNat < 0x80) :
    isIdentifierContinue c = (c == '_' || c.isAlphanum) := by
  have hbands : (identifierContinueBands.toList.drop 8).all (0x80 ≤ ·) = true := by decide +kernel
  have hsmall : ∀ n < 0x80, (identifierContinueBands.toList.take 8).foldl
      (fun inside s => if s ≤ n then !inside else inside) false
        = (Char.ofNat n == '_' || (Char.ofNat n).isAlphanum) := by decide +kernel
  rw [isIdentifierContinue, inBands_eq_take 8 fun s hs => ?_, hsmall _ hc, Char.ofNat_toNat]
  exact Nat.lt_of_lt_of_le hc (of_decide_eq_true (List.all_eq_true.mp hbands s hs))

end Text

namespace Ron

/-! ## White space -/

theorem skipBlank_eq_ite {c : Char} (hslash : c ≠ '/') (cs : List Char) :
    skipBlank (c :: cs) = if isBlank c then skipBlank cs else some (c :: cs) := by
  rw [skipBlank, skipGap]
  · rfl
  all_goals
    intros
    contradiction

/-- What begins with neither white space nor a comment is what comes next. -/
theorem skipBlank_cons {c : Char} (hblank : isBlank c = false) (hslash : c ≠ '/') (cs : List Char) :
    skipBlank (c :: cs) = some (c :: cs) := by
  rw [skipBlank_eq_ite hslash, hblank]
  rfl

theorem skipBlank_blank {c : Char} (hblank : isBlank c = true) (cs : List Char) :
    skipBlank (c :: cs) = skipBlank cs := by
  have hslash : c ≠ '/' := by
    rintro rfl
    cases hblank
  rw [skipBlank_eq_ite hslash, if_pos hblank]

theorem toList_margin (depth : Nat) : (margin depth).toList = List.replicate (4 * depth) ' ' :=
  String.toList_ofList

theorem skipBlank_margin (depth : Nat) (cs : List Char) :
    skipBlank ((margin depth).toList ++ cs) = skipBlank cs := by
  rw [toList_margin]
  induction 4 * depth with
  | zero => rfl
  | succ n ih => rw [List.replicate_succ, List.cons_append, skipBlank_blank rfl, ih]

/-! ## Names -/

/-- The text is a letter with further letters, digits and underscores behind it. -/
def isName (s : String) : Bool :=
  match s.toList with
  | [] => false
  | c :: cs => c.isAlpha && cs.all fun d => d == '_' || d.isAlphanum

theorem toNat_lt_of_isAlphanum {c : Char} (hc : c.isAlphanum = true) : c.toNat < 0x80 := by
  have hcases : (decide (c.val ≥ 'A'.val ∧ c.val ≤ 'Z'.val) ||
      (decide (c.val ≥ 'a'.val) && decide (c.val ≤ 'z'.val)) || c.isDigit) = true := hc
  simp only [Bool.or_eq_true, Bool.and_eq_true, decide_eq_true_eq, Char.isDigit_iff_toNat] at hcases
  rcases hcases with (⟨-, hle⟩ | ⟨-, hle⟩) | ⟨-, hle⟩
  · exact Nat.lt_of_le_of_lt (UInt32.le_iff_toNat_le.mp hle) (by decide)
  · exact Nat.lt_of_le_of_lt (UInt32.le_iff_toNat_le.mp hle) (by decide)
  · exact Nat.lt_of_le_of_lt hle (by decide)

theorem exists_of_isName {s : String} (h : isName s = true) : ∃ c cs, s.toList = c :: cs ∧
    c.isAlpha = true ∧ ∀ d ∈ cs, Text.isIdentifierContinue d = true := by
  unfold isName at h
  split at h
  · cases h
  · rename_i c cs hcons
    rw [Bool.and_eq_true, List.all_eq_true] at h
    refine ⟨c, cs, hcons, h.1, fun d hd => ?_⟩
    have hsmall : d.toNat < 0x80 := by
      rcases Bool.or_eq_true_iff.mp (h.2 d hd) with hd | hd
      · rw [eq_of_beq hd]
        decide
      · exact toNat_lt_of_isAlphanum hd
    rw [Text.isIdentifierContinue_eq hsmall]
    exact h.2 d hd

theorem isIdentifierStart_of_isAlpha {c : Char} (hc : c.isAlpha = true) :
    Text.isIdentifierStart c = true := by
  have hsmall : c.toNat < 0x80 := toNat_lt_of_isAlphanum (by rw [Char.isAlphanum, hc]; rfl)
  rw [Text.isIdentifierStart_eq hsmall, hc, Bool.or_true]

/-- What follows a name: nothing, a bracket, a comma or a colon. -/
def EndsName (cs : List Char) : Prop := ∀ c ∈ cs.head?, c ∈ ['(', ')', ',', ':']

theorem EndsName.not_continue {cs : List Char} (h : EndsName cs) {c : Char} (hc : c ∈ cs.head?) :
    Text.isIdentifierContinue c = false := by
  have hall : ∀ c ∈ ['(', ')', ',', ':'], Text.isIdentifierContinue c = false := by
    simp only [List.forall_mem_cons]
    refine ⟨?_, ?_, ?_, ?_, List.forall_mem_nil _⟩
    all_goals exact Text.isIdentifierContinue_eq (by decide)
  exact hall c (h c hc)

/-- Characters go on up to the first one that is of another kind. -/
theorem span_append {p : Char → Bool} {cs rest : List Char} (hcs : ∀ c ∈ cs, p c = true)
    (hrest : ∀ c ∈ rest.head?, p c = false) :
    (cs ++ rest).takeWhile p = cs ∧ (cs ++ rest).dropWhile p = rest := by
  have hstop : rest.takeWhile p = [] ∧ rest.dropWhile p = rest := by
    cases rest with
    | nil => exact ⟨rfl, rfl⟩
    | cons c rest =>
        have hc := hrest c rfl
        exact ⟨List.takeWhile_cons_of_neg (by simp [hc]), List.dropWhile_cons_of_neg (by simp [hc])⟩
  rw [List.takeWhile_append_of_pos hcs, List.dropWhile_append_of_pos hcs, hstop.1, hstop.2,
    List.append_nil]
  exact ⟨rfl, rfl⟩

/-- **A name is read as it was written.** -/
theorem readName_eq {s : String} (hs : isName s = true) {rest : List Char}
    (hrest : EndsName rest) : readName (s.toList ++ rest) = some (⟨s, false⟩, rest) := by
  obtain ⟨c, cs, hcons, hstart, hcs⟩ := exists_of_isName hs
  obtain ⟨htake, hdrop⟩ := span_append hcs fun _ => hrest.not_continue
  have hmark : ∀ tail, cs ++ rest ≠ '#' :: tail := by
    intro tail heq
    cases cs with
    | nil =>
        have hmem := hrest '#' (by rw [← List.nil_append rest, heq]; rfl)
        exact absurd hmem (by decide)
    | cons d cs =>
        obtain ⟨rfl, -⟩ := List.cons.inj heq
        have hd := hcs '#' List.mem_cons_self
        rw [Text.isIdentifierContinue_eq (by decide)] at hd
        exact absurd hd (by decide)
  rw [hcons, List.cons_append, readName]
  · rw [if_pos (isIdentifierStart_of_isAlpha hstart), htake, hdrop, ← hcons,
      String.ofList_toList]
  · rintro tail rfl heq
    exact hmark tail heq

/-! ## Texts -/

/-- The digits of a number are read as the number. -/
theorem digitsValue?_toDigits {base : Nat} (hone : 1 < base) (hbase : base ≤ 16) (n : Nat) :
    digitsValue? base (Nat.toDigits base n) = some n := by
  have hdigit : ∀ base ≤ 16, ∀ k < base, digitValue? base (Nat.digitChar k) = some k := by decide
  induction n using Nat.strongRecOn with
  | ind n ih =>
      by_cases hn : n < base
      · rw [Nat.toDigits_of_lt_base hn, digitsValue?, List.foldlM_cons, hdigit base hbase n hn]
        simp
      · have hdiv : n / base < n := Nat.div_lt_self (by omega) hone
        have hmod : n % base < base := Nat.mod_lt n (by omega)
        rw [Nat.toDigits_of_base_le hone (Nat.le_of_not_lt hn), digitsValue?, List.foldlM_append]
        have hleading := ih _ hdiv
        rw [digitsValue?] at hleading
        rw [hleading, Option.bind_eq_bind, Option.bind_some, List.foldlM_cons,
          hdigit base hbase _ hmod]
        simp [Nat.div_add_mod]

section

variable {α : Type} {plain : Char → List α}
  {escaped : Escape → List Char → Option (List α × List Char)}

/-- What a text goes on with is put before what follows. -/
theorem readQuoted_plain {c : Char} (hquote : c ≠ '"') (hslash : c ≠ '\\') (fuel : Nat)
    (cs : List Char) : readQuoted plain escaped (fuel + 1) (c :: cs)
      = (readQuoted plain escaped fuel cs).map fun (more, rest) => (plain c ++ more, rest) := by
  rw [readQuoted]
  · cases readQuoted plain escaped fuel cs <;> rfl
  all_goals assumption

theorem readQuoted_escape {cs rest rest' : List Char} {escape : Escape} {found : List α}
    (hread : readEscape cs = some (escape, rest)) (hfound : escaped escape rest = some (found, rest'))
    (fuel : Nat) : readQuoted plain escaped (fuel + 1) ('\\' :: cs)
      = (readQuoted plain escaped fuel rest').map fun (more, rest) => (found ++ more, rest) := by
  rw [readQuoted, hread]
  simp only [Option.bind_eq_bind, Option.bind_some, hfound]
  cases readQuoted plain escaped fuel rest' <;> rfl

end

/-- A letter after a backslash is read as what it stands for. -/
theorem readEscape_letter {letter c : Char} (h : shortEscape? letter = some c) (cs : List Char) :
    readEscape (letter :: cs) = some (.char c, cs) := by
  have hx : letter ≠ 'x' := by
    rintro rfl
    cases h
  have hu : letter ≠ 'u' := by
    rintro rfl
    cases h
  rw [readEscape]
  · rw [h]
    rfl
  all_goals
    intros
    contradiction

theorem exists_digitChar {base n : Nat} (hone : 1 < base) {c : Char}
    (hc : c ∈ Nat.toDigits base n) : ∃ k < base, c = Nat.digitChar k := by
  induction n using Nat.strongRecOn with
  | ind n ih =>
      by_cases hn : n < base
      · rw [Nat.toDigits_of_lt_base hn, List.mem_singleton] at hc
        exact ⟨n, hn, hc⟩
      · rw [Nat.toDigits_of_base_le hone (Nat.le_of_not_lt hn), List.mem_append,
          List.mem_singleton] at hc
        rcases hc with hc | hc
        · exact ih _ (Nat.div_lt_self (by omega) hone) hc
        · exact ⟨_, Nat.mod_lt n (by omega), hc⟩

/-- A code point in braces is read as its character. -/
theorem readEscape_codePoint (c : Char) (cs : List Char) :
    readEscape ('u' :: '\x7b' :: (Nat.toDigits 16 c.toNat ++ '\x7d' :: cs))
      = some (.codePoint c, cs) := by
  have hbrace : ∀ k < 16, Nat.digitChar k ≠ '\x7d' := by decide
  have htake : (Nat.toDigits 16 c.toNat ++ '\x7d' :: cs).takeWhile (· ≠ '\x7d')
      = Nat.toDigits 16 c.toNat := by
    rw [List.takeWhile_append_of_pos, List.takeWhile_cons_of_neg (by simp), List.append_nil]
    intro d hd
    obtain ⟨k, hk, rfl⟩ := exists_digitChar (by decide) hd
    exact decide_eq_true (hbrace k hk)
  have hempty : (Nat.toDigits 16 c.toNat).isEmpty = false :=
    List.isEmpty_eq_false_iff.mpr Nat.toDigits_ne_nil
  have hvalid : c.toNat.isValidChar := c.valid
  have hsmall : c.toNat < 16 ^ 6 := by
    rcases hvalid with hlow | ⟨-, hhigh⟩ <;> omega
  have hlength : (Nat.toDigits 16 c.toNat).length ≤ 6 :=
    (Nat.length_toDigits_le_iff (by decide) (by decide)).mpr hsmall
  rw [readEscape, htake, List.drop_left, digitsValue?_toDigits (by decide) (by decide)]
  simp only [hempty, Bool.false_or, decide_eq_true_eq, if_neg (Nat.not_lt.mpr hlength), expect,
    Option.bind_eq_bind, Option.bind_some, if_pos hvalid, Char.ofNat_toNat]
  rfl

/-- What is written for a character is read as the character. -/
theorem readQuoted_escapeChar (c : Char) (fuel : Nat) (cs : List Char) :
    readQuoted ([·]) escapeInText (fuel + 1) (Text.escapeChar ['"', '\''] c ++ cs)
      = (readQuoted ([·]) escapeInText fuel cs).map fun (more, rest) => (c :: more, rest) := by
  have hchar : escapeInText (.char c) cs = some ([c], cs) := rfl
  have hcodePoint : escapeInText (.codePoint c) cs = some ([c], cs) := rfl
  have hletter {letter : Char} (h : shortEscape? letter = some c) :
      readQuoted ([·]) escapeInText (fuel + 1) (['\\', letter] ++ cs)
        = (readQuoted ([·]) escapeInText fuel cs).map fun (more, rest) => (c :: more, rest) :=
    readQuoted_escape (readEscape_letter h cs) hchar fuel
  have hpoint : readQuoted ([·]) escapeInText (fuel + 1) (Text.codePointEscape c ++ cs)
      = (readQuoted ([·]) escapeInText fuel cs).map fun (more, rest) => (c :: more, rest) := by
    simp only [Text.codePointEscape, List.cons_append, List.append_assoc, List.nil_append]
    exact readQuoted_escape (readEscape_codePoint c cs) hcodePoint fuel
  unfold Text.escapeChar
  split
  · rename_i h
    subst h
    exact hletter rfl
  split
  · rename_i h
    subst h
    exact hletter rfl
  split
  · rename_i h
    subst h
    exact hletter rfl
  split
  · rename_i h
    subst h
    exact hletter rfl
  split
  · rename_i h
    simp only [List.mem_cons, List.not_mem_nil, or_false] at h
    obtain rfl | rfl | rfl := h
    all_goals exact hletter rfl
  · rename_i h
    simp only [List.mem_cons, List.not_mem_nil, or_false, not_or] at h
    split
    · exact hpoint
    split
    · exact readQuoted_plain h.2.1 h.1 fuel cs
    · exact hpoint

/-- The characters of a text are read up to the quote that ends it. -/
theorem readQuoted_print {cs : List Char} {fuel : Nat} (hfuel : cs.length < fuel)
    (rest : List Char) : readQuoted ([·]) escapeInText fuel
      (cs.flatMap (Text.escapeChar ['"', '\'']) ++ '"' :: rest) = some (cs, rest) := by
  induction cs generalizing fuel with
  | nil =>
      obtain ⟨fuel, rfl⟩ : ∃ n, fuel = n + 1 := ⟨fuel - 1, by simp at hfuel; omega⟩
      rfl
  | cons c cs ih =>
      rw [List.length_cons] at hfuel
      obtain ⟨fuel, rfl⟩ : ∃ n, fuel = n + 1 := ⟨fuel - 1, by omega⟩
      rw [List.flatMap_cons, List.append_assoc, readQuoted_escapeChar, ih (by omega)]
      rfl

/-! ## Numbers -/

/-- What follows a value: nothing, a comma or a parenthesis. -/
def EndsValue (cs : List Char) : Prop := ∀ c ∈ cs.head?, c ∈ [',', ')']

theorem EndsValue.endsName {cs : List Char} (h : EndsValue cs) : EndsName cs := by
  have hsubset : [',', ')'] ⊆ ['(', ')', ',', ':'] := by simp
  exact fun c hc => hsubset (h c hc)

/-- What ends a value goes on with no number. -/
theorem EndsValue.not_part {cs : List Char} (h : EndsValue cs) {c : Char} (hc : c ∈ cs.head?) :
    isWholePart c = false ∧ isRealPart c = false := by
  have hall : ∀ c ∈ [',', ')'], isWholePart c = false ∧ isRealPart c = false := by
    simp only [List.forall_mem_cons]
    exact ⟨by decide, by decide, List.forall_mem_nil _⟩
  exact hall c (h c hc)

theorem isWholePart_of_isDigit {c : Char} (hc : c.isDigit = true) : isWholePart c = true := by
  have hall : ∀ n < 58, 48 ≤ n → isWholePart (Char.ofNat n) = true := by decide
  obtain ⟨hlow, hhigh⟩ := Char.isDigit_iff_toNat.mp hc
  have hchar := hall c.toNat (Nat.lt_succ_of_le hhigh) hlow
  rwa [Char.ofNat_toNat] at hchar

theorem readTypedWhole_print (n : Nat) {rest : List Char} (hrest : EndsValue rest) :
    readTypedWhole false 10 (Nat.toDigits 10 n ++ rest)
      = some (.whole ⟨false, n⟩ true none, rest) := by
  have hdigits : ∀ c ∈ Nat.toDigits 10 n, isWholePart c = true := fun _ hc =>
    isWholePart_of_isDigit (isDigit_toDigits hc)
  have hnone : ∀ c ∈ [], Text.isIdentifierContinue c = true := List.forall_mem_nil _
  obtain ⟨htake, hdrop⟩ := span_append hdigits fun _ hc => (hrest.not_part hc).1
  obtain ⟨hname, hafter⟩ := span_append hnone fun _ => hrest.endsName.not_continue
  obtain ⟨c, cs, hcons, hc⟩ := exists_toDigits_cons n
  have hhead : (Nat.toDigits 10 n).head?.all (· = '_') = false := by
    rw [hcons]
    exact decide_eq_false fun heq => by simp [heq] at hc
  have hfilter : (Nat.toDigits 10 n).filter (· ≠ '_') = Nat.toDigits 10 n := by
    refine List.filter_eq_self.mpr fun d hd => decide_eq_true ?_
    rintro rfl
    exact Nat.underscore_not_in_toDigits hd
  have hread : readDigits 10 (Nat.toDigits 10 n ++ rest) = some (n, rest) := by
    rw [readDigits, htake, hdrop, hfilter, digitsValue?_toDigits (by decide) (by decide)]
    simp only [hhead, Bool.false_eq_true, if_false]
    rfl
  rw [List.nil_append] at hname hafter
  rw [readTypedWhole, hread]
  simp only [Option.bind_eq_bind, Option.bind_some, spanName, hname, hafter]
  rfl

theorem isDigit_of_toDigits_cons {n : Nat} {rest tail : List Char} {c : Char}
    (h : Nat.toDigits 10 n ++ rest = c :: tail) : c.isDigit = true := by
  obtain ⟨d, cs, hcons, hd⟩ := exists_toDigits_cons n
  rw [hcons, List.cons_append] at h
  exact (List.cons.inj h).1 ▸ hd

/-- After the first digit comes another one, or what ends the number. -/
theorem isDigit_or_of_toDigits_cons {n : Nat} {rest tail : List Char} {c d : Char}
    (hrest : EndsValue rest) (h : Nat.toDigits 10 n ++ rest = c :: d :: tail) :
    d.isDigit = true ∨ d ∈ [',', ')'] := by
  obtain ⟨c, cs, hcons, -⟩ := exists_toDigits_cons n
  rw [hcons, List.cons_append] at h
  have htail := (List.cons.inj h).2
  cases cs with
  | nil => exact Or.inr (hrest d (by rw [← List.nil_append rest, htail]; rfl))
  | cons e cs =>
      obtain ⟨rfl, -⟩ := List.cons.inj htail
      exact Or.inl (isDigit_toDigits (n := n) (by simp [hcons]))

theorem splitSign_toDigits (n : Nat) (rest : List Char) :
    splitSign (Nat.toDigits 10 n ++ rest) = (false, Nat.toDigits 10 n ++ rest) := by
  rw [splitSign]
  all_goals
    intro tail h
    exact absurd (isDigit_of_toDigits_cons h) (by decide)

/-- **A number is read as it was written.** -/
theorem readNumber_print (n : Nat) {rest : List Char} (hrest : EndsValue rest) :
    readNumber ((toString n).toList ++ rest) = some (.whole ⟨false, n⟩ true none, rest) := by
  have hwholes : ∀ c ∈ Nat.toDigits 10 n, isWholePart c = true := fun _ hc =>
    isWholePart_of_isDigit (isDigit_toDigits hc)
  have hreals : ∀ c ∈ Nat.toDigits 10 n, isRealPart c = true := by
    intro c hc
    rw [isRealPart, isDigit_toDigits hc]
    rfl
  obtain ⟨hwhole, -⟩ := span_append hwholes fun _ hc => (hrest.not_part hc).1
  obtain ⟨hreal, -⟩ := span_append hreals fun _ hc => (hrest.not_part hc).2
  have htyped := readTypedWhole_print n hrest
  rw [toList_toString, readNumber, splitSign_toDigits]
  simp only
  -- neither a word nor the mark of a base stands at the start
  split
  · rename_i heq
    exact absurd (isDigit_of_toDigits_cons heq) (by decide)
  · rename_i heq
    exact absurd (isDigit_of_toDigits_cons heq) (by decide)
  · rw [hwhole, hreal, if_neg (Nat.lt_irrefl _)]
    split
    · rename_i heq
      exact absurd (isDigit_or_of_toDigits_cons hrest heq) (by decide)
    · rename_i heq
      exact absurd (isDigit_or_of_toDigits_cons hrest heq) (by decide)
    · rename_i heq
      exact absurd (isDigit_or_of_toDigits_cons hrest heq) (by decide)
    · rw [htyped]
      rfl

end Ron

end RoutePolicy
