import Mathlib.Algebra.Order.Ring.Int
import Mathlib.Data.List.TakeWhile
import RoutePolicy.Policy.Template

set_option autoImplicit false

/-! # Reading decimal numerals back

The numeral of a number has no blanks to trim, and is read as the number where it fits into 64
bits. Beyond that it is read as a rounded number, which is still a large one, up to where it
overflows. So a bound on the number of uses is the number written if that is small
(`exists_readUsageBound?_toString`), and there is none if the numeral overflows. -/

namespace RoutePolicy

open Text

/-! ## Digits -/

theorem toList_toString (n : Nat) : (toString n).toList = Nat.toDigits 10 n := by
  rw [Nat.toString_eq_repr, Nat.toList_repr]

theorem digitsValue_toDigits (n : Nat) : digitsValue (Nat.toDigits 10 n) = n := by
  have h := Nat.ofDigitChars_ten_toDigits (n := n)
  rwa [Nat.ofDigitChars_eq_foldl] at h

theorem isDigit_toDigits {n : Nat} {c : Char} (hc : c ∈ Nat.toDigits 10 n) : c.isDigit = true :=
  Nat.isDigit_of_mem_toDigits (by decide) (by decide) hc

/-- The numeral starts with a digit. -/
theorem exists_toDigits_cons (n : Nat) :
    ∃ c cs, Nat.toDigits 10 n = c :: cs ∧ c.isDigit = true := by
  obtain ⟨c, cs, h⟩ := List.exists_cons_of_ne_nil (Nat.toDigits_ne_nil (n := n) (b := 10))
  exact ⟨c, cs, h, isDigit_toDigits (h ▸ List.mem_cons_self)⟩

theorem isBlank_of_isDigit {c : Char} (hc : c.isDigit = true) : isBlank c = false := by
  obtain ⟨hlow, hhigh⟩ := Char.isDigit_iff_toNat.mp hc
  have h0 : '0'.toNat = 48 := rfl
  have h9 : '9'.toNat = 57 := rfl
  rw [h0] at hlow
  rw [h9] at hhigh
  simp only [isBlank, Bool.or_eq_false_iff, Bool.and_eq_false_iff, decide_eq_false_iff_not,
    beq_eq_false_iff_ne]
  omega

theorem dropWhile_isBlank {cs : List Char} (h : ∀ c ∈ cs, c.isDigit = true) :
    cs.dropWhile isBlank = cs := by
  cases cs with
  | nil => rfl
  | cons c cs =>
      rw [List.dropWhile_cons_of_neg]
      rw [isBlank_of_isDigit (h c List.mem_cons_self)]
      exact Bool.false_ne_true

/-- There is nothing to trim at a numeral. -/
theorem trim_toString (n : Nat) : trim (toString n) = toString n := by
  have hdigits : ∀ c ∈ (toString n).toList, c.isDigit = true := by
    rw [toList_toString]
    exact fun c => isDigit_toDigits
  rw [trim, trimChars, dropWhile_isBlank hdigits, dropWhile_isBlank, List.reverse_reverse,
    String.ofList_toList]
  exact fun c hc => hdigits c (List.mem_reverse.mp hc)

/-! ## Whole numbers of 64 bits -/

theorem readCount?_toString (range n : Nat) :
    readCount? range (toString n) = if n < range then some n else none := by
  obtain ⟨c, cs, hcons, hc⟩ := exists_toDigits_cons n
  have hall : (c :: cs).all Char.isDigit = true :=
    List.all_eq_true.mpr fun x hx => isDigit_toDigits (hcons ▸ hx)
  have hvalue : digitsValue (c :: cs) = n := hcons ▸ digitsValue_toDigits n
  unfold readCount?
  rw [toList_toString, hcons]
  split
  -- a sign in front is not a digit
  · rename_i hplus
    rw [(List.cons.inj hplus).1] at hc
    cases hc
  · simp [hall, hvalue]

/-! ## Rounded numbers -/

theorem readDecimal?_toDigits (n : Nat) : readDecimal? (Nat.toDigits 10 n) = some (n, 0) := by
  have hall : ∀ c ∈ Nat.toDigits 10 n, c.isDigit = true := fun c => isDigit_toDigits
  have hspan : spanDigits (Nat.toDigits 10 n) = (Nat.toDigits 10 n, []) := by
    rw [spanDigits, List.takeWhile_eq_self_iff.mpr hall, List.dropWhile_eq_nil_iff.mpr hall]
  have hne : (Nat.toDigits 10 n).isEmpty = false := by
    obtain ⟨c, cs, hcons, -⟩ := exists_toDigits_cons n
    rw [hcons]
    rfl
  simp only [readDecimal?, hspan, hne, readExponent?, List.append_nil, digitsValue_toDigits]
  rfl

theorem toLower_of_isDigit {c : Char} (hc : c.isDigit = true) : c.toLower = c := by
  have hhigh := (Char.isDigit_iff_toNat.mp hc).2
  unfold Char.toLower
  rw [dif_neg]
  rintro ⟨hA, -⟩
  have : 'A'.toNat ≤ c.toNat := hA
  have h9 : '9'.toNat = 57 := rfl
  have hA : 'A'.toNat = 65 := rfl
  omega

theorem readBinary64?_toString (n : Nat) :
    readBinary64? (toString n) = some (.ofDecimal false n 0) := by
  obtain ⟨c, cs, hcons, hc⟩ := exists_toDigits_cons n
  have hsign : splitSign (Nat.toDigits 10 n) = (false, Nat.toDigits 10 n) := by
    rw [hcons]
    unfold splitSign
    split
    · rename_i heq
      rw [(List.cons.inj heq).1] at hc
      cases hc
    · rename_i heq
      rw [(List.cons.inj heq).1] at hc
      cases hc
    · rfl
  -- none of the words starts with a digit
  have hword (word : String) (d : Char) (ds : List Char) (hw : word.toList = d :: ds)
      (hd : d.isDigit = false) :
      ¬String.ofList ((Nat.toDigits 10 n).map Char.toLower) = word := by
    intro heq
    have hlist : (Nat.toDigits 10 n).map Char.toLower = d :: ds := by
      rw [← hw, ← heq, String.toList_ofList]
    rw [hcons, List.map_cons, toLower_of_isDigit hc] at hlist
    rw [(List.cons.inj hlist).1] at hc
    exact absurd (hd.symm.trans hc) Bool.false_ne_true
  unfold readBinary64?
  rw [toList_toString, hsign]
  simp only [readDecimal?_toDigits, Option.map_some]
  rw [if_neg, if_neg]
  · exact hword "nan" 'n' ['a', 'n'] rfl rfl
  · rw [not_or]
    exact ⟨hword "inf" 'i' ['n', 'f'] rfl rfl,
      hword "infinity" 'i' ['n', 'f', 'i', 'n', 'i', 't', 'y'] rfl rfl⟩

theorem le_roundQuotient (num den : Nat) : num / den ≤ roundQuotient num den := by
  unfold roundQuotient
  dsimp only
  split
  · exact Nat.le_succ _
  · exact Nat.le_refl _

/-- A whole number of more than 53 binary digits keeps the 53 highest. -/
theorem exponentFor_one {n : Nat} (hn : 2 ^ 52 ≤ n) :
    Binary64.exponentFor n 1 = ((n.log2 - 52 : Nat) : Int) := by
  have hpos : n ≠ 0 := by omega
  have hlog : 52 ≤ n.log2 := (Nat.le_log2 hpos).mpr hn
  have hone : Nat.log2 1 = 0 := rfl
  -- the first guess at the exponent is right, so it is not lowered
  have hguess : (n.log2 : Int) - (Nat.log2 1 : Nat) - 52 = ((n.log2 - 52 : Nat) : Int) := by omega
  have hlow : ¬n < 1 * Nat.pow 2 (52 + (n.log2 - 52)) := by
    rw [Nat.one_mul, Nat.add_sub_cancel' hlog]
    exact Nat.not_lt.mpr (Nat.log2_self_le hpos)
  unfold Binary64.exponentFor
  simp only [hguess, Int.toNat_natCast, Int.natCast_nonneg, if_true, hlow, if_false]
  omega

theorem roundQuotient_one (n : Nat) : roundQuotient n 1 = n := by
  simp [roundQuotient, Nat.mod_one]

theorem exponentFor_one_lt_zero {n : Nat} (hn : n < 2 ^ 52) : Binary64.exponentFor n 1 < 0 := by
  have hone : Nat.log2 1 = 0 := rfl
  have hlog : n.log2 < 52 := by
    by_cases hzero : n = 0
    · rw [hzero]
      decide
    · exact (Nat.log2_lt hzero).mpr hn
  unfold Binary64.exponentFor
  dsimp only
  rw [hone]
  refine max_lt ?_ (by decide)
  split <;> omega

/-- Without an exponent a numeral is a quotient by one, unless it is too long. -/
theorem ofDecimal_zero {n : Nat} (hn : n ≠ 0) : Binary64.ofDecimal false n 0 =
    if 310 < (Nat.toDigits 10 n).length then .infinite false else Binary64.ofQuotient false n 1 := by
  unfold Binary64.ofDecimal
  rw [if_neg (by omega)]
  simp only [Int.zero_add, le_refl, if_true]
  split
  · rw [if_pos (by omega)]
  · rw [if_neg (by omega)]
    show Binary64.ofQuotient false (n * 1) 1 = _
    rw [Nat.mul_one]

/-- A whole number of at most 52 binary digits is kept as it is. -/
theorem whole?_ofDecimal_of_lt {n : Nat} (hn : n < 2 ^ 52) :
    (Binary64.ofDecimal false n 0).whole? = some ⟨false, n⟩ := by
  by_cases hzero : n = 0
  · subst hzero
    rfl
  have hshort : (Nat.toDigits 10 n).length ≤ 16 :=
    (Nat.length_toDigits_le_iff (by decide) (by decide)).mpr (by omega)
  have hexp := exponentFor_one_lt_zero hn
  rw [ofDecimal_zero hzero, if_neg (by omega), Binary64.ofQuotient]
  generalize Binary64.exponentFor n 1 = e at hexp
  simp only [roundQuotient_one, if_neg (Int.not_le.mpr hexp)]
  rw [if_neg (by omega), Binary64.whole?, if_neg (by omega)]
  have hpos : 0 < Nat.pow 2 (-e).toNat := Nat.two_pow_pos _
  simp only [Nat.mul_mod_left, if_true, Nat.mul_div_cancel _ hpos]

/-- Rounding to 53 binary digits carries over exactly from the last half on. -/
theorem roundQuotient_eq_two_pow_iff {n p : Nat} (hn : n < 2 ^ 54 * p) :
    roundQuotient n (2 * p) = 2 ^ 53 ↔ (2 ^ 54 - 1) * p ≤ n := by
  have hp : 0 < 2 * p := by
    by_contra hzero
    have : p = 0 := by omega
    simp [this] at hn
  have hle : n / (2 * p) ≤ 2 ^ 53 - 1 := Nat.le_of_lt_succ ((Nat.div_lt_iff_lt_mul hp).mpr (by omega))
  unfold roundQuotient
  dsimp only
  by_cases hlast : n / (2 * p) = 2 ^ 53 - 1
  -- the quotient has its greatest value, and the remainder decides
  · have hdiv := Nat.div_add_mod n (2 * p)
    rw [hlast] at hdiv ⊢
    split <;> omega
  · have hless : n / (2 * p) < 2 ^ 53 - 1 := Nat.lt_of_le_of_ne hle hlast
    rw [Nat.div_lt_iff_lt_mul hp] at hless
    refine iff_of_false ?_ (by omega)
    split <;> omega

/-- A number of `53 + e` binary digits is rounded beyond those of exponent `k + 1` exactly if it has
more digits, or the last ones carry over. -/
theorem rounded_beyond_iff {n e : Nat} (hlow : 2 ^ 52 * 2 ^ e ≤ n) (hhigh : n < 2 ^ 53 * 2 ^ e)
    (k : Nat) : (k + 1 < e ∨ e = k + 1 ∧ roundQuotient n (2 ^ e) = 2 ^ 53) ↔
      (2 ^ 54 - 1) * 2 ^ k ≤ n := by
  rcases Nat.lt_trichotomy e (k + 1) with hlt | rfl | hgt
  · have hpow : 2 ^ e ≤ 2 ^ k := Nat.pow_le_pow_right (by decide) (Nat.le_of_lt_succ hlt)
    exact iff_of_false (by omega) (by omega)
  · rw [Nat.pow_succ'] at hhigh ⊢
    rw [← roundQuotient_eq_two_pow_iff (by omega)]
    simp
  · have hpow : 2 ^ (k + 2) ≤ 2 ^ e := Nat.pow_le_pow_right (by decide) hgt
    rw [Nat.pow_add] at hpow
    exact iff_of_true (Or.inl hgt) (by omega)

/-- The least whole number that is rounded to an infinity: half way between the greatest number and
the power of two that would come next. -/
def Binary64.overflowBound : Nat := (2 ^ 54 - 1) * 2 ^ 970

/-- A quotient by one of more than 52 binary digits is rounded to 53 of them, unless it overflows. -/
theorem ofQuotient_one {n : Nat} (hn : 2 ^ 52 ≤ n) : ∃ m e : Nat, 2 ^ 52 ≤ m ∧
    Binary64.ofQuotient false n 1 =
      if Binary64.overflowBound ≤ n then .infinite false else .finite false m e := by
  have hpos : n ≠ 0 := by omega
  obtain ⟨e, he⟩ : ∃ e, n.log2 = 52 + e := Nat.exists_eq_add_of_le ((Nat.le_log2 hpos).mpr hn)
  have hlow : 2 ^ 52 * 2 ^ e ≤ n := by
    rw [← Nat.pow_add, ← he]
    exact Nat.log2_self_le hpos
  have hhigh : n < 2 ^ 53 * 2 ^ e := by
    have := Nat.lt_log2_self (n := n)
    rwa [he, Nat.add_right_comm, Nat.pow_add] at this
  have hround : 2 ^ 52 ≤ roundQuotient n (2 ^ e) :=
    ((Nat.le_div_iff_mul_le (Nat.two_pow_pos e)).mpr hlow).trans (le_roundQuotient n _)
  refine ⟨roundQuotient n (2 ^ e), e, hround, ?_⟩
  rw [Binary64.ofQuotient, exponentFor_one hn, he, Nat.add_sub_cancel_left]
  simp only [Int.natCast_nonneg, if_true, Int.toNat_natCast, Nat.one_mul]
  refine if_congr (.trans ?_ (rounded_beyond_iff hlow hhigh 970)) rfl rfl
  exact or_congr (by omega) (and_congr_left fun _ => by omega)

theorem overflowBound_le_ten_pow : Binary64.overflowBound ≤ 10 ^ 310 := by decide +kernel

/-- A number of more than 52 binary digits is read as a number that is still large, unless it
overflows. -/
theorem whole?_ofDecimal_of_le {n : Nat} (hn : 2 ^ 52 ≤ n) :
    (n < Binary64.overflowBound →
      ∃ k, (Binary64.ofDecimal false n 0).whole? = some ⟨false, k⟩ ∧ 2 ^ 52 ≤ k) ∧
    (Binary64.overflowBound ≤ n → (Binary64.ofDecimal false n 0).whole? = none) := by
  rw [ofDecimal_zero (by omega)]
  by_cases hlong : 310 < (Nat.toDigits 10 n).length
  · have hle : Binary64.overflowBound ≤ n := overflowBound_le_ten_pow.trans <| Nat.le_of_not_lt
      fun hlt => Nat.not_lt.mpr ((Nat.length_toDigits_le_iff (by decide) (by decide)).mpr hlt) hlong
    rw [if_pos hlong]
    exact ⟨fun hlt => absurd hle (Nat.not_le.mpr hlt), fun _ => rfl⟩
  · obtain ⟨m, e, hm, hquotient⟩ := ofQuotient_one hn
    rw [if_neg hlong, hquotient]
    refine ⟨fun hlt => ?_, fun hle => by rw [if_pos hle]; rfl⟩
    rw [if_neg (Nat.not_le.mpr hlt), Binary64.whole?, if_pos (Int.natCast_nonneg e)]
    exact ⟨_, rfl, hm.trans (Nat.le_mul_of_pos_right _ (Nat.two_pow_pos e))⟩

/-! ## Bounds on the number of uses -/

/-- The numbers are the same, or both are too large to nest. -/
def NestsAlike (n b : Nat) : Prop := b = n ∨ maxNestedBound < n ∧ maxNestedBound < b

/-- Where both are cut down to a number that nests, the same is left. -/
theorem NestsAlike.min_eq {n b : Nat} (h : NestsAlike n b) {readers : Nat}
    (hnests : n ≤ maxNestedBound ∨ readers ≤ maxNestedBound) : min b readers = min n readers := by
  unfold NestsAlike at h
  omega

/-- A numeral that does not overflow is read as its number, or as a large one. -/
theorem exists_whole?_toString {n : Nat} (hn : n < Binary64.overflowBound) :
    ∃ k, (readBinary64? (toString n)).bind Binary64.whole? = some ⟨false, k⟩ ∧ NestsAlike n k := by
  rw [readBinary64?_toString]
  rcases Nat.lt_or_ge n (2 ^ 52) with hsmall | hlarge
  · exact ⟨n, whole?_ofDecimal_of_lt hsmall, Or.inl rfl⟩
  · obtain ⟨k, hk, hle⟩ := (whole?_ofDecimal_of_le hlarge).1 hn
    have hmax : maxNestedBound < 2 ^ 52 := by decide
    exact ⟨k, hk, Or.inr ⟨Nat.lt_of_lt_of_le hmax hlarge, Nat.lt_of_lt_of_le hmax hle⟩⟩

/-- **The bound that a numeral gives is the number, or both are too large to nest.** -/
theorem exists_readUsageBound?_toString {n : Nat} (hn : n < Binary64.overflowBound) :
    ∃ b, readUsageBound? (toString n) = some b ∧ NestsAlike n b := by
  unfold readUsageBound?
  rw [readCount?_toString]
  by_cases hcount : n < countRange
  · rw [if_pos hcount]
    exact ⟨n, rfl, Or.inl rfl⟩
  · obtain ⟨k, hk, halike⟩ := exists_whole?_toString hn
    rw [if_neg hcount, hk]
    refine ⟨min k (countRange - 1), rfl, Or.inr ?_⟩
    have hmax : maxNestedBound < countRange - 1 := by decide
    unfold NestsAlike at halike
    omega

/-- A numeral that overflows gives no bound. -/
theorem readUsageBound?_toString_of_le {n : Nat} (hn : Binary64.overflowBound ≤ n) :
    readUsageBound? (toString n) = none := by
  have hrange : countRange ≤ Binary64.overflowBound := by decide +kernel
  have hlarge : 2 ^ 52 ≤ countRange := by decide
  have hnone := (whole?_ofDecimal_of_le (hlarge.trans (hrange.trans hn))).2 hn
  rw [readUsageBound?, readCount?_toString, if_neg (Nat.not_lt.mpr (hrange.trans hn)),
    readBinary64?_toString]
  simp only [Option.bind_some, hnone]

end RoutePolicy
