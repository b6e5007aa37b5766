import DecisionTable.Proofs.Number.Rounding
import Mathlib.Data.List.TakeWhile

/-!
# Number — Integers spelled in texts

A text that spells an integer spells a binary64 numeral without point and exponent, so it reads as
the number nearest to the integer (`exists_binary64OfText?`).  A text that starts with a character
of no use in numerals spells none (`signedValue?_of_foreign`, `numeral?_of_foreign`).
-/

namespace DecisionTable.Number

theorem isDigit_of_digitsValue? {cs : List Char} {k : Nat} (h : digitsValue? cs = some k) :
    ∀ c ∈ cs, c.isDigit = true := by
  rw [digitsValue?] at h
  split at h
  · next hd => exact List.all_eq_true.mp hd.2
  · cases h

/-- The characters that structure a numeral are no digits. -/
theorem ne_of_isDigit {c d : Char} (hc : c.isDigit = true) (hd : d.isDigit = false) : c ≠ d := by
  rintro rfl
  rw [hc] at hd
  cases hd

theorem splitExponent?_of_digits {cs : List Char} (h : ∀ c ∈ cs, c.isDigit = true) :
    splitExponent? cs = some (cs, 0) := by
  have hdrop : (cs.dropWhile fun c => c != 'e' && c != 'E') = [] := by
    refine List.dropWhile_eq_nil_iff.mpr fun c hc => ?_
    simp [ne_of_isDigit (h c hc) (d := 'e') rfl, ne_of_isDigit (h c hc) (d := 'E') rfl]
  rw [splitExponent?, hdrop]

theorem coefficient?_of_digitsValue? {cs : List Char} {k : Nat} (h : digitsValue? cs = some k) :
    coefficient? cs = some (k, 0) := by
  have hpoint : ∀ c ∈ cs, (c != '.') = true := fun c hc =>
    bne_iff_ne.mpr (ne_of_isDigit (isDigit_of_digitsValue? h c hc) rfl)
  have htake : cs.takeWhile (· != '.') = cs := List.takeWhile_eq_self_iff.mpr hpoint
  have hdrop : cs.dropWhile (· != '.') = [] := List.dropWhile_eq_nil_iff.mpr hpoint
  simp only [coefficient?, htake, hdrop, List.drop_nil, List.append_nil, h, Option.map_some,
    List.length_nil]

/-- Digits alone are a numeral of power zero. -/
theorem unsignedNumeral?_of_digitsValue? (negative : Bool) {cs : List Char} {k : Nat}
    (h : digitsValue? cs = some k) :
    unsignedNumeral? negative cs = some ⟨negative, k, 0⟩ := by
  rw [unsignedNumeral?, splitExponent?_of_digits (isDigit_of_digitsValue? h)]
  simp [coefficient?_of_digitsValue? h]

/-- An integer is spelled by digits, after a sign or without one. -/
theorem signedValue?_cases {cs : List Char} {n : Int} (h : signedValue? cs = some n) :
    ∃ ds k, digitsValue? ds = some k ∧
      (cs = '-' :: ds ∧ n = -(k : Int) ∨ (cs = '+' :: ds ∨ cs = ds) ∧ n = k) := by
  -- the digits are read as an integer before the sign is applied, so the coercion is peeled off
  have digits {ds : List Char} {m : Int}
      (hm : (do return ((← digitsValue? ds : Nat) : Int)) = some m) :
      ∃ k, digitsValue? ds = some k ∧ m = k := by
    obtain ⟨k, hk, hkm⟩ := Option.bind_eq_some_iff.mp hm
    exact ⟨k, hk, (Option.some.inj hkm).symm⟩
  unfold signedValue? at h
  split at h
  all_goals
    obtain ⟨m, hm, rfl⟩ := Option.map_eq_some_iff.mp h
    obtain ⟨k, hk, rfl⟩ := digits hm
  · exact ⟨_, k, hk, .inl ⟨rfl, rfl⟩⟩
  · exact ⟨_, k, hk, .inr ⟨.inl rfl, rfl⟩⟩
  · exact ⟨_, k, hk, .inr ⟨.inr rfl, rfl⟩⟩

theorem numeral?_of_digitsValue? {cs : List Char} {k : Nat} (h : digitsValue? cs = some k) :
    numeral? cs = some ⟨false, k, 0⟩ := by
  have hdigit := isDigit_of_digitsValue? h
  rw [numeral?]
  · exact unsignedNumeral?_of_digitsValue? false h
  · rintro ds rfl
    exact absurd (hdigit '-' (.head _)) (by decide)
  · rintro ds rfl
    exact absurd (hdigit '+' (.head _)) (by decide)

/-- An integer in digits is a numeral of power zero. -/
theorem exists_numeral?_of_signedValue? {cs : List Char} {n : Int} (h : signedValue? cs = some n) :
    ∃ negative k, numeral? cs = some ⟨negative, k, 0⟩ ∧ n = if negative then -(k : Int) else k := by
  obtain ⟨ds, k, hk, ⟨rfl, rfl⟩ | ⟨rfl | rfl, rfl⟩⟩ := signedValue?_cases h
  · exact ⟨true, k, unsignedNumeral?_of_digitsValue? true hk, rfl⟩
  · exact ⟨false, k, unsignedNumeral?_of_digitsValue? false hk, rfl⟩
  · exact ⟨false, k, numeral?_of_digitsValue? hk, rfl⟩

/-! ### The nearest number -/

theorem order_le {k : Nat} (h : k < 1 <<< 65) (negative : Bool) :
    0 ≤ (Numeral.mk negative k 0).order ∧ (Numeral.mk negative k 0).order ≤ 20 := by
  have hlength : (digits k).length ≤ 20 :=
    (Nat.length_toDigits_le_iff (by decide) (by decide)).mpr (Nat.lt_trans h (by decide))
  show 0 ≤ ((digits k).length : Int) + 0 ∧ ((digits k).length : Int) + 0 ≤ 20
  omega

/-- A numeral of power zero and at most 65 bits reads as the nearest number, with the sign as it is
written. -/
theorem toBinary64?_of_lt (negative : Bool) {k : Nat} (h : k < 1 <<< 65) :
    ∃ x : Binary64, (Numeral.mk negative k 0).toBinary64? = some x ∧ x.negative = negative ∧
      x.magnitude.units = (Magnitude.ofRatio (k <<< unitExponent) 1).units := by
  obtain ⟨hlow, hhigh⟩ := order_le h negative
  rw [Numeral.toBinary64?]
  by_cases hk : k = 0
  · subst hk
    exact ⟨.zero negative, if_pos (.inl rfl), rfl, rfl⟩
  · have hfinite := Binary64.exponent_ofRatio_one_le h
    refine ⟨⟨negative, Magnitude.ofRatio (k <<< unitExponent) 1, hfinite⟩, ?_, rfl, rfl⟩
    rw [if_neg (not_or.mpr ⟨hk, by omega⟩), if_neg (by omega), if_pos (Int.le_refl 0),
      Binary64.ofRatio?]
    have hscale : k * tenPow (Int.toNat 0) = k := Nat.mul_one k
    simp only [hscale, dif_pos hfinite]

/-- **A text that spells an integer** of at most 65 bits reads as the number nearest to it, up to
the sign of zero. -/
theorem exists_binary64OfText? {s : String} {n : Int} (hs : signedValue? s.toList = some n)
    (h : n.natAbs < 1 <<< 65) :
    ∃ x, binary64OfText? s = some x ∧ x.signedUnits = (Binary64.ofInt n h).signedUnits := by
  obtain ⟨negative, k, hk, rfl⟩ := exists_numeral?_of_signedValue? hs
  have hnat : (k : Int).natAbs < 1 <<< 65 := by
    rw [Int.natAbs_natCast]
    split at h <;> omega
  obtain ⟨x, hx, hsign, hunits⟩ := toBinary64?_of_lt negative (k := k) hnat
  refine ⟨x, by rw [binary64OfText?, hk]; exact hx, ?_⟩
  have hvalue := Binary64.signedUnits_ofInt_of_nonneg hnat (Int.natCast_nonneg k)
  rw [Int.natAbs_natCast, ← hunits] at hvalue
  rw [Binary64.signedUnits, hsign, ← hvalue]
  cases negative with
  | false => rfl
  | true => exact (Binary64.signedUnits_ofInt_neg hnat h).symm

/-! ### Texts that spell no number -/

/-- A character with which no numeral starts: no digit, and none of the marks of numerals. -/
structure IsForeign (c : Char) : Prop where
  notDigit : c.isDigit = false
  notMark : c ∉ ['-', '+', '.', 'e', 'E']

variable {c : Char}

theorem digitsValue?_of_foreign (h : IsForeign c) (cs : List Char) :
    digitsValue? (c :: cs) = none := by
  simp [digitsValue?, h.notDigit]

theorem signedValue?_of_foreign (h : IsForeign c) (cs : List Char) :
    signedValue? (c :: cs) = none := by
  rw [signedValue?, digitsValue?_of_foreign h]
  · rfl
  · rintro ds ⟨⟩
    exact h.notMark (by decide)
  · rintro ds ⟨⟩
    exact h.notMark (by decide)

theorem coefficient?_of_foreign (h : IsForeign c) (cs : List Char) :
    coefficient? (c :: cs) = none := by
  have hpoint : (c != '.') = true := bne_iff_ne.mpr fun he => h.notMark (by simp [he])
  simp only [coefficient?, List.takeWhile_cons, hpoint, if_true, List.cons_append,
    digitsValue?_of_foreign h, Option.map_none]

/-- Before the exponent mark there is the character, or nothing is split off at all. -/
theorem unsignedNumeral?_of_foreign (h : IsForeign c) (negative : Bool) (cs : List Char) :
    unsignedNumeral? negative (c :: cs) = none := by
  have hmark : (c != 'e' && c != 'E') = true := by
    rw [Bool.and_eq_true, bne_iff_ne, bne_iff_ne]
    exact ⟨fun he => h.notMark (by simp [he]), fun he => h.notMark (by simp [he])⟩
  rw [unsignedNumeral?, splitExponent?]
  split
  · simp [coefficient?_of_foreign h]
  · next rest _ =>
    simp only [List.takeWhile_cons, hmark, if_true]
    cases signedValue? rest with
    | none => rfl
    | some e => simp [coefficient?_of_foreign h]

theorem numeral?_of_foreign (h : IsForeign c) (cs : List Char) : numeral? (c :: cs) = none := by
  rw [numeral?, unsignedNumeral?_of_foreign h]
  · rintro ds ⟨⟩
    exact h.notMark (by decide)
  · rintro ds ⟨⟩
    exact h.notMark (by decide)

/-- A digit is its own lower case. -/
theorem toLower_of_isDigit (h : c.isDigit = true) : c.toLower = c := by
  rw [Char.isDigit, Bool.and_eq_true, decide_eq_true_eq, decide_eq_true_eq] at h
  have hupper : ¬ (c.val ≥ 'A'.val ∧ c.val ≤ 'Z'.val) := fun hu =>
    absurd (UInt32.le_trans hu.1 h.2) (by decide)
  exact dif_neg hupper

end DecisionTable.Number
