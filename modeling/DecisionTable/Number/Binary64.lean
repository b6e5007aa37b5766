/-!
# Number — Binary64

Finite IEEE 754 binary64 numbers, exactly.  A number is a sign and a magnitude
`mantissa · 2^exponent`, counted in units of the least positive number `2^-1074`, with at most 53
significant bits and as few trailing scale bits as that allows.  `Magnitude.ofRatio` rounds any
ratio to the nearest magnitude, a tie to the even mantissa; `Binary64.ofRatio?` refuses what lies
beyond the largest finite number, and `Binary64.ofInt` never has to.
-/

namespace DecisionTable.Number

/-- The quotient rounded to the nearest whole number, a tie to the even one. -/
def roundDiv (num den : Nat) : Nat :=
  if 2 * (num % den) < den ∨ (2 * (num % den) = den ∧ num / den % 2 = 0) then
    num / den
  else
    num / den + 1

theorem div_le_roundDiv (num den : Nat) : num / den ≤ roundDiv num den := by
  unfold roundDiv
  split <;> omega

theorem roundDiv_le {num den k : Nat} (h : num ≤ k * den) : roundDiv num den ≤ k := by
  rcases Nat.eq_zero_or_pos den with rfl | hden
  · obtain rfl : num = 0 := Nat.le_zero.1 h
    exact Nat.zero_le k
  have hdiv : num / den ≤ k := Nat.div_le_of_le_mul (Nat.mul_comm k den ▸ h)
  have hrest := Nat.div_add_mod num den
  unfold roundDiv
  split
  · exact hdiv
  · next hup =>
    -- a quotient that is rounded up has a rest, so it is less than the bound
    refine Nat.lt_of_le_of_ne hdiv fun heq => ?_
    rw [heq, Nat.mul_comm] at hrest
    omega

/-- A number with at most 53 significant bits: a scaled mantissa fills all 53. -/
structure Magnitude where
  mantissa : Nat
  exponent : Nat
  mantissa_lt : mantissa < 1 <<< 53
  normal : exponent = 0 ∨ 1 <<< 52 ≤ mantissa
  deriving DecidableEq

namespace Magnitude

/-- The value in units of `2^-1074`. -/
def units (x : Magnitude) : Nat :=
  x.mantissa <<< x.exponent

/-- The scale at which a ratio keeps 53 bits. -/
def scale (num den : Nat) : Nat :=
  (num / den).log2 - 52

theorem scale_le {num den k : Nat} (h : num / den < 1 <<< (53 + k)) : scale num den ≤ k := by
  rw [Nat.one_shiftLeft] at h
  have hlog : (num / den).log2 < 53 + k := by
    by_cases h0 : num / den = 0
    · rw [h0, Nat.log2_zero]
      omega
    · exact (Nat.log2_lt h0).2 h
  unfold scale
  omega

/-- A ratio at its scale fills the mantissa. -/
theorem le_roundDiv_scale {num den : Nat} (h : scale num den ≠ 0) :
    1 <<< 52 ≤ roundDiv num (den <<< scale num den) := by
  have hl : (num / den).log2 = scale num den + 52 := by
    unfold scale at h ⊢
    omega
  have hq : num / den ≠ 0 := by
    intro h0
    rw [h0] at hl
    simp at hl
  have hle : 2 ^ (scale num den + 52) ≤ num / den := hl ▸ Nat.log2_self_le hq
  refine Nat.le_trans ?_ (div_le_roundDiv _ _)
  rw [Nat.one_shiftLeft, Nat.shiftLeft_eq, ← Nat.div_div_eq_div_mul,
    Nat.le_div_iff_mul_le (Nat.two_pow_pos _), ← Nat.pow_add, Nat.add_comm]
  exact hle

/-- The magnitude nearest to a ratio of units; a tie goes to the even mantissa. -/
def ofRatio (num den : Nat) : Magnitude :=
  if h : roundDiv num (den <<< scale num den) < 1 <<< 53 then
    { mantissa := roundDiv num (den <<< scale num den)
      exponent := scale num den
      mantissa_lt := h
      normal := Decidable.or_iff_not_imp_left.2 le_roundDiv_scale }
  else
    { mantissa := 1 <<< 52
      exponent := scale num den + 1
      mantissa_lt := by decide
      normal := .inr (Nat.le_refl _) }

theorem exponent_ofRatio_le (num den : Nat) :
    (ofRatio num den).exponent ≤ scale num den + 1 := by
  unfold ofRatio
  split <;> simp

end Magnitude

/-- The exponent of a unit: the least positive number is `2^-1074`. -/
def unitExponent : Nat := 1074

/-- A finite binary64 number; zero has both signs. -/
structure Binary64 where
  negative : Bool
  magnitude : Magnitude
  finite : magnitude.exponent ≤ 2045
  deriving DecidableEq

namespace Binary64

/-- The value in units of `2^-1074`, with its sign; both zeros give 0. -/
def signedUnits (x : Binary64) : Int :=
  if x.negative then -(x.magnitude.units : Int) else x.magnitude.units

/-- Order by value: the two zeros are equal. -/
instance : Ord Binary64 where
  compare x y := compare x.signedUnits y.signedUnits

/-- The number nearest to a ratio, unless it lies beyond the largest finite number. -/
def ofRatio? (negative : Bool) (num den : Nat) : Option Binary64 :=
  if h : (Magnitude.ofRatio (num <<< unitExponent) den).exponent ≤ 2045 then
    some ⟨negative, Magnitude.ofRatio (num <<< unitExponent) den, h⟩
  else
    none

theorem exponent_ofRatio_one_le {n : Nat} (h : n < 1 <<< 65) :
    (Magnitude.ofRatio (n <<< unitExponent) 1).exponent ≤ 2045 := by
  have hlt : n <<< unitExponent / 1 < 1 <<< (53 + (12 + unitExponent)) := by
    rw [Nat.div_one, Nat.shiftLeft_eq, Nat.one_shiftLeft, ← Nat.add_assoc, Nat.pow_add]
    rw [Nat.one_shiftLeft] at h
    exact Nat.mul_lt_mul_of_pos_right h (Nat.two_pow_pos _)
  have hscale := Magnitude.scale_le hlt
  exact Nat.le_trans (Magnitude.exponent_ofRatio_le _ _)
    (Nat.le_trans (Nat.succ_le_succ hscale) (by decide))

/-- The number nearest to an integer of at most 65 bits. -/
def ofInt (n : Int) (h : n.natAbs < 1 <<< 65) : Binary64 :=
  ⟨n < 0, Magnitude.ofRatio (n.natAbs <<< unitExponent) 1, exponent_ofRatio_one_le h⟩

/-- The interchange format: a sign bit, then eleven bits of exponent and 52 of mantissa. -/
def bits (x : Binary64) : Nat :=
  (if x.negative then 1 <<< 63 else 0) + (x.magnitude.exponent <<< 52) + x.magnitude.mantissa

/-- Zero with the given sign. -/
def zero (negative : Bool) : Binary64 :=
  ⟨negative, ⟨0, 0, by decide, .inl rfl⟩, by decide⟩

@[simp] theorem signedUnits_zero (negative : Bool) : (zero negative).signedUnits = 0 := by
  cases negative <;> rfl

theorem compare_eq_compare_signedUnits (x y : Binary64) :
    compare x y = compare x.signedUnits y.signedUnits := rfl

end Binary64

end DecisionTable.Number
