import DecisionTable.Number.Binary64
import DecisionTable.Number.Digits

/-!
# Number — Scaling

A word times a power of ten, in steps of binary64 arithmetic.  The word is rounded, the power of
ten is rounded, and so is their product or quotient (`Magnitude.mul`, `Magnitude.div`); the result
can miss the number nearest to the exact value (`Binary64.scaled?`).  No power above `10^308` is
finite, so greater ones divide in several steps, and multiply nothing but zero.
-/

namespace DecisionTable.Number

namespace Magnitude

/-- The magnitude nearest to a word. -/
def ofUInt64 (n : UInt64) : Magnitude :=
  ofRatio (n.toNat <<< unitExponent) 1

/-- The magnitude nearest to a product. -/
def mul (x y : Magnitude) : Magnitude :=
  ofRatio (x.units * y.units) (1 <<< unitExponent)

/-- The magnitude nearest to a quotient. -/
def div (x y : Magnitude) : Magnitude :=
  ofRatio (x.units <<< unitExponent) y.units

/-- The magnitude nearest to a power of ten. -/
def powerOfTen (n : Nat) : Magnitude :=
  ofRatio (tenPow n <<< unitExponent) 1

/-- The greatest finite power of ten. -/
def maxPower : Nat := 308

/-- Divides by a power of ten: by the greatest finite one while the power is beyond it and
something is left. -/
def divPowerOfTen (x : Magnitude) (power : Nat) : Magnitude :=
  if power ≤ maxPower then x.div (powerOfTen power)
  else if x.mantissa = 0 then x
  else (x.div (powerOfTen maxPower)).divPowerOfTen (power - maxPower)
termination_by power
decreasing_by simp only [maxPower] at *; omega

/-- Where rounding drops bits, it keeps the leading one. -/
theorem one_shiftLeft_log2_le_units {num den : Nat} (h : scale num den ≠ 0) :
    1 <<< (num / den).log2 ≤ (ofRatio num den).units := by
  have hlog : (num / den).log2 = 52 + scale num den := by
    unfold scale at h ⊢
    omega
  rw [hlog, Nat.one_shiftLeft, Nat.pow_add, units, Nat.shiftLeft_eq]
  unfold ofRatio
  split
  · have hmantissa := le_roundDiv_scale h
    rw [Nat.one_shiftLeft] at hmantissa
    exact Nat.mul_le_mul_right _ hmantissa
  · exact Nat.mul_le_mul (Nat.le_of_eq (Nat.one_shiftLeft 52).symm)
      (Nat.pow_le_pow_right (by decide) (Nat.le_succ _))

/-- A power of ten is not rounded below one. -/
theorem one_le_powerOfTen (n : Nat) : 1 <<< unitExponent ≤ (powerOfTen n).units := by
  have hpos : tenPow n <<< unitExponent ≠ 0 := by
    rw [Nat.shiftLeft_eq]
    exact Nat.ne_of_gt (Nat.mul_pos (Nat.pow_pos (by decide)) (Nat.two_pow_pos _))
  have hlog : unitExponent ≤ (tenPow n <<< unitExponent / 1).log2 := by
    rw [Nat.div_one, Nat.le_log2 hpos, Nat.shiftLeft_eq]
    exact Nat.le_mul_of_pos_left _ (Nat.pow_pos (by decide))
  have hscale : scale (tenPow n <<< unitExponent) 1 ≠ 0 := by
    simp only [scale, unitExponent] at hlog ⊢
    omega
  refine Nat.le_trans ?_ (one_shiftLeft_log2_le_units hscale)
  rw [Nat.one_shiftLeft, Nat.one_shiftLeft]
  exact Nat.pow_le_pow_right (by decide) hlog

/-- A divisor of one or more does not raise the scale. -/
theorem exponent_div_le {x y : Magnitude} (hy : 1 <<< unitExponent ≤ y.units) :
    (x.div y).exponent ≤ x.exponent := by
  have hle : x.units <<< unitExponent ≤ x.units * y.units := by
    rw [Nat.shiftLeft_eq, ← Nat.one_shiftLeft]
    exact Nat.mul_le_mul_left _ hy
  have hscale : scale (x.units <<< unitExponent) y.units ≤ x.exponent := by
    refine scale_le (Nat.lt_of_le_of_lt (Nat.div_le_of_le_mul (Nat.mul_comm _ y.units ▸ hle)) ?_)
    rw [units, Nat.shiftLeft_eq, Nat.one_shiftLeft, Nat.pow_add, ← Nat.one_shiftLeft 53]
    exact Nat.mul_lt_mul_of_pos_right x.mantissa_lt (Nat.two_pow_pos _)
  unfold div ofRatio
  split
  · exact hscale
  · next hcarry =>
    -- at the scale of the dividend the quotient is at most its mantissa, so nothing is carried
    refine Nat.lt_of_le_of_ne hscale fun heq => hcarry (Nat.lt_of_le_of_lt ?_ x.mantissa_lt)
    refine roundDiv_le (Nat.le_trans hle (Nat.le_of_eq ?_))
    rw [heq, units, Nat.shiftLeft_eq, Nat.shiftLeft_eq, Nat.mul_assoc, Nat.mul_comm y.units]

theorem exponent_divPowerOfTen_le (x : Magnitude) (power : Nat) :
    (x.divPowerOfTen power).exponent ≤ x.exponent := by
  fun_induction divPowerOfTen x power with
  | case1 x power => exact exponent_div_le (one_le_powerOfTen power)
  | case2 x => exact Nat.le_refl _
  | case3 x power _ _ ih => exact Nat.le_trans ih (exponent_div_le (one_le_powerOfTen maxPower))

theorem exponent_ofUInt64_le (n : UInt64) : (ofUInt64 n).exponent ≤ 2045 :=
  Binary64.exponent_ofRatio_one_le (Nat.lt_trans n.toNat_lt (by decide))

end Magnitude

/-- A word times a power of ten, each step rounded, unless a product is too large. -/
def Binary64.scaled? (negative : Bool) (n : UInt64) (power : Int) : Option Binary64 :=
  let x := Magnitude.ofUInt64 n
  if power < 0 then
    some
      { negative
        magnitude := x.divPowerOfTen power.natAbs
        finite := Nat.le_trans (x.exponent_divPowerOfTen_le _) (Magnitude.exponent_ofUInt64_le n) }
  else if n = 0 then
    some (.zero negative)
  else if power ≤ Magnitude.maxPower then
    let y := x.mul (.powerOfTen power.natAbs)
    if h : y.exponent ≤ 2045 then some ⟨negative, y, h⟩ else none
  else
    none

end DecisionTable.Number
