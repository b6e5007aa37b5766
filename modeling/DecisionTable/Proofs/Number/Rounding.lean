import DecisionTable.Coercion
import Mathlib.Algebra.Group.Int.Defs
import Mathlib.Algebra.Group.Nat.Defs
import Mathlib.Data.Nat.Log

/-!
# Number — Rounding

Rounding keeps the order of numbers.

* `roundDiv_mono`, `Magnitude.units_ofRatio_mono`: of two ratios the greater one is not rounded to
  a smaller magnitude.
* `Binary64.signedUnits_ofInt_mono`: nor is the greater one of two integers, whatever their signs.
* `Binary64.compare_ofInt`: between integers from `2^63` on and signed words the order of the
  nearest numbers is that of the integers, except close to `2^63`, where both may round to it.
-/

namespace DecisionTable.Number

/-- A greater numerator does not give a smaller quotient. -/
theorem roundDiv_mono {m n : Nat} (h : m ≤ n) (den : Nat) : roundDiv m den ≤ roundDiv n den := by
  have hle : m / den ≤ n / den := Nat.div_le_div_right h
  rcases Nat.lt_or_eq_of_le hle with hlt | heq
  · calc roundDiv m den ≤ m / den + 1 := by rw [roundDiv]; split <;> omega
      _ ≤ n / den := hlt
      _ ≤ roundDiv n den := div_le_roundDiv n den
  · have hm := Nat.div_add_mod m den
    have hn := Nat.div_add_mod n den
    rw [heq] at hm
    -- the quotients agree, so the rests are in the order of the numerators
    have hrest : m % den ≤ n % den := by omega
    rw [roundDiv, roundDiv, heq]
    split <;> split <;> omega

namespace Magnitude

/-- The scale leaves a quotient of at most 53 bits. -/
theorem div_lt_two_pow_scale (num den : Nat) : num / den < 2 ^ (scale num den + 53) := by
  refine Nat.lt_of_lt_of_le Nat.lt_log2_self (Nat.pow_le_pow_right (by decide) ?_)
  rw [scale]
  omega

theorem scale_mono {m n : Nat} (h : m ≤ n) (den : Nat) : scale m den ≤ scale n den := by
  have hlog : (m / den).log2 ≤ (n / den).log2 := by
    rw [Nat.log2_eq_log_two, Nat.log2_eq_log_two]
    exact Nat.log_mono_right (Nat.div_le_div_right h)
  rw [scale, scale]
  omega

theorem roundDiv_scale_le (num den : Nat) :
    roundDiv num (den <<< scale num den) ≤ 2 ^ 53 := by
  have hquot : num / (den <<< scale num den) < 2 ^ 53 := by
    rw [Nat.shiftLeft_eq, ← Nat.div_div_eq_div_mul, Nat.div_lt_iff_lt_mul (Nat.two_pow_pos _),
      ← Nat.pow_add, Nat.add_comm]
    exact div_lt_two_pow_scale num den
  rw [roundDiv]
  split <;> omega

/-- A magnitude is the rounded quotient at its scale, also where rounding carries into a new bit. -/
theorem units_ofRatio (num den : Nat) :
    (ofRatio num den).units = roundDiv num (den <<< scale num den) * 2 ^ scale num den := by
  rw [ofRatio]
  split
  · exact Nat.shiftLeft_eq _ _
  · next hge =>
    have hmax := roundDiv_scale_le num den
    have heq : roundDiv num (den <<< scale num den) = 2 ^ 53 := by
      rw [Nat.one_shiftLeft] at hge
      omega
    show (1 <<< 52) <<< (scale num den + 1) = _
    rw [heq, Nat.shiftLeft_eq, Nat.one_shiftLeft, Nat.pow_succ]
    omega

/-- **Rounding keeps the order** of ratios. -/
theorem units_ofRatio_mono {m n : Nat} (h : m ≤ n) (den : Nat) :
    (ofRatio m den).units ≤ (ofRatio n den).units := by
  rw [units_ofRatio, units_ofRatio]
  rcases Nat.lt_or_eq_of_le (scale_mono h den) with hlt | heq
  · have hfill : 2 ^ 52 ≤ roundDiv n (den <<< scale n den) := by
      rw [← Nat.one_shiftLeft]
      exact le_roundDiv_scale (Nat.ne_of_gt (Nat.lt_of_le_of_lt (Nat.zero_le _) hlt))
    calc roundDiv m (den <<< scale m den) * 2 ^ scale m den
        ≤ 2 ^ 53 * 2 ^ scale m den := Nat.mul_le_mul_right _ (roundDiv_scale_le m den)
      _ = 2 ^ 52 * 2 ^ (scale m den + 1) := by rw [Nat.pow_succ]; omega
      _ ≤ 2 ^ 52 * 2 ^ scale n den :=
          Nat.mul_le_mul_left _ (Nat.pow_le_pow_right (by decide) hlt)
      _ ≤ roundDiv n (den <<< scale n den) * 2 ^ scale n den := Nat.mul_le_mul_right _ hfill
  · rw [heq]
    exact Nat.mul_le_mul_right _ (roundDiv_mono h _)

end Magnitude

namespace Binary64

/-! ### Integers -/

theorem signedUnits_ofInt_of_nonneg {n : Int} (h : n.natAbs < 1 <<< 65) (hn : 0 ≤ n) :
    (ofInt n h).signedUnits = ((Magnitude.ofRatio (n.natAbs <<< unitExponent) 1).units : Int) := by
  rw [signedUnits, ofInt, if_neg (by simpa using hn)]

theorem signedUnits_ofInt_of_neg {n : Int} (h : n.natAbs < 1 <<< 65) (hn : n < 0) :
    (ofInt n h).signedUnits = -((Magnitude.ofRatio (n.natAbs <<< unitExponent) 1).units : Int) := by
  rw [signedUnits, ofInt, if_pos (by simpa using hn)]

theorem signedUnits_ofInt_zero : (ofInt 0 (by decide)).signedUnits = 0 := by
  decide +kernel

/-- Rounding does not depend on the sign. -/
theorem signedUnits_ofInt_neg {n : Int} (h : n.natAbs < 1 <<< 65) (hneg : (-n).natAbs < 1 <<< 65) :
    (ofInt (-n) hneg).signedUnits = -(ofInt n h).signedUnits := by
  rcases Int.lt_trichotomy n 0 with hn | rfl | hn
  · rw [signedUnits_ofInt_of_neg h hn, signedUnits_ofInt_of_nonneg hneg (by omega), Int.natAbs_neg,
      Int.neg_neg]
  · show (ofInt 0 hneg).signedUnits = -(ofInt 0 h).signedUnits
    rw [signedUnits_ofInt_zero]
    rfl
  · rw [signedUnits_ofInt_of_nonneg h (by omega), signedUnits_ofInt_of_neg hneg (by omega),
      Int.natAbs_neg]

theorem units_shiftLeft_mono {m n : Nat} (h : m ≤ n) :
    (Magnitude.ofRatio (m <<< unitExponent) 1).units
      ≤ (Magnitude.ofRatio (n <<< unitExponent) 1).units := by
  refine Magnitude.units_ofRatio_mono ?_ 1
  rw [Nat.shiftLeft_eq, Nat.shiftLeft_eq]
  exact Nat.mul_le_mul_right _ h

/-- **Rounding keeps the order** of integers. -/
theorem signedUnits_ofInt_mono {m n : Int} (hm : m.natAbs < 1 <<< 65) (hn : n.natAbs < 1 <<< 65)
    (h : m ≤ n) : (ofInt m hm).signedUnits ≤ (ofInt n hn).signedUnits := by
  rcases Int.lt_or_le n 0 with hneg | hnonneg
  · rw [signedUnits_ofInt_of_neg hn hneg, signedUnits_ofInt_of_neg hm (by omega)]
    have := units_shiftLeft_mono (m := n.natAbs) (n := m.natAbs) (by omega)
    omega
  · rw [signedUnits_ofInt_of_nonneg hn hnonneg]
    rcases Int.lt_or_le m 0 with hneg | hm0
    · rw [signedUnits_ofInt_of_neg hm hneg]
      omega
    · rw [signedUnits_ofInt_of_nonneg hm hm0]
      exact Int.ofNat_le.mpr (units_shiftLeft_mono (by omega))

/-- Nothing between `2^63 - 512` and `2^63 + 1024` is told apart from `2^63`. -/
theorem signedUnits_ofInt_near {n : Int} (h : n.natAbs < 1 <<< 65) (hge : 2 ^ 63 - 512 ≤ n)
    (hle : n ≤ 2 ^ 63 + 1024) : (ofInt n h).signedUnits = 2 ^ (63 + unitExponent) := by
  refine Int.le_antisymm ?_ ?_
  · refine Int.le_trans (signedUnits_ofInt_mono h (n := 2 ^ 63 + 1024) (by decide) hle) ?_
    decide +kernel
  · refine Int.le_trans ?_ (signedUnits_ofInt_mono (m := 2 ^ 63 - 512) (by decide) h hge)
    decide +kernel

theorem signedUnits_ofInt_below {n : Int} (h : n.natAbs < 1 <<< 65) (hlt : n < 2 ^ 63 - 512) :
    (ofInt n h).signedUnits < 2 ^ (63 + unitExponent) := by
  refine Int.lt_of_le_of_lt (signedUnits_ofInt_mono h (n := 2 ^ 63 - 513) (by decide) ?_) ?_
  · omega
  · decide +kernel

theorem signedUnits_ofInt_above {n : Int} (h : n.natAbs < 1 <<< 65) (hlt : 2 ^ 63 + 1024 < n) :
    2 ^ (63 + unitExponent) < (ofInt n h).signedUnits := by
  refine Int.lt_of_lt_of_le ?_ (signedUnits_ofInt_mono (m := 2 ^ 63 + 1025) (by decide) h ?_)
  · decide +kernel
  · omega

/-- An integer from `2^63` on and a word that both round to `2^63`. -/
def Merges (n : Int) (w : Int64) : Prop :=
  2 ^ 63 ≤ n ∧ n ≤ 2 ^ 63 + 1024 ∧ 2 ^ 63 - 512 ≤ w.toInt

instance (n : Int) (w : Int64) : Decidable (Merges n w) :=
  inferInstanceAs (Decidable (_ ∧ _ ∧ _))

/-- An integer that merges with a word is greater. -/
theorem Merges.lt {n : Int} {w : Int64} (h : Merges n w) : w.toInt < n :=
  Int.lt_of_lt_of_le w.toInt_lt h.1

/-- **Integers beyond the words**, compared with a word after rounding: they are greater, or merge
with it. -/
theorem compare_ofInt {n : Int} (h : n.natAbs < 1 <<< 65) (hn : 2 ^ 63 ≤ n) (w : Int64) :
    compare (ofInt n h) (ofInt64 w) = if Merges n w then .eq else .gt := by
  have hw := w.toInt_lt
  rw [compare_eq_compare_signedUnits, ofInt64]
  by_cases hnear : n ≤ 2 ^ 63 + 1024
  · rw [signedUnits_ofInt_near h (by omega) hnear]
    by_cases htop : 2 ^ 63 - 512 ≤ w.toInt
    · rw [if_pos ⟨hn, hnear, htop⟩, signedUnits_ofInt_near _ htop (by omega)]
      exact compare_eq_iff_eq.mpr rfl
    · rw [if_neg fun hm => htop hm.2.2]
      exact compare_gt_iff_gt.mpr (signedUnits_ofInt_below _ (by omega))
  · rw [if_neg fun hm => hnear hm.2.1]
    refine compare_gt_iff_gt.mpr ?_
    calc (ofInt w.toInt _).signedUnits
        ≤ (ofInt (2 ^ 63) (by decide)).signedUnits := signedUnits_ofInt_mono _ _ (by omega)
      _ = 2 ^ (63 + unitExponent) := signedUnits_ofInt_near _ (by omega) (by omega)
      _ < (ofInt n h).signedUnits := signedUnits_ofInt_above h (by omega)

end Binary64

end DecisionTable.Number
