import DecisionTable.Condition.Literal
import DecisionTable.Proofs.Number.Datum
import DecisionTable.Proofs.Number.Spelling

/-!
# Condition — Comparisons

What the comparisons say of a value and a literal.

* `integer_comparison`: a value that spells an integer is compared with a word as an integer,
  except where both round to `2^63` (`Number.Binary64.Merges`); there it passes for the word itself.
* `Literal.compareData?`: the order with numbers read as binary64 data, infinities and NaN included,
  which need not have one.  `Literal.compareData?_eq`: those that come from literals and values do.
* `comparisons_consistent`: one of less, equal and greater holds, and the other operators are the
  negations of these three and of the test for containment.
-/

namespace DecisionTable

open Condition (Comparison)
open Number (Binary64 Datum)

/-! ### Integers -/

/-- What a comparison says of two integers. -/
def Condition.Comparison.Relates : Comparison → Int → Int → Prop
  | .equals, m, n => m = n
  | .notEquals, m, n => m ≠ n
  | .greaterThan, m, n => n < m
  | .greaterThanOrEqual, m, n => n ≤ m
  | .lessThan, m, n => m < n
  | .lessThanOrEqual, m, n => m ≤ n

instance : (c : Comparison) → (m n : Int) → Decidable (c.Relates m n)
  | .equals, m, n => inferInstanceAs (Decidable (m = n))
  | .notEquals, m, n => inferInstanceAs (Decidable (m ≠ n))
  | .greaterThan, m, n => inferInstanceAs (Decidable (n < m))
  | .greaterThanOrEqual, m, n => inferInstanceAs (Decidable (n ≤ m))
  | .lessThan, m, n => inferInstanceAs (Decidable (m < n))
  | .lessThanOrEqual, m, n => inferInstanceAs (Decidable (m ≤ n))

theorem Condition.Comparison.accepts_compare_iff (c : Comparison) (m n : Int) :
    c.accepts (compare m n) = true ↔ c.Relates m n := by
  cases c with
  | equals => rw [accepts, Relates, beq_iff_eq, compare_eq_iff_eq]
  | notEquals => rw [accepts, Relates, bne_iff_ne, Ne, compare_eq_iff_eq]
  | greaterThan => rw [accepts, Relates, beq_iff_eq, compare_gt_iff_gt]
  | greaterThanOrEqual => rw [accepts, Relates, bne_iff_ne, compare_ge_iff_ge]
  | lessThan => rw [accepts, Relates, beq_iff_eq, compare_lt_iff_lt]
  | lessThanOrEqual => rw [accepts, Relates, bne_iff_ne, compare_le_iff_le]

namespace Json

/-- A value is an integer that fits a signed or an unsigned 64-bit word, or a text that, without the
blanks at its ends, spells one. -/
inductive Spells : Json → Int → Prop where
  | integer (n : Json.Integer) : Spells (.number (.integer n)) n.val
  | text {s : String} {n : Int} (h : Number.signedValue? (Text.trim s).toList = some n)
      (hge : -0x8000000000000000 ≤ n) (hlt : n < 0x10000000000000000) : Spells (.text s) n

namespace Spells

variable {v : Json} {n : Int}

theorem ge (h : v.Spells n) : -0x8000000000000000 ≤ n := by
  cases h with
  | integer n => exact n.ge
  | text h hge hlt => exact hge

theorem lt (h : v.Spells n) : n < 0x10000000000000000 := by
  cases h with
  | integer n => exact n.lt
  | text h hge hlt => exact hlt

theorem natAbs_lt (h : v.Spells n) : n.natAbs < 1 <<< 65 := by
  have := h.ge
  have := h.lt
  omega

theorem asInt64?_eq (h : v.Spells n) : v.asInt64? = Number.int64? n := by
  cases h with
  | integer n => rfl
  | text h hge hlt => rw [asInt64?, Text.int64?, Number.int64OfText?, h, Option.bind_some]

/-- As a number it is the one nearest to the integer, up to the sign of zero. -/
theorem exists_asBinary64? (h : v.Spells n) :
    ∃ x, v.asBinary64? = some x ∧ x.signedUnits = (Binary64.ofInt n h.natAbs_lt).signedUnits := by
  cases h with
  | integer n => exact ⟨_, rfl, rfl⟩
  | text hs hge hlt => exact Number.exists_binary64OfText? hs _

end Spells

end Json

namespace Literal

variable {l : Literal} {v : Json} {w : Int64} {n : Int}

/-- A word and an integer are in the order of the integers, unless they merge. -/
theorem compareValue_of_spells (hl : l.kind = .int w) (hv : v.Spells n) :
    l.compareValue v = if Binary64.Merges n w then .eq else compare n w.toInt := by
  rw [compareValue, hl]
  cases hword : Number.int64? n with
  | some m =>
      obtain rfl : m.toInt = n := Number.int64?_eq_some_iff.mp hword
      have hm : ¬ Binary64.Merges m.toInt w := fun h => Int.not_lt.mpr h.1 m.toInt_lt
      simp only [hv.asInt64?_eq, hword, if_neg hm]
  | none =>
      have hge : 2 ^ 63 ≤ n := (Number.int64?_eq_none_iff.mp hword).resolve_left (by
        have := hv.ge
        omega)
      have hgt : compare n w.toInt = .gt := by
        rw [compare_gt_iff_gt]
        exact Int.lt_of_lt_of_le w.toInt_lt hge
      obtain ⟨x, hx, hunits⟩ := hv.exists_asBinary64?
      simp only [hv.asInt64?_eq, hword, hx, hgt]
      rw [← Binary64.compare_ofInt hv.natAbs_lt hge w, Binary64.compare_eq_compare_signedUnits,
        hunits, ← Binary64.compare_eq_compare_signedUnits]

end Literal

/-- **Integers**, compared with a literal that is a word.  The comparison is that of the integers,
with the word in place of an integer that merges with it; so it is exact except for those, which are
greater than the word and pass for equal. -/
theorem integer_comparison {l : Literal} {w : Int64} {v : Json} {n : Int} (hl : l.kind = .int w)
    (hv : v.Spells n) :
    (∀ c : Comparison, l.test (.comparison c) v = true ↔
      c.Relates (if Binary64.Merges n w then w.toInt else n) w.toInt) ∧
    ((∀ c : Comparison, l.test (.comparison c) v = true ↔ c.Relates n w.toInt) ↔
      ¬ Binary64.Merges n w) := by
  have htest (c : Comparison) : l.test (.comparison c) v = true ↔
      c.Relates (if Binary64.Merges n w then w.toInt else n) w.toInt := by
    rw [← c.accepts_compare_iff, Literal.test, Literal.compareValue_of_spells hl hv]
    split
    · rw [compare_eq_iff_eq.mpr rfl]
    · rfl
  refine ⟨htest, fun hexact hm => ?_, fun hm c => ?_⟩
  · -- the value passes for equal to the word, though it is greater
    have heq : n = w.toInt := (hexact .equals).mp ((htest .equals).mpr (if_pos hm))
    exact Int.ne_of_gt hm.lt heq
  · rw [htest, if_neg hm]

/-- The greatest word equals the integer after it. -/
theorem integer_comparison_beyond_words :
    (⟨"9223372036854775807"⟩ : Literal).test (.comparison .equals)
      (.number (.integer ⟨0x8000000000000000, by decide, by decide⟩)) = true := by
  have h := (integer_comparison (l := ⟨"9223372036854775807"⟩) (w := 0x7fffffffffffffff) rfl
    (.integer ⟨0x8000000000000000, by decide, by decide⟩)).1 .equals
  exact h.mpr (by rw [if_pos (by decide)]; rfl)

/-- So integers are not always compared exactly. -/
theorem not_exact_beyond_words :
    ¬ ∀ (l : Literal) (w : Int64) (v : Json) (n : Int), l.kind = .int w → v.Spells n →
      ∀ c : Comparison, l.test (.comparison c) v = true ↔ c.Relates n w.toInt := by
  intro h
  have heq := (h ⟨"9223372036854775807"⟩ 0x7fffffffffffffff
    (.number (.integer ⟨0x8000000000000000, by decide, by decide⟩)) 0x8000000000000000 rfl
    (.integer _) .equals).mp (by decide +kernel)
  exact absurd heq (by decide)

/-! ### All data -/

/-- Reads a binary64 datum that is neither an infinity nor NaN. -/
def Text.finiteDatum? (s : String) : Option Datum :=
  (Datum.ofText? (trim s)).filter Datum.isFinite

/-- A number, or a text that spells one. -/
def Json.asDatum? : Json → Option Datum
  | .number n => some (.finite n.toBinary64)
  | .text s => Text.finiteDatum? s
  | _ => none

namespace Literal

/-- The order of a value and the literal, if they have one: numbers are compared as data. -/
def compareData? (l : Literal) (v : Json) : Option Ordering :=
  match Text.int64? l.raw, Text.finiteDatum? l.raw, Text.bool? l.raw with
  | some n, _, _ =>
    match v.asInt64?, v.asDatum? with
    | some m, _ => some (compare m.toInt n.toInt)
    | none, some x => x.compare? (.finite (.ofInt64 n))
    | none, none => some (l.compareText v)
  | none, some y, _ =>
    match v.asDatum? with
    | some x => x.compare? y
    | none => some (l.compareText v)
  | none, none, some b =>
    match v.asBool? with
    | some a => some (compare a b)
    | none => some (l.compareText v)
  | none, none, none => some (l.compareText v)

/-- Whether an operator holds of a value and the literal; no comparison holds without an order. -/
def testData (l : Literal) (op : Condition.Operator) (v : Json) : Bool :=
  match op with
  | .comparison c => (l.compareData? v).any c.accepts
  | .textTest t => l.testText v t

end Literal

theorem Text.finiteDatum?_eq (s : String) : finiteDatum? s = (binary64? s).map .finite :=
  Datum.filter_ofText? (trim s)

theorem Json.asDatum?_eq (v : Json) : v.asDatum? = v.asBinary64?.map .finite := by
  cases v with
  | text s => exact Text.finiteDatum?_eq s
  | _ => rfl

namespace Literal

/-- **No datum without order** comes from a literal or a value. -/
theorem compareData?_eq (l : Literal) (v : Json) :
    l.compareData? v = some (l.compareValue v) := by
  rw [compareData?, compareValue, kind, Text.finiteDatum?_eq, Json.asDatum?_eq]
  cases Text.int64? l.raw with
  | some n =>
      cases v.asInt64? with
      | some m => rfl
      | none => cases v.asBinary64? <;> rfl
  | none =>
      cases Text.binary64? l.raw with
      | some y => cases v.asBinary64? <;> rfl
      | none =>
          cases Text.bool? l.raw with
          | some b => cases v.asBool? <;> rfl
          | none => rfl

theorem testData_eq (l : Literal) (op : Condition.Operator) (v : Json) :
    l.testData op v = l.test op v := by
  cases op with
  | comparison c => rw [testData, compareData?_eq, Option.any_some, test]
  | textTest t => rfl

end Literal

/-- One of the strict comparisons and equality holds of an order, and no other. -/
theorem Condition.Comparison.existsUnique_accepts (o : Ordering) :
    ∃! c, c ∈ [Comparison.lessThan, .equals, .greaterThan] ∧ c.accepts o = true := by
  cases o with
  | lt => exact ⟨.lessThan, by decide, fun c h => by revert h; cases c <;> decide⟩
  | eq => exact ⟨.equals, by decide, fun c h => by revert h; cases c <;> decide⟩
  | gt => exact ⟨.greaterThan, by decide, fun c h => by revert h; cases c <;> decide⟩

/-- **Consistency** of the operators, whatever the literal and the value.  Infinities and NaN are
kept out: with numbers read as data the tests come out as they do, and there is always an order.
Exactly one of less, equal and greater holds, and each of the other comparisons is the negation of
one of these three, as the test that a text does not occur is of the test that it does. -/
theorem comparisons_consistent (l : Literal) (v : Json) :
    (∀ op, l.testData op v = l.test op v) ∧
    (l.compareData? v).isSome = true ∧
    (∃! c, c ∈ [Comparison.lessThan, .equals, .greaterThan] ∧ l.test (.comparison c) v = true) ∧
    l.test (.comparison .notEquals) v = !l.test (.comparison .equals) v ∧
    l.test (.comparison .greaterThanOrEqual) v = !l.test (.comparison .lessThan) v ∧
    l.test (.comparison .lessThanOrEqual) v = !l.test (.comparison .greaterThan) v ∧
    l.test (.textTest .notContains) v = !l.test (.textTest .contains) v :=
  ⟨fun op => l.testData_eq op v, by rw [l.compareData?_eq v, Option.isSome_some],
    Comparison.existsUnique_accepts _, rfl, rfl, rfl, rfl⟩

end DecisionTable
