import DecisionTable.Proofs.Coercion
import DecisionTable.Proofs.Condition.Spelling

/-!
# Condition — Comparison as texts

A literal with the look of a number or a truth value is compared as a text with the values that do
not coerce to its type: blanks and letter case then count, and the order is that of the spelling.
No such comparison finds the two equal.

* `Literal.FallsBack`: the literals that read as a number or a truth value, with the values that do
  not coerce to it.
* `Literal.FallsBack.compareValue_eq`: the order of the two is that of their texts, the cell as it
  stands.
* `Literal.FallsBack.asText_ne`: the texts differ, since a value coerces when its text does.
* `fallback_never_equal`: so `Equals` fails and `NotEquals` holds.
-/

namespace DecisionTable

open Number (Binary64)

namespace Literal

/-- A literal that reads as a number or as a truth value, and a value that does not. -/
inductive FallsBack (l : Literal) (v : Json) : Prop where
  | number (hl : l.IsNumeric) (hv : ¬ v.ReadsAsNumber)
  | truth {b : Bool} (hl : l.kind = .bool b) (hv : ¬ v.ReadsAsTruth)

variable {l : Literal} {v : Json}

/-! ### The text of a literal -/

theorem int64?_of_kind {n : Int64} (h : l.kind = .int n) : Text.int64? l.raw = some n := by
  unfold kind at h
  split at h <;> cases h
  assumption

theorem binary64?_of_kind {x : Binary64} (h : l.kind = .float x) :
    Text.binary64? l.raw = some x := by
  unfold kind at h
  split at h <;> cases h
  assumption

theorem bool?_of_kind {b : Bool} (h : l.kind = .bool b) : Text.bool? l.raw = some b := by
  unfold kind at h
  split at h <;> cases h
  assumption

theorem IsNumeric.readsAsNumber (h : l.IsNumeric) : (Json.text l.raw).ReadsAsNumber := by
  cases h with
  | word hl => exact Json.readsAsNumber_of_asInt64? (int64?_of_kind hl)
  | number hl => exact .text (Text.binary64?_eq_some_iff.mp (binary64?_of_kind hl))

theorem readsAsTruth_of_kind {b : Bool} (h : l.kind = .bool b) :
    (Json.text l.raw).ReadsAsTruth :=
  Json.readsAsTruth_iff.mpr (Option.isSome_of_eq_some (bool?_of_kind h))

/-! ### Values of other types -/

namespace FallsBack

/-- **The comparison is that of the texts**: of the value and of the cell as it stands. -/
theorem compareValue_eq (h : l.FallsBack v) : l.compareValue v = compare v.asText l.raw := by
  cases h with
  | number hl hv =>
      have hword : v.asInt64? = none :=
        Option.eq_none_iff_forall_ne_some.mpr fun _ hw => hv (Json.readsAsNumber_of_asInt64? hw)
      have hnumber : v.asBinary64? = none :=
        Option.not_isSome_iff_eq_none.mp (mt Json.readsAsNumber_iff.mpr hv)
      cases hl with
      | word hl => simp only [compareValue, hl, hword, hnumber, compareText]
      | number hl => simp only [compareValue, hl, hnumber, compareText]
  | truth hl hv =>
      have htruth : v.asBool? = none :=
        Option.not_isSome_iff_eq_none.mp (mt Json.readsAsTruth_iff.mpr hv)
      simp only [compareValue, hl, htruth, compareText]

/-- **The texts differ**: a value with the text of the literal would read as the literal does. -/
theorem asText_ne (h : l.FallsBack v) : v.asText ≠ l.raw := by
  intro heq
  cases h with
  | number hl hv => exact hv (Json.readsAsNumber_of_asText (heq ▸ hl.readsAsNumber))
  | truth hl hv => exact hv (Json.readsAsTruth_of_asText (heq ▸ readsAsTruth_of_kind hl))

theorem compareValue_ne_eq (h : l.FallsBack v) : l.compareValue v ≠ .eq := by
  rw [h.compareValue_eq, Ne, Std.compare_eq_iff_eq]
  exact h.asText_ne

end FallsBack

end Literal

/-- **A comparison as texts never finds equality.**  A literal that reads as a number or a truth
value is compared with a value that does not coerce to it as a text, blanks and all.  The two texts
differ, so `Equals` fails and `NotEquals` holds. -/
theorem fallback_never_equal {l : Literal} {v : Json} (h : l.FallsBack v) :
    (∀ c : Condition.Comparison,
      l.test (.comparison c) v = c.accepts (compare v.asText l.raw)) ∧
    v.asText ≠ l.raw ∧
    l.test (.comparison .equals) v = false ∧
    l.test (.comparison .notEquals) v = true := by
  refine ⟨fun c => ?_, h.asText_ne, ?_, ?_⟩
  · rw [Literal.test, h.compareValue_eq]
  · rw [Literal.test, Condition.Comparison.accepts]
    exact beq_false_of_ne h.compareValue_ne_eq
  · rw [Literal.test, Condition.Comparison.accepts]
    exact bne_iff_ne.mpr h.compareValue_ne_eq

/-- A literal is not equal to a list of the word that it reads as, nor to a text that spells a
number beyond all finite ones, nor, if it spells a truth value, to a number. -/
theorem fallback_never_equal_beyond_numbers :
    let five : Json := .number (.integer (.ofInt64 5))
    ((⟨"\t+5 "⟩ : Literal).FallsBack (.array [five]) ∧
      (⟨"\t+5 "⟩ : Literal).test (.comparison .equals) (.array [five]) = false) ∧
    ((⟨" 1E3 "⟩ : Literal).FallsBack (.text "1E400") ∧
      (⟨" 1E3 "⟩ : Literal).test (.comparison .equals) (.text "1E400") = false) ∧
    ((⟨"TRUE"⟩ : Literal).FallsBack five ∧
      (⟨"TRUE"⟩ : Literal).test (.comparison .notEquals) five = true) := by
  intro five
  have hword : (⟨"\t+5 "⟩ : Literal).FallsBack (.array [five]) :=
    .number (.word (w := 5) (by decide +kernel)) (by decide)
  have hnumber : (⟨" 1E3 "⟩ : Literal).FallsBack (.text "1E400") :=
    .number (.number (x := ⟨false, ⟨1000 <<< 43, 1031, by decide, by decide⟩, by decide⟩)
      (by decide +kernel)) (by decide +kernel)
  have htruth : (⟨"TRUE"⟩ : Literal).FallsBack five :=
    .truth (b := true) (by decide +kernel) (by decide)
  exact ⟨⟨hword, (fallback_never_equal hword).2.2.1⟩,
    ⟨hnumber, (fallback_never_equal hnumber).2.2.1⟩,
    ⟨htruth, (fallback_never_equal htruth).2.2.2⟩⟩

end DecisionTable
