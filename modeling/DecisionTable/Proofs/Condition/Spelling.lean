import DecisionTable.Proofs.Condition.Comparison
import DecisionTable.Proofs.Number.Denotation

/-!
# Condition — Numbers and their spellings

A fact may hold an integer as a number or as a text that spells it, and a `Set` turns the one into
the other.  A literal that reads as a number does not tell them apart.

* `Literal.compareValue_eq_of_spells`: values that spell one integer are in the same order with a
  numeric literal.  Between words the order is exact for both; beyond them, and for a literal that
  is no word, both are rounded, and to the same number up to the sign of zero.
* `numbers_read_as_spelled`: so the comparisons say of an integer what they say of a text that
  denotes it.
-/

namespace DecisionTable

open Condition (Comparison)
open Number (Binary64 Denotes)

namespace Literal

/-- The literal reads as a word or as another number. -/
inductive IsNumeric (l : Literal) : Prop where
  | word {w : Int64} (h : l.kind = .int w)
  | number {x : Binary64} (h : l.kind = .float x)

variable {l : Literal} {v : Json} {n : Int}

/-- A number and an integer are in the order of the number and the one nearest to the integer. -/
theorem compareValue_float_of_spells {y : Binary64} (hl : l.kind = .float y) (hv : v.Spells n) :
    l.compareValue v = compare (Binary64.ofInt n hv.natAbs_lt) y := by
  obtain ⟨x, hx, hunits⟩ := hv.exists_asBinary64?
  simp only [compareValue, hl, hx]
  rw [Binary64.compare_eq_compare_signedUnits, hunits, ← Binary64.compare_eq_compare_signedUnits]

/-- **Values that spell one integer** are in the same order with a numeric literal. -/
theorem compareValue_eq_of_spells (hl : l.IsNumeric) {v₁ v₂ : Json} (h₁ : v₁.Spells n)
    (h₂ : v₂.Spells n) : l.compareValue v₁ = l.compareValue v₂ := by
  cases hl with
  | word hl => rw [compareValue_of_spells hl h₁, compareValue_of_spells hl h₂]
  | number hl => rw [compareValue_float_of_spells hl h₁, compareValue_float_of_spells hl h₂]

end Literal

/-- A text that denotes an integer, without the blanks at its ends, spells it. -/
theorem Json.spells_of_denotes {s : String} {n : Json.Integer}
    (h : Denotes (Text.trim s).toList n.val) : (text s).Spells n.val :=
  .text (Number.signedValue?_eq_some_iff.mpr h) n.ge n.lt

/-- **Numbers read as they are spelled.**  A literal that reads as a number is compared with an
integer of a signed or an unsigned word as with any text that denotes the integer, be there blanks
at the ends of the text, a plus sign or zeros in front. -/
theorem numbers_read_as_spelled {l : Literal} (hl : l.IsNumeric) {n : Json.Integer} {s : String}
    (hs : Denotes (Text.trim s).toList n.val) (c : Comparison) :
    l.test (.comparison c) (.text s) = l.test (.comparison c) (.number (.integer n)) := by
  rw [Literal.test, Literal.test,
    Literal.compareValue_eq_of_spells hl (Json.spells_of_denotes hs) (.integer n)]

/-- The number after `2^53`, spelled with a sign, zeros and blanks, is rounded to `2^53` as it is
when it stands as a number: both equal a literal that is rounded to `2^53` as well. -/
theorem numbers_read_as_spelled_after_rounding :
    (⟨"9007199254740992.5"⟩ : Literal).IsNumeric ∧
    Denotes (Text.trim "\t+009007199254740993 ").toList 9007199254740993 ∧
    (⟨"9007199254740992.5"⟩ : Literal).test (.comparison .equals) (.text "\t+009007199254740993 ")
      = true ∧
    (⟨"9007199254740992.5"⟩ : Literal).test (.comparison .equals)
      (.number (.integer ⟨9007199254740993, by decide, by decide⟩)) = true := by
  have hkind : (⟨"9007199254740992.5"⟩ : Literal).kind
      = .float ⟨false, ⟨1 <<< 52, 1075, by decide, by decide⟩, by decide⟩ := by decide +kernel
  have hs : Denotes (Text.trim "\t+009007199254740993 ").toList 9007199254740993 :=
    Number.signedValue?_eq_some_iff.mp (by decide +kernel)
  have htext : (⟨"9007199254740992.5"⟩ : Literal).test (.comparison .equals)
      (.text "\t+009007199254740993 ") = true := by decide +kernel
  have hsame := numbers_read_as_spelled (.number hkind)
    (n := ⟨9007199254740993, by decide, by decide⟩) hs .equals
  exact ⟨.number hkind, hs, htext, hsame.symm.trans htext⟩

end DecisionTable
