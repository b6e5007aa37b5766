import DecisionTable.Coercion
import DecisionTable.Proofs.Number.Datum
import DecisionTable.Proofs.Number.Layout
import DecisionTable.Proofs.Number.Spelling
import Mathlib.Data.List.DropRight

/-!
# Coercion — Values and their texts

Which values read as a number and which as a truth value, and what their texts have to do with it.

* `Text.not_number_of_bool?`: a text that reads as a truth value reads as no number.
* `Json.ReadsAsNumber`, `Json.ReadsAsTruth`: the values that coerce, said by cases; these are the
  ones for which the readers give something (`Json.readsAsNumber_iff`, `Json.readsAsTruth_iff`).
* `Json.readsAsNumber_of_asText`, `Json.readsAsTruth_of_asText`: a value reads as a type if its text
  does.  The text of null is empty, that of an array or an object starts with a bracket, and that of
  a number with a digit or a minus sign (`Json.Number.startsAsNumber_chars`).
-/

namespace DecisionTable

open Number (Binary64 Datum)

namespace Text

variable {s : String} {c : Char} {cs : List Char}

/-! ### First characters -/

theorem isBlankChar_eq_false_of_isDigit (h : c.isDigit = true) : isBlankChar c = false := by
  rw [Char.isDigit, Bool.and_eq_true, decide_eq_true_eq, decide_eq_true_eq] at h
  have hlow : 48 ≤ c.toNat := UInt32.le_iff_toNat_le.mp h.1
  have hhigh : c.toNat ≤ 57 := UInt32.le_iff_toNat_le.mp h.2
  simp only [isBlankChar, Bool.or_eq_false_iff, Bool.and_eq_false_iff, decide_eq_false_iff_not,
    beq_eq_false_iff_ne]
  omega

/-- A character in front that is no blank stays there. -/
theorem exists_trim_eq_cons (hs : s.toList = c :: cs) (hc : isBlankChar c = false) :
    ∃ ds, (trim s).toList = c :: ds := by
  have hdrop : (c :: cs).dropWhile isBlankChar = c :: cs :=
    List.dropWhile_cons_of_neg (Bool.eq_false_iff.mp hc)
  -- only the end is trimmed, so a prefix is left, and the character keeps it from being empty
  have hne : trimEnd (c :: cs) ≠ [] := by
    rw [Ne, trimEnd_eq_nil_iff, List.all_cons, hc, Bool.false_and]
    exact Bool.false_ne_true
  have hpre : trimEnd (c :: cs) <+: c :: cs := List.rdropWhile_prefix isBlankChar _
  rw [toList_trim, hs, trimChars, hdrop]
  cases hds : trimEnd (c :: cs) with
  | nil => exact absurd hds hne
  | cons d ds =>
      rw [hds] at hpre
      exact ⟨ds, by rw [(List.cons_prefix_cons.mp hpre).1]⟩

/-- A text that matches a word starts with the first letter of the word, in some case. -/
theorem exists_cons_of_sameIgnoringCase {word : String} {l : Char} {ls : List Char}
    (hword : word.toList.map Char.toLower = l :: ls) (h : sameIgnoringCase s word = true) :
    ∃ c cs, s.toList = c :: cs ∧ c.toLower = l := by
  rw [sameIgnoringCase, beq_iff_eq, hword] at h
  cases hs : s.toList with
  | nil => simp [hs] at h
  | cons c cs =>
      rw [hs, List.map_cons] at h
      exact ⟨c, cs, rfl, (List.cons.inj h).1⟩

/-- A letter of either case that is no exponent mark. -/
theorem isForeign_of_toLower {c l : Char} (hc : c.toLower = l) (hdigit : l.isDigit = false)
    (hmark : l ∉ ['-', '+', '.', 'e']) : Number.IsForeign c where
  notDigit := by
    cases hd : c.isDigit with
    | false => rfl
    | true =>
        rw [Number.toLower_of_isDigit hd] at hc
        rw [← hc, hd] at hdigit
        cases hdigit
  notMark := by
    intro hm
    refine hmark (hc ▸ ?_)
    revert hm
    simp only [List.mem_cons, List.not_mem_nil, or_false]
    rintro (rfl | rfl | rfl | rfl | rfl) <;> decide

/-! ### Numbers and truth values -/

theorem exists_head_of_bool? {b : Bool} (h : bool? s = some b) :
    ∃ c cs, (trim s).toList = c :: cs ∧ (c.toLower = 't' ∨ c.toLower = 'f') := by
  rw [bool?] at h
  split at h
  · next htrue =>
    obtain ⟨c, cs, hs, hc⟩ := exists_cons_of_sameIgnoringCase (l := 't') rfl htrue
    exact ⟨c, cs, hs, .inl hc⟩
  · split at h
    · next hfalse =>
      obtain ⟨c, cs, hs, hc⟩ := exists_cons_of_sameIgnoringCase (l := 'f') rfl hfalse
      exact ⟨c, cs, hs, .inr hc⟩
    · cases h

/-- **A text that reads as a truth value** reads neither as a word nor as a number. -/
theorem not_number_of_bool? {b : Bool} (h : bool? s = some b) :
    int64? s = none ∧ binary64? s = none := by
  obtain ⟨c, cs, hs, hhead⟩ := exists_head_of_bool? h
  have hc : Number.IsForeign c := by
    rcases hhead with ht | hf
    · exact isForeign_of_toLower ht (by decide) (by decide)
    · exact isForeign_of_toLower hf (by decide) (by decide)
  rw [int64?, Number.int64OfText?, binary64?, Number.binary64OfText?, hs,
    Number.signedValue?_of_foreign hc, Number.numeral?_of_foreign hc]
  exact ⟨rfl, rfl⟩

theorem binary64?_of_foreign (hs : s.toList = c :: cs) (hblank : isBlankChar c = false)
    (hc : Number.IsForeign c) : binary64? s = none := by
  obtain ⟨ds, hds⟩ := exists_trim_eq_cons hs hblank
  rw [binary64?, Number.binary64OfText?, hds, Number.numeral?_of_foreign hc, Option.bind_none]

/-- A text reads as no truth value if neither of the two words starts as it does. -/
theorem bool?_of_head (hs : s.toList = c :: cs) (hblank : isBlankChar c = false)
    (ht : c.toLower ≠ 't') (hf : c.toLower ≠ 'f') : bool? s = none := by
  obtain ⟨ds, hds⟩ := exists_trim_eq_cons hs hblank
  cases h : bool? s with
  | none => rfl
  | some b =>
      obtain ⟨d, es, hes, hd⟩ := exists_head_of_bool? h
      obtain ⟨rfl, -⟩ := List.cons.inj (hds.symm.trans hes)
      exact (hd.elim ht hf).elim

theorem bool?_of_startsAsNumber (h : Number.StartsAsNumber s.toList) : bool? s = none := by
  generalize hs : s.toList = ds at h
  cases h with
  | minus h => exact bool?_of_head hs rfl (by decide) (by decide)
  | unsigned h =>
      cases h with
      | @cons d hc =>
          have hne {l : Char} (hl : l.isDigit = false) : d.toLower ≠ l := by
            rw [Number.toLower_of_isDigit hc]
            exact Number.ne_of_isDigit hc hl
          exact bool?_of_head hs (isBlankChar_eq_false_of_isDigit hc) (hne rfl) (hne rfl)

theorem binary64?_eq_some_iff {x : Binary64} :
    binary64? s = some x ↔ Datum.ofText? (trim s) = some (.finite x) := by
  have hread : (Datum.ofText? (trim s)).filter Datum.isFinite = (binary64? s).map .finite :=
    Datum.filter_ofText? (trim s)
  constructor
  · intro h
    rw [h, Option.map_some, Option.filter_eq_some_iff] at hread
    exact hread.1
  · intro h
    rw [h] at hread
    obtain ⟨y, hy, hxy⟩ := Option.map_eq_some_iff.mp hread.symm
    rw [hy, Datum.finite.inj hxy]

theorem isSome_bool?_iff :
    (bool? s).isSome = true ↔ ∃ word ∈ ["true", "false"], sameIgnoringCase (trim s) word = true := by
  simp only [List.mem_cons, List.not_mem_nil, or_false, exists_eq_or_imp, exists_eq_left]
  rw [bool?]
  split
  · next htrue => simp [htrue]
  · next htrue =>
    split
    · next hfalse => simp [hfalse]
    · next hfalse => simp [htrue, hfalse]

/-- A text that spells a word spells a number. -/
theorem exists_binary64?_of_int64? {w : Int64} (h : int64? s = some w) :
    ∃ x, binary64? s = some x := by
  rw [int64?, Number.int64OfText?] at h
  obtain ⟨n, hn, hw⟩ := Option.bind_eq_some_iff.mp h
  obtain rfl := Number.int64?_eq_some_iff.mp hw
  obtain ⟨x, hx, -⟩ := Number.exists_binary64OfText? hn (Json.Integer.ofInt64 w).natAbs_lt
  exact ⟨x, hx⟩

end Text

namespace Json

variable {v : Json}

/-! ### Values that coerce -/

/-- A number, or a text that without the blanks at its ends is a finite one. -/
inductive ReadsAsNumber : Json → Prop where
  | number (n : Number) : ReadsAsNumber (.number n)
  | text {s : String} {x : Binary64} (h : Datum.ofText? (Text.trim s) = some (.finite x)) :
      ReadsAsNumber (.text s)

/-- A truth value, or a text that without the blanks at its ends is the word for one, in any ASCII
case. -/
inductive ReadsAsTruth : Json → Prop where
  | bool (b : Bool) : ReadsAsTruth (.bool b)
  | text {s word : String} (hword : word ∈ ["true", "false"])
      (h : Text.sameIgnoringCase (Text.trim s) word = true) : ReadsAsTruth (.text s)

theorem readsAsNumber_iff : v.ReadsAsNumber ↔ v.asBinary64?.isSome = true := by
  constructor
  · intro h
    cases h with
    | number n => rfl
    | text h => rw [asBinary64?, Text.binary64?_eq_some_iff.mpr h, Option.isSome_some]
  · intro h
    cases v with
    | number n => exact .number n
    | text s =>
        obtain ⟨x, hx⟩ := Option.isSome_iff_exists.mp h
        exact .text (Text.binary64?_eq_some_iff.mp hx)
    | _ => cases h

theorem readsAsTruth_iff : v.ReadsAsTruth ↔ v.asBool?.isSome = true := by
  constructor
  · intro h
    cases h with
    | bool b => rfl
    | text hword h => exact Text.isSome_bool?_iff.mpr ⟨_, hword, h⟩
  · intro h
    cases v with
    | bool b => exact .bool b
    | text s =>
        obtain ⟨word, hword, hs⟩ := Text.isSome_bool?_iff.mp h
        exact .text hword hs
    | _ => cases h

instance (v : Json) : Decidable v.ReadsAsNumber :=
  decidable_of_iff _ readsAsNumber_iff.symm

instance (v : Json) : Decidable v.ReadsAsTruth :=
  decidable_of_iff _ readsAsTruth_iff.symm

theorem readsAsNumber_of_asInt64? {w : Int64} (h : v.asInt64? = some w) : v.ReadsAsNumber := by
  cases v with
  | number n => exact .number n
  | text s =>
      obtain ⟨x, hx⟩ := Text.exists_binary64?_of_int64? h
      exact .text (Text.binary64?_eq_some_iff.mp hx)
  | _ => cases h

theorem not_readsAsNumber_text {s : String} (h : Text.binary64? s = none) :
    ¬ (text s).ReadsAsNumber := by
  rw [readsAsNumber_iff, asBinary64?, h]
  exact Bool.false_ne_true

theorem not_readsAsTruth_text {s : String} (h : Text.bool? s = none) :
    ¬ (text s).ReadsAsTruth := by
  rw [readsAsTruth_iff, asBool?, h]
  exact Bool.false_ne_true

/-! ### The texts of values -/

theorem bool?_asText_bool (b : Bool) : Text.bool? (bool b).asText = some b := by
  cases b <;> rfl

theorem toList_asText_number (n : Number) : (number n).asText.toList = n.chars := by
  simp [asText, render, chars]

theorem toList_asText_array (items : List Json) :
    (array items).asText.toList = '[' :: (itemChars items ++ [']']) := by
  simp [asText, render, chars]

theorem toList_asText_object (fields : List (String × Json)) :
    (object fields).asText.toList = '\x7b' :: (fieldChars fields ++ ['\x7d']) := by
  simp [asText, render, chars]

/-- **A value whose text reads as a number** is one, or that text. -/
theorem readsAsNumber_of_asText (h : (text v.asText).ReadsAsNumber) : v.ReadsAsNumber := by
  cases v with
  | number n => exact .number n
  | text s => exact h
  -- all other texts are empty, or start as no numeral does
  | null => exact absurd h (by decide +kernel)
  | bool b =>
      have hread := Text.not_number_of_bool? (bool?_asText_bool b)
      exact absurd h (not_readsAsNumber_text hread.2)
  | array items =>
      have hread := Text.binary64?_of_foreign (toList_asText_array items) rfl ⟨rfl, by decide⟩
      exact absurd h (not_readsAsNumber_text hread)
  | object fields =>
      have hread := Text.binary64?_of_foreign (toList_asText_object fields) rfl ⟨rfl, by decide⟩
      exact absurd h (not_readsAsNumber_text hread)

/-- **A value whose text reads as a truth value** is one, or that text. -/
theorem readsAsTruth_of_asText (h : (text v.asText).ReadsAsTruth) : v.ReadsAsTruth := by
  cases v with
  | bool b => exact .bool b
  | text s => exact h
  -- all other texts are empty, or start with no letter of the two words
  | null => exact absurd h (by decide +kernel)
  | number n =>
      have hstart : Number.StartsAsNumber (number n).asText.toList :=
        toList_asText_number n ▸ n.startsAsNumber_chars
      exact absurd h (not_readsAsTruth_text (Text.bool?_of_startsAsNumber hstart))
  | array items =>
      have hread := Text.bool?_of_head (toList_asText_array items) rfl (by decide) (by decide)
      exact absurd h (not_readsAsTruth_text hread)
  | object fields =>
      have hread := Text.bool?_of_head (toList_asText_object fields) rfl (by decide) (by decide)
      exact absurd h (not_readsAsTruth_text hread)

end Json

end DecisionTable
