import DecisionTable.Json.Basic

/-!
# Number — How the texts of numbers start

* `StartsAsNumber`: texts that start with a digit, or with a minus sign before a digit.
* `startsWithDigit_layout`: a decimal is laid out with a digit in front; a point that would come
  first has a zero before it.
* `Json.Number.startsAsNumber_chars`: so the text of every number starts as one.
-/

namespace DecisionTable

namespace Number

/-- The first character is a digit. -/
inductive StartsWithDigit : List Char → Prop where
  | cons {c : Char} (hc : c.isDigit = true) (cs : List Char) : StartsWithDigit (c :: cs)

/-- The first character is a digit, or a minus sign before a digit. -/
inductive StartsAsNumber : List Char → Prop where
  | unsigned {cs : List Char} (h : StartsWithDigit cs) : StartsAsNumber cs
  | minus {cs : List Char} (h : StartsWithDigit cs) : StartsAsNumber ('-' :: cs)

theorem startsWithDigit_digits (n : Nat) : StartsWithDigit (digits n) := by
  have hdigit : ∀ c ∈ digits n, c.isDigit = true :=
    fun _ h => Nat.isDigit_of_mem_toDigits (by decide) (by decide) h
  cases hds : digits n with
  | nil => exact absurd hds Nat.toDigits_ne_nil
  | cons c cs => exact .cons (hdigit c (hds ▸ .head cs)) cs

namespace StartsWithDigit

variable {ds : List Char}

theorem append (h : StartsWithDigit ds) (cs : List Char) : StartsWithDigit (ds ++ cs) := by
  cases h with
  | cons hc ds => exact .cons hc (ds ++ cs)

theorem take_append (h : StartsWithDigit ds) {n : Nat} (hn : 0 < n) (cs : List Char) :
    StartsWithDigit (ds.take n ++ cs) := by
  obtain ⟨n, rfl⟩ := Nat.exists_eq_add_one_of_ne_zero (Nat.ne_of_gt hn)
  cases h with
  | cons hc ds => exact .cons hc (ds.take n ++ cs)

/-- A point is never in front. -/
theorem positional (h : StartsWithDigit ds) (power : Int) :
    StartsWithDigit (positional ds power) := by
  simp only [Number.positional]
  split
  · rw [List.append_assoc]
    exact h.append _
  · split
    · exact h.take_append (by omega) _
    · exact .cons rfl _

theorem scientific (h : StartsWithDigit ds) (exponent : Int) :
    StartsWithDigit (scientific ds exponent) := by
  cases h with
  | cons hc ds =>
      cases ds with
      | nil => exact .cons hc _
      | cons d ds => exact .cons hc _

end StartsWithDigit

theorem startsWithDigit_layout (d : Decimal) : StartsWithDigit d.layout := by
  have hds := startsWithDigit_digits d.coefficient
  simp only [Decimal.layout]
  split
  · exact hds.positional d.power
  · exact hds.scientific _

theorem startsAsNumber_signedDigits (n : Int) : StartsAsNumber (signedDigits n) := by
  rw [signedDigits]
  split
  · exact .minus (startsWithDigit_digits _)
  · exact .unsigned (startsWithDigit_digits _)

theorem Binary64.startsAsNumber_text (x : Binary64) : StartsAsNumber x.text := by
  rw [Binary64.text]
  split
  · exact .minus (startsWithDigit_layout _)
  · exact .unsigned (startsWithDigit_layout _)

end Number

/-- **The text of a number** starts with a digit, or with a minus sign before a digit. -/
theorem Json.Number.startsAsNumber_chars (n : Json.Number) : Number.StartsAsNumber n.chars := by
  cases n with
  | integer n => exact Number.startsAsNumber_signedDigits n.val
  | real x => exact x.startsAsNumber_text

end DecisionTable
