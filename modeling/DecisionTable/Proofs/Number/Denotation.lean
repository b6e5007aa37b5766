import DecisionTable.Proofs.Number.Spelling
import Mathlib.Data.List.Induction

/-!
# Number — What digits denote

The integer that a text denotes, said by the places of its digits and apart from the readers of
such texts.

* `DigitsDenote`, `Denotes`: a text of digits denotes a natural number, and a text of digits behind
  at most one sign an integer.  Zeros in front change nothing.
* `digitsValue?_eq_some_iff`, `signedValue?_eq_some_iff`: the readers give a number for the texts
  that denote it, and for no others.
-/

namespace DecisionTable.Number

/-- A text of ASCII digits denotes a number: a further digit takes the place of the units, and the
digits before it count tenfold. -/
inductive DigitsDenote : List Char → Nat → Prop where
  | digit {c : Char} (hc : c.isDigit = true) : DigitsDenote [c] (c.toNat - '0'.toNat)
  | snoc {cs : List Char} {k : Nat} {c : Char} (h : DigitsDenote cs k) (hc : c.isDigit = true) :
      DigitsDenote (cs ++ [c]) (10 * k + (c.toNat - '0'.toNat))

/-- A text of digits behind at most one sign denotes an integer. -/
inductive Denotes : List Char → Int → Prop where
  | unsigned {cs : List Char} {k : Nat} (h : DigitsDenote cs k) : Denotes cs k
  | plus {cs : List Char} {k : Nat} (h : DigitsDenote cs k) : Denotes ('+' :: cs) k
  | minus {cs : List Char} {k : Nat} (h : DigitsDenote cs k) : Denotes ('-' :: cs) (-k)

/-! ### Digits -/

theorem digitsValue?_singleton {c : Char} (hc : c.isDigit = true) :
    digitsValue? [c] = some (c.toNat - '0'.toNat) := by
  simp [digitsValue?, hc, Nat.ofDigitChars_cons]

/-- A digit behind others. -/
theorem digitsValue?_concat {cs : List Char} {c : Char} {n : Nat} (hcs : cs ≠ []) :
    digitsValue? (cs ++ [c]) = some n ↔
      ∃ k, digitsValue? cs = some k ∧ c.isDigit = true ∧ n = 10 * k + (c.toNat - '0'.toNat) := by
  have hvalue : Nat.ofDigitChars 10 (cs ++ [c]) 0
      = 10 * Nat.ofDigitChars 10 cs 0 + (c.toNat - '0'.toNat) := by
    rw [Nat.ofDigitChars_append, Nat.ofDigitChars_cons]
    rfl
  have hne : cs ++ [c] ≠ [] := List.append_ne_nil_of_left_ne_nil hcs [c]
  simp only [digitsValue?, hvalue, hne, hcs, List.all_append, List.all_cons, List.all_nil,
    Bool.and_true, Bool.and_eq_true, ne_eq, not_false_eq_true, true_and]
  constructor
  · intro h
    split at h
    · next hd => exact ⟨_, if_pos hd.1, hd.2, (Option.some.inj h).symm⟩
    · cases h
  · rintro ⟨k, hk, hc, rfl⟩
    split at hk
    · next hd =>
      cases hk
      exact if_pos ⟨hd, hc⟩
    · cases hk

/-- **The reader of digits** gives the number that a text denotes. -/
theorem digitsValue?_eq_some_iff {cs : List Char} {k : Nat} :
    digitsValue? cs = some k ↔ DigitsDenote cs k := by
  constructor
  · intro h
    induction cs using List.reverseRecOn generalizing k with
    | nil => cases h
    | append_singleton cs c ih =>
        by_cases hcs : cs = []
        · subst hcs
          have hc : c.isDigit = true := isDigit_of_digitsValue? h c (.head _)
          obtain rfl : c.toNat - '0'.toNat = k :=
            Option.some.inj ((digitsValue?_singleton hc).symm.trans h)
          exact .digit hc
        · obtain ⟨m, hm, hc, rfl⟩ := (digitsValue?_concat hcs).mp h
          exact .snoc (ih hm) hc
  · intro h
    induction h with
    | digit hc => exact digitsValue?_singleton hc
    | @snoc cs k c _ hc ih =>
        have hcs : cs ≠ [] := by
          rintro rfl
          cases ih
        exact (digitsValue?_concat hcs).mpr ⟨k, ih, hc, rfl⟩

/-! ### Signs -/

/-- Digits alone have no sign to take off. -/
theorem signedValue?_of_digitsValue? {cs : List Char} {k : Nat} (h : digitsValue? cs = some k) :
    signedValue? cs = some (k : Int) := by
  have hdigit := isDigit_of_digitsValue? h
  rw [signedValue?, h]
  · rfl
  · rintro ds rfl
    exact absurd (hdigit '-' (.head _)) (by decide)
  · rintro ds rfl
    exact absurd (hdigit '+' (.head _)) (by decide)

/-- **The reader of integers** gives the integer that a text denotes. -/
theorem signedValue?_eq_some_iff {cs : List Char} {n : Int} :
    signedValue? cs = some n ↔ Denotes cs n := by
  constructor
  · intro h
    obtain ⟨ds, k, hk, ⟨rfl, rfl⟩ | ⟨rfl | rfl, rfl⟩⟩ := signedValue?_cases h
    · exact .minus (digitsValue?_eq_some_iff.mp hk)
    · exact .plus (digitsValue?_eq_some_iff.mp hk)
    · exact .unsigned (digitsValue?_eq_some_iff.mp hk)
  · intro h
    cases h with
    | unsigned h => exact signedValue?_of_digitsValue? (digitsValue?_eq_some_iff.mpr h)
    | plus h => rw [signedValue?, digitsValue?_eq_some_iff.mpr h]; rfl
    | minus h => rw [signedValue?, digitsValue?_eq_some_iff.mpr h]; rfl

end DecisionTable.Number
