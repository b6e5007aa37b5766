import DecisionTable.Action.Operator

/-!
# Action — What operators give

The values that operators store, one equivalence for each kind of operator.

* `Json.int64?_eq_some_iff`: a value is a word in one way only.
* `Action.Operator.apply_set_eq_ok_iff`: `Set` stores a truth value over a truth value, and the text
  of the cell over everything else.
* `Action.Operator.apply_eq_ok_iff`: the other operators store a word, the exact sum of a word and
  the signed word of the cell (`Action.Operator.signed`).
-/

namespace DecisionTable

/-- A value as a word is that word. -/
theorem Json.int64?_eq_some_iff {v : Json} {w : Int64} : v.int64? = some w ↔ v = .ofInt64 w := by
  constructor
  · intro h
    cases v with
    | number n =>
        cases n with
        | integer n => rw [Integer.toInt64?_eq_some_iff.mp h, ofInt64]
        | real x => cases h
    | _ => cases h
  · rintro rfl
    exact Integer.toInt64?_ofInt64 w

namespace Action.Operator

variable {op : Operator} {field text : String} {current v : Json} {a b : Int64} {n : Int}

theorem apply_set_eq_ok_iff : apply .set field current text = .ok v ↔
    (∃ a b, current = .bool a ∧ Text.bool? text = some b ∧ v = .bool b) ∨
      (∀ a, current ≠ .bool a) ∧ v = .text text := by
  cases current with
  | bool a =>
      rw [apply, setValue]
      cases Text.bool? text with
      | none => simp
      | some b => simp [eq_comm]
  | _ => simp [apply, setValue, eq_comm]

theorem operands_eq_ok_iff : operands field current text = .ok (a, b) ↔
    current = .ofInt64 a ∧ Text.int64? text = some b := by
  rw [operands, ← Json.int64?_eq_some_iff]
  cases current.int64? with
  | none => simp
  | some a => cases Text.int64? text <;> simp

theorem checked_eq_ok_iff :
    checked field n = .ok v ↔ ∃ w : Int64, w.toInt = n ∧ v = .ofInt64 w := by
  simp only [← Number.int64?_eq_some_iff]
  rw [checked]
  cases Number.int64? n <;> simp [eq_comm]

/-- The integer that an operator adds for the integer of a cell. -/
def signed : Operator → Int → Int
  | .set, _ => 0
  | .increase, n => n
  | .decrease, n => -n

theorem apply_eq_checked (h : op ≠ .set) : op.apply field current text =
    (operands field current text).bind fun words =>
      checked field (words.1.toInt + op.signed words.2.toInt) := by
  cases op with
  | set => exact absurd rfl h
  | increase => rfl
  | decrease =>
      simp only [signed, ← Int.sub_eq_add_neg]
      rfl

theorem apply_eq_ok_iff (h : op ≠ .set) : op.apply field current text = .ok v ↔
    ∃ a b w : Int64, current = .ofInt64 a ∧ Text.int64? text = some b ∧
      w.toInt = a.toInt + op.signed b.toInt ∧ v = .ofInt64 w := by
  rw [apply_eq_checked h]
  constructor
  · intro hv
    cases hwords : operands field current text with
    | error err =>
        rw [hwords] at hv
        cases hv
    | ok words =>
        rw [hwords] at hv
        obtain ⟨hcurrent, htext⟩ := operands_eq_ok_iff.mp hwords
        obtain ⟨w, hw, rfl⟩ := checked_eq_ok_iff.mp hv
        exact ⟨words.1, words.2, w, hcurrent, htext, hw, rfl⟩
  · rintro ⟨a, b, w, hcurrent, htext, hw, rfl⟩
    rw [operands_eq_ok_iff.mpr ⟨hcurrent, htext⟩]
    exact checked_eq_ok_iff.mpr ⟨w, hw, rfl⟩

/-- Nothing is added to a text, be it one that spells an integer. -/
theorem apply_text (h : op ≠ .set) (field s text : String) :
    op.apply field (.text s) text = .error (.notAnInteger field (Json.text s).render) := by
  rw [apply_eq_checked h]
  rfl

end Action.Operator

end DecisionTable
