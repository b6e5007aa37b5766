/-!
# Number — Digits

Whole numbers in decimal text.  `digits` writes a natural number; `digitsValue?` and
`signedValue?` read one back; `int64?` keeps an integer that fits a signed 64-bit word, and
`int64OfText?` is the reading of such a word from a text.
-/

namespace DecisionTable.Number

/-- The decimal digits of a number, most significant first, without leading zeros. -/
def digits (n : Nat) : List Char :=
  Nat.toDigits 10 n

/-- The decimal text of a natural number. -/
def decimal (n : Nat) : String :=
  String.ofList (digits n)

/-- The decimal digits of an integer, after a minus sign below zero. -/
def signedDigits (n : Int) : List Char :=
  if n < 0 then '-' :: digits n.natAbs else digits n.natAbs

/-- The power of ten. -/
def tenPow (n : Nat) : Nat :=
  Nat.pow 10 n

/-- Reads a text of at least one ASCII digit; leading zeros are allowed. -/
def digitsValue? (cs : List Char) : Option Nat :=
  if cs ≠ [] ∧ cs.all Char.isDigit then some (Nat.ofDigitChars 10 cs 0) else none

/-- Reads digits after at most one sign. -/
def signedValue? : List Char → Option Int
  | '-' :: cs => (digitsValue? cs).map fun n => -(n : Int)
  | '+' :: cs => (digitsValue? cs).map fun n => (n : Int)
  | cs => (digitsValue? cs).map fun n => (n : Int)

/-- An integer as a signed 64-bit word, if it is in range. -/
def int64? (n : Int) : Option Int64 :=
  if -0x8000000000000000 ≤ n ∧ n < 0x8000000000000000 then some (Int64.ofInt n) else none

/-- Reads a signed 64-bit word: one optional sign, then digits, in range. -/
def int64OfText? (s : String) : Option Int64 :=
  (signedValue? s.toList).bind int64?

theorem digitsValue?_digits (n : Nat) : digitsValue? (digits n) = some n := by
  have hd : ∀ c ∈ Nat.toDigits 10 n, c.isDigit = true :=
    fun _ h => Nat.isDigit_of_mem_toDigits (by decide) (by decide) h
  rw [digitsValue?, digits, if_pos ⟨Nat.toDigits_ne_nil, List.all_eq_true.2 hd⟩,
    Nat.ofDigitChars_ten_toDigits]

/-- Two numbers with one decimal text are equal. -/
theorem digits_inj {m n : Nat} (h : digits m = digits n) : m = n := by
  simpa [digitsValue?_digits] using congrArg digitsValue? h

theorem decimal_inj {m n : Nat} (h : decimal m = decimal n) : m = n :=
  digits_inj (String.ofList_injective h)

/-- A word stands for an integer exactly when it has that value. -/
theorem int64?_eq_some_iff {n : Int} {w : Int64} : int64? n = some w ↔ w.toInt = n := by
  unfold int64?
  constructor
  · intro h
    split at h
    · next hr => cases h; exact Int64.toInt_ofInt_of_le hr.1 hr.2
    · cases h
  · rintro rfl
    rw [if_pos ⟨w.le_toInt, w.toInt_lt⟩, Int64.ofInt_toInt]

theorem int64?_eq_none_iff {n : Int} :
    int64? n = none ↔ n < -0x8000000000000000 ∨ 0x8000000000000000 ≤ n := by
  unfold int64?
  split <;> simp <;> omega

end DecisionTable.Number
