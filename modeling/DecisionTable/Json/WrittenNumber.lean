import DecisionTable.Json.Basic
import DecisionTable.Number.Numeral
import DecisionTable.Number.Scaling

/-!
# Json — Numbers as written

A number of a JSON text, checked against the grammar and kept digit by digit, and the value that it
is read as.  An integer that fits a 64-bit word is read exactly.  Every other number is read
quickly: its digits are taken up into one word as far as they fit (`WrittenNumber.significand`), and
the word is scaled by a power of ten (`Binary64.scaled?`), which rounds more than once.
-/

namespace DecisionTable.Json

open DecisionTable.Number (Binary64 splitExponent?)

/-- A number as written: the digits before and after the point, and the exponent. -/
structure WrittenNumber where
  negative : Bool
  whole : List Char
  fraction : List Char
  exponent : Int
  /-- there is neither a point nor an exponent -/
  integral : Bool

/-! ### The grammar -/

/-- The coefficient of a JSON number: no needless leading zero, and digits on both sides of a
point. -/
def isCoefficient (cs : List Char) : Bool :=
  let whole := cs.takeWhile (· != '.')
  let rest := cs.dropWhile (· != '.')
  !whole.isEmpty && (whole.head? != some '0' || whole.length == 1) && rest.length != 1

/-- Reads a JSON number after its sign. -/
def unsignedNumber? (negative : Bool) (cs : List Char) : Option WrittenNumber := do
  let (body, exponent) ← splitExponent? cs
  let whole := body.takeWhile (· != '.')
  let fraction := (body.dropWhile (· != '.')).drop 1
  if isCoefficient body && (whole ++ fraction).all Char.isDigit then
    some
      { negative, whole, fraction, exponent
        integral := cs.all fun c => c != '.' && c != 'e' && c != 'E' }
  else
    none

/-- Reads a JSON number; only a minus sign may stand in front. -/
def number? : List Char → Option WrittenNumber
  | '-' :: cs => unsignedNumber? true cs
  | cs => unsignedNumber? false cs

/-! ### The value -/

/-- Takes up digits into a word as far as they fit.  The digits from the first one on that does not
fit are left over. -/
def takeDigits (n : UInt64) : List Char → UInt64 × List Char
  | [] => (n, [])
  | c :: cs =>
    if h : 10 * n.toNat + (c.toNat - '0'.toNat) < UInt64.size then takeDigits (.ofNatLT _ h) cs
    else (n, c :: cs)

namespace WrittenNumber

/-- The digits that are taken up, as a word, and the power of ten that belongs to it.  A digit left
over before the point counts tenfold and one taken up behind it a tenth; digits behind the point are
taken up even if some before it are left over, and one left over there does not count. -/
def significand (x : WrittenNumber) : UInt64 × Int :=
  let (n, left) := takeDigits 0 x.whole
  let (n, dropped) := takeDigits n x.fraction
  (n, x.exponent + left.length - (x.fraction.length - dropped.length))

/-- The integer of digits alone, before it is checked against a range. -/
def integer (x : WrittenNumber) : Int :=
  if x.negative then -(Nat.ofDigitChars 10 x.whole 0 : Int) else Nat.ofDigitChars 10 x.whole 0

/-- The number that is read.  One without point and exponent is an integer if it fits a 64-bit
word, and minus zero, which no integer is, is a binary64 number. -/
def value? (x : WrittenNumber) : Option Number :=
  if h : x.integral = true ∧ ¬(x.negative = true ∧ x.integer = 0)
      ∧ -0x8000000000000000 ≤ x.integer ∧ x.integer < 0x10000000000000000 then
    some (.integer ⟨x.integer, h.2.2.1, h.2.2.2⟩)
  else
    (Binary64.scaled? x.negative x.significand.1 x.significand.2).map .real

end WrittenNumber

end DecisionTable.Json
