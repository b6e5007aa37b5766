import DecisionTable.Number.Numeral
import DecisionTable.Text.Match

/-!
# Number — Floating-point data

All binary64 data, infinities and NaN included.  A text reads as a datum (`Datum.ofText?`) if it is
a numeral, one that is too large giving an infinity, or one of the words for an infinity and NaN;
data are ordered except for NaN (`Datum.compare?`).

* `Datum.filter_ofText?`: the finite ones among the data that texts read as are those of
  `binary64OfText?`.
-/

namespace DecisionTable.Number

/-- A binary64 datum. -/
inductive Datum where
  | finite (x : Binary64)
  | infinite (negative : Bool)
  | nan
  deriving DecidableEq

namespace Datum

def isFinite : Datum → Bool
  | .finite _ => true
  | _ => false

/-- The order of two data; NaN has none, not even with itself. -/
def compare? : Datum → Datum → Option Ordering
  | .nan, _ => none
  | _, .nan => none
  | .finite x, .finite y => some (compare x y)
  | .infinite negative, .finite _ => some (if negative then .lt else .gt)
  | .finite _, .infinite negative => some (if negative then .gt else .lt)
  | .infinite a, .infinite b => some (compare b a)

/-- The datum nearest to a numeral. -/
def ofNumeral (x : Numeral) : Datum :=
  match x.toBinary64? with
  | some y => .finite y
  | none => .infinite x.negative

/-- Reads a word for an infinity or NaN, in any ASCII case. -/
def ofWord? (negative : Bool) (word : String) : Option Datum :=
  if Text.sameIgnoringCase word "inf" || Text.sameIgnoringCase word "infinity" then
    some (.infinite negative)
  else if Text.sameIgnoringCase word "nan" then some .nan
  else none

/-- Reads a datum without its sign: a numeral, or else a word. -/
def ofUnsigned? (negative : Bool) (cs : List Char) : Option Datum :=
  match unsignedNumeral? negative cs with
  | some x => some (ofNumeral x)
  | none => ofWord? negative (String.ofList cs)

/-- Reads a datum after at most one sign. -/
def ofChars? : List Char → Option Datum
  | '-' :: cs => ofUnsigned? true cs
  | '+' :: cs => ofUnsigned? false cs
  | cs => ofUnsigned? false cs

/-- Reads a whole text. -/
def ofText? (s : String) : Option Datum :=
  ofChars? s.toList

@[simp] theorem compare?_finite (x y : Binary64) :
    compare? (.finite x) (.finite y) = some (compare x y) := rfl

theorem filter_ofNumeral (x : Numeral) :
    (some (ofNumeral x)).filter isFinite = x.toBinary64?.map .finite := by
  rw [ofNumeral]
  cases x.toBinary64? <;> rfl

/-- No word is a finite number. -/
theorem filter_ofWord? (negative : Bool) (word : String) :
    (ofWord? negative word).filter isFinite = none := by
  rw [ofWord?]
  split
  · rfl
  · split <;> rfl

theorem filter_ofUnsigned? (negative : Bool) (cs : List Char) :
    (ofUnsigned? negative cs).filter isFinite
      = ((unsignedNumeral? negative cs).bind Numeral.toBinary64?).map .finite := by
  rw [ofUnsigned?]
  cases unsignedNumeral? negative cs with
  | some x => exact filter_ofNumeral x
  | none => exact filter_ofWord? negative _

theorem filter_ofChars? (cs : List Char) :
    (ofChars? cs).filter isFinite = ((numeral? cs).bind Numeral.toBinary64?).map .finite := by
  fun_cases numeral? cs with
  | case1 cs => exact filter_ofUnsigned? true cs
  | case2 cs => exact filter_ofUnsigned? false cs
  | case3 cs hminus hplus =>
    rw [ofChars?]
    · exact filter_ofUnsigned? false cs
    · exact hminus
    · exact hplus

/-- **Finite readings**: a text reads as a finite datum exactly when it reads as a number, and as
the same one. -/
theorem filter_ofText? (s : String) :
    (ofText? s).filter isFinite = (binary64OfText? s).map .finite :=
  filter_ofChars? s.toList

end Datum

end DecisionTable.Number
