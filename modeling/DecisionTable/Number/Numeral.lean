import DecisionTable.Number.Binary64
import DecisionTable.Number.Digits

/-!
# Number — Numeral

Decimal numerals: an optional minus sign, a coefficient and a power of ten.  `Numeral.toBinary64?`
rounds one to the nearest finite binary64 number, and `binary64OfText?` reads a whole text as
such a number: digits with an optional point (at least one digit on one side of it), then an
optional exponent.
-/

namespace DecisionTable.Number

/-- The number `± coefficient · 10^power`. -/
structure Numeral where
  negative : Bool
  coefficient : Nat
  power : Int
  deriving DecidableEq

namespace Numeral

/-- The power of ten just above the number, for a coefficient that is not zero. -/
def order (x : Numeral) : Int :=
  (digits x.coefficient).length + x.power

/-- The nearest finite number, if there is one.  From `10^400` on every numeral is too large, and
below `10^-400` all are nearer to zero than to the least positive number, so the powers of ten
that are computed stay small. -/
def toBinary64? (x : Numeral) : Option Binary64 :=
  if x.coefficient = 0 ∨ x.order < -400 then
    some (.zero x.negative)
  else if 400 < x.order then
    none
  else if 0 ≤ x.power then
    Binary64.ofRatio? x.negative (x.coefficient * tenPow x.power.toNat) 1
  else
    Binary64.ofRatio? x.negative x.coefficient (tenPow x.power.natAbs)

end Numeral

/-- Reads the digits of a coefficient: a point may stand anywhere among them, and one digit at
least is needed.  The result is the coefficient and the number of digits after the point. -/
def coefficient? (cs : List Char) : Option (Nat × Nat) :=
  let fraction := (cs.dropWhile (· != '.')).drop 1
  let whole := cs.takeWhile (· != '.')
  (digitsValue? (whole ++ fraction)).map fun n => (n, fraction.length)

/-- Splits at the exponent mark, of either case; without one the exponent is zero. -/
def splitExponent? (cs : List Char) : Option (List Char × Int) :=
  match cs.dropWhile fun c => c != 'e' && c != 'E' with
  | [] => some (cs, 0)
  | _ :: rest => (signedValue? rest).map fun e => (cs.takeWhile fun c => c != 'e' && c != 'E', e)

/-- Reads a numeral without its sign. -/
def unsignedNumeral? (negative : Bool) (cs : List Char) : Option Numeral := do
  let (body, e) ← splitExponent? cs
  let (n, places) ← coefficient? body
  some ⟨negative, n, e - places⟩

/-- Reads a numeral after at most one sign. -/
def numeral? : List Char → Option Numeral
  | '-' :: cs => unsignedNumeral? true cs
  | '+' :: cs => unsignedNumeral? false cs
  | cs => unsignedNumeral? false cs

/-- Reads a finite binary64 number; a numeral that is too large is refused. -/
def binary64OfText? (s : String) : Option Binary64 :=
  (numeral? s.toList).bind Numeral.toBinary64?

end DecisionTable.Number
