import DecisionTable.Number.Binary64
import DecisionTable.Number.Digits

/-!
# Number — Shortest

The shortest decimal that reads back as a given binary64 number.  `Magnitude.interval` is the
interval of the reals that round to a magnitude; on each decimal grid, from the coarsest that
still shows a digit, `Magnitude.onGrid?` tests the two neighbours of the value, and the first grid
with a hit wins.  Of two hits the nearer one is taken, and the even one of two equally near.
-/

namespace DecisionTable.Number

/-- The number `coefficient · 10^power`. -/
structure Decimal where
  coefficient : Nat
  power : Int
  deriving DecidableEq

/-- Drops the zeros at the end of a coefficient, at most `fuel` of them. -/
def Decimal.normalize : Nat → Decimal → Decimal
  | 0, d => d
  | fuel + 1, d =>
    if d.coefficient ≠ 0 ∧ d.coefficient % 10 = 0 then
      Decimal.normalize fuel ⟨d.coefficient / 10, d.power + 1⟩
    else
      d

/-- The least number of decimal digits that holds a number; none for zero. -/
def digitCount (n : Nat) : Nat :=
  if n = 0 then 0 else (Nat.toDigits 10 n).length

namespace Magnitude

/-- The exponent of a quarter of a unit. -/
def quarterExponent : Nat := unitExponent + 2

/-- The value, in quarters of a unit. -/
def quarters (x : Magnitude) : Nat :=
  4 * x.units

/-- The least point that rounds to the magnitude, in quarters of a unit.  Below the first number
of a new scale the spacing is half as wide. -/
def lower (x : Magnitude) : Nat :=
  if x.mantissa = 1 <<< 52 ∧ x.exponent ≠ 0 then
    x.quarters - 1 <<< x.exponent
  else
    x.quarters - 2 <<< x.exponent

/-- The greatest point that rounds to the magnitude, in quarters of a unit. -/
def upper (x : Magnitude) : Nat :=
  x.quarters + 2 <<< x.exponent

/-- The points that round to the magnitude, as multiples of `1 / den` quarters: the end points
belong to an even mantissa. -/
def interval (x : Magnitude) (num den : Nat) : Bool :=
  if x.mantissa % 2 = 0 then
    x.lower * den ≤ num && num ≤ x.upper * den
  else
    x.lower * den < num && num < x.upper * den

/-- The power of ten just above the value: `10^(order - 1) ≤ value < 10^order`. -/
def order (x : Magnitude) : Int :=
  if 1 <<< quarterExponent ≤ x.quarters then
    digitCount (x.quarters >>> quarterExponent)
  else
    1 - (digitCount (((1 <<< quarterExponent) - 1) / x.quarters) : Int)

/-- The neighbour of the value on the grid of step `10^power` that rounds to it, the nearer one if
both do. -/
def onGrid? (x : Magnitude) (power : Int) : Option Decimal :=
  let up := tenPow power.toNat
  let down := tenPow (-power).toNat
  -- one step is `step / down` quarters
  let step := up <<< quarterExponent
  let value := x.quarters * down
  let below := value / step
  let fits (c : Nat) : Bool := x.interval (c * step) down
  if fits below && fits (below + 1) then
    some ⟨roundDiv value step, power⟩
  else if fits below then
    some ⟨below, power⟩
  else if fits (below + 1) then
    some ⟨below + 1, power⟩
  else
    none

/-- The decimal of fewest digits that rounds to the magnitude, the nearest of those.  Seventeen
digits are always enough. -/
def shortest (x : Magnitude) : Decimal :=
  if x.mantissa = 0 then
    ⟨0, 0⟩
  else
    let best := (List.range 17).findSome? fun (i : Nat) => x.onGrid? (x.order - 1 - i)
    (best.getD ⟨0, 0⟩).normalize 17

end Magnitude

end DecisionTable.Number
