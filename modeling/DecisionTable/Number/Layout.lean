import DecisionTable.Number.Digits
import DecisionTable.Number.Shortest

/-!
# Number — Layout

The decimal text of a binary64 number: its shortest digits, written positionally with at least one
digit after the point while the leading digit stands between the fifth place after the point and
the sixteenth before it, and in scientific form with a signed exponent beyond.
-/

namespace DecisionTable.Number

/-- Digits around a point; a side without digits shows a zero. -/
def positional (ds : List Char) (power : Int) : List Char :=
  let point := (ds.length : Int) + power
  if 0 ≤ power then
    ds ++ List.replicate power.toNat '0' ++ ['.', '0']
  else if 0 < point then
    ds.take point.toNat ++ '.' :: ds.drop point.toNat
  else
    '0' :: '.' :: (List.replicate (-point).toNat '0' ++ ds)

/-- One digit, the others after a point, and the exponent with its sign. -/
def scientific (ds : List Char) (exponent : Int) : List Char :=
  let mark := if exponent < 0 then '-' else '+'
  let tail := 'e' :: mark :: digits exponent.natAbs
  match ds with
  | d :: r@(_ :: _) => d :: '.' :: (r ++ tail)
  | ds => ds ++ tail

/-- The text of a decimal: positional for exponents from -5 to 15. -/
def Decimal.layout (d : Decimal) : List Char :=
  let ds := digits d.coefficient
  let exponent := (ds.length : Int) - 1 + d.power
  if -5 ≤ exponent ∧ exponent ≤ 15 then positional ds d.power else scientific ds exponent

/-- The text of a binary64 number. -/
def Binary64.text (x : Binary64) : List Char :=
  if x.negative then '-' :: x.magnitude.shortest.layout else x.magnitude.shortest.layout

end DecisionTable.Number
