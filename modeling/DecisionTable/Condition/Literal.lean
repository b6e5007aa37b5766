import DecisionTable.Coercion
import DecisionTable.Condition.Operator

/-!
# Condition — Literal

The cell of a condition as the operand of its test.  A literal has the first type that its text
reads as (`Literal.kind`), and the value of a fact is compared with it in that type if it coerces,
and as a text otherwise: the raw text of the cell, blanks included, in the order of code points.
-/

namespace DecisionTable

/-- The text of a cell, taken as an operand. -/
structure Literal where
  raw : String
  deriving DecidableEq

namespace Literal

/-- The type of a literal, with its value. -/
inductive Kind where
  | int (n : Int64)
  | float (x : Number.Binary64)
  | bool (b : Bool)
  | text
  deriving DecidableEq

/-- The first of the types word, number and truth value that the text reads as. -/
def kind (l : Literal) : Kind :=
  match Text.int64? l.raw, Text.binary64? l.raw, Text.bool? l.raw with
  | some n, _, _ => .int n
  | none, some x, _ => .float x
  | none, none, some b => .bool b
  | none, none, none => .text

/-- Nothing but blanks. -/
def isBlank (l : Literal) : Bool :=
  Text.isBlank l.raw

/-- The text in quotes. -/
def display (l : Literal) : String :=
  "\"" ++ l.raw ++ "\""

/-- The order of a value and the literal as texts. -/
def compareText (l : Literal) (v : Json) : Ordering :=
  compare v.asText l.raw

/-- The order of a value and the literal: between words exactly, between numbers as binary64
numbers, between truth values with false first, and as texts if the value does not coerce. -/
def compareValue (l : Literal) (v : Json) : Ordering :=
  match l.kind with
  | .int n =>
    match v.asInt64?, v.asBinary64? with
    | some m, _ => compare m.toInt n.toInt
    | none, some x => compare x (.ofInt64 n)
    | none, none => l.compareText v
  | .float y =>
    match v.asBinary64? with
    | some x => compare x y
    | none => l.compareText v
  | .bool b =>
    match v.asBool? with
    | some a => compare a b
    | none => l.compareText v
  | .text => l.compareText v

/-- An array contains the text of one of its items, every other value a part of its text. -/
def occursIn (l : Literal) : Json → Bool
  | .array items => items.any fun v => v.asText == l.raw
  | v => Text.contains v.asText l.raw

/-- A test on the text of a value. -/
def testText (l : Literal) (v : Json) : Condition.TextTest → Bool
  | .contains => l.occursIn v
  | .notContains => !l.occursIn v
  | .startsWith => Text.startsWith v.asText l.raw
  | .endsWith => Text.endsWith v.asText l.raw

/-- Whether an operator holds of a value and the literal. -/
def test (l : Literal) (op : Condition.Operator) (v : Json) : Bool :=
  match op with
  | .comparison c => c.accepts (l.compareValue v)
  | .textTest t => l.testText v t

end Literal

end DecisionTable
