import DecisionTable.Condition.Combinator
import DecisionTable.Condition.Literal

/-!
# Condition — Basic

A condition is the operator of its column, if that is known, and the literal of its cell.  On the
value that the fact holds in the column's field it has one of four outcomes.
-/

namespace DecisionTable

/-- The operator of a column with the literal of one cell. -/
structure Condition where
  operator : Option Condition.Operator
  literal : Literal
  deriving DecidableEq

namespace Condition

/-- The condition of a cell, under the phrase of its column. -/
def ofCell (phrase : Option String) (text : String) : Condition :=
  ⟨phrase.bind Operator.ofPhrase?, ⟨text⟩⟩

/-- The outcome on the value of a field, if there is one.  A blank cell asks nothing, and without
a known operator a cell that is not blank fails. -/
def outcome (c : Condition) : Option Json → Outcome
  | none => .missing
  | some v =>
    if c.literal.isBlank then .wildcard
    else if c.operator.any fun op => c.literal.test op v then .passed
    else .failed

end Condition

end DecisionTable
