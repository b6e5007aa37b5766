import DecisionTable.Condition.Basic
import DecisionTable.Fact.Basic
import DecisionTable.RuleSet.Basic

/-!
# RuleSet — Conditions

Whether a rule holds of a fact: every condition cell has an outcome, on the field that its column
reads, and the combinator of the rule set gives the verdict on the outcomes in the order of the
cells.
-/

namespace DecisionTable.RuleSet

/-- The condition of a cell. -/
def condition (rs : RuleSet) (cell : Cell) : Condition :=
  .ofCell (rs.columns.operator? cell.column) cell.text

/-- The outcome of a condition cell on a fact. -/
def outcome (rs : RuleSet) (fact : Fact) (cell : Cell) : Outcome :=
  (rs.condition cell).outcome ((rs.columns.fieldName? cell.column).bind fact.get?)

/-- Whether a rule holds of a fact. -/
def holds (rs : RuleSet) (rule : Rule) (fact : Fact) : Bool :=
  rs.metadata.combinator.verdict (rule.conditions.map (rs.outcome fact))

end DecisionTable.RuleSet
