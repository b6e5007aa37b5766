import DecisionTable.RuleSet.Basic

/-!
# RuleSet — Draft

Stating a rule set step by step: its metadata, its columns and its rules.  `Draft.build` numbers
the rules that have an action and leaves out the others.
-/

namespace DecisionTable.RuleSet

/-- A rule set that is being stated. -/
structure Draft where
  metadata : Metadata
  columns : ColumnTable
  rows : List Rule

namespace Draft

/-- Starts a rule set whose rules need all of their conditions. -/
def ofId (id : String) : Draft :=
  ⟨.ofId id .all, .empty, []⟩

/-- Names the class. -/
def className (d : Draft) (name : String) : Draft :=
  { d with metadata := { d.metadata with className := some name } }

/-- Names the version. -/
def version (d : Draft) (version : String) : Draft :=
  { d with metadata := { d.metadata with version := some version } }

/-- Sets the combinator. -/
def combinator (d : Draft) (combinator : Combinator) : Draft :=
  { d with metadata := { d.metadata with combinator } }

/-- Sets the general action. -/
def generalAction (d : Draft) (action : String) : Draft :=
  { d with metadata := { d.metadata with generalAction := some action } }

/-- Defines a column, over an earlier definition. -/
def column (d : Draft) (column fieldName operator : String) : Draft :=
  { d with columns := d.columns.define column fieldName operator }

/-- Adds a rule after the others. -/
def rule (d : Draft) (conditions actions : List Cell) : Draft :=
  { d with rows := d.rows ++ [⟨"", conditions, actions⟩] }

/-- The rule set as stated. -/
def build (d : Draft) : RuleSet :=
  .ofRows d.metadata d.columns d.rows

end Draft

end DecisionTable.RuleSet
