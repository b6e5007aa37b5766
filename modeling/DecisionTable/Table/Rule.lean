import DecisionTable.Entries
import DecisionTable.Text.Blank

/-!
# Table — Rule

A row of a decision table: its index and its cells, those of the condition columns and those of
the action columns, each list in the order of the columns.  A row whose index holds the mark `#`
defines columns and is no rule.
-/

namespace DecisionTable

/-- The text under a column. -/
structure Cell where
  column : String
  text : String
  deriving DecidableEq

/-- A row of a table. -/
structure Rule where
  index : String
  conditions : List Cell
  actions : List Cell
  deriving DecidableEq

/-- Nothing but blanks. -/
def Cell.isBlank (c : Cell) : Bool :=
  Text.isBlank c.text

namespace Rule

/-- The mark of rows that define columns. -/
def definitionMark : Char := '#'

/-- Whether the row defines columns. -/
def isDefinition (r : Rule) : Bool :=
  r.index.toList.contains definitionMark

/-- Whether some action cell is not blank. -/
def hasAction (r : Rule) : Bool :=
  r.actions.any fun c => !c.isBlank

/-- All cells, conditions first. -/
def cells (r : Rule) : List Cell :=
  r.conditions ++ r.actions

/-- The text of the first cell under a column. -/
def cell? (r : Rule) (column : String) : Option String :=
  (r.cells.find? fun c => c.column == column).map Cell.text

end Rule

end DecisionTable
