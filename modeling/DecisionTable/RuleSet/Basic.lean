import DecisionTable.Condition.Combinator
import DecisionTable.Number.Digits
import DecisionTable.Table.Columns

/-!
# RuleSet — Basic

A rule set: its metadata, its rules and the columns they refer to.  `RuleSet.ofRows` drops the rows
that define columns or have no action, and numbers the others from 1.
-/

namespace DecisionTable

/-- What a rule set says about itself. -/
structure Metadata where
  id : String
  className : Option String
  version : Option String
  combinator : Combinator
  generalAction : Option String
  extra : SortedMap String
  deriving DecidableEq

namespace Metadata

/-- The general action under which facts record the rules that were applied to them. -/
def setAppliedRules : String := "SetAppliedRules"

/-- Metadata of an id and a combinator alone. -/
def ofId (id : String) (combinator : Combinator) : Metadata :=
  { id, className := none, version := none, combinator, generalAction := none, extra := .empty }

/-- Whether facts record the rules that were applied to them. -/
def recordsAppliedRules (m : Metadata) : Bool :=
  m.generalAction == some setAppliedRules

/-- The class that the rule set belongs to: its own id if it names none. -/
def classKey (m : Metadata) : String :=
  m.className.getD m.id

end Metadata

/-- Rules over columns, with their metadata. -/
structure RuleSet where
  metadata : Metadata
  rules : List Rule
  columns : ColumnTable
  deriving DecidableEq

namespace RuleSet

/-- The index of the rule at a position counted from zero. -/
def indexAt (position : Nat) : String :=
  Number.decimal (position + 1)

/-- Whether a row is kept as a rule. -/
def isKept (row : Rule) : Bool :=
  !row.isDefinition && row.hasAction

/-- Numbers rows from 1. -/
def number (rows : List Rule) : List Rule :=
  rows.mapIdx fun position row => { row with index := indexAt position }

/-- The rule set of a table: the rows that are rules, numbered. -/
def ofRows (metadata : Metadata) (columns : ColumnTable) (rows : List Rule) : RuleSet :=
  { metadata, rules := number (rows.filter isKept), columns }

/-- The id of the rule set. -/
def id (rs : RuleSet) : String :=
  rs.metadata.id

/-- The first rule of an index. -/
def rule? (rs : RuleSet) (index : String) : Option Rule :=
  rs.rules.find? fun r => r.index == index

/-- A line that names the rule set and counts what it holds. -/
def display (rs : RuleSet) : String :=
  "RuleSet(" ++ rs.id ++ ": " ++ Number.decimal rs.rules.length ++ " rules, "
    ++ Number.decimal rs.columns.size ++ " columns, " ++ rs.metadata.combinator.name ++ ")"

end RuleSet

end DecisionTable
