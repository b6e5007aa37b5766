import DecisionTable.SortedMap
import DecisionTable.Table.Rule

/-!
# Table — Columns

The columns of a decision table: for each the field of a fact that it reads or writes, and the
phrase of its operator.  Both are trimmed texts, and a blank one is none.  `ofRows` takes them from
the marker rows of a table, as `markedCell?` finds them; `define` states them directly.
-/

namespace DecisionTable

/-- The index of the rows that give the fields of columns. -/
def fieldNameMarker : String := "#FieldName"

/-- The index of the rows that give the operators of columns. -/
def operatorMarker : String := "#Operator"

/-- The cell under a column in the first row of an index. -/
def markedCell? (rows : List Rule) (column marker : String) : Option String :=
  (rows.find? fun r => r.index == marker).bind fun r => r.cell? column

/-- The field and the operator of a column. -/
structure Column where
  fieldName : Option String
  operator : Option String
  deriving DecidableEq

/-- The definitions of columns, under their keys. -/
structure ColumnTable where
  columns : SortedMap Column
  deriving DecidableEq

namespace ColumnTable

/-- The table without columns. -/
def empty : ColumnTable :=
  ⟨.empty⟩

/-- The keys that occur in marker rows, with repetitions. -/
def markedKeys (rows : List Rule) : List String :=
  (rows.filter fun r => r.index == fieldNameMarker || r.index == operatorMarker).flatMap fun r =>
    r.cells.map Cell.column

/-- What the first marker row of each kind says of a column. -/
def definitionIn (rows : List Rule) (column : String) : Column :=
  ⟨(markedCell? rows column fieldNameMarker).bind Text.nonBlank?,
    (markedCell? rows column operatorMarker).bind Text.nonBlank?⟩

/-- The columns that the marker rows of a table define. -/
def ofRows (rows : List Rule) : ColumnTable :=
  ⟨.ofList ((markedKeys rows).map fun column => (column, definitionIn rows column))⟩

/-- Defines a column, over an earlier definition. -/
def define (t : ColumnTable) (column fieldName operator : String) : ColumnTable :=
  ⟨t.columns.insert column ⟨Text.nonBlank? fieldName, Text.nonBlank? operator⟩⟩

/-- The field of a column. -/
def fieldName? (t : ColumnTable) (column : String) : Option String :=
  (t.columns.get? column).bind Column.fieldName

/-- The phrase of the operator of a column. -/
def operator? (t : ColumnTable) (column : String) : Option String :=
  (t.columns.get? column).bind Column.operator

/-- The number of columns. -/
def size (t : ColumnTable) : Nat :=
  t.columns.size

end ColumnTable

end DecisionTable
