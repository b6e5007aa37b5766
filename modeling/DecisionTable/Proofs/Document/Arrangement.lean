import DecisionTable.Proofs.Document.Checks
import DecisionTable.Proofs.Table.Lookup

/-!
# Document — The arrangement of rows

It does not matter where the rows that define columns stand: before the rules, behind them or among
them.

* `Document.SameTable`: two lists of rows have the same cells in the rows of field names, in the
  rows of operators and in the rules that are kept, each of the three in the same order.
* `RuleSet.ofRows_congr`: such rows give the same rule set.
* `document_arranged`: two documents of such rows and the same metadata are the same rule set.
-/

namespace DecisionTable

/-- The same cells in the same order: those of the rows of field names, those of the rows of
operators, and those of the rules that are kept.  How the three kinds of rows follow each other, the
rows of other kinds, and the indices of the rules are left open. -/
structure Document.SameTable (rows rows' : List Rule) : Prop where
  fieldNames : contentsOf fieldNameMarker rows = contentsOf fieldNameMarker rows'
  operators : contentsOf operatorMarker rows = contentsOf operatorMarker rows'
  rules : (rows.filter RuleSet.isKept).map Rule.contents =
    (rows'.filter RuleSet.isKept).map Rule.contents

theorem RuleSet.ofRows_congr (metadata : Metadata) {rows rows' : List Rule}
    (h : Document.SameTable rows rows') :
    ofRows metadata (.ofRows rows) rows = ofRows metadata (.ofRows rows') rows' := by
  rw [ofRows, ofRows, ColumnTable.ofRows_congr h.fieldNames h.operators, number_eq, number_eq,
    h.rules]

/-- **The arrangement of rows** does not matter.  Two documents that are accepted give the same rule
set if they have the same metadata, and the same cells in their rows of field names, in their rows
of operators and in the rules that are kept, each of the three in the same order. -/
theorem document_arranged {d d' : Json} {rs rs' : RuleSet} (h : RuleSet.ofDocument? d = .ok rs)
    (h' : RuleSet.ofDocument? d' = .ok rs')
    (hmetadata : Entries.get? "Metadata" d.fields = Entries.get? "Metadata" d'.fields)
    (hrows : Document.SameTable (Document.rowsOf d) (Document.rowsOf d')) : rs = rs' := by
  rw [RuleSet.eq_tableOf h, RuleSet.eq_tableOf h', Document.tableOf, Document.tableOf,
    Document.valueAt, Document.valueAt, hmetadata]
  exact RuleSet.ofRows_congr _ hrows

namespace Document

/-- The metadata of the two documents below. -/
def plainMetadata : Json :=
  .object [("Id", .text "a"), ("ConditionsOperator", .text "AND")]

/-- The row of the field names. -/
def nameRow : Json :=
  .object [("Index", .text "#FieldName"), ("Condition_1", .text "x"), ("Action_1", .text "y")]

/-- A row of operators. -/
def operatorRow (operator : String) : Json :=
  .object [("Index", .text "#Operator"), ("Condition_1", .text operator), ("Action_1", .text "Set")]

/-- The row of a rule, under an index and with a note. -/
def ruleRow (index value note : String) : Json :=
  .object [("Index", .text index), ("Condition_1", .text value), ("Note", .text note),
    ("Action_1", .text "z")]

/-- The rows that define columns, two of them of operators, and the rules behind them. -/
def definitionsFirst : Json :=
  .object [("Metadata", plainMetadata),
    ("Rules", .array [nameRow, operatorRow "Equals", operatorRow "Contains", ruleRow "1" "u" "",
      ruleRow "2" "v" ""])]

/-- The same rules with other indices and notes, the rows that define columns among them and behind
them, a comment and a row without an action. -/
def definitionsLast : Json :=
  .object [("Rules", .array [ruleRow "7" "u" "first", .object [("Index", .text "# comment")],
      operatorRow "Equals", ruleRow "7" "v" "second", .object [("Index", .text "3")],
      operatorRow "Contains", nameRow]),
    ("Metadata", plainMetadata)]

end Document

theorem document_arranged_of_definitions_last :
    ∃ rs, RuleSet.ofDocument? Document.definitionsFirst = .ok rs ∧
      RuleSet.ofDocument? Document.definitionsLast = .ok rs := by
  have h : RuleSet.ofDocument? Document.definitionsFirst =
      .ok (Document.tableOf Document.definitionsFirst) := rfl
  have h' : RuleSet.ofDocument? Document.definitionsLast =
      .ok (Document.tableOf Document.definitionsLast) := rfl
  have hrows : Document.SameTable (Document.rowsOf Document.definitionsFirst)
      (Document.rowsOf Document.definitionsLast) :=
    ⟨by decide, by decide, by decide⟩
  refine ⟨_, h, ?_⟩
  rw [document_arranged h h' rfl hrows]
  exact h'

end DecisionTable
