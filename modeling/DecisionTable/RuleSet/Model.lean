import DecisionTable.Json.Basic
import DecisionTable.Json.Record
import DecisionTable.RuleSet.Basic

/-!
# RuleSet — Model

The structural JSON form of a rule set, part by part as it is held: nothing is filtered, trimmed or
numbered.  `RuleSet.toModel` writes it; `RuleSet.ofModel?` reads it as records, with unknown keys
passed over.
-/

namespace DecisionTable

namespace Model

open Json (Form)

/-- A text, or null. -/
def optionalText : Option String → Json
  | some s => .text s
  | none => .null

/-- Cells as pairs of texts. -/
def ofCells (cells : List Cell) : Json :=
  .array (cells.map fun c => .array [.text c.column, .text c.text])

/-- A rule as an object. -/
def ofRule (r : Rule) : Json :=
  .object [("index", .text r.index), ("conditions", ofCells r.conditions),
    ("actions", ofCells r.actions)]

/-- Metadata as an object. -/
def ofMetadata (m : Metadata) : Json :=
  .object [("id", .text m.id), ("class_name", optionalText m.className),
    ("version", optionalText m.version), ("conditions_operator", .text m.combinator.name),
    ("general_action", optionalText m.generalAction),
    ("extra", .object (m.extra.entries.map fun e => (e.1, .text e.2)))]

/-- A column definition as an object. -/
def ofColumn (d : Column) : Json :=
  .object [("field_name", optionalText d.fieldName), ("operator", optionalText d.operator)]

/-- A column table as an object. -/
def ofColumns (t : ColumnTable) : Json :=
  .object [("columns", .object (t.columns.entries.map fun e => (e.1, ofColumn e.2)))]

/-- Reads a text that has to be there. -/
def text? (given : Option Form) : Option String :=
  given.bind Form.text?

/-- Reads cells. -/
def cells? (given : Option Form) : Option (List Cell) :=
  (given.bind (Form.list? Form.textPair?)).map fun ps => ps.map fun p => ⟨p.1, p.2⟩

/-- Reads a rule. -/
def rule? (form : Form) : Option Rule := do
  match ← form.record? [("index", .required), ("conditions", .required),
      ("actions", .required)] with
  | [index, conditions, actions] =>
    let index ← text? index
    let conditions ← cells? conditions
    let actions ← cells? actions
    some { index, conditions, actions }
  | _ => none

/-- Reads metadata. -/
def metadata? (form : Form) : Option Metadata := do
  match ← form.record? [("id", .required), ("class_name", .optional), ("version", .optional),
      ("conditions_operator", .required), ("general_action", .optional), ("extra", .defaulted)] with
  | [id, className, version, combinator, generalAction, extra] =>
    let id ← text? id
    let className ← Form.nullable? Form.text? className
    let version ← Form.nullable? Form.text? version
    let combinator ← combinator.bind (Form.choice? [("AND", .all), ("OR", .any)])
    let generalAction ← Form.nullable? Form.text? generalAction
    let extra ← Form.orDefault? (Form.map? Form.text?) .empty extra
    some { id, className, version, combinator, generalAction, extra }
  | _ => none

/-- Reads a column definition. -/
def column? (form : Form) : Option Column := do
  match ← form.record? [("field_name", .optional), ("operator", .optional)] with
  | [fieldName, operator] =>
    let fieldName ← Form.nullable? Form.text? fieldName
    let operator ← Form.nullable? Form.text? operator
    some { fieldName, operator }
  | _ => none

/-- Reads a column table. -/
def columns? (form : Form) : Option ColumnTable := do
  match ← form.record? [("columns", .required)] with
  | [columns] =>
    let columns ← columns.bind (Form.map? column?)
    some { columns }
  | _ => none

/-- Reads a rule set. -/
def ruleSet? (form : Form) : Option RuleSet := do
  match ← form.record? [("metadata", .required), ("rules", .required),
      ("definitions", .required)] with
  | [metadata, rules, columns] =>
    let metadata ← metadata.bind metadata?
    let rules ← rules.bind (Form.list? rule?)
    let columns ← columns.bind columns?
    some { metadata, rules, columns }
  | _ => none

end Model

namespace RuleSet

/-- The structural JSON form. -/
def toModel (rs : RuleSet) : Json :=
  .object [("metadata", Model.ofMetadata rs.metadata),
    ("rules", .array (rs.rules.map Model.ofRule)), ("definitions", Model.ofColumns rs.columns)]

/-- Reads the structural form from JSON text. -/
def ofModel? (s : String) : Option RuleSet :=
  (Json.Form.parse? s).bind Model.ruleSet?

end RuleSet

end DecisionTable
