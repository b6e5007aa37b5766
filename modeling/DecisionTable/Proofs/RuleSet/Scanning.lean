import DecisionTable.Proofs.Table.Lookup
import DecisionTable.RuleSet.Actions
import DecisionTable.RuleSet.Conditions
import Mathlib.Data.List.Dedup

/-!
# RuleSet — Columns resolved by scanning rows

A rule set looks its columns up in a table that was made once.  The same rules can be evaluated and
applied without a table, by scanning the rows anew for every cell.

* `scanned?`: what the rows say of a column, found by scanning them.
* `ColumnTable.fieldName?_ofRows`, `ColumnTable.operator?_ofRows`: the table of the rows says the
  same of every column, be it defined or not.  `ColumnTable.size_ofRows` counts its columns.
* `Resolver`: a way to resolve columns, with the evaluation and the application of rules under it.
  `Resolver.ofTable` is the way of a rule set (`Resolver.holds_ofTable`, `Resolver.fire_ofTable`),
  and `Resolver.scanning` scans rows.
* `table_agrees_with_scanning`: the two ways agree.
-/

namespace DecisionTable

/-- What the rows of an index say of a column: the cell that `markedCell?` finds, without the blanks
at its ends.  A cell that is missing or blank says nothing. -/
def scanned? (rows : List Rule) (marker column : String) : Option String :=
  match markedCell? rows column marker with
  | none => none
  | some text => if Text.isBlank text then none else some (Text.trim text)

/-! ### The table of rows -/

namespace ColumnTable

/-- A column without a cell in any marker row is not found by scanning either. -/
theorem markedCell?_of_not_mem {rows : List Rule} {column marker : String}
    (hm : marker = fieldNameMarker ∨ marker = operatorMarker) (h : column ∉ markedKeys rows) :
    markedCell? rows column marker = none := by
  refine Option.eq_none_iff_forall_ne_some.mpr fun text htext => h ?_
  rw [markedCell?_eq] at htext
  obtain ⟨contents, hhead, hcell⟩ := Option.bind_eq_some_iff.mp htext
  obtain ⟨cell, hfind, -⟩ := Option.map_eq_some_iff.mp hcell
  have hcontents : contents ∈ contentsOf marker rows := List.mem_of_head? hhead
  have hcolumn : cell.column = column := by
    have hfound := List.find?_some hfind
    exact beq_iff_eq.mp hfound
  refine mem_markedKeys.mpr ⟨contents, ?_, ?_⟩
  · rcases hm with rfl | rfl
    · exact .inl hcontents
    · exact .inr hcontents
  · exact hcolumn ▸ List.mem_map_of_mem (List.mem_of_find?_eq_some hfind)

theorem scanned?_eq_ite {rows : List Rule} {column marker : String}
    (hm : marker = fieldNameMarker ∨ marker = operatorMarker) :
    scanned? rows marker column =
      if column ∈ markedKeys rows then (markedCell? rows column marker).bind Text.nonBlank?
      else none := by
  rw [scanned?]
  split
  · next hnone => rw [hnone, Option.bind_none, ite_self]
  · next text htext =>
    have hmem : column ∈ markedKeys rows := by
      by_contra h
      rw [markedCell?_of_not_mem hm h] at htext
      cases htext
    rw [if_pos hmem, htext]
    rfl

/-- **The table of rows** says of every column what the first row of each marker says. -/
theorem fieldName?_ofRows (rows : List Rule) (column : String) :
    (ofRows rows).fieldName? column = scanned? rows fieldNameMarker column := by
  rw [fieldName?, get?_ofRows, scanned?_eq_ite (.inl rfl)]
  split <;> rfl

theorem operator?_ofRows (rows : List Rule) (column : String) :
    (ofRows rows).operator? column = scanned? rows operatorMarker column := by
  rw [operator?, get?_ofRows, scanned?_eq_ite (.inr rfl)]
  split <;> rfl

/-- Every key of a marker row counts once. -/
theorem size_ofRows (rows : List Rule) :
    (ofRows rows).size = (markedKeys rows).dedup.length := by
  have hkeys : ∀ key, key ∈ Entries.names (ofRows rows).columns.entries ↔
      key ∈ (markedKeys rows).dedup := by
    intro key
    have hnone : (ofRows rows).columns.get? key = none ↔ key ∉ markedKeys rows := by
      rw [get?_ofRows]
      split <;> simp_all
    rw [List.mem_dedup, ← not_iff_not, ← hnone]
    exact Entries.get?_eq_none_iff.symm
  have hperm := (List.perm_ext_iff_of_nodup (SortedMap.nodup_names_entries _)
    (List.nodup_dedup _)).mpr hkeys
  rw [← hperm.length_eq, Entries.names, List.length_map]
  rfl

end ColumnTable

/-! ### Rules under a way to resolve columns -/

/-- A way to resolve columns: to a field, and to the phrase of an operator. -/
structure Resolver where
  fieldName? : String → Option String
  operator? : String → Option String

namespace Resolver

/-- Columns are looked up in a table. -/
def ofTable (t : ColumnTable) : Resolver :=
  ⟨t.fieldName?, t.operator?⟩

/-- Columns are looked for in rows, every time anew. -/
def scanning (rows : List Rule) : Resolver :=
  ⟨scanned? rows fieldNameMarker, scanned? rows operatorMarker⟩

variable (r : Resolver)

/-- The outcome of a condition cell on a fact. -/
def outcome (fact : Fact) (cell : Cell) : Outcome :=
  (Condition.ofCell (r.operator? cell.column) cell.text).outcome
    ((r.fieldName? cell.column).bind fact.get?)

/-- Whether a rule holds of a fact. -/
def holds (combinator : Combinator) (rule : Rule) (fact : Fact) : Bool :=
  combinator.verdict (rule.conditions.map (r.outcome fact))

/-- The field that an action cell targets and its value there, unless the cell is passed over. -/
def target? (fact : Fact) (cell : Cell) : Option (String × Json) :=
  if cell.isBlank then none
  else (r.fieldName? cell.column).bind fun field => (fact.get? field).map fun v => (field, v)

/-- Stores the result of the column's operator; without a known one the fact stays. -/
def write (cell : Cell) (field : String) (current : Json) (fact : Fact) :
    Except ActionError Fact :=
  match (r.operator? cell.column).bind Action.Operator.ofPhrase? with
  | some op => (op.apply field current cell.text).map (fact.insert field)
  | none => .ok fact

/-- Applies action cells from left to right; `record` follows each one that is not passed over. -/
def applyCells (record : Fact → Fact) : List Cell → Fact → Applied
  | [], fact => ⟨fact, .ok 0⟩
  | cell :: cells, fact =>
    match r.target? fact cell with
    | none => applyCells record cells fact
    | some (field, current) =>
      match r.write cell field current fact with
      | .error e => ⟨fact, .error e⟩
      | .ok written =>
        let rest := applyCells record cells (record written)
        ⟨rest.fact, rest.result.map (· + 1)⟩

/-- Applies the actions of a rule of a rule set with these metadata. -/
def fire (metadata : Metadata) (rule : Rule) (auditField : String) (fact : Fact) : Applied :=
  let record := fun f : Fact =>
    if metadata.recordsAppliedRules then f.record auditField ⟨metadata.id, rule.index⟩ else f
  r.applyCells record rule.actions fact

/-! ### The way of a rule set -/

theorem holds_ofTable (rs : RuleSet) (rule : Rule) (fact : Fact) :
    (ofTable rs.columns).holds rs.metadata.combinator rule fact = rs.holds rule fact := rfl

theorem target?_ofTable (rs : RuleSet) (fact : Fact) (cell : Cell) :
    (ofTable rs.columns).target? fact cell = rs.target? fact cell := by
  rw [target?, RuleSet.target?]
  simp only [ofTable, Option.map_eq_bind]
  rfl

theorem write_ofTable (rs : RuleSet) (cell : Cell) (field : String) (current : Json)
    (fact : Fact) :
    (ofTable rs.columns).write cell field current fact = rs.write cell field current fact := rfl

theorem applyCells_ofTable (rs : RuleSet) (name : RuleName) (auditField : String)
    (cells : List Cell) (fact : Fact) :
    (ofTable rs.columns).applyCells (rs.audit name auditField) cells fact =
      rs.applyCells name auditField cells fact := by
  induction cells generalizing fact with
  | nil => rfl
  | cons cell cells ih =>
      rw [applyCells, RuleSet.applyCells, target?_ofTable]
      cases rs.target? fact cell with
      | none => exact ih fact
      | some target =>
          obtain ⟨field, current⟩ := target
          simp only [write_ofTable]
          cases rs.write cell field current fact with
          | error e => rfl
          | ok written =>
              exact congrArg (fun rest : Applied => Applied.mk rest.fact (rest.result.map (· + 1)))
                (ih _)

theorem fire_ofTable (rs : RuleSet) (rule : Rule) (auditField : String) (fact : Fact) :
    (ofTable rs.columns).fire rs.metadata rule auditField fact = rs.fire rule auditField fact :=
  applyCells_ofTable rs (.ofRule rs rule) auditField rule.actions fact

end Resolver

theorem Resolver.ofTable_ofRows (rows : List Rule) : ofTable (.ofRows rows) = scanning rows := by
  rw [ofTable, scanning, funext (ColumnTable.fieldName?_ofRows rows),
    funext (ColumnTable.operator?_ofRows rows)]

/-- **The table agrees with scanning.**  For every column the table of any rows says what the first
row of each marker says, without the blanks at the ends, and says nothing where the cell is missing
or blank; it has one column for each key that occurs in a marker row.  A rule set with this table
evaluates and applies every rule as if the rows were scanned for each of its cells. -/
theorem table_agrees_with_scanning (rows : List Rule) :
    (∀ column, (ColumnTable.ofRows rows).fieldName? column = scanned? rows "#FieldName" column ∧
      (ColumnTable.ofRows rows).operator? column = scanned? rows "#Operator" column) ∧
    (ColumnTable.ofRows rows).size = (ColumnTable.markedKeys rows).dedup.length ∧
    ∀ (metadata : Metadata) (rules : List Rule) (rule : Rule) (fact : Fact) (auditField : String),
      (RuleSet.mk metadata rules (.ofRows rows)).holds rule fact
          = (Resolver.scanning rows).holds metadata.combinator rule fact ∧
        (RuleSet.mk metadata rules (.ofRows rows)).fire rule auditField fact
          = (Resolver.scanning rows).fire metadata rule auditField fact := by
  refine ⟨fun column => ⟨ColumnTable.fieldName?_ofRows rows column,
    ColumnTable.operator?_ofRows rows column⟩, ColumnTable.size_ofRows rows, ?_⟩
  intro metadata rules rule fact auditField
  rw [← Resolver.ofTable_ofRows]
  exact ⟨(Resolver.holds_ofTable _ rule fact).symm,
    (Resolver.fire_ofTable _ rule auditField fact).symm⟩

/-- A later row of the same marker brings a key to the table, but no field; the operators of both
keys are missing or blank. -/
example :
    let t := ColumnTable.ofRows [⟨"#FieldName", [⟨"c", " x "⟩], []⟩,
      ⟨"#Operator", [], [⟨"c", " "⟩]⟩, ⟨"#FieldName", [], [⟨"d", "y"⟩]⟩]
    t.size = 2 ∧ t.fieldName? "c" = some "x" ∧ t.fieldName? "d" = none ∧
      t.operator? "c" = none := by
  decide

end DecisionTable
