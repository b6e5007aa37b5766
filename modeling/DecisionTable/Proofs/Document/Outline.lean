import DecisionTable.Proofs.Document.Checks
import DecisionTable.Proofs.Table.Normalised
import DecisionTable.RuleSet.Draft
import Mathlib.Data.List.Forall2

/-!
# Document — Outlines

What an author has to say of a rule set, apart from how it is put down.

* `Outline`: the metadata, the definitions of the columns and the cells of the rules.
* `Outline.draft`: the outline stated step by step, and what is collected then
  (`Outline.draft_eq`).
* `Outline.WrittenAs`: the tabular documents of the outline.  Its rows of definitions stand
  anywhere, their cells in any order, and the rules have any indices without the mark of
  definitions.
* `Outline.writtenAs_layout`: there is such a document of every outline, under any such indices.
-/

namespace DecisionTable

/-- The definition of a column, as it is authored. -/
structure Definition where
  column : String
  fieldName : String
  operator : String
  deriving DecidableEq

namespace Definition

/-- The column that is defined: blank texts define nothing. -/
def meaning (d : Definition) : Column :=
  ⟨Text.nonBlank? d.fieldName, Text.nonBlank? d.operator⟩

/-- The cell of the definition in the row of the field names. -/
def fieldCell (d : Definition) : Cell :=
  ⟨d.column, d.fieldName⟩

/-- The cell of the definition in the row of the operators. -/
def operatorCell (d : Definition) : Cell :=
  ⟨d.column, d.operator⟩

end Definition

/-- What an author has to say of a rule set: its metadata, the definitions of its columns, and for
each rule its condition cells and its action cells. -/
structure Outline where
  id : String
  combinator : Combinator
  className : Option String
  version : Option String
  generalAction : Option String
  definitions : List Definition
  rules : List (List Cell × List Cell)

namespace Outline

variable (o : Outline)

/-- The metadata are texts without blanks at their ends, and no column is defined twice. -/
structure Proper : Prop where
  id : Text.IsTrimmed o.id
  className : ∀ s, o.className = some s → Text.IsTrimmed s
  version : ∀ s, o.version = some s → Text.IsTrimmed s
  generalAction : ∀ s, o.generalAction = some s → Text.IsTrimmed s
  distinct : (o.definitions.map Definition.column).Nodup

/-! ### The draft of an outline -/

/-- The outline stated step by step. -/
def draft : RuleSet.Draft :=
  let d := (RuleSet.Draft.ofId o.id).combinator o.combinator
  let d := o.className.elim d d.className
  let d := o.version.elim d d.version
  let d := o.generalAction.elim d d.generalAction
  let d := o.definitions.foldl (fun d c => d.column c.column c.fieldName c.operator) d
  o.rules.foldl (fun d r => d.rule r.1 r.2) d

/-- The metadata of an outline. -/
def metadata : Metadata where
  id := o.id
  className := o.className
  version := o.version
  combinator := o.combinator
  generalAction := o.generalAction
  extra := .empty

/-- The columns of an outline. -/
def columns : ColumnTable :=
  ⟨.ofList (o.definitions.map fun d => (d.column, d.meaning))⟩

/-- The rows of an outline, without indices. -/
def rows : List Rule :=
  o.rules.map fun r => ⟨"", r.1, r.2⟩

theorem foldl_column (ds : List Definition) (d : RuleSet.Draft) :
    ds.foldl (fun d c => d.column c.column c.fieldName c.operator) d =
      { d with columns :=
          ⟨ds.foldl (fun m c => m.insert c.column c.meaning) d.columns.columns⟩ } := by
  induction ds generalizing d with
  | nil => rfl
  | cons c ds ih =>
      rw [List.foldl_cons, ih]
      rfl

theorem foldl_rule (rs : List (List Cell × List Cell)) (d : RuleSet.Draft) :
    rs.foldl (fun d r => d.rule r.1 r.2) d =
      { d with rows := d.rows ++ rs.map fun r => ⟨"", r.1, r.2⟩ } := by
  induction rs generalizing d with
  | nil => simp
  | cons r rs ih =>
      rw [List.foldl_cons, ih, List.map_cons, List.append_cons]
      rfl

/-- What the draft of an outline has collected. -/
theorem draft_eq : o.draft = ⟨o.metadata, o.columns, o.rows⟩ := by
  obtain ⟨id, combinator, className, version, generalAction, definitions, rules⟩ := o
  rw [draft, foldl_rule, foldl_column, columns, SortedMap.ofList, List.foldl_map]
  cases className <;> cases version <;> cases generalAction <;> rfl

/-! ### The documents of an outline -/

/-- The section of metadata says what the outline says, and nothing else. -/
structure SaidBy (es : List (String × Json)) : Prop where
  id : Entries.get? "Id" es = some (.text o.id)
  combinator : Entries.get? "ConditionsOperator" es = some (.text o.combinator.name)
  className : Entries.get? "ClassName" es = o.className.map .text
  version : Entries.get? "Version" es = o.version.map .text
  generalAction : Entries.get? "GeneralAction" es = o.generalAction.map .text
  others : ∀ e ∈ es, e.1 ∈ Document.knownKeys

end Outline

namespace Document

/-- The entry of a cell in a row. -/
def textEntry (c : Cell) : String × Json :=
  (c.column, .text c.text)

/-- The keys of columns. -/
def isColumnKey (key : String) : Bool :=
  Text.startsWith key "Condition_" || Text.startsWith key "Action_"

/-- The row under a marker that holds the given cells, in any order. -/
structure MarkerRow (marker : String) (cells : List Cell) (v : Json) : Prop where
  object : v.isObject = true
  index : Entries.get? "Index" v.fields = some (.text marker)
  cells : (v.fields.filter fun e => isColumnKey e.1).Perm (cells.map textEntry)

/-- The row of a rule with the given condition cells and action cells, under an index without the
mark of definitions. -/
structure RuleRow (contents : List Cell × List Cell) (v : Json) : Prop where
  object : v.isObject = true
  index : ∃ index, Entries.get? "Index" v.fields = some (.text index) ∧ '#' ∉ index.toList
  conditions : (v.fields.filter fun e => Text.startsWith e.1 "Condition_") =
    contents.1.map textEntry
  actions : (v.fields.filter fun e => Text.startsWith e.1 "Action_") = contents.2.map textEntry

end Document

namespace Outline

open Document

/-- Rows of an outline: one of field names, one of operators and one for each rule.  The rules
follow each other in their order, and the other two rows stand anywhere. -/
structure ArrangedIn (o : Outline) (fieldRow operatorRow : Json) (ruleRows rows : List Json) :
    Prop where
  fields : MarkerRow "#FieldName" (o.definitions.map Definition.fieldCell) fieldRow
  operators : MarkerRow "#Operator" (o.definitions.map Definition.operatorCell) operatorRow
  rules : List.Forall₂ RuleRow o.rules ruleRows
  perm : rows.Perm (fieldRow :: operatorRow :: ruleRows)
  order : ruleRows.Sublist rows

/-- The documents of an outline. -/
inductive WrittenAs (o : Outline) : Json → Prop
  | object {document es : List (String × Json)} {fieldRow operatorRow : Json}
      {ruleRows rows : List Json}
      (hmetadata : Entries.get? "Metadata" document = some (.object es))
      (hentries : o.SaidBy es)
      (hrules : Entries.get? "Rules" document = some (.array rows))
      (hrows : o.ArrangedIn fieldRow operatorRow ruleRows rows) : WrittenAs o (.object document)

end Outline

/-! ### A document of every outline -/

namespace Document

/-- The two prefixes of columns exclude each other. -/
theorem not_startsWith_both {key : String} (h : Text.startsWith key "Action_" = true) :
    Text.startsWith key "Condition_" = false := by
  refine Bool.eq_false_iff.mpr fun hc => ?_
  obtain ⟨rest, hrest⟩ := List.isPrefixOf_iff_prefix.mp h
  obtain ⟨rest', hrest'⟩ := List.isPrefixOf_iff_prefix.mp hc
  have heads : some 'A' = some 'C' := congrArg List.head? (hrest.trans hrest'.symm)
  cases heads

/-- The row of cells under an index. -/
def rowUnder (index : String) (cells : List Cell) : Json :=
  .object (("Index", .text index) :: cells.map textEntry)

theorem filter_fields_rowUnder {p : String → Bool} (hindex : p "Index" = false) (index : String)
    (cells : List Cell) :
    ((rowUnder index cells).fields.filter fun e => p e.1) =
      (cells.filter fun c => p c.column).map textEntry := by
  rw [rowUnder, Json.fields, List.filter_cons_of_neg (by simp [hindex]), List.filter_map]
  rfl

theorem markerRow_rowUnder {cells : List Cell} (marker : String)
    (h : ∀ c ∈ cells, isColumnKey c.column = true) :
    MarkerRow marker cells (rowUnder marker cells) where
  object := rfl
  index := rfl
  cells := by
    rw [filter_fields_rowUnder (p := isColumnKey) (by decide), List.filter_eq_self.mpr h]

theorem ruleRow_rowUnder {contents : List Cell × List Cell} {index : String}
    (hindex : '#' ∉ index.toList)
    (hconditions : ∀ c ∈ contents.1, Text.startsWith c.column "Condition_" = true)
    (hactions : ∀ c ∈ contents.2, Text.startsWith c.column "Action_" = true) :
    RuleRow contents (rowUnder index (contents.1 ++ contents.2)) where
  object := rfl
  index := ⟨index, rfl, hindex⟩
  conditions := by
    rw [filter_fields_rowUnder (p := fun key => Text.startsWith key "Condition_") (by decide),
      List.filter_append, List.filter_eq_self.mpr hconditions, List.filter_eq_nil_iff.mpr,
      List.append_nil]
    intro c hc
    rw [not_startsWith_both (hactions c hc)]
    decide
  actions := by
    rw [filter_fields_rowUnder (p := fun key => Text.startsWith key "Action_") (by decide),
      List.filter_append, List.filter_eq_self.mpr hactions, List.filter_eq_nil_iff.mpr,
      List.nil_append]
    intro c hc ha
    have hno := hconditions c hc
    rw [not_startsWith_both ha] at hno
    cases hno

end Document

namespace Outline

open Document

/-- The section of metadata of an outline. -/
def metadataEntries (o : Outline) : List (String × Json) :=
  [("Id", .text o.id), ("ConditionsOperator", .text o.combinator.name)]
    ++ o.className.toList.map (fun s => ("ClassName", .text s))
    ++ o.version.toList.map (fun s => ("Version", .text s))
    ++ o.generalAction.toList.map (fun s => ("GeneralAction", .text s))

/-- A document of an outline: the rows of definitions first, and then the rules under the given
indices. -/
def layout (o : Outline) (index : Nat → String) : Json :=
  .object [("Metadata", .object o.metadataEntries),
    ("Rules", .array (rowUnder "#FieldName" (o.definitions.map Definition.fieldCell) ::
      rowUnder "#Operator" (o.definitions.map Definition.operatorCell) ::
      o.rules.mapIdx fun i r => rowUnder (index i) (r.1 ++ r.2)))]

theorem saidBy_metadataEntries (o : Outline) : o.SaidBy o.metadataEntries := by
  obtain ⟨id, combinator, className, version, generalAction, definitions, rules⟩ := o
  cases className <;> cases version <;> cases generalAction <;>
    exact ⟨rfl, rfl, rfl, rfl, rfl, by simp [metadataEntries, knownKeys]⟩

/-- **Every outline** whose keys have the prefixes of their columns has a document, under any
indices without the mark of definitions. -/
theorem writtenAs_layout {o : Outline} {index : Nat → String}
    (hdefinitions : ∀ d ∈ o.definitions, isColumnKey d.column = true)
    (hrules : ∀ r ∈ o.rules, (∀ c ∈ r.1, Text.startsWith c.column "Condition_" = true) ∧
      ∀ c ∈ r.2, Text.startsWith c.column "Action_" = true)
    (hindex : ∀ i, '#' ∉ (index i).toList) : o.WrittenAs (o.layout index) := by
  refine .object rfl o.saidBy_metadataEntries rfl ⟨?_, ?_, ?_, .refl _, ?_⟩
  · exact markerRow_rowUnder _ (List.forall_mem_map.mpr hdefinitions)
  · exact markerRow_rowUnder _ (List.forall_mem_map.mpr hdefinitions)
  · refine List.forall₂_iff_get.mpr ⟨(List.length_mapIdx ..).symm, fun i hi _ => ?_⟩
    rw [List.get_eq_getElem, List.get_eq_getElem, List.getElem_mapIdx]
    obtain ⟨hconditions, hactions⟩ := hrules _ (List.getElem_mem hi)
    exact ruleRow_rowUnder (hindex i) hconditions hactions
  · exact (List.sublist_cons_self _ _).trans (List.sublist_cons_self _ _)

end Outline

end DecisionTable
