import DecisionTable.Proofs.Document.Acceptance
import DecisionTable.Proofs.Document.Outline
import DecisionTable.Proofs.Table.Lookup

/-!
# Document — Drafts and documents

A rule set can be stated in a draft, step by step, or written down as a tabular document.

* `Document.MarkerRow.cells_rowOf`, `Document.RuleRow.contents_rowOf`: what is read from the rows.
* `Outline.SaidBy.metadataOf`, `Outline.ArrangedIn.columns_ofRows`,
  `Outline.ArrangedIn.rules_ofRows`: the three parts of a document are those of its outline.
* `draft_and_document_agree`: the draft of an outline and each of its documents are the same rule
  set.
-/

namespace DecisionTable

/-! ### Rows -/

/-- Trimming makes no characters. -/
theorem Text.mem_of_mem_trim {s : String} {c : Char} (h : c ∈ (trim s).toList) : c ∈ s.toList := by
  rw [toList_trim, trimChars, trimEnd_eq_rdropWhile] at h
  exact (List.dropWhile_sublist _).mem ((List.rdropWhile_prefix _ _).mem h)

namespace Document

theorem columnKind?_eq_condition {key : String} :
    (columnKind? key == some .condition) = Text.startsWith key "Condition_" := by
  rw [columnKind?]
  cases Text.startsWith key "Condition_" with
  | true => rfl
  | false => cases Text.startsWith key "Action_" <;> rfl

theorem columnKind?_eq_action {key : String} :
    (columnKind? key == some .action) = Text.startsWith key "Action_" := by
  rw [columnKind?]
  cases h : Text.startsWith key "Action_" with
  | true => simp [not_startsWith_both h]
  | false => cases Text.startsWith key "Condition_" <;> rfl

theorem map_textEntry_cells (cells : List Cell) :
    (cells.map textEntry).map (fun e => (⟨e.1, e.2.asText⟩ : Cell)) = cells := by
  rw [List.map_map]
  exact List.map_id cells

theorem isPlain_of_mem_textEntry {cells : List Cell} {e : String × Json}
    (h : e ∈ cells.map textEntry) : e.2.isPlain = true := by
  obtain ⟨c, -, rfl⟩ := List.mem_map.mp h
  rfl

/-- An object is a row if its index is a text and its cells are texts. -/
theorem tabularRow_of_isObject {v : Json} (hobject : v.isObject = true)
    (hindex : ∃ index, Entries.get? "Index" v.fields = some (.text index))
    (hcells : ∀ e ∈ v.fields, isColumnKey e.1 = true → e.2.isPlain = true) : TabularRow v := by
  cases v with
  | object row =>
      obtain ⟨index, hindex⟩ := hindex
      exact .object ⟨_, hindex, rfl⟩ fun key v hmem hkey =>
        hcells (key, v) hmem (Bool.or_eq_true_iff.mpr hkey)
  | _ => cases hobject

variable {marker : String} {cells : List Cell} {contents : List Cell × List Cell} {v : Json}

theorem RuleRow.contents_rowOf (h : RuleRow contents v) : (rowOf v).contents = contents := by
  rw [Rule.contents, rowOf]
  simp only [cellsOf, columnKind?_eq_condition, columnKind?_eq_action, h.conditions, h.actions,
    map_textEntry_cells]

theorem RuleRow.isDefinition_rowOf (h : RuleRow contents v) : (rowOf v).isDefinition = false := by
  obtain ⟨index, hindex, hmark⟩ := h.index
  rw [Rule.isDefinition, rowOf, valueAt, hindex, Option.getD_some, indexText]
  refine Bool.eq_false_iff.mpr fun hc => hmark (Text.mem_of_mem_trim ?_)
  exact List.contains_iff_mem.mp hc

theorem RuleRow.tabularRow (h : RuleRow contents v) : TabularRow v := by
  obtain ⟨index, hindex, -⟩ := h.index
  refine tabularRow_of_isObject h.object ⟨index, hindex⟩ fun e he hkey => ?_
  rcases Bool.or_eq_true_iff.mp hkey with hc | ha
  · have hmem : e ∈ v.fields.filter fun e => Text.startsWith e.1 "Condition_" :=
      List.mem_filter.mpr ⟨he, hc⟩
    exact isPlain_of_mem_textEntry (h.conditions ▸ hmem)
  · have hmem : e ∈ v.fields.filter fun e => Text.startsWith e.1 "Action_" :=
      List.mem_filter.mpr ⟨he, ha⟩
    exact isPlain_of_mem_textEntry (h.actions ▸ hmem)

theorem MarkerRow.index_rowOf (h : MarkerRow marker cells v) :
    (rowOf v).index = Text.trim marker := by
  rw [rowOf, valueAt, h.index]
  rfl

/-- A row under a marker is no rule. -/
theorem MarkerRow.isKept_rowOf (h : MarkerRow marker cells v)
    (hm : (Text.trim marker).toList.contains Rule.definitionMark = true) :
    RuleSet.isKept (rowOf v) = false := by
  rw [RuleSet.isKept, Rule.isDefinition, h.index_rowOf, hm]
  rfl

/-- The cells of a marker row, in any order. -/
theorem MarkerRow.cells_rowOf (h : MarkerRow marker cells v) : (rowOf v).cells.Perm cells := by
  have hsplit : (v.fields.filter (fun e => Text.startsWith e.1 "Condition_") ++
      v.fields.filter fun e => Text.startsWith e.1 "Action_").Perm
        (v.fields.filter fun e => isColumnKey e.1) := by
    have hperm := List.filter_append_perm (fun e : String × Json =>
      Text.startsWith e.1 "Condition_") (v.fields.filter fun e => isColumnKey e.1)
    rw [List.filter_filter, List.filter_filter] at hperm
    refine (List.Perm.of_eq (congrArg₂ _ (List.filter_congr fun e _ => ?_)
      (List.filter_congr fun e _ => ?_))).trans hperm
    · rw [isColumnKey]
      cases Text.startsWith e.1 "Condition_" <;> rfl
    · rw [isColumnKey]
      cases ha : Text.startsWith e.1 "Action_" with
      | true => rw [not_startsWith_both ha]; rfl
      | false => simp
  rw [Rule.cells, rowOf]
  simp only [cellsOf, columnKind?_eq_condition, columnKind?_eq_action, ← List.map_append]
  rw [← map_textEntry_cells cells]
  exact (hsplit.trans h.cells).map _

theorem MarkerRow.tabularRow (h : MarkerRow marker cells v) : TabularRow v :=
  tabularRow_of_isObject h.object ⟨marker, h.index⟩ fun _ he hkey =>
    isPlain_of_mem_textEntry (h.cells.mem_iff.mp (List.mem_filter.mpr ⟨he, hkey⟩))

end Document

namespace Outline

open Document

variable {o : Outline}

/-! ### Metadata -/

/-- An entry of trimmed texts is read as it is. -/
theorem scalarText?_valueAt {es : List (String × Json)} {key : String} {d : Option String}
    (h : Entries.get? key es = d.map .text) (hd : ∀ s, d = some s → Text.IsTrimmed s) :
    scalarText? (valueAt es key) = d := by
  rw [valueAt, h]
  cases d with
  | none => rfl
  | some s => exact (hd s rfl).nonBlank?_eq

theorem isPlain_of_entry {es : List (String × Json)} {key : String} {d : Option String}
    (h : Entries.get? key es = d.map .text) (v : Json) (hv : Entries.get? key es = some v) :
    v.isPlain = true := by
  obtain ⟨s, -, rfl⟩ := Option.map_eq_some_iff.mp (h.symm.trans hv)
  rfl

theorem extra_of_known {es : List (String × Json)} (h : ∀ e ∈ es, e.1 ∈ knownKeys) :
    extra es = .empty := by
  have hnone : es.filter (fun e => !knownKeys.contains e.1) = [] := by
    refine List.filter_eq_nil_iff.mpr fun e he => ?_
    simpa using h e he
  rw [extra, hnone]
  rfl

theorem SaidBy.metadataOf {es : List (String × Json)} (h : o.SaidBy es) (ho : o.Proper) :
    Document.metadataOf (.object es) = o.metadata := by
  have hid : requiredText es "Id" = o.id := by
    rw [requiredText, scalarText?_valueAt (d := some o.id) h.id fun s hs =>
      Option.some.inj hs ▸ ho.id]
    rfl
  have hcombinator : (Combinator.ofPhrase? (requiredText es "ConditionsOperator")).getD .all =
      o.combinator := by
    rw [requiredText, valueAt, h.combinator]
    cases o.combinator <;> rfl
  rw [Document.metadataOf, Json.fields, metadata, hid, hcombinator,
    scalarText?_valueAt h.className ho.className, scalarText?_valueAt h.version ho.version,
    scalarText?_valueAt h.generalAction ho.generalAction, extra_of_known h.others]

theorem SaidBy.tabularMetadata {es : List (String × Json)} (h : o.SaidBy es) (ho : o.Proper) :
    TabularMetadata es where
  id := ⟨_, h.id, .text ho.id.isBlank_eq_false⟩
  combinator := by
    refine ⟨_, h.combinator, ?_⟩
    cases o.combinator with
    | all => exact ⟨.text rfl, .inl rfl⟩
    | any => exact ⟨.text rfl, .inr rfl⟩
  optional := by
    intro key hkey v hv
    simp only [List.mem_cons, List.not_mem_nil, or_false] at hkey
    obtain rfl | rfl | rfl := hkey
    · exact isPlain_of_entry h.className v hv
    · exact isPlain_of_entry h.version v hv
    · exact isPlain_of_entry h.generalAction v hv

end Outline

/-! ### Columns -/

/-- Under distinct keys, what is found does not depend on the order. -/
theorem find?_eq_of_perm {α : Type} {k : α → String} {as bs : List α} (hperm : as.Perm bs)
    (h : (bs.map k).Nodup) (key : String) :
    as.find? (fun a => k a == key) = bs.find? fun a => k a == key := by
  refine Option.ext fun a => ?_
  rw [find?_eq_some_iff_of_nodup h,
    find?_eq_some_iff_of_nodup ((hperm.map k).nodup_iff.mpr h), hperm.mem_iff]

theorem Entries.get?_map_pair {α β : Type} (k : α → String) (f : α → β) (key : String)
    (as : List α) :
    get? key (as.map fun a => (k a, f a)) = (as.find? fun a => k a == key).map f := by
  induction as with
  | nil => rfl
  | cons a as ih =>
      rw [List.map_cons, get?]
      by_cases hk : k a = key <;> simp [hk, ih]

namespace Document

/-- Only the row under a marker has its contents. -/
theorem contentsOf_of_perm {marker : String} {r : Rule} {others rs : List Rule}
    (hperm : rs.Perm (r :: others)) (hr : r.index = marker)
    (hothers : ∀ other ∈ others, other.index ≠ marker) :
    contentsOf marker rs = [r.contents] := by
  have hnone : others.filter (fun r => r.index == marker) = [] :=
    List.filter_eq_nil_iff.mpr fun other h => by simpa using hothers other h
  have hkept : (r :: others).filter (fun r => r.index == marker) = [r] := by
    rw [List.filter_cons, hnone, if_pos (beq_iff_eq.mpr hr)]
  rw [contentsOf, ← List.perm_singleton, ← List.map_singleton, ← hkept]
  exact (hperm.filter _).map _

/-- The cell under a column in the only row of an index, whose cells are those of definitions. -/
theorem markedCell?_of_contentsOf {marker : String} {rs : List Rule} {r : Rule}
    {ds : List Definition} {cell : Definition → Cell}
    (hcontents : contentsOf marker rs = [r.contents]) (hcells : r.cells.Perm (ds.map cell))
    (hcolumn : ∀ d, (cell d).column = d.column) (hd : (ds.map Definition.column).Nodup)
    (key : String) : markedCell? rs key marker =
      (ds.find? fun d => d.column == key).map fun d => (cell d).text := by
  have hnodup : ((ds.map cell).map Cell.column).Nodup := by
    rwa [List.map_map, funext (f := Cell.column ∘ cell) hcolumn]
  rw [markedCell?_eq, hcontents]
  change (r.cells.find? fun c => c.column == key).map Cell.text = _
  rw [find?_eq_of_perm hcells hnodup, List.find?_map, Option.map_map]
  simp only [Function.comp_def, hcolumn]

/-- The columns of the rows of an index, whose cells are those of definitions. -/
theorem mem_columns_of_perm {r : Rule} {ds : List Definition} {cell : Definition → Cell}
    (hcells : r.cells.Perm (ds.map cell)) (hcolumn : ∀ d, (cell d).column = d.column)
    (key : String) : key ∈ r.cells.map Cell.column ↔ key ∈ ds.map Definition.column := by
  rw [(hcells.map _).mem_iff, List.map_map, funext (f := Cell.column ∘ cell) hcolumn]

end Document

namespace Outline

open Document

variable {o : Outline} {fieldRow operatorRow : Json} {ruleRows rows : List Json}

theorem exists_ruleRow {rules : List (List Cell × List Cell)}
    (h : List.Forall₂ RuleRow rules ruleRows) {v : Json} (hv : v ∈ ruleRows) :
    ∃ contents, RuleRow contents v := by
  induction h with
  | nil => cases hv
  | cons hrow _ ih =>
      rcases List.mem_cons.mp hv with rfl | hv
      · exact ⟨_, hrow⟩
      · exact ih hv

/-- The row of a rule is under no marker. -/
theorem index_ne_of_ruleRows {rules : List (List Cell × List Cell)}
    (h : List.Forall₂ RuleRow rules ruleRows) {marker : String}
    (hm : marker.toList.contains Rule.definitionMark = true) :
    ∀ r ∈ ruleRows.map rowOf, r.index ≠ marker := by
  intro r hr hindex
  obtain ⟨v, hv, rfl⟩ := List.mem_map.mp hr
  obtain ⟨contents, hrow⟩ := exists_ruleRow h hv
  have hno := hrow.isDefinition_rowOf
  rw [Rule.isDefinition, hindex, hm] at hno
  cases hno

/-- One of the two rows of definitions is alone under its marker. -/
theorem contentsOf_marker {rules : List (List Cell × List Cell)} {row other : Json}
    {marker : String} (h : List.Forall₂ RuleRow rules ruleRows)
    (hperm : rows.Perm (row :: other :: ruleRows)) (hrow : (rowOf row).index = marker)
    (hother : (rowOf other).index ≠ marker)
    (hm : marker.toList.contains Rule.definitionMark = true) :
    contentsOf marker (rows.map rowOf) = [(rowOf row).contents] := by
  refine contentsOf_of_perm (hperm.map rowOf) hrow fun r hr => ?_
  rcases List.mem_cons.mp hr with rfl | hr
  · exact hother
  · exact index_ne_of_ruleRows h hm r hr

namespace ArrangedIn

theorem contentsOf_fieldNames (h : o.ArrangedIn fieldRow operatorRow ruleRows rows) :
    contentsOf fieldNameMarker (rows.map rowOf) = [(rowOf fieldRow).contents] := by
  refine contentsOf_marker h.rules h.perm h.fields.index_rowOf ?_ (by decide)
  rw [h.operators.index_rowOf]
  decide

theorem contentsOf_operators (h : o.ArrangedIn fieldRow operatorRow ruleRows rows) :
    contentsOf operatorMarker (rows.map rowOf) = [(rowOf operatorRow).contents] := by
  refine contentsOf_marker h.rules (h.perm.trans (.swap _ _ _)) h.operators.index_rowOf ?_
    (by decide)
  rw [h.fields.index_rowOf]
  decide

theorem mem_markedKeys (h : o.ArrangedIn fieldRow operatorRow ruleRows rows) {key : String} :
    key ∈ ColumnTable.markedKeys (rows.map rowOf) ↔
      key ∈ o.definitions.map Definition.column := by
  have hnames := mem_columns_of_perm h.fields.cells_rowOf (fun _ => rfl) key
  have hphrases := mem_columns_of_perm h.operators.cells_rowOf (fun _ => rfl) key
  rw [Rule.cells] at hnames hphrases
  simp only [ColumnTable.mem_markedKeys, h.contentsOf_fieldNames, h.contentsOf_operators,
    List.mem_singleton, or_and_right, exists_or, exists_eq_left, Rule.contents, hnames, hphrases,
    or_self]

/-- **The columns** of the rows are those that the outline defines. -/
theorem columns_ofRows (h : o.ArrangedIn fieldRow operatorRow ruleRows rows) (ho : o.Proper) :
    ColumnTable.ofRows (rows.map rowOf) = o.columns := by
  have hcolumns : (ColumnTable.ofRows (rows.map rowOf)).columns = o.columns.columns := by
    refine SortedMap.ext_get? fun key => ?_
    have hnodup : (Entries.names (o.definitions.map fun d => (d.column, d.meaning))).Nodup := by
      rw [Entries.names, List.map_map]
      exact ho.distinct
    rw [ColumnTable.get?_ofRows, columns, SortedMap.get?_ofList_of_nodup hnodup,
      Entries.get?_map_pair, ColumnTable.definitionIn,
      markedCell?_of_contentsOf h.contentsOf_fieldNames h.fields.cells_rowOf (fun _ => rfl)
        ho.distinct,
      markedCell?_of_contentsOf h.contentsOf_operators h.operators.cells_rowOf (fun _ => rfl)
        ho.distinct]
    cases hfind : o.definitions.find? fun d => d.column == key with
    | none =>
        have hout : key ∉ o.definitions.map Definition.column := by
          intro hmem
          obtain ⟨d, hd, rfl⟩ := List.mem_map.mp hmem
          exact absurd (beq_iff_eq.mpr rfl) (List.find?_eq_none.mp hfind d hd)
        rw [if_neg (mt h.mem_markedKeys.mp hout)]
        rfl
    | some d =>
        obtain ⟨hd, rfl⟩ := (find?_eq_some_iff_of_nodup ho.distinct).mp hfind
        rw [if_pos (h.mem_markedKeys.mpr (List.mem_map_of_mem hd))]
        rfl
  exact congrArg ColumnTable.mk hcolumns

end ArrangedIn

end Outline

/-! ### Rules -/

/-- A test that only one part of a list passes selects from the list what it selects from that
part. -/
theorem filter_eq_of_sublist {α : Type} {p : α → Bool} {others as bs : List α}
    (hperm : bs.Perm (others ++ as)) (hsub : as.Sublist bs) (hno : ∀ a ∈ others, p a = false) :
    bs.filter p = as.filter p := by
  have hlength := (hperm.filter p).length_eq
  rw [List.filter_append, List.filter_eq_nil_iff.mpr fun a ha => Bool.eq_false_iff.mp (hno a ha),
    List.nil_append] at hlength
  exact ((hsub.filter p).eq_of_length hlength.symm).symm

theorem RuleSet.isKept_eq {r r' : Rule} (hr : r.isDefinition = false)
    (hr' : r'.isDefinition = false) (h : r.actions = r'.actions) : isKept r = isKept r' := by
  rw [isKept, isKept, hr, hr', Rule.hasAction, Rule.hasAction, h]

namespace Outline

open Document

variable {o : Outline} {fieldRow operatorRow : Json} {ruleRows rows : List Json}

/-- The rules that are kept have the cells of the outline. -/
theorem contents_of_ruleRows {rules : List (List Cell × List Cell)}
    (h : List.Forall₂ RuleRow rules ruleRows) :
    ((ruleRows.map rowOf).filter RuleSet.isKept).map Rule.contents =
      ((rules.map fun r => Rule.mk "" r.1 r.2).filter RuleSet.isKept).map Rule.contents := by
  induction h with
  | nil => rfl
  | @cons contents v rules ruleRows hrow _ ih =>
      have hactions : (rowOf v).actions = contents.2 := congrArg Prod.snd hrow.contents_rowOf
      have hkept : RuleSet.isKept (rowOf v) = RuleSet.isKept ⟨"", contents.1, contents.2⟩ :=
        RuleSet.isKept_eq hrow.isDefinition_rowOf rfl hactions
      rw [List.map_cons, List.map_cons, List.filter_cons, List.filter_cons, hkept]
      split
      · rw [List.map_cons, List.map_cons, ih, hrow.contents_rowOf]
        rfl
      · exact ih

/-- **The rules** of the rows are those of the outline. -/
theorem ArrangedIn.rules_ofRows (h : o.ArrangedIn fieldRow operatorRow ruleRows rows) :
    RuleSet.number ((rows.map rowOf).filter RuleSet.isKept) =
      RuleSet.number (o.rows.filter RuleSet.isKept) := by
  have hmarkers : ∀ r ∈ [rowOf fieldRow, rowOf operatorRow], RuleSet.isKept r = false :=
    List.forall_mem_cons.mpr ⟨h.fields.isKept_rowOf (by decide),
      List.forall_mem_singleton.mpr (h.operators.isKept_rowOf (by decide))⟩
  have hfilter := filter_eq_of_sublist (h.perm.map rowOf) (h.order.map rowOf) hmarkers
  rw [RuleSet.number_eq, RuleSet.number_eq, hfilter, contents_of_ruleRows h.rules, Outline.rows]

/-! ### Documents -/

theorem WrittenAs.tabular {d : Json} (h : o.WrittenAs d) (ho : o.Proper) : Tabular d := by
  obtain ⟨hmetadata, hentries, hrules, hrows⟩ := h
  refine .object hmetadata (hentries.tabularMetadata ho) hrules fun v hv => ?_
  rcases List.mem_cons.mp (hrows.perm.mem_iff.mp hv) with rfl | hv
  · exact hrows.fields.tabularRow
  rcases List.mem_cons.mp hv with rfl | hv
  · exact hrows.operators.tabularRow
  · obtain ⟨contents, hrow⟩ := exists_ruleRow hrows.rules hv
    exact hrow.tabularRow

theorem WrittenAs.tableOf {d : Json} (h : o.WrittenAs d) (ho : o.Proper) :
    tableOf d = o.draft.build := by
  obtain ⟨hmetadata, hentries, hrules, hrows⟩ := h
  rw [Document.tableOf, rowsOf, rowItems, Json.fields, valueAt, valueAt, hmetadata, hrules,
    draft_eq, RuleSet.Draft.build, RuleSet.ofRows, RuleSet.ofRows]
  simp only [Option.getD_some, Json.items, hentries.metadataOf ho, hrows.columns_ofRows ho,
    hrows.rules_ofRows]

end Outline

/-- **Drafts and documents agree.**  An outline with trimmed metadata and distinct columns gives the
same rule set whether it is stated in a draft, step by step, or read from any of its documents. -/
theorem draft_and_document_agree {o : Outline} (ho : o.Proper) {d : Json} (hd : o.WrittenAs d) :
    RuleSet.ofDocument? d = .ok o.draft.build := by
  rw [RuleSet.ofDocument?_eq_guard]
  exact Check.guard_eq_ok_iff.mpr ⟨Document.forall_checks_iff.mpr (hd.tabular ho), hd.tableOf ho⟩

namespace Outline

/-- An outline with a blank definition, a rule without conditions and a rule without an action. -/
def sample : Outline where
  id := "a"
  combinator := .any
  className := some "k"
  version := none
  generalAction := none
  definitions := [⟨"Action_1", " total ", "Increase"⟩, ⟨"Condition_1", " ", ""⟩]
  rules := [([⟨"Condition_1", "u"⟩], [⟨"Action_1", " "⟩]), ([], [⟨"Action_1", "2"⟩])]

/-- The row of the field names, with the keys the other way round. -/
def sampleFields : Json :=
  .object [("Condition_1", .text " "), ("Index", .text "#FieldName"), ("Action_1", .text " total ")]

/-- The row of the operators. -/
def sampleOperators : Json :=
  .object [("Index", .text "#Operator"), ("Action_1", .text "Increase"), ("Condition_1", .text "")]

/-- The rows of the rules, the second one with a note. -/
def sampleRules : List Json :=
  [.object [("Index", .text "7"), ("Action_1", .text " "), ("Condition_1", .text "u")],
    .object [("Index", .text ""), ("Note", .null), ("Action_1", .text "2")]]

/-- The outline as a document: the operators stand between the rules, and the field names behind
them. -/
def sampleDocument : Json :=
  .object [("Rules", .array (sampleRules.insertIdx 1 sampleOperators ++ [sampleFields])),
    ("Metadata", .object [("ClassName", .text "k"), ("ConditionsOperator", .text "OR"),
      ("Id", .text "a")])]

theorem proper_sample : sample.Proper where
  id := ⟨⟨'a', rfl, rfl⟩, ⟨'a', rfl, rfl⟩⟩
  className := by
    rintro s ⟨⟩
    exact ⟨⟨'k', rfl, rfl⟩, ⟨'k', rfl, rfl⟩⟩
  version := by rintro s ⟨⟩
  generalAction := by rintro s ⟨⟩
  distinct := by decide

theorem writtenAs_sampleDocument : sample.WrittenAs sampleDocument := by
  have hfields : Document.MarkerRow "#FieldName" (sample.definitions.map Definition.fieldCell)
      sampleFields := ⟨rfl, rfl, .swap _ _ _⟩
  have hoperators : Document.MarkerRow "#Operator" (sample.definitions.map Definition.operatorCell)
      sampleOperators := ⟨rfl, rfl, .refl _⟩
  have hrules : List.Forall₂ Document.RuleRow sample.rules sampleRules :=
    .cons ⟨rfl, ⟨"7", rfl, by decide⟩, rfl, rfl⟩
      (.cons ⟨rfl, ⟨"", rfl, by decide⟩, rfl, rfl⟩ .nil)
  refine .object rfl ⟨rfl, rfl, rfl, rfl, rfl, by decide⟩ rfl ⟨hfields, hoperators, hrules, ?_, ?_⟩
  · exact (List.perm_append_singleton _ _).trans (.cons _ (.swap _ _ _))
  · exact .cons_cons _ (.cons _ (.cons_cons _ (.cons _ .slnil)))

end Outline

/-- The rule that is left has the index 1 in both. -/
theorem draft_and_document_agree_on_sample :
    Outline.sample.Proper ∧ Outline.sample.WrittenAs Outline.sampleDocument ∧
      RuleSet.ofDocument? Outline.sampleDocument = .ok Outline.sample.draft.build ∧
        Outline.sample.draft.build.rules = [⟨"1", [], [⟨"Action_1", "2"⟩]⟩] :=
  ⟨Outline.proper_sample, Outline.writtenAs_sampleDocument,
    draft_and_document_agree Outline.proper_sample Outline.writtenAs_sampleDocument, rfl⟩

end DecisionTable
