import DecisionTable.Proofs.RuleSet.Numbered
import DecisionTable.Proofs.Table.Normalised

/-!
# Document — Acceptance

Which values are the document of a rule set, and what is reported of the others.

* `Document.Tabular`: an object with a section of metadata and a section of rows, each of its shape.
* `Document.forall_checks_iff`: exactly these pass all checks of a document.
* `document_checked`: a document is accepted exactly if it is tabular, and gives the rule set of its
  table; any other value gives the fault of the first check that it fails.
-/

namespace DecisionTable

/-- A number, a truth value, or a text that is not blank. -/
inductive Json.IsScalar : Json → Prop
  | number (n : Json.Number) : IsScalar (.number n)
  | bool (b : Bool) : IsScalar (.bool b)
  | text {s : String} (h : Text.isBlank s = false) : IsScalar (.text s)

namespace Document

/-! ### Tabular documents -/

/-- A section of metadata: it names an id and a combinator, and what else has a meaning is a text,
a number or a truth value if it is there. -/
structure TabularMetadata (es : List (String × Json)) : Prop where
  id : ∃ v, Entries.get? "Id" es = some v ∧ v.IsScalar
  combinator : ∃ v, Entries.get? "ConditionsOperator" es = some v ∧ v.IsScalar ∧
    (Text.sameIgnoringCase (Text.trim v.asText) "AND" = true ∨
      Text.sameIgnoringCase (Text.trim v.asText) "OR" = true)
  optional : ∀ key ∈ ["ClassName", "Version", "GeneralAction"], ∀ v,
    Entries.get? key es = some v → v.isPlain = true

/-- A row: an object with a text or a number for its index, and no array or object under the key of
a column. -/
inductive TabularRow : Json → Prop
  | object {row : List (String × Json)}
      (hindex : ∃ v, Entries.get? "Index" row = some v ∧ v.isIndex = true)
      (hcells : ∀ key v, (key, v) ∈ row →
        Text.startsWith key "Condition_" = true ∨ Text.startsWith key "Action_" = true →
        v.isPlain = true) : TabularRow (.object row)

/-- A document: an object with the two sections. -/
inductive Tabular : Json → Prop
  | object {document es : List (String × Json)} {rows : List Json}
      (hmetadata : Entries.get? "Metadata" document = some (.object es))
      (hentries : TabularMetadata es)
      (hrules : Entries.get? "Rules" document = some (.array rows))
      (hrows : ∀ v ∈ rows, TabularRow v) : Tabular (.object document)

/-! ### The metadata section -/

theorem isPlain_valueAt_iff {es : List (String × Json)} {key : String} :
    (valueAt es key).isPlain = true ↔ ∀ v, Entries.get? key es = some v → v.isPlain = true := by
  rw [valueAt]
  cases Entries.get? key es with
  | none => simp [Json.isPlain]
  | some v => simp

theorem isSome_scalarText?_iff {v : Json} : (scalarText? v).isSome = true ↔ v.IsScalar := by
  cases v with
  | text s =>
      rw [scalarText?, Text.nonBlank?]
      cases h : Text.isBlank s with
      | false => exact ⟨fun _ => .text h, fun _ => rfl⟩
      | true =>
          constructor
          · rintro ⟨⟩
          · intro hs
            cases hs with
            | text hf => exact absurd (h.symm.trans hf) (by decide)
  | number n => exact ⟨fun _ => .number n, fun _ => rfl⟩
  | bool b => exact ⟨fun _ => .bool b, fun _ => rfl⟩
  | _ => constructor <;> rintro ⟨⟩

theorem exists_isScalar_iff {es : List (String × Json)} {key : String} :
    (scalarText? (valueAt es key)).isSome = true ↔
      ∃ v, Entries.get? key es = some v ∧ v.IsScalar := by
  rw [isSome_scalarText?_iff, valueAt]
  cases Entries.get? key es with
  | none =>
      constructor
      · rintro ⟨⟩
      · rintro ⟨v, ⟨⟩, -⟩
  | some v => simp

theorem isPlain_of_isScalar {v : Json} (h : v.IsScalar) : v.isPlain = true := by
  cases h <;> rfl

/-- The text of a scalar, without the blanks at its ends. -/
theorem trim_requiredText {es : List (String × Json)} {key : String} {v : Json}
    (hv : Entries.get? key es = some v) (h : v.IsScalar) :
    Text.trim (requiredText es key) = Text.trim v.asText := by
  rw [requiredText, valueAt, hv]
  cases h with
  | text hs =>
      have htext : scalarText? (.text _) = some (Text.trim _) := if_neg (Bool.eq_false_iff.mp hs)
      rw [Option.getD_some, htext]
      exact (Text.isTrimmed_trim hs).trim_eq
  | number n => rfl
  | bool b => rfl

theorem isSome_ofPhrase?_iff {phrase : String} :
    (Combinator.ofPhrase? phrase).isSome = true ↔
      Text.sameIgnoringCase (Text.trim phrase) "AND" = true ∨
        Text.sameIgnoringCase (Text.trim phrase) "OR" = true := by
  simp [Combinator.ofPhrase?, Combinator.name]

theorem forall_entryChecks_iff {es : List (String × Json)} :
    (∀ c ∈ entryChecks es, c.holds = true) ↔ TabularMetadata es := by
  simp only [entryChecks, shapeCheck, presenceCheck, combinatorCheck, List.forall_mem_append,
    List.forall_mem_cons, List.not_mem_nil, false_imp_iff, implies_true, and_true,
    exists_isScalar_iff, isPlain_valueAt_iff, isSome_ofPhrase?_iff]
  constructor
  · rintro ⟨⟨⟨⟨⟨⟨-, hid⟩, -, v, hv, hscalar⟩, hphrase⟩, hclass⟩, hversion⟩, haction⟩
    rw [trim_requiredText hv hscalar] at hphrase
    refine ⟨hid, ⟨v, hv, hscalar, hphrase⟩, fun key hkey => ?_⟩
    simp only [List.mem_cons, List.not_mem_nil, or_false] at hkey
    obtain rfl | rfl | rfl := hkey
    · exact hclass
    · exact hversion
    · exact haction
  · rintro ⟨⟨u, hu, huscalar⟩, ⟨v, hv, hscalar, hphrase⟩, hoptional⟩
    have hplain : ∀ {key v}, Entries.get? key es = some v → v.IsScalar →
        ∀ w, Entries.get? key es = some w → w.isPlain = true := by
      intro key v hv hscalar w hw
      obtain rfl : v = w := Option.some.inj (hv.symm.trans hw)
      exact isPlain_of_isScalar hscalar
    rw [trim_requiredText hv hscalar]
    exact ⟨⟨⟨⟨⟨⟨hplain hu huscalar, u, hu, huscalar⟩, hplain hv hscalar, v, hv, hscalar⟩, hphrase⟩,
      hoptional _ (by decide)⟩, hoptional _ (by decide)⟩, hoptional _ (by decide)⟩

/-! ### Rows -/

theorem isSome_columnKind?_iff {key : String} :
    (columnKind? key).isSome = true ↔
      Text.startsWith key "Condition_" = true ∨ Text.startsWith key "Action_" = true := by
  rw [columnKind?]
  cases Text.startsWith key "Condition_" <;> cases Text.startsWith key "Action_" <;> simp

theorem forall_indexChecks_iff {position : Nat} {row : List (String × Json)} :
    (∀ c ∈ indexChecks position row, c.holds = true) ↔
      ∃ v, Entries.get? "Index" row = some v ∧ v.isIndex = true := by
  rw [indexChecks, valueAt]
  cases Entries.get? "Index" row with
  | none => simp [Json.isNull]
  | some v => cases v <;> simp [Json.isNull, Json.isIndex]

theorem forall_cellChecks_iff {position : Nat} {row : List (String × Json)} :
    (∀ c ∈ cellChecks position row, c.holds = true) ↔
      ∀ key v, (key, v) ∈ row →
        Text.startsWith key "Condition_" = true ∨ Text.startsWith key "Action_" = true →
        v.isPlain = true := by
  simp only [cellChecks, List.forall_mem_map, List.mem_filter, isSome_columnKind?_iff, and_imp,
    Prod.forall]

theorem forall_rowChecks_iff {position : Nat} {v : Json} :
    (∀ c ∈ rowChecks position v, c.holds = true) ↔ TabularRow v := by
  rw [rowChecks, List.forall_mem_cons, List.forall_mem_append, forall_indexChecks_iff,
    forall_cellChecks_iff]
  cases v with
  | object row =>
      constructor
      · rintro ⟨-, hindex, hcells⟩
        exact .object hindex hcells
      · rintro ⟨hindex, hcells⟩
        exact ⟨rfl, hindex, hcells⟩
  | _ =>
      constructor
      · rintro ⟨⟨⟩, -⟩
      · rintro ⟨⟩

theorem forall_rowsChecks_iff {position : Nat} {vs : List Json} :
    (∀ c ∈ rowsChecks position vs, c.holds = true) ↔ ∀ v ∈ vs, TabularRow v := by
  induction vs generalizing position with
  | nil => simp [rowsChecks]
  | cons v vs ih =>
      rw [rowsChecks, List.forall_mem_append, forall_rowChecks_iff, ih, List.forall_mem_cons]

/-! ### Documents -/

/-- **The checks of a document** pass exactly if it is tabular. -/
theorem forall_checks_iff {d : Json} : (∀ c ∈ checks d, c.holds = true) ↔ Tabular d := by
  rw [checks, metadataChecks, rulesChecks]
  simp only [List.cons_append, List.forall_mem_cons, List.forall_mem_append,
    forall_entryChecks_iff, forall_rowsChecks_iff]
  cases d with
  | object document =>
      constructor
      · rintro ⟨-, hm, hmetadata, hentries, hr, hrules, hrows⟩
        rw [Json.fields] at hm hmetadata hentries hr hrules hrows
        obtain ⟨m, hm⟩ := Option.isSome_iff_exists.mp hm
        obtain ⟨r, hr⟩ := Option.isSome_iff_exists.mp hr
        rw [valueAt, hm, Option.getD_some] at hmetadata hentries
        rw [valueAt, hr, Option.getD_some] at hrules hrows
        cases m with
        | object es =>
            cases r with
            | array rows => exact .object hm hentries hr hrows
            | _ => cases hrules
        | _ => cases hmetadata
      · rintro ⟨hm, hentries, hr, hrows⟩
        simp only [Json.fields, valueAt, hm, hr]
        exact ⟨rfl, rfl, rfl, hentries, rfl, rfl, hrows⟩
  | _ =>
      constructor
      · rintro ⟨⟨⟩, -⟩
      · rintro ⟨⟩

end Document

/-- **Documents.**  A value is accepted exactly if it is a tabular document.  A value that is not
gives the fault of the first check that it fails, in the order of the document, the section of
metadata with its entries, the section of rows, and row after row the shape, the index and the cells
from left to right; rows that are left out later are checked like the others.  What is accepted
gives the rule set of its table: the rules that are kept have the cells of their rows, as authored
and in the order of their keys. -/
theorem document_checked (d : Json) :
    ((∃ rs, RuleSet.ofDocument? d = .ok rs) ↔ Document.Tabular d) ∧
      (∀ e, RuleSet.ofDocument? d = .error e ↔
        ∃ before c after, Document.checks d = before ++ c :: after ∧
          (∀ b ∈ before, b.holds = true) ∧ c.holds = false ∧ c.fault = e) ∧
      ∀ rs, RuleSet.ofDocument? d = .ok rs → rs = Document.tableOf d ∧
        rs.rules.map Rule.contents =
          ((Document.rowItems d).filter fun v => RuleSet.isKept (Document.rowOf v)).map fun v =>
            (Document.cellsOf .condition v.fields, Document.cellsOf .action v.fields) := by
  refine ⟨?_, fun e => ?_, fun rs h => ?_⟩
  · rw [RuleSet.ofDocument?_eq_guard]
    simp only [Check.guard_eq_ok_iff, Document.forall_checks_iff, exists_and_left, exists_eq',
      and_true]
  · rw [RuleSet.ofDocument?_eq_guard]
    exact Check.guard_eq_error_iff
  · obtain rfl := RuleSet.eq_tableOf h
    refine ⟨rfl, ?_⟩
    rw [Document.tableOf, RuleSet.ofRows, RuleSet.map_contents_number, Document.rowsOf,
      List.filter_map, List.map_map]
    rfl

/-- The phrase of the combinator is the first fault; the version is looked at after it, and the rows
after the whole section of metadata. -/
example : RuleSet.ofDocument? (.object [("Rules", .array [.null]),
    ("Metadata", .object [("Version", .array []), ("ConditionsOperator", .text " xor "),
      ("Id", .bool true)])]) = .error (.unknownCombinator "xor") := rfl

end DecisionTable
