import DecisionTable.Proofs.Snapshot.RoundTrip
import DecisionTable.Proofs.Table.Normalised
import DecisionTable.RuleSet.Conditions

/-!
# RuleSet — Authored rule sets

* `RuleSet.Authored`: the rule sets of a table of rows, of a draft or of a document.  Their columns
  are stated, so they are normalised.
* `RuleSet.authored_iff`: being authored is being numbered with normalised columns.
* `normalised_columns`: a snapshot is asked for the numbers alone, so it gives normalised columns
  exactly if it gives an authored rule set.  It need not: `decode_accepts_blank_field`.
-/

namespace DecisionTable

namespace RuleSet

namespace Draft

/-- The drafts that are stated step by step. -/
inductive Stated : Draft → Prop
  | ofId (id : String) : Stated (.ofId id)
  | className {d : Draft} (h : Stated d) (name : String) : Stated (d.className name)
  | version {d : Draft} (h : Stated d) (version : String) : Stated (d.version version)
  | combinator {d : Draft} (h : Stated d) (c : Combinator) : Stated (d.combinator c)
  | generalAction {d : Draft} (h : Stated d) (action : String) : Stated (d.generalAction action)
  | column {d : Draft} (h : Stated d) (column fieldName operator : String) :
      Stated (d.column column fieldName operator)
  | rule {d : Draft} (h : Stated d) (conditions actions : List Cell) :
      Stated (d.rule conditions actions)

/-- Only a column that is defined changes the table. -/
theorem Stated.columns {d : Draft} (h : d.Stated) : d.columns.Stated := by
  induction h with
  | ofId => exact ColumnTable.stated_empty
  | className _ _ ih | version _ _ ih | combinator _ _ ih | generalAction _ _ ih | rule _ _ _ ih =>
      exact ih
  | column _ column fieldName operator ih => exact ih.define column fieldName operator

end Draft

/-- The rule sets of a table under stated columns, of a draft or of a document. -/
inductive Authored : RuleSet → Prop
  | rows {columns : ColumnTable} (h : columns.Stated) (metadata : Metadata) (rows : List Rule) :
      Authored (ofRows metadata columns rows)
  | built {d : Draft} (h : d.Stated) : Authored d.build
  | read {document : Json} {rs : RuleSet} (h : ofDocument? document = .ok rs) : Authored rs

variable {rs : RuleSet}

theorem Authored.stated (h : rs.Authored) : rs.columns.Stated := by
  cases h with
  | rows hcolumns => exact hcolumns
  | built hd => exact hd.columns
  | read hread =>
      rw [eq_tableOf hread]
      exact .ofRows _

theorem Authored.made (h : rs.Authored) : rs.Made := by
  cases h with
  | rows _ metadata rows => exact .rows metadata _ rows
  | built _ => exact .built _
  | read hread => exact .read hread

/-- **The authored rule sets** are the numbered ones with normalised columns. -/
theorem authored_iff : rs.Authored ↔ rs.Numbered ∧ rs.columns.Normalised := by
  constructor
  · exact fun h => ⟨h.made.numbered, h.stated.normalised⟩
  · rintro ⟨hnumbered, hnormalised⟩
    rw [← ofRows_of_numbered hnumbered]
    exact .rows hnormalised.stated rs.metadata rs.rules

end RuleSet

/-- **Columns are normalised** in every authored rule set, and so no column reads a field of a blank
name.  A snapshot is accepted whatever its columns, and the rule set that it gives has normalised
columns exactly if it is one that could have been authored. -/
theorem normalised_columns (rs : RuleSet) :
    (rs.Authored → rs.columns.Normalised ∧
      ∀ column field, rs.columns.fieldName? column = some field → Text.isBlank field = false) ∧
    ∀ bs : List UInt8, Snapshot.decode bs = .ok rs → (rs.columns.Normalised ↔ rs.Authored) := by
  refine ⟨fun h => ?_, fun bs h => ?_⟩
  · have hnormalised := h.stated.normalised
    exact ⟨hnormalised, fun column field hf =>
      (hnormalised.isTrimmed_fieldName hf).isBlank_eq_false⟩
  · rw [RuleSet.authored_iff, and_iff_right (Snapshot.numbered_of_decode h)]

/-- A rule set whose column `c` compares a field that is named by one blank. -/
def RuleSet.blankField : RuleSet :=
  .ofRows (.ofId "a" .all) ⟨.ofList [("c", ⟨some " ", some "Equals"⟩)]⟩
    [⟨"1", [⟨"c", "u"⟩], [⟨"d", "y"⟩]⟩]

namespace RuleSet

theorem not_normalised_blankField : ¬ blankField.columns.Normalised := by
  intro hn
  have hf : blankField.columns.fieldName? "c" = some " " := rfl
  exact absurd (hn.isTrimmed_fieldName hf).isBlank_eq_false (by decide)

theorem decode_blankField :
    Snapshot.decode (Snapshot.frame (Payload.ofRuleSet blankField).encode) = .ok blankField :=
  Snapshot.decode_frame_of_numbered (by decide) (numbered_ofRows _ _ _)

end RuleSet

/-- A draft that names the field of a column by one blank leaves it undefined; a snapshot that does
so gives no authored rule set. -/
theorem normalised_columns_of_blank_name :
    (((RuleSet.Draft.ofId "a").column "c" " " "Equals").build.columns.Normalised ∧
      ((RuleSet.Draft.ofId "a").column "c" " " "Equals").build.columns.fieldName? "c" = none) ∧
    ¬ RuleSet.blankField.Authored := by
  have hstated : ((RuleSet.Draft.ofId "a").column "c" " " "Equals").Stated :=
    (RuleSet.Draft.Stated.ofId "a").column "c" " " "Equals"
  obtain ⟨hnormalised, -⟩ := (normalised_columns _).1 (.built hstated)
  have hiff := (normalised_columns .blankField).2 _ RuleSet.decode_blankField
  exact ⟨⟨hnormalised, rfl⟩, fun h => RuleSet.not_normalised_blankField (hiff.mpr h)⟩

/-- The fact whose only field is named by one blank. -/
def Fact.onlyBlank : Fact :=
  Fact.empty.insert " " (.text "u")

/-- A snapshot with a blank field is accepted, and the blank is the name of a field. -/
theorem decode_accepts_blank_field :
    Snapshot.decode (Snapshot.frame (Payload.ofRuleSet .blankField).encode) = .ok .blankField ∧
      ¬ RuleSet.blankField.columns.Normalised ∧
      ∀ rule ∈ RuleSet.blankField.rules, RuleSet.blankField.holds rule .onlyBlank = true := by
  refine ⟨RuleSet.decode_blankField, RuleSet.not_normalised_blankField, fun rule hrule => ?_⟩
  obtain rfl := List.mem_singleton.mp hrule
  rfl

end DecisionTable
