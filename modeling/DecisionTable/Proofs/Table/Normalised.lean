import DecisionTable.Table.Columns
import Mathlib.Data.List.DropRight

/-!
# Table — Normalised columns

Blank definitions count as undefined, and the others stand without blanks at their ends.

* `Text.IsTrimmed`: texts with a first and a last character that are no blanks, which are those
  that `nonBlank?` gives, and keeps as they are.
* `ColumnTable.Normalised`: every field and every operator of a column is such a text.
* `ColumnTable.Stated`: the tables that are read off rows, with definitions added.  These are
  exactly the normalised tables (`ColumnTable.normalised_iff_stated`).
-/

namespace DecisionTable

namespace Text

/-- Not empty, and without blanks at either end. -/
structure IsTrimmed (s : String) : Prop where
  first : ∃ c, s.toList.head? = some c ∧ isBlankChar c = false
  last : ∃ c, s.toList.getLast? = some c ∧ isBlankChar c = false

theorem trimEnd_eq_rdropWhile (cs : List Char) : trimEnd cs = cs.rdropWhile isBlankChar := rfl

/-- What is left of a text that is not blank has no blanks at its ends. -/
theorem isTrimmed_trim {s : String} (h : isBlank s = false) : IsTrimmed (trim s) := by
  have hne : trimChars s.toList ≠ [] := by
    rw [Ne, trimChars_eq_nil_iff]
    exact Bool.eq_false_iff.mp h
  have hrest : s.toList.dropWhile isBlankChar ≠ [] := by
    intro hnil
    rw [trimChars, hnil] at hne
    exact hne rfl
  constructor
  · refine ⟨_, ?_, List.head_dropWhile_not isBlankChar hrest⟩
    have hpre : trimChars s.toList <+: s.toList.dropWhile isBlankChar :=
      List.rdropWhile_prefix isBlankChar _
    rw [toList_trim, List.head?_eq_some_head hne, hpre.head hne]
  · refine ⟨_, ?_, Bool.eq_false_iff.mpr (List.rdropWhile_last_not isBlankChar _ hne)⟩
    rw [toList_trim]
    exact List.getLast?_eq_some_getLast hne

theorem isTrimmed_of_nonBlank? {s t : String} (h : nonBlank? s = some t) : IsTrimmed t := by
  rw [nonBlank?] at h
  split at h
  · cases h
  · next hb =>
    obtain rfl := Option.some.inj h
    exact isTrimmed_trim (Bool.eq_false_iff.mpr hb)

namespace IsTrimmed

variable {s : String}

theorem isBlank_eq_false (h : IsTrimmed s) : isBlank s = false := by
  obtain ⟨c, hc, hblank⟩ := h.first
  obtain ⟨cs, hs⟩ := List.head?_eq_some_iff.mp hc
  rw [isBlank, hs, List.all_cons, hblank, Bool.false_and]

theorem trim_eq (h : IsTrimmed s) : trim s = s := by
  obtain ⟨c, hc, hfirst⟩ := h.first
  obtain ⟨cs, hs⟩ := List.head?_eq_some_iff.mp hc
  obtain ⟨d, hd, hlast⟩ := h.last
  have hdrop : s.toList.dropWhile isBlankChar = s.toList := by
    rw [hs, List.dropWhile_cons_of_neg (Bool.eq_false_iff.mp hfirst)]
  have hdropEnd : s.toList.rdropWhile isBlankChar = s.toList := by
    refine List.rdropWhile_eq_self_iff.mpr fun hne => ?_
    rw [List.getLast?_eq_some_getLast hne] at hd
    rw [Option.some.inj hd]
    exact Bool.eq_false_iff.mp hlast
  rw [trim, trimChars, hdrop, trimEnd_eq_rdropWhile, hdropEnd, String.ofList_toList]

/-- A definition that is trimmed is kept as it is. -/
theorem nonBlank?_eq (h : IsTrimmed s) : nonBlank? s = some s := by
  rw [nonBlank?, h.isBlank_eq_false, h.trim_eq]
  rfl

end IsTrimmed

end Text

/-! ### Columns -/

/-- What is defined is trimmed. -/
structure Column.Normalised (c : Column) : Prop where
  fieldName : ∀ s, c.fieldName = some s → Text.IsTrimmed s
  operator : ∀ s, c.operator = some s → Text.IsTrimmed s

/-- A column of any two definitions is normalised once blanks are dropped. -/
theorem Column.normalised_nonBlank? (fieldName operator : Option String) :
    (Column.mk (fieldName.bind Text.nonBlank?) (operator.bind Text.nonBlank?)).Normalised := by
  constructor
  all_goals
    intro s h
    obtain ⟨t, -, ht⟩ := Option.bind_eq_some_iff.mp h
    exact Text.isTrimmed_of_nonBlank? ht

theorem Text.nonBlank?_empty : nonBlank? "" = none := rfl

/-- A normalised definition is the one that its own text gives, and no definition is what the empty
text gives. -/
theorem Text.nonBlank?_getD {d : Option String} (h : ∀ s, d = some s → IsTrimmed s) :
    nonBlank? (d.getD "") = d := by
  cases d with
  | none => exact nonBlank?_empty
  | some s => exact (h s rfl).nonBlank?_eq

/-! ### Tables of columns -/

namespace ColumnTable

variable {t : ColumnTable}

/-- Every column is normalised. -/
def Normalised (t : ColumnTable) : Prop :=
  ∀ key c, t.columns.get? key = some c → c.Normalised

theorem normalised_ofRows (rows : List Rule) : (ofRows rows).Normalised := by
  intro key c h
  have hmem := SortedMap.mem_of_mem_ofList (SortedMap.get?_eq_some_iff.mp h)
  obtain ⟨column, -, heq⟩ := List.mem_map.mp hmem
  obtain ⟨rfl, rfl⟩ := Prod.mk.inj heq
  exact Column.normalised_nonBlank? _ _

theorem Normalised.insert (ht : t.Normalised) (key : String) {c : Column} (hc : c.Normalised) :
    (ColumnTable.mk (t.columns.insert key c)).Normalised := by
  intro other d h
  by_cases hk : key = other
  · subst hk
    rw [SortedMap.get?_insert_self] at h
    exact Option.some.inj h ▸ hc
  · rw [SortedMap.get?_insert_of_ne hk] at h
    exact ht other d h

theorem Normalised.define (ht : t.Normalised) (column fieldName operator : String) :
    (t.define column fieldName operator).Normalised :=
  ht.insert column (Column.normalised_nonBlank? (some fieldName) (some operator))

/-- A column that has a field has one whose name is trimmed. -/
theorem Normalised.isTrimmed_fieldName (ht : t.Normalised) {column field : String}
    (h : t.fieldName? column = some field) : Text.IsTrimmed field := by
  obtain ⟨c, hc, hfield⟩ := Option.bind_eq_some_iff.mp h
  exact (ht column c hc).fieldName field hfield

/-- The tables that are read off rows, with any number of definitions added. -/
inductive Stated : ColumnTable → Prop
  | ofRows (rows : List Rule) : Stated (ofRows rows)
  | define {t : ColumnTable} (h : Stated t) (column fieldName operator : String) :
      Stated (t.define column fieldName operator)

theorem Stated.normalised (h : t.Stated) : t.Normalised := by
  induction h with
  | ofRows rows => exact normalised_ofRows rows
  | define _ column fieldName operator ih => exact ih.define column fieldName operator

theorem stated_empty : empty.Stated :=
  .ofRows []

/-- Writing a normalised column is defining it. -/
theorem Stated.insert (h : t.Stated) (key : String) {c : Column} (hc : c.Normalised) :
    (ColumnTable.mk (t.columns.insert key c)).Stated := by
  have hdefine := h.define key (c.fieldName.getD "") (c.operator.getD "")
  rwa [ColumnTable.define, Text.nonBlank?_getD hc.fieldName, Text.nonBlank?_getD hc.operator]
    at hdefine

/-- A normalised table is stated by defining its columns one after another. -/
theorem Normalised.stated (h : t.Normalised) : t.Stated := by
  have hstated : (ColumnTable.mk (.ofList t.columns.entries)).Stated :=
    SortedMap.ofList_induction (P := fun m => (ColumnTable.mk m).Stated) stated_empty
      fun m hm e he => hm.insert e.1 (h e.1 e.2 (SortedMap.get?_eq_some_iff.mpr he))
  rwa [SortedMap.ofList_entries] at hstated

/-- **The normalised tables** are those that can be stated. -/
theorem normalised_iff_stated : t.Normalised ↔ t.Stated :=
  ⟨Normalised.stated, Stated.normalised⟩

end ColumnTable

end DecisionTable
