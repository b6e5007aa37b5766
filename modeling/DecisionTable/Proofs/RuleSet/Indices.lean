import DecisionTable.Proofs.RuleSet.Numbered

/-!
# RuleSet — Rules and their indices

A table is turned into rules by dropping rows and numbering the others, and an index leads back to
its rule.

* `Rule.IsOrdinary`: the rows that become rules, by the characters of their index and of their
  action cells (`RuleSet.isKept_iff`).
* `RuleSet.rules_ofRows`: each rule has the cells of its row and the decimal of its position.
* `RuleSet.Numbered.rule?_eq_some_iff`: in a numbered rule set a text finds a rule exactly if it is
  the decimal of the position of that rule.
* `rows_renumbered`: which rules a table gives, which texts find them, and that numbering them again
  changes nothing.
-/

namespace DecisionTable

/-- A row without the mark in its index that has, in some action cell, a character other than a
blank. -/
def Rule.IsOrdinary (r : Rule) : Prop :=
  '#' ∉ r.index.toList ∧
    ∃ cell ∈ r.actions, ∃ c ∈ cell.text.toList, Text.isBlankChar c = false

instance (r : Rule) : Decidable r.IsOrdinary :=
  inferInstanceAs (Decidable (_ ∧ _))

/-- A text that is not blank has a character other than a blank. -/
theorem Text.isBlank_eq_false_iff {s : String} :
    isBlank s = false ↔ ∃ c ∈ s.toList, isBlankChar c = false := by
  rw [isBlank, List.all_eq_false]
  simp only [Bool.not_eq_true]

namespace RuleSet

theorem isKept_iff {r : Rule} : isKept r = true ↔ r.IsOrdinary := by
  simp [isKept, Rule.IsOrdinary, Rule.isDefinition, Rule.definitionMark, Rule.hasAction,
    Cell.isBlank, Text.isBlank_eq_false_iff]

theorem filter_isKept (rows : List Rule) :
    rows.filter isKept = rows.filter fun r => decide r.IsOrdinary := by
  refine congrArg (rows.filter ·) (funext fun r => ?_)
  rw [Bool.eq_iff_iff, isKept_iff, decide_eq_true_iff]

theorem length_rules_ofRows (metadata : Metadata) (columns : ColumnTable) (rows : List Rule) :
    (ofRows metadata columns rows).rules.length =
      (rows.filter fun r => decide r.IsOrdinary).length := by
  rw [ofRows, number, List.length_mapIdx, filter_isKept]

/-- The rule at a position has the cells of the row that is kept at this position. -/
theorem rules_ofRows (metadata : Metadata) (columns : ColumnTable) (rows : List Rule) (i : Nat) :
    (ofRows metadata columns rows).rules[i]? =
      (rows.filter fun r => decide r.IsOrdinary)[i]?.map fun r =>
        { r with index := Number.decimal (i + 1) } := by
  rw [ofRows, number, List.getElem?_mapIdx, filter_isKept]
  rfl

/-- Two positions with one index are equal. -/
theorem indexAt_inj {i j : Nat} (h : indexAt i = indexAt j) : i = j :=
  Nat.succ.inj (Number.decimal_inj h)

theorem Numbered.nodup_index {rs : RuleSet} (h : rs.Numbered) :
    (rs.rules.map Rule.index).Nodup := by
  have hindices : rs.rules.map Rule.index = (List.range rs.rules.length).map indexAt := by
    refine List.ext_getElem (by simp) fun i hi _ => ?_
    rw [List.length_map] at hi
    rw [List.getElem_map, List.getElem_map, List.getElem_range]
    exact (h i _ (List.getElem?_eq_getElem hi)).1
  rw [hindices]
  exact List.nodup_range.map fun i j hij => indexAt_inj hij

/-- **A rule is found** under the decimal of its position, and under no other text. -/
theorem Numbered.rule?_eq_some_iff {rs : RuleSet} (h : rs.Numbered) {index : String} {r : Rule} :
    rs.rule? index = some r ↔
      ∃ i : Nat, rs.rules[i]? = some r ∧ index = Number.decimal (i + 1) := by
  rw [rule?, find?_eq_some_iff_of_nodup h.nodup_index, List.mem_iff_getElem?]
  constructor
  · rintro ⟨⟨i, hi⟩, rfl⟩
    exact ⟨i, hi, (h i r hi).1⟩
  · rintro ⟨i, hi, rfl⟩
    exact ⟨⟨i, hi⟩, (h i r hi).1⟩

end RuleSet

/-- **Renumbering.**  A table gives one rule for each of its ordinary rows, in their order, with the
cells of the row and the decimal of its position among them, counted from 1.  A text finds the rule
whose position it is the decimal of, and any other text finds nothing.  The rule set of its own
rules is the same one. -/
theorem rows_renumbered (metadata : Metadata) (columns : ColumnTable) (rows : List Rule) :
    let kept := rows.filter fun r => decide r.IsOrdinary
    let rs := RuleSet.ofRows metadata columns rows
    rs.rules.length = kept.length ∧
      (∀ (i : Nat) (r : Rule), kept[i]? = some r →
        rs.rules[i]? = some { r with index := Number.decimal (i + 1) }) ∧
      (∀ text rule, rs.rule? text = some rule ↔
        ∃ i : Nat, rs.rules[i]? = some rule ∧ text = Number.decimal (i + 1)) ∧
      (∀ text, rs.rule? text = none ↔
        ∀ i : Nat, 1 ≤ i → i ≤ kept.length → text ≠ Number.decimal i) ∧
      RuleSet.ofRows metadata columns rs.rules = rs := by
  intro kept rs
  have hlength : rs.rules.length = kept.length := RuleSet.length_rules_ofRows metadata columns rows
  have hnumbered : rs.Numbered := RuleSet.numbered_ofRows metadata columns rows
  refine ⟨hlength, fun i r hr => ?_, fun text rule => hnumbered.rule?_eq_some_iff, fun text => ?_,
    RuleSet.ofRows_of_numbered hnumbered⟩
  · rw [RuleSet.rules_ofRows, hr]
    rfl
  · rw [Option.eq_none_iff_forall_ne_some]
    simp only [Ne, hnumbered.rule?_eq_some_iff, not_exists, not_and, ← hlength]
    constructor
    · intro h i hpos hle
      obtain ⟨j, rfl⟩ : ∃ j, i = j + 1 := ⟨i - 1, by omega⟩
      exact h _ j (List.getElem?_eq_getElem hle)
    · intro h r i hi
      have hlt : i < rs.rules.length := (List.getElem?_eq_some_iff.mp hi).1
      exact h (i + 1) (Nat.le_add_left 1 i) hlt

/-- A row of definitions and a row without an action are no rules, and a decimal has no leading
zero. -/
example :
    let rs := RuleSet.ofRows (.ofId "a" .all) .empty [⟨"#FieldName", [], [⟨"d", "x"⟩]⟩,
      ⟨"4", [], [⟨"d", " "⟩]⟩, ⟨"7", [], [⟨"d", "y"⟩]⟩]
    rs.rule? "1" = some ⟨"1", [], [⟨"d", "y"⟩]⟩ ∧ rs.rule? "01" = none ∧ rs.rule? "7" = none := by
  decide

end DecisionTable
