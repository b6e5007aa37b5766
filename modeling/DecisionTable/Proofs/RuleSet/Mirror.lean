import DecisionTable.Proofs.Action.Operator
import DecisionTable.Proofs.RuleSet.Sequence

/-!
# RuleSet — The mirror of a rule set

Sums and differences can be taken back: the mirror of a rule set takes away what the rule set adds,
and adds what it takes away.

* `Action.Operator.mirror`, `RuleSet.mirror`: `Increase` and `Decrease` exchanged, in the
  definitions of the columns.  An operator and its mirror undo each other
  (`Action.Operator.apply_mirror`).
* `RuleSet.applyCells_mirror`: a cell that succeeded is undone by the mirror, and cells that
  succeeded are undone in the reverse order.
* `undone_by_mirror`: the same of rules.
-/

namespace DecisionTable

/-! ### Values changed and put back -/

namespace Entries

variable {α β : Type}

theorem get?_map (f : α → β) (name : String) (es : List (String × α)) :
    get? name (es.map fun e => (e.1, f e.2)) = (get? name es).map f := by
  induction es with
  | nil => rfl
  | cons e es ih =>
      by_cases h : e.1 = name
      · simp [get?, h]
      · simp [get?, h, ih]

/-- An overwritten value, put back. -/
theorem put_put_of_get? {name : String} {value : α} {es : List (String × α)}
    (h : get? name es = some value) (other : α) : put name value (put name other es) = es := by
  induction es with
  | nil => cases h
  | cons e es ih =>
      obtain ⟨n, v⟩ := e
      by_cases hn : n = name
      · rw [get?, if_pos hn] at h
        cases h
        simp [put, hn]
      · rw [get?, if_neg hn] at h
        simp [put, hn, ih h]

end Entries

/-- The map with a function applied to its values. -/
def SortedMap.mapValues {α β : Type} (f : α → β) (m : SortedMap α) : SortedMap β :=
  ⟨m.entries.map fun e => (e.1, f e.2), List.pairwise_map.mpr m.sorted⟩

theorem SortedMap.get?_mapValues {α β : Type} (f : α → β) (m : SortedMap α) (key : String) :
    (m.mapValues f).get? key = (m.get? key).map f :=
  Entries.get?_map f key m.entries

/-- An overwritten field, put back: the fact is as it was, the order of its fields included. -/
theorem Fact.insert_insert_of_get? {f : Fact} {field : String} {v : Json}
    (h : f.get? field = some v) (w : Json) : (f.insert field w).insert field v = f := by
  obtain ⟨fields, hdistinct⟩ := f
  simp only [insert, Entries.put_put_of_get? h w]

/-! ### Operators and columns -/

namespace Action.Operator

/-- The operator that takes back what an operator adds; `Set` is its own. -/
def mirror : Operator → Operator
  | .set => .set
  | .increase => .decrease
  | .decrease => .increase

/-- Exchanges the phrases of `Increase` and `Decrease`.  Any other phrase stays. -/
def mirrorPhrase (phrase : String) : String :=
  match ofPhrase? phrase with
  | some .increase => decrease.name
  | some .decrease => increase.name
  | _ => phrase

theorem ofPhrase?_name (op : Operator) : ofPhrase? op.name = some op := by
  cases op <;> decide

theorem ofPhrase?_mirrorPhrase (phrase : String) :
    ofPhrase? (mirrorPhrase phrase) = (ofPhrase? phrase).map mirror := by
  rw [mirrorPhrase]
  cases h : ofPhrase? phrase with
  | none => exact h
  | some op =>
      cases op with
      | set => exact h
      | increase => exact ofPhrase?_name .decrease
      | decrease => exact ofPhrase?_name .increase

theorem mirror_ne_set {op : Operator} (h : op ≠ .set) : op.mirror ≠ .set := by
  cases op with
  | set => exact absurd rfl h
  | increase | decrease => decide

theorem signed_mirror (op : Operator) (n : Int) : op.mirror.signed n = -op.signed n := by
  cases op <;> simp [mirror, signed]

/-- **An operator is undone** by its mirror, with the same cell. -/
theorem apply_mirror {op : Operator} (h : op ≠ .set) {field text : String} {current v : Json}
    (hv : op.apply field current text = .ok v) : op.mirror.apply field v text = .ok current := by
  obtain ⟨a, b, w, rfl, htext, hw, rfl⟩ := (apply_eq_ok_iff h).mp hv
  refine (apply_eq_ok_iff (mirror_ne_set h)).mpr ⟨w, b, a, rfl, htext, ?_, rfl⟩
  rw [signed_mirror, hw]
  omega

end Action.Operator

/-- The column with `Increase` and `Decrease` exchanged. -/
def Column.mirror (c : Column) : Column :=
  { c with operator := c.operator.map Action.Operator.mirrorPhrase }

namespace RuleSet

/-- The rule set with `Increase` and `Decrease` exchanged in its columns. -/
def mirror (rs : RuleSet) : RuleSet :=
  { rs with columns := ⟨rs.columns.columns.mapValues Column.mirror⟩ }

variable {rs : RuleSet} {auditField : String} {cell : Cell} {cells : List Cell} {fact left : Fact}
  {name : RuleName} {n : Nat}

theorem fieldName?_mirror (rs : RuleSet) (column : String) :
    rs.mirror.columns.fieldName? column = rs.columns.fieldName? column := by
  rw [mirror, ColumnTable.fieldName?, ColumnTable.fieldName?, SortedMap.get?_mapValues]
  cases rs.columns.columns.get? column <;> rfl

theorem operator?_mirror (rs : RuleSet) (cell : Cell) :
    rs.mirror.operator? cell = (rs.operator? cell).map Action.Operator.mirror := by
  rw [mirror, operator?, operator?, ColumnTable.operator?, ColumnTable.operator?,
    SortedMap.get?_mapValues]
  cases rs.columns.columns.get? cell.column with
  | none => rfl
  | some c =>
      obtain ⟨fieldName, operator⟩ := c
      cases operator with
      | none => rfl
      | some phrase =>
          simp only [Option.map_some, Option.bind_some, Column.mirror,
            Action.Operator.ofPhrase?_mirrorPhrase]

theorem target?_mirror (rs : RuleSet) (fact : Fact) (cell : Cell) :
    rs.mirror.target? fact cell = rs.target? fact cell := by
  rw [target?, target?, fieldName?_mirror]

/-! ### Rules -/

/-- Nothing is recorded by a rule set that does not record applied rules. -/
theorem audit_of_silent (h : rs.metadata.recordsAppliedRules = false) (name : RuleName)
    (auditField : String) (fact : Fact) : rs.audit name auditField fact = fact := by
  simp [audit, h]

/-- One cell that succeeded is undone by the mirror. -/
theorem applyCells_mirror_singleton (hsilent : rs.metadata.recordsAppliedRules = false)
    (hop : rs.operator? cell ≠ some .set)
    (h : rs.applyCells name auditField [cell] fact = ⟨left, .ok n⟩) (otherField : String) :
    rs.mirror.applyCells name otherField [cell] left = ⟨fact, .ok n⟩ := by
  have hundone (undone : Fact) : rs.mirror.audit name otherField undone = undone :=
    audit_of_silent hsilent name otherField undone
  rw [← acts_iff] at h ⊢
  cases h with
  | passedOver ht => exact .passedOver (by rw [target?_mirror, ht])
  | idle ht hnone =>
      rw [audit_of_silent hsilent]
      have hidle : rs.mirror.Acts name otherField cell fact
          ⟨rs.mirror.audit name otherField fact, .ok 1⟩ :=
        .idle (by rw [target?_mirror, ht]) (by rw [operator?_mirror, hnone, Option.map_none])
      rwa [hundone] at hidle
  | @wrote field current v op ht hsome hv =>
      obtain ⟨hblank, hfield, hcurrent⟩ := target?_eq_some_iff.mp ht
      have hne : op ≠ .set := by
        rintro rfl
        exact hop hsome
      have ht' : rs.mirror.target? (fact.insert field v) cell = some (field, v) := by
        rw [target?_mirror]
        exact target?_eq_some_iff.mpr ⟨hblank, hfield, Fact.get?_insert_self fact field v⟩
      have hop' : rs.mirror.operator? cell = some op.mirror := by
        rw [operator?_mirror, hsome, Option.map_some]
      rw [audit_of_silent hsilent]
      have hwrote : rs.mirror.Acts name otherField cell (fact.insert field v)
          ⟨rs.mirror.audit name otherField ((fact.insert field v).insert field current), .ok 1⟩ :=
        .wrote ht' hop' (Action.Operator.apply_mirror hne hv)
      rwa [hundone, Fact.insert_insert_of_get? hcurrent] at hwrote

/-- **Cells that succeeded** are undone by the mirror, the last one first. -/
theorem applyCells_mirror (hsilent : rs.metadata.recordsAppliedRules = false)
    (hop : ∀ cell ∈ cells, rs.operator? cell ≠ some .set)
    (h : rs.applyCells name auditField cells fact = ⟨left, .ok n⟩) (otherField : String) :
    rs.mirror.applyCells name otherField cells.reverse left = ⟨fact, .ok n⟩ := by
  induction cells generalizing fact n with
  | nil =>
      cases h
      rfl
  | cons cell cells ih =>
      rw [applyCells_cons, Applied.andThen_eq_ok_iff] at h
      obtain ⟨between, k, m, hcell, hrest, rfl⟩ := h
      have hundone := applyCells_mirror_singleton hsilent (hop cell (.head _)) hcell otherField
      -- the mirror takes the other cells back first, and so comes to what the first cell left
      rw [List.reverse_cons, applyCells_append, Applied.andThen_eq_ok_iff]
      exact ⟨between, m, k, ih (fun c hc => hop c (.tail _ hc)) hrest, hundone, Nat.add_comm m k⟩

end RuleSet

/-- **A numeric rule is undone by its mirror.**  Take a rule set that does not record applied rules,
and a rule without `Set`: every action column has the operator `Increase` or `Decrease`, or none
that is known.  If the rule succeeds on a fact, then the mirror of the rule set, applied with the
actions in reverse order to the fact that was left, succeeds with the same number of actions that
are not passed over, and gives the fact back as it was. -/
theorem undone_by_mirror {rs : RuleSet} {rule : Rule} {auditField : String} {fact left : Fact}
    {n : Nat} (hsilent : rs.metadata.recordsAppliedRules = false)
    (hnumeric : ∀ cell ∈ rule.actions, rs.operator? cell ≠ some .set)
    (h : rs.fire rule auditField fact = ⟨left, .ok n⟩) :
    (∀ cell, rs.mirror.operator? cell = (rs.operator? cell).map Action.Operator.mirror) ∧
    ∀ otherField,
      rs.mirror.fire { rule with actions := rule.actions.reverse } otherField left
        = ⟨fact, .ok n⟩ :=
  ⟨rs.operator?_mirror, RuleSet.applyCells_mirror hsilent hnumeric h⟩

/-! ### Up to the greatest word -/

namespace RuleSet

/-- A rule that takes 2 away from a number and adds 3 to it, with an action that has no known
operator and one that has no field. -/
def adjustingRule : Rule :=
  ⟨"1", [], [⟨"d", "2"⟩, ⟨"i", " +3"⟩, ⟨"m", "7"⟩, ⟨"e", "9"⟩]⟩

/-- A rule set that does not record it. -/
def adjusting : RuleSet :=
  .ofRows (Metadata.ofId "a" .all)
    (((ColumnTable.empty.define "d" "x" "Decrease").define "i" "x" " increase").define
      "m" "y" "Multiply") [adjustingRule]

/-- A fact with a number under `x`. -/
def adjustedFact (x : Int64) : Fact :=
  (Fact.empty.insert "x" (.ofInt64 x)).insert "y" (.text "u")

end RuleSet

/-- The rule goes up to the greatest word, and its mirror takes that back.  The order counts: the
mirror of the first action would leave the words if it were applied first. -/
theorem undone_by_mirror_from_greatest_word :
    RuleSet.adjusting.metadata.recordsAppliedRules = false ∧
    (∀ cell ∈ RuleSet.adjustingRule.actions,
      RuleSet.adjusting.operator? cell ≠ some .set) ∧
    RuleSet.adjusting.fire RuleSet.adjustingRule "log" (RuleSet.adjustedFact 9223372036854775806)
      = ⟨RuleSet.adjustedFact 9223372036854775807, .ok 3⟩ ∧
    RuleSet.adjusting.mirror.fire
        { RuleSet.adjustingRule with actions := RuleSet.adjustingRule.actions.reverse } "log"
        (RuleSet.adjustedFact 9223372036854775807)
      = ⟨RuleSet.adjustedFact 9223372036854775806, .ok 3⟩ ∧
    (RuleSet.adjusting.mirror.fire RuleSet.adjustingRule "log"
      (RuleSet.adjustedFact 9223372036854775807)).result = .error (.overflow "x") := by
  have hnumeric : ∀ cell ∈ RuleSet.adjustingRule.actions,
      RuleSet.adjusting.operator? cell ≠ some .set := by decide
  have hfire : RuleSet.adjusting.fire RuleSet.adjustingRule "log"
      (RuleSet.adjustedFact 9223372036854775806)
        = ⟨RuleSet.adjustedFact 9223372036854775807, .ok 3⟩ := rfl
  exact ⟨rfl, hnumeric, hfire, (undone_by_mirror rfl hnumeric hfire).2 "log", rfl⟩

end DecisionTable
