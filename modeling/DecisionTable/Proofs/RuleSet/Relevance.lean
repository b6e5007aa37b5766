import DecisionTable.RuleSet.Actions
import DecisionTable.RuleSet.Conditions

/-!
# RuleSet — Relevance

A rule set looks at the fields of its columns, and at the audit field if it records applied rules.
On facts that agree on these, its conditions and actions do the same.

* `Fact.AgreesOn`: two facts hold the same in all relevant fields, or lack them both.
* `RuleSet.Mentions`: the fields that a rule set looks at.
* `RuleSet.holds_congr`: a rule holds of both facts or of neither.
* `RuleSet.fire_congr`: a rule that is applied to both facts succeeds or fails alike, and they agree
  on what it leaves.
-/

namespace DecisionTable

/-! ### Facts that agree -/

namespace Fact

/-- Both facts have the same in every relevant field, be it nothing. -/
def AgreesOn (relevant : String → Prop) (f g : Fact) : Prop :=
  ∀ field, relevant field → f.get? field = g.get? field

namespace AgreesOn

variable {relevant : String → Prop} {f g : Fact}

/-- Writing the same value to both. -/
theorem insert (h : AgreesOn relevant f g) (field : String) (v : Json) :
    AgreesOn relevant (f.insert field v) (g.insert field v) := by
  intro other hr
  by_cases he : field = other
  · subst he
    rw [get?_insert_self, get?_insert_self]
  · rw [get?_insert_of_ne he, get?_insert_of_ne he]
    exact h other hr

/-- Recording a rule on both; what they hold under the audit field has to agree. -/
theorem record (h : AgreesOn relevant f g) {auditField : String} (hr : relevant auditField)
    (name : RuleName) :
    AgreesOn relevant (f.record auditField name) (g.record auditField name) := by
  rw [Fact.record, Fact.record, auditEntries_congr (h auditField hr)]
  exact h.insert auditField _

end AgreesOn

end Fact

namespace RuleSet

/-- The fields that a rule set looks at: those of its columns, and the audit field if it records
applied rules. -/
def Mentions (rs : RuleSet) (auditField field : String) : Prop :=
  (∃ column, rs.columns.fieldName? column = some field) ∨
    rs.metadata.recordsAppliedRules = true ∧ field = auditField

variable {rs : RuleSet} {relevant : String → Prop} {f g : Fact} {auditField : String}

/-! ### Conditions -/

theorem outcome_congr (h : f.AgreesOn relevant g)
    (hm : ∀ field, rs.Mentions auditField field → relevant field) (cell : Cell) :
    rs.outcome f cell = rs.outcome g cell := by
  rw [outcome, outcome]
  cases hf : rs.columns.fieldName? cell.column with
  | none => rfl
  | some field => rw [Option.bind_some, Option.bind_some, h field (hm field (.inl ⟨_, hf⟩))]

/-- **A rule** holds of both facts or of neither. -/
theorem holds_congr (h : f.AgreesOn relevant g)
    (hm : ∀ field, rs.Mentions auditField field → relevant field) (rule : Rule) :
    rs.holds rule f = rs.holds rule g := by
  rw [holds, holds, funext (outcome_congr h hm)]

/-! ### Actions -/

theorem target?_congr (h : f.AgreesOn relevant g)
    (hm : ∀ field, rs.Mentions auditField field → relevant field) (cell : Cell) :
    rs.target? f cell = rs.target? g cell := by
  rw [target?, target?]
  cases hf : rs.columns.fieldName? cell.column with
  | none => rfl
  | some field => simp [h field (hm field (.inl ⟨_, hf⟩))]

/-- A cell that writes the same value to both facts fails on both or on neither. -/
theorem write_congr (rs : RuleSet) (h : f.AgreesOn relevant g) (cell : Cell) (field : String)
    (current : Json) :
    (∃ err, rs.write cell field current f = .error err ∧
        rs.write cell field current g = .error err) ∨
      ∃ f' g', rs.write cell field current f = .ok f' ∧ rs.write cell field current g = .ok g' ∧
        f'.AgreesOn relevant g' := by
  rcases rs.write_cases cell field current with hw | ⟨op, hw⟩
  · exact .inr ⟨f, g, hw f, hw g, h⟩
  · rw [hw, hw]
    cases op.apply field current cell.text with
    | error err => exact .inl ⟨err, rfl, rfl⟩
    | ok v => exact .inr ⟨f.insert field v, g.insert field v, rfl, rfl, h.insert field v⟩

theorem audit_congr (h : f.AgreesOn relevant g)
    (hm : ∀ field, rs.Mentions auditField field → relevant field) (name : RuleName) :
    (rs.audit name auditField f).AgreesOn relevant (rs.audit name auditField g) := by
  rw [audit, audit]
  split
  · next hr => exact h.record (hm auditField (.inr ⟨hr, rfl⟩)) name
  · exact h

theorem applyCells_congr (h : f.AgreesOn relevant g)
    (hm : ∀ field, rs.Mentions auditField field → relevant field) (name : RuleName)
    (cells : List Cell) :
    (rs.applyCells name auditField cells f).result
        = (rs.applyCells name auditField cells g).result ∧
      (rs.applyCells name auditField cells f).fact.AgreesOn relevant
        (rs.applyCells name auditField cells g).fact := by
  induction cells generalizing f g with
  | nil => exact ⟨rfl, h⟩
  | cons cell cells ih =>
      rw [applyCells, applyCells, target?_congr h hm cell]
      cases rs.target? g cell with
      | none => exact ih h
      | some target =>
          obtain ⟨field, current⟩ := target
          rcases rs.write_congr h cell field current with
            ⟨err, hf, hg⟩ | ⟨f', g', hf, hg, hwritten⟩
          · simp only [hf, hg]
            exact ⟨trivial, h⟩
          · simp only [hf, hg]
            obtain ⟨hresult, hfact⟩ := ih (audit_congr hwritten hm name)
            exact ⟨by rw [hresult], hfact⟩

/-- **A rule that is applied** succeeds or fails alike, and leaves facts that agree. -/
theorem fire_congr (h : f.AgreesOn relevant g)
    (hm : ∀ field, rs.Mentions auditField field → relevant field) (rule : Rule) :
    (rs.fire rule auditField f).result = (rs.fire rule auditField g).result ∧
      (rs.fire rule auditField f).fact.AgreesOn relevant (rs.fire rule auditField g).fact :=
  applyCells_congr h hm _ rule.actions

end RuleSet

end DecisionTable
