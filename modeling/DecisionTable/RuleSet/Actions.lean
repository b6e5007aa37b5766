import DecisionTable.Action.Operator
import DecisionTable.Fact.Audit

/-!
# RuleSet — Actions

Applying a rule to a fact.  The action cells take effect from left to right, each on the fact that
the earlier ones left; a blank cell, a column without field and a field that the fact lacks are
passed over.  If the rule set records applied rules, every action that was not passed over leaves
the entry of the rule under the audit field, where equal entries stand once.  The first failing
action ends the rule and leaves the fact as it found it.
-/

namespace DecisionTable

/-- What applying a rule leaves: the fact, and the number of actions that were not passed over or
the failure that ended the rule. -/
structure Applied where
  fact : Fact
  result : Except ActionError Nat

namespace RuleSet

/-- The field that an action cell targets and its value there, unless the cell is passed over. -/
def target? (rs : RuleSet) (fact : Fact) (cell : Cell) : Option (String × Json) :=
  if cell.isBlank then none
  else do
    let field ← rs.columns.fieldName? cell.column
    let current ← fact.get? field
    some (field, current)

/-- Stores the result of the column's operator; without a known one the fact stays. -/
def write (rs : RuleSet) (cell : Cell) (field : String) (current : Json) (fact : Fact) :
    Except ActionError Fact :=
  match (rs.columns.operator? cell.column).bind Action.Operator.ofPhrase? with
  | some op => (op.apply field current cell.text).map (fact.insert field)
  | none => .ok fact

/-- Records a rule on a fact, if the rule set asks for it. -/
def audit (rs : RuleSet) (name : RuleName) (auditField : String) (fact : Fact) : Fact :=
  if rs.metadata.recordsAppliedRules then fact.record auditField name else fact

/-- Applies action cells, recording them under the name of a rule. -/
def applyCells (rs : RuleSet) (name : RuleName) (auditField : String) :
    List Cell → Fact → Applied
  | [], fact => ⟨fact, .ok 0⟩
  | cell :: cells, fact =>
    match rs.target? fact cell with
    | none => applyCells rs name auditField cells fact
    | some (field, current) =>
      match rs.write cell field current fact with
      | .error e => ⟨fact, .error e⟩
      | .ok written =>
        let rest := applyCells rs name auditField cells (rs.audit name auditField written)
        ⟨rest.fact, rest.result.map (· + 1)⟩

/-- Applies the actions of a rule, without asking for its conditions. -/
def fire (rs : RuleSet) (rule : Rule) (auditField : String) (fact : Fact) : Applied :=
  rs.applyCells (.ofRule rs rule) auditField rule.actions fact

/-- A column without a known operator keeps any fact, and the others store what their operator
gives. -/
theorem write_cases (rs : RuleSet) (cell : Cell) (field : String) (current : Json) :
    (∀ fact, rs.write cell field current fact = .ok fact) ∨
      ∃ op : Action.Operator, ∀ fact, rs.write cell field current fact
        = (op.apply field current cell.text).map (fact.insert field) := by
  unfold write
  cases (rs.columns.operator? cell.column).bind Action.Operator.ofPhrase? with
  | none => exact .inl fun _ => rfl
  | some op => exact .inr ⟨op, fun _ => rfl⟩

/-- A write keeps the fact or stores a value that an operator gives. -/
theorem of_write {rs : RuleSet} {cell : Cell} {field : String} {current : Json}
    {fact written : Fact} (h : rs.write cell field current fact = .ok written) :
    written = fact ∨ ∃ (op : Action.Operator) (v : Json),
      op.apply field current cell.text = .ok v ∧ written = fact.insert field v := by
  rcases rs.write_cases cell field current with hw | ⟨op, hw⟩
  · rw [hw] at h
    exact .inl (Except.ok.inj h).symm
  · rw [hw] at h
    cases hv : op.apply field current cell.text with
    | error err =>
        rw [hv] at h
        cases h
    | ok v =>
        rw [hv] at h
        exact .inr ⟨op, v, hv, (Except.ok.inj h).symm⟩

end RuleSet

end DecisionTable
