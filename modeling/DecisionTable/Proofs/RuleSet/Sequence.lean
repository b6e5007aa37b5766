import DecisionTable.Proofs.RuleSet.Footprint

/-!
# RuleSet — Actions in sequence

A list of action cells does what its parts do, one after the other, each on the fact that the part
before it left.

* `RuleSet.Acts`: what one cell does to a fact.  It is passed over, it leaves its field alone for
  want of a known operator, it writes the field or it fails, and there is nothing else that
  `applyCells` does with one cell (`RuleSet.acts_iff`).
* `Applied.andThen`: one application and then, if it succeeded, another one on the fact it left.
* `RuleSet.applyCells_append`: cells that follow each other are applied in sequence.
* `RuleSet.exists_failing_cell`: if cells fail, then one of them does, on the fact that those before
  it left.
* `actions_compose`: the same of rules, with what a failure leaves.
-/

namespace DecisionTable

namespace RuleSet

/-! ### One cell -/

/-- The operator of an action cell. -/
def operator? (rs : RuleSet) (cell : Cell) : Option Action.Operator :=
  (rs.columns.operator? cell.column).bind Action.Operator.ofPhrase?

/-- The field under which the rule set records applied rules, if it does. -/
def RecordsAt (rs : RuleSet) (auditField field : String) : Prop :=
  rs.metadata.recordsAppliedRules = true ∧ field = auditField

/-- The cell is an action on a field: it is not blank, and its column has the operator and the
field. -/
structure ActsOn (rs : RuleSet) (cell : Cell) (op : Action.Operator) (field : String) : Prop where
  notBlank : cell.isBlank = false
  operator : rs.operator? cell = some op
  fieldName : rs.columns.fieldName? cell.column = some field

/-- What one action cell does to a fact. -/
inductive Acts (rs : RuleSet) (name : RuleName) (auditField : String) (cell : Cell) (fact : Fact) :
    Applied → Prop
  | passedOver (ht : rs.target? fact cell = none) : Acts rs name auditField cell fact ⟨fact, .ok 0⟩
  | idle {field : String} {current : Json} (ht : rs.target? fact cell = some (field, current))
      (hop : rs.operator? cell = none) :
      Acts rs name auditField cell fact ⟨rs.audit name auditField fact, .ok 1⟩
  | wrote {field : String} {current v : Json} {op : Action.Operator}
      (ht : rs.target? fact cell = some (field, current)) (hop : rs.operator? cell = some op)
      (hv : op.apply field current cell.text = .ok v) :
      Acts rs name auditField cell fact ⟨rs.audit name auditField (fact.insert field v), .ok 1⟩
  | failed {field : String} {current : Json} {op : Action.Operator} {err : ActionError}
      (ht : rs.target? fact cell = some (field, current)) (hop : rs.operator? cell = some op)
      (herr : op.apply field current cell.text = .error err) :
      Acts rs name auditField cell fact ⟨fact, .error err⟩

variable {rs : RuleSet} {name : RuleName} {auditField : String} {cell : Cell} {fact left : Fact}
  {field : String} {op : Action.Operator} {applied : Applied} {err : ActionError}

theorem write_eq (rs : RuleSet) (cell : Cell) (field : String) (current : Json) (fact : Fact) :
    rs.write cell field current fact = match rs.operator? cell with
      | some op => (op.apply field current cell.text).map (fact.insert field)
      | none => .ok fact := rfl

theorem acts_applyCells (rs : RuleSet) (name : RuleName) (auditField : String) (cell : Cell)
    (fact : Fact) :
    rs.Acts name auditField cell fact (rs.applyCells name auditField [cell] fact) := by
  rw [applyCells]
  cases ht : rs.target? fact cell with
  | none => exact .passedOver ht
  | some target =>
      obtain ⟨field, current⟩ := target
      cases hop : rs.operator? cell with
      | none =>
          simp only [write_eq, hop]
          exact .idle ht hop
      | some op =>
          simp only [write_eq, hop]
          cases hv : op.apply field current cell.text with
          | ok v => exact .wrote ht hop hv
          | error err => exact .failed ht hop hv

/-- **One cell** does this, and nothing else. -/
theorem acts_iff : rs.Acts name auditField cell fact applied ↔
    rs.applyCells name auditField [cell] fact = applied := by
  constructor
  · intro h
    cases h with
    | passedOver ht => simp [applyCells, ht]
    | idle ht hop => simp [applyCells, ht, write_eq, hop, Except.map]
    | wrote ht hop hv => simp [applyCells, ht, write_eq, hop, hv, Except.map]
    | failed ht hop herr => simp [applyCells, ht, write_eq, hop, herr, Except.map]
  · rintro rfl
    exact rs.acts_applyCells name auditField cell fact

/-- A failing cell leaves the fact as it is. -/
theorem fact_eq_of_error (h : rs.applyCells name auditField [cell] fact = ⟨left, .error err⟩) :
    left = fact := by
  cases acts_iff.mpr h with
  | failed => rfl

theorem ActsOn.target?_eq (h : rs.ActsOn cell op field) {current : Json}
    (hc : fact.get? field = some current) : rs.target? fact cell = some (field, current) :=
  target?_eq_some_iff.mpr ⟨h.notBlank, h.fieldName, hc⟩

/-- An action on a field that the fact has. -/
theorem ActsOn.applyCells_eq (h : rs.ActsOn cell op field) {current : Json}
    (hc : fact.get? field = some current) (name : RuleName) (auditField : String) :
    rs.applyCells name auditField [cell] fact = match op.apply field current cell.text with
      | .ok v => ⟨rs.audit name auditField (fact.insert field v), .ok 1⟩
      | .error err => ⟨fact, .error err⟩ := by
  cases hv : op.apply field current cell.text with
  | ok v => exact acts_iff.mp (.wrote (h.target?_eq hc) h.operator hv)
  | error err => exact acts_iff.mp (.failed (h.target?_eq hc) h.operator hv)

/-- Recording a rule changes no field but the one where it is recorded. -/
theorem get?_audit (h : ¬ rs.RecordsAt auditField field) (name : RuleName) (fact : Fact) :
    (rs.audit name auditField fact).get? field = fact.get? field :=
  (rs.edits_audit name auditField fact).kept field h

end RuleSet

/-! ### One application after another -/

namespace Applied

/-- One application and then, if it succeeded, another one on the fact it left.  The actions that
were not passed over are counted together. -/
def andThen (a : Applied) (next : Fact → Applied) : Applied :=
  match a.result with
  | .ok n => ⟨(next a.fact).fact, (next a.fact).result.map (n + ·)⟩
  | .error _ => a

variable {a : Applied} {next : Fact → Applied} {left : Fact} {n : Nat} {err : ActionError}

@[simp] theorem andThen_ok (fact : Fact) (n : Nat) (next : Fact → Applied) :
    andThen ⟨fact, .ok n⟩ next = ⟨(next fact).fact, (next fact).result.map (n + ·)⟩ := rfl

@[simp] theorem andThen_error (fact : Fact) (err : ActionError) (next : Fact → Applied) :
    andThen ⟨fact, .error err⟩ next = ⟨fact, .error err⟩ := rfl

/-- An application that does nothing is followed by what comes then. -/
theorem andThen_ok_zero (fact : Fact) (next : Fact → Applied) :
    andThen ⟨fact, .ok 0⟩ next = next fact := by
  rw [andThen_ok]
  obtain ⟨left, result⟩ := next fact
  cases result with
  | ok n => simp [Except.map]
  | error err => rfl

theorem andThen_assoc (a : Applied) (next later : Fact → Applied) :
    (a.andThen next).andThen later = a.andThen fun fact => (next fact).andThen later := by
  obtain ⟨fact, result⟩ := a
  cases result with
  | error err => rfl
  | ok m =>
      simp only [andThen_ok]
      obtain ⟨between, result⟩ := next fact
      cases result with
      | error err => rfl
      | ok n =>
          simp only [Except.map, andThen_ok]
          obtain ⟨left, result⟩ := later between
          cases result with
          | error err => rfl
          | ok k => simp [Nat.add_assoc]

/-- A sequence succeeds if both parts do. -/
theorem andThen_eq_ok_iff : a.andThen next = ⟨left, .ok n⟩ ↔
    ∃ fact k m, a = ⟨fact, .ok k⟩ ∧ next fact = ⟨left, .ok m⟩ ∧ k + m = n := by
  constructor
  · intro h
    obtain ⟨fact, result⟩ := a
    cases result with
    | error err => cases h
    | ok k =>
        rw [andThen_ok] at h
        cases hnext : next fact with
        | mk between result =>
            rw [hnext] at h
            cases result with
            | error err => cases h
            | ok m =>
                cases h
                exact ⟨fact, k, m, rfl, hnext, rfl⟩
  · rintro ⟨fact, k, m, rfl, hnext, rfl⟩
    rw [andThen_ok, hnext]
    rfl

/-- A sequence fails where its first part does, or else where the second part does. -/
theorem andThen_eq_error_iff : a.andThen next = ⟨left, .error err⟩ ↔
    a = ⟨left, .error err⟩ ∨ ∃ fact k, a = ⟨fact, .ok k⟩ ∧ next fact = ⟨left, .error err⟩ := by
  obtain ⟨fact, result⟩ := a
  cases result with
  | error e => simp
  | ok k =>
      rw [andThen_ok]
      cases hnext : next fact with
      | mk between result => cases result <;> simp [Except.map, hnext]

end Applied

/-! ### Cells after cells -/

namespace RuleSet

variable {rs : RuleSet} {name : RuleName} {auditField : String} {fact left : Fact}
  {err : ActionError}

/-- The first cell, and then the others. -/
theorem applyCells_cons (rs : RuleSet) (name : RuleName) (auditField : String) (cell : Cell)
    (cells : List Cell) (fact : Fact) :
    rs.applyCells name auditField (cell :: cells) fact
      = (rs.applyCells name auditField [cell] fact).andThen
          (rs.applyCells name auditField cells) := by
  rw [applyCells, applyCells]
  cases rs.target? fact cell with
  | none => exact (Applied.andThen_ok_zero fact _).symm
  | some target =>
      obtain ⟨field, current⟩ := target
      simp only
      cases rs.write cell field current fact with
      | error err => rfl
      | ok written =>
          simp only [applyCells, Except.map, Applied.andThen_ok, Nat.zero_add, Nat.add_comm 1]

/-- **Cells that follow each other** are applied in sequence. -/
theorem applyCells_append (rs : RuleSet) (name : RuleName) (auditField : String)
    (before after : List Cell) (fact : Fact) :
    rs.applyCells name auditField (before ++ after) fact
      = (rs.applyCells name auditField before fact).andThen
          (rs.applyCells name auditField after) := by
  induction before generalizing fact with
  | nil => exact (Applied.andThen_ok_zero fact _).symm
  | cons cell before ih =>
      rw [List.cons_append, applyCells_cons, applyCells_cons rs name auditField cell before,
        Applied.andThen_assoc, funext ih]

/-- **Cells that fail**: one of them fails on the fact that those before it left, and leaves it as
it is. -/
theorem exists_failing_cell {cells : List Cell}
    (h : rs.applyCells name auditField cells fact = ⟨left, .error err⟩) :
    ∃ before cell after n, cells = before ++ cell :: after ∧
      rs.applyCells name auditField before fact = ⟨left, .ok n⟩ ∧
      rs.applyCells name auditField [cell] left = ⟨left, .error err⟩ := by
  induction cells generalizing fact with
  | nil => cases h
  | cons cell cells ih =>
      rw [applyCells_cons, Applied.andThen_eq_error_iff] at h
      rcases h with h | ⟨between, k, hcell, hrest⟩
      · obtain rfl := fact_eq_of_error h
        exact ⟨[], cell, cells, 0, rfl, rfl, h⟩
      · obtain ⟨before, failing, after, n, rfl, hbefore, hfailing⟩ := ih hrest
        refine ⟨cell :: before, failing, after, k + n, rfl, ?_, hfailing⟩
        rw [applyCells_cons, Applied.andThen_eq_ok_iff]
        exact ⟨between, k, n, hcell, hbefore, rfl⟩

/-- Cells behind a failing one have no effect. -/
theorem applyCells_of_failing_cell {before : List Cell} {cell : Cell} {n : Nat}
    (hbefore : rs.applyCells name auditField before fact = ⟨left, .ok n⟩)
    (hcell : rs.applyCells name auditField [cell] left = ⟨left, .error err⟩) (after : List Cell) :
    rs.applyCells name auditField (before ++ cell :: after) fact = ⟨left, .error err⟩ := by
  rw [applyCells_append, hbefore, Applied.andThen_eq_error_iff]
  refine .inr ⟨left, n, rfl, ?_⟩
  rw [applyCells_cons, hcell, Applied.andThen_error]

end RuleSet

/-- **Actions compose.**  Applying a rule with two lists of actions, one behind the other, is
applying it with the first list and then, only if that succeeded, with the second list to the fact
that was left; the actions that were not passed over are counted together.  So if a rule fails, one
of its actions does: the fact is what the successful actions before it leave, the failure is the one
that this action alone gives on that fact, and it makes no difference which actions come after
it. -/
theorem actions_compose (rs : RuleSet) (rule : Rule) (auditField : String) (fact : Fact) :
    (∀ before after : List Cell,
      rs.fire { rule with actions := before ++ after } auditField fact
        = (rs.fire { rule with actions := before } auditField fact).andThen
            (rs.fire { rule with actions := after } auditField)) ∧
    ∀ left err, rs.fire rule auditField fact = ⟨left, .error err⟩ →
      ∃ before cell after n, rule.actions = before ++ cell :: after ∧
        rs.fire { rule with actions := before } auditField fact = ⟨left, .ok n⟩ ∧
        rs.fire { rule with actions := [cell] } auditField left = ⟨left, .error err⟩ ∧
        ∀ others, rs.fire { rule with actions := before ++ cell :: others } auditField fact
          = ⟨left, .error err⟩ := by
  refine ⟨fun before after => rs.applyCells_append _ auditField before after fact, ?_⟩
  intro left err h
  obtain ⟨before, cell, after, n, hactions, hbefore, hcell⟩ := RuleSet.exists_failing_cell h
  exact ⟨before, cell, after, n, hactions, hbefore, hcell, fun others =>
    RuleSet.applyCells_of_failing_cell hbefore hcell others⟩

/-! ### A failure behind a success -/

namespace RuleSet

/-- A rule with three additions, the second of which is to a text. -/
def stumblingRule : Rule :=
  ⟨"1", [], [⟨"i", "1"⟩, ⟨"t", "1"⟩, ⟨"i", "1"⟩]⟩

/-- A rule set that records it. -/
def stumbling : RuleSet :=
  .ofRows { Metadata.ofId "a" .all with generalAction := some Metadata.setAppliedRules }
    ((ColumnTable.empty.define "i" "x" "Increase").define "t" "y" "Increase") [stumblingRule]

/-- A fact with a number under `x` and a text under `y`. -/
def stumblingFact : Fact :=
  (Fact.empty.insert "x" (.ofInt64 5)).insert "y" (.text "u")

end RuleSet

/-- The first addition and its record are kept, and the third one is not made. -/
theorem actions_compose_behind_success :
    ∃ left, RuleSet.stumbling.fire RuleSet.stumblingRule "log" RuleSet.stumblingFact
        = ⟨left, .error (.notAnInteger "y" "\"u\"")⟩ ∧
      left.get? "x" = some (.ofInt64 6) ∧
      left.get? "log" = some (.array [.text "RuleId:a RuleIndex:1"]) ∧
      ∃ before cell after n, RuleSet.stumblingRule.actions = before ++ cell :: after ∧
        RuleSet.stumbling.fire { RuleSet.stumblingRule with actions := before } "log"
            RuleSet.stumblingFact = ⟨left, .ok n⟩ ∧
        RuleSet.stumbling.fire { RuleSet.stumblingRule with actions := [cell] } "log" left
          = ⟨left, .error (.notAnInteger "y" "\"u\"")⟩ := by
  have hfire : ∃ left, RuleSet.stumbling.fire RuleSet.stumblingRule "log" RuleSet.stumblingFact
      = ⟨left, .error (.notAnInteger "y" "\"u\"")⟩ ∧ left.get? "x" = some (.ofInt64 6) ∧
        left.get? "log" = some (.array [.text "RuleId:a RuleIndex:1"]) := ⟨_, rfl, rfl, rfl⟩
  obtain ⟨left, hleft, hx, hlog⟩ := hfire
  obtain ⟨before, cell, after, n, hactions, hbefore, hcell, -⟩ :=
    (actions_compose RuleSet.stumbling RuleSet.stumblingRule "log" RuleSet.stumblingFact).2 left _
      hleft
  exact ⟨left, hleft, hx, hlog, before, cell, after, n, hactions, hbefore, hcell⟩

end DecisionTable
