import DecisionTable.Proofs.Action.Operator
import DecisionTable.Proofs.Coercion
import DecisionTable.Proofs.RuleSet.Sequence
import DecisionTable.RuleSet.Conditions

/-!
# RuleSet — Assignments

A `Set` stores a cell in the type that the field has, and a condition compares a field in the type
that its own cell appears to have.  The two agree: after the `Set`, the field equals the cell.

* `Literal.compareValue_of_set`: what a `Set` stores is equal to its cell, taken as a literal.
* `RuleSet.get?_of_set`: the value is in the field after the `Set`, and later actions of the rule
  that do not target the field leave it there.
* `set_establishes_equals`: so conditions with the text of the cell pass.
-/

namespace DecisionTable

/-! ### Literals -/

namespace Literal

/-- A literal is equal to its own text, in whatever type it reads as. -/
theorem compareValue_text (s : String) : compareValue ⟨s⟩ (.text s) = .eq := by
  rw [compareValue, kind]
  cases hword : Text.int64? s with
  | some n => simp [Json.asInt64?, hword]
  | none =>
      cases hnumber : Text.binary64? s with
      | some x => simp [Json.asBinary64?, hnumber, Number.Binary64.compare_eq_compare_signedUnits]
      | none =>
          cases hbool : Text.bool? s with
          | some b => cases b <;> simp [Json.asBool?, hbool]
          | none => simp [compareText, Json.asText]

/-- A literal is equal to the truth value that it reads as. -/
theorem compareValue_bool {s : String} {b : Bool} (h : Text.bool? s = some b) :
    compareValue ⟨s⟩ (.bool b) = .eq := by
  obtain ⟨hword, hnumber⟩ := Text.not_number_of_bool? h
  simp only [compareValue, kind, hword, hnumber, h, Json.asBool?]
  cases b <;> rfl

/-- **A literal is equal to what it sets**, whatever the field held. -/
theorem compareValue_of_set {field s : String} {current v : Json}
    (h : Action.Operator.apply .set field current s = .ok v) : compareValue ⟨s⟩ v = .eq := by
  rcases Action.Operator.apply_set_eq_ok_iff.mp h with ⟨a, b, -, hb, rfl⟩ | ⟨-, rfl⟩
  · exact compareValue_bool hb
  · exact compareValue_text s

end Literal

/-- A condition passes on a value that is equal to its literal, if the operator admits equality. -/
theorem Condition.outcome_of_compareValue {c : Comparison} {s : String} {v : Json}
    (hc : c ∈ [.equals, .greaterThanOrEqual, .lessThanOrEqual]) (hblank : Text.isBlank s = false)
    (h : Literal.compareValue ⟨s⟩ v = .eq) :
    outcome ⟨some (.comparison c), ⟨s⟩⟩ (some v) = .passed := by
  have haccepts : c.accepts .eq = true := by
    revert hc
    cases c <;> decide
  simp [outcome, Literal.isBlank, hblank, Literal.test, h, haccepts]

/-! ### Rules -/

namespace RuleSet

variable {rs : RuleSet} {name : RuleName} {auditField field : String} {cell : Cell}
  {cells : List Cell} {fact left : Fact} {n : Nat}

/-- A `Set` that succeeds leaves its value in the field. -/
theorem get?_of_set (hset : rs.ActsOn cell .set field) (haudit : ¬ rs.RecordsAt auditField field)
    {current : Json} (hc : fact.get? field = some current)
    (h : rs.applyCells name auditField [cell] fact = ⟨left, .ok n⟩) :
    ∃ v, Action.Operator.apply .set field current cell.text = .ok v ∧
      left.get? field = some v := by
  rw [hset.applyCells_eq hc] at h
  cases hv : Action.Operator.apply .set field current cell.text with
  | error err =>
      rw [hv] at h
      cases h
  | ok v =>
      rw [hv] at h
      cases h
      exact ⟨v, rfl, by rw [get?_audit haudit, Fact.get?_insert_self]⟩

/-- Action cells keep a field that they do not target, if they are not recorded there. -/
theorem get?_applyCells_of_not_targets (htargets : ¬ rs.Targets cells field)
    (haudit : ¬ rs.RecordsAt auditField field) (name : RuleName) (fact : Fact) :
    (rs.applyCells name auditField cells fact).fact.get? field = fact.get? field :=
  (rs.edits_applyCells name auditField cells fact).kept field fun h => h.elim htargets haudit

/-- Action cells take no field away. -/
theorem isSome_get?_applyCells (h : (fact.get? field).isSome = true) (rs : RuleSet)
    (name : RuleName) (auditField : String) (cells : List Cell) :
    ((rs.applyCells name auditField cells fact).fact.get? field).isSome = true := by
  rw [← Fact.mem_names_iff] at h ⊢
  rcases (rs.edits_applyCells name auditField cells fact).names with hnames | ⟨-, hnames⟩
  · rwa [hnames]
  · rw [hnames]
    exact List.mem_append_left _ h

/-- The value of a `Set` among the cells of a rule is in the field when the rule ends, be it with a
failure, unless a later cell targets the field. -/
theorem get?_of_set_among {before after : List Cell} (hset : rs.ActsOn cell .set field)
    (hlast : ¬ rs.Targets after field) (haudit : ¬ rs.RecordsAt auditField field)
    (hpresent : (fact.get? field).isSome = true)
    (h : rs.applyCells name auditField (before ++ [cell]) fact = ⟨left, .ok n⟩) :
    ∃ current v, Action.Operator.apply .set field current cell.text = .ok v ∧
      (rs.applyCells name auditField (before ++ cell :: after) fact).fact.get? field = some v := by
  have hwhole : (rs.applyCells name auditField (before ++ cell :: after) fact).fact
      = (rs.applyCells name auditField after left).fact := by
    rw [List.append_cons, applyCells_append, h, Applied.andThen_ok]
  rw [hwhole, get?_applyCells_of_not_targets hlast haudit]
  rw [applyCells_append, Applied.andThen_eq_ok_iff] at h
  obtain ⟨between, k, m, hbefore, hcell, -⟩ := h
  have hthere := isSome_get?_applyCells hpresent rs name auditField before
  rw [hbefore] at hthere
  obtain ⟨current, hc⟩ := Option.isSome_iff_exists.mp hthere
  obtain ⟨v, hv, hleft⟩ := get?_of_set hset haudit hc hcell
  exact ⟨current, v, hv, hleft⟩

end RuleSet

/-- **`Set` establishes equality.**  An action of a rule sets a field that the fact has, and it
succeeds, as the actions before it did.  No action after it targets the field, and applied rules are
not recorded there.  Then a condition on the field with the text of the action passes on the fact
that the rule leaves, if its operator is equality or one of the comparisons that admit it: whatever
the text reads as, and whatever the field held. -/
theorem set_establishes_equals {rs : RuleSet} {rule : Rule} {auditField field : String}
    {fact left : Fact} {before after : List Cell} {cell : Cell} {n : Nat}
    (hactions : rule.actions = before ++ cell :: after) (hset : rs.ActsOn cell .set field)
    (hlast : ¬ rs.Targets after field) (haudit : ¬ rs.RecordsAt auditField field)
    (hpresent : (fact.get? field).isSome = true)
    (hok : rs.fire { rule with actions := before ++ [cell] } auditField fact = ⟨left, .ok n⟩) :
    ∀ (tests : RuleSet) (test : Cell),
      tests.columns.fieldName? test.column = some field →
      ∀ c ∈ [Condition.Comparison.equals, .greaterThanOrEqual, .lessThanOrEqual],
        tests.condition test = ⟨some (.comparison c), ⟨cell.text⟩⟩ →
        tests.outcome (rs.fire rule auditField fact).fact test = .passed := by
  intro tests test hfield c hc hcondition
  obtain ⟨current, v, hv, hget⟩ := RuleSet.get?_of_set_among hset hlast haudit hpresent hok
  rw [← hactions] at hget
  have hvalue : (rs.fire rule auditField fact).fact.get? field = some v := hget
  rw [RuleSet.outcome, hcondition, hfield, Option.bind_some, hvalue]
  exact Condition.outcome_of_compareValue hc hset.notBlank (Literal.compareValue_of_set hv)

/-! ### A truth value between two numbers -/

namespace RuleSet

/-- A rule that sets `x` to a truth value, and `y` before and after that. -/
def switchingRule : Rule :=
  ⟨"1", [], [⟨"t", "1"⟩, ⟨"s", " TRUE "⟩, ⟨"t", "7.50"⟩]⟩

/-- A rule set with a condition on `x`. -/
def switching : RuleSet :=
  .ofRows (Metadata.ofId "a" .all)
    (((ColumnTable.empty.define "s" "x" "Set").define "t" "y" "Set").define "c" "x" "==")
    [switchingRule]

/-- A fact with a truth value under `x` and nothing under `y`. -/
def switchingFact : Fact :=
  (Fact.empty.insert "x" (.bool false)).insert "y" .null

end RuleSet

/-- The text in capitals and between blanks equals the truth value that it set. -/
theorem set_establishes_equals_of_truth_value :
    RuleSet.switching.ActsOn ⟨"s", " TRUE "⟩ .set "x" ∧
    ¬ RuleSet.switching.Targets [⟨"t", "7.50"⟩] "x" ∧
    ¬ RuleSet.switching.RecordsAt "log" "x" ∧
    (∃ left, RuleSet.switching.fire
      { RuleSet.switchingRule with actions := [⟨"t", "1"⟩, ⟨"s", " TRUE "⟩] } "log"
        RuleSet.switchingFact = ⟨left, .ok 2⟩) ∧
    RuleSet.switching.outcome
      (RuleSet.switching.fire RuleSet.switchingRule "log" RuleSet.switchingFact).fact
        ⟨"c", " TRUE "⟩ = .passed := by
  have hactions : RuleSet.switchingRule.actions
      = [⟨"t", "1"⟩] ++ ⟨"s", " TRUE "⟩ :: [⟨"t", "7.50"⟩] := rfl
  have hset : RuleSet.switching.ActsOn ⟨"s", " TRUE "⟩ .set "x" := ⟨rfl, rfl, rfl⟩
  have hlast : ¬ RuleSet.switching.Targets [⟨"t", "7.50"⟩] "x" := by
    rintro ⟨cell, hcell, hfield⟩
    obtain rfl := List.mem_singleton.mp hcell
    exact absurd hfield (by decide)
  have haudit : ¬ RuleSet.switching.RecordsAt "log" "x" := fun h => absurd h.2 (by decide)
  have hok : RuleSet.switching.fire
      { RuleSet.switchingRule with actions := [⟨"t", "1"⟩, ⟨"s", " TRUE "⟩] } "log"
        RuleSet.switchingFact
      = ⟨(Fact.empty.insert "x" (.bool true)).insert "y" (.text "1"), .ok 2⟩ := rfl
  exact ⟨hset, hlast, haudit, ⟨_, hok⟩,
    set_establishes_equals hactions hset hlast haudit rfl hok RuleSet.switching ⟨"c", " TRUE "⟩ rfl
      .equals (by decide) rfl⟩

end DecisionTable
