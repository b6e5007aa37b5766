import DecisionTable.RuleSet.Conditions
import DecisionTable.RuleSet.Draft
import Mathlib.Data.List.Basic

/-!
# RuleSet — When a rule holds

The verdict on a rule is a fold over the outcomes of its conditions.  Here it is in closed form.

* `Combinator.verdict_all_iff`: all conditions are asked for, so none may be missing or failed.
* `Combinator.verdict_any_iff`: one condition is asked for, so one must have passed and none may be
  missing after it: a missing condition starts the verdict anew (`Combinator.verdict_any_missing`).
* `RuleSet.Classified`: the outcome of a condition cell as a relation, one case for each reason.
* `firing_condition`: when a rule holds of a fact, and how far the order of its conditions matters.
-/

namespace DecisionTable

namespace Combinator

variable {os ps before after : List Outcome}

/-! ### All conditions -/

theorem foldl_step_all (os : List Outcome) (acc : Bool) :
    os.foldl (step .all) acc = true ↔ acc = true ∧ .missing ∉ os ∧ .failed ∉ os := by
  induction os generalizing acc with
  | nil => simp
  | cons o os ih =>
      rw [List.foldl_cons, ih]
      cases o <;> simp [step]

/-- **All**: no condition is missing, and none has failed. -/
theorem verdict_all_iff : verdict .all os = true ↔ .missing ∉ os ∧ .failed ∉ os := by
  rw [verdict, foldl_step_all, initial, eq_self_iff_true, true_and]

/-- The order of outcomes does not count. -/
theorem verdict_all_perm (h : os.Perm ps) : verdict .all os = verdict .all ps := by
  rw [Bool.eq_iff_iff, verdict_all_iff, verdict_all_iff, h.mem_iff, h.mem_iff]

/-! ### One condition -/

/-- One has passed, and after it none is missing. -/
def PassedForGood (os : List Outcome) : Prop :=
  ∃ before after, os = before ++ .passed :: after ∧ .missing ∉ after

theorem not_passedForGood_nil : ¬ PassedForGood [] := by
  rintro ⟨before, after, h, -⟩
  exact absurd h (by simp)

theorem passedForGood_cons {o : Outcome} :
    PassedForGood (o :: os) ↔ (o = .passed ∧ .missing ∉ os) ∨ PassedForGood os := by
  constructor
  · rintro ⟨before, after, h, hafter⟩
    cases before with
    | nil =>
        obtain ⟨rfl, rfl⟩ := List.cons.inj h
        exact .inl ⟨rfl, hafter⟩
    | cons b before => exact .inr ⟨before, after, (List.cons.inj h).2, hafter⟩
  · rintro (⟨rfl, hos⟩ | ⟨before, after, rfl, hafter⟩)
    · exact ⟨[], os, rfl, hos⟩
    · exact ⟨o :: before, after, rfl, hafter⟩

/-- A verdict that stands is kept until one is missing. -/
theorem foldl_step_any (os : List Outcome) (acc : Bool) :
    os.foldl (step .any) acc = true ↔ (acc = true ∧ .missing ∉ os) ∨ PassedForGood os := by
  induction os generalizing acc with
  | nil => simp [not_passedForGood_nil]
  | cons o os ih =>
      rw [List.foldl_cons, ih, passedForGood_cons]
      cases o with
      | missing | wildcard | failed => simp [step]
      | passed =>
          simp only [step, true_and, List.mem_cons, reduceCtorEq, false_or]
          tauto

/-- **One**: a condition has passed, and after it none is missing. -/
theorem verdict_any_iff : verdict .any os = true ↔ PassedForGood os := by
  rw [verdict, foldl_step_any, initial, Bool.false_eq_true, false_and, false_or]

/-- If none is missing, one that passed is enough. -/
theorem passedForGood_iff_mem (h : .missing ∉ os) : PassedForGood os ↔ .passed ∈ os := by
  constructor
  · rintro ⟨before, after, rfl, -⟩
    exact List.mem_append_right _ (.head _)
  · intro hp
    obtain ⟨before, after, rfl⟩ := List.append_of_mem hp
    exact ⟨before, after, rfl, fun hm => h (List.mem_append_right _ (.tail _ hm))⟩

/-- If none is missing, the order of outcomes does not count. -/
theorem verdict_any_perm (h : os.Perm ps) (hos : .missing ∉ os) :
    verdict .any os = verdict .any ps := by
  have hps : .missing ∉ ps := fun hm => hos (h.mem_iff.mpr hm)
  rw [Bool.eq_iff_iff, verdict_any_iff, verdict_any_iff, passedForGood_iff_mem hos,
    passedForGood_iff_mem hps, h.mem_iff]

/-- A missing condition starts the verdict anew: what stood before it does not count. -/
theorem verdict_any_missing (before after : List Outcome) :
    verdict .any (before ++ .missing :: after) = verdict .any after := by
  rw [verdict, List.foldl_append, List.foldl_cons]
  rfl

/-- Without a condition that passed there is no verdict. -/
theorem verdict_any_of_not_mem (h : .passed ∉ os) : verdict .any os = false := by
  refine Bool.eq_false_iff.mpr fun hv => ?_
  obtain ⟨before, after, rfl, -⟩ := verdict_any_iff.mp hv
  exact h (List.mem_append_right _ (.head _))

end Combinator

namespace RuleSet

/-! ### The outcome of a condition cell -/

/-- What becomes of a condition cell on a fact, and why. -/
inductive Classified (rs : RuleSet) (fact : Fact) (cell : Cell) : Outcome → Prop
  | undefined (hf : rs.columns.fieldName? cell.column = none) : Classified rs fact cell .missing
  | absent {field : String} (hf : rs.columns.fieldName? cell.column = some field)
      (hv : fact.get? field = none) : Classified rs fact cell .missing
  | blank {field : String} {v : Json} (hf : rs.columns.fieldName? cell.column = some field)
      (hv : fact.get? field = some v) (hb : cell.isBlank = true) : Classified rs fact cell .wildcard
  | passed {field phrase : String} {v : Json} {op : Condition.Operator}
      (hf : rs.columns.fieldName? cell.column = some field) (hv : fact.get? field = some v)
      (hb : cell.isBlank = false) (hp : rs.columns.operator? cell.column = some phrase)
      (ho : Condition.Operator.ofPhrase? phrase = some op)
      (ht : (Literal.mk cell.text).test op v = true) : Classified rs fact cell .passed
  | refuted {field phrase : String} {v : Json} {op : Condition.Operator}
      (hf : rs.columns.fieldName? cell.column = some field) (hv : fact.get? field = some v)
      (hb : cell.isBlank = false) (hp : rs.columns.operator? cell.column = some phrase)
      (ho : Condition.Operator.ofPhrase? phrase = some op)
      (ht : (Literal.mk cell.text).test op v = false) : Classified rs fact cell .failed
  | noOperator {field : String} {v : Json} (hf : rs.columns.fieldName? cell.column = some field)
      (hv : fact.get? field = some v) (hb : cell.isBlank = false)
      (hp : rs.columns.operator? cell.column = none) : Classified rs fact cell .failed
  | unknown {field phrase : String} {v : Json}
      (hf : rs.columns.fieldName? cell.column = some field) (hv : fact.get? field = some v)
      (hb : cell.isBlank = false) (hp : rs.columns.operator? cell.column = some phrase)
      (ho : Condition.Operator.ofPhrase? phrase = none) : Classified rs fact cell .failed

variable {rs : RuleSet} {fact : Fact} {cell : Cell} {o : Outcome}

theorem outcome_of_fieldName?_eq_none (hf : rs.columns.fieldName? cell.column = none) :
    rs.outcome fact cell = .missing := by
  rw [outcome, hf, Option.bind_none, Condition.outcome]

theorem outcome_of_fieldName?_eq_some {field : String}
    (hf : rs.columns.fieldName? cell.column = some field) :
    rs.outcome fact cell = (rs.condition cell).outcome (fact.get? field) := by
  rw [outcome, hf, Option.bind_some]

/-- The condition of a cell, on a value. -/
theorem outcome_condition_some (rs : RuleSet) (cell : Cell) (v : Json) :
    (rs.condition cell).outcome (some v) =
      if cell.isBlank then .wildcard
      else if ((rs.columns.operator? cell.column).bind Condition.Operator.ofPhrase?).any
        fun op => (Literal.mk cell.text).test op v then .passed
      else .failed := rfl

theorem Classified.outcome_eq (h : Classified rs fact cell o) : rs.outcome fact cell = o := by
  cases h with
  | undefined hf => exact outcome_of_fieldName?_eq_none hf
  | absent hf hv => rw [outcome_of_fieldName?_eq_some hf, hv, Condition.outcome]
  | blank hf hv hb => simp [outcome_of_fieldName?_eq_some hf, hv, outcome_condition_some, hb]
  | passed hf hv hb hp ho ht | refuted hf hv hb hp ho ht =>
      simp [outcome_of_fieldName?_eq_some hf, hv, outcome_condition_some, hb, hp, ho, ht]
  | noOperator hf hv hb hp =>
      simp [outcome_of_fieldName?_eq_some hf, hv, outcome_condition_some, hb, hp]
  | unknown hf hv hb hp ho =>
      simp [outcome_of_fieldName?_eq_some hf, hv, outcome_condition_some, hb, hp, ho]

theorem classified_outcome (rs : RuleSet) (fact : Fact) (cell : Cell) :
    Classified rs fact cell (rs.outcome fact cell) := by
  cases hf : rs.columns.fieldName? cell.column with
  | none => exact outcome_of_fieldName?_eq_none hf ▸ .undefined hf
  | some field =>
      rw [outcome_of_fieldName?_eq_some hf]
      cases hv : fact.get? field with
      | none => exact .absent hf hv
      | some v =>
          rw [outcome_condition_some]
          cases hb : cell.isBlank with
          | true => exact .blank hf hv hb
          | false =>
              cases hp : rs.columns.operator? cell.column with
              | none => exact .noOperator hf hv hb hp
              | some phrase =>
                  rw [Option.bind_some]
                  cases ho : Condition.Operator.ofPhrase? phrase with
                  | none => exact .unknown hf hv hb hp ho
                  | some op =>
                      rw [Option.any_some]
                      cases ht : (Literal.mk cell.text).test op v with
                      | true => exact .passed hf hv hb hp ho ht
                      | false => exact .refuted hf hv hb hp ho ht

/-- A cell has the one outcome that the reasons give. -/
theorem classified_iff : Classified rs fact cell o ↔ rs.outcome fact cell = o :=
  ⟨Classified.outcome_eq, fun h => h ▸ classified_outcome rs fact cell⟩

/-! ### The outcomes of the cells of a rule -/

variable {cells : List Cell}

theorem mem_outcomes_iff :
    o ∈ cells.map (rs.outcome fact) ↔ ∃ c ∈ cells, Classified rs fact c o := by
  simp only [List.mem_map, classified_iff]

theorem not_mem_outcomes_iff :
    o ∉ cells.map (rs.outcome fact) ↔ ∀ c ∈ cells, ¬ Classified rs fact c o := by
  simp only [mem_outcomes_iff, not_exists, not_and]

theorem passedForGood_outcomes_iff :
    Combinator.PassedForGood (cells.map (rs.outcome fact)) ↔
      ∃ before c after, cells = before ++ c :: after ∧ Classified rs fact c .passed ∧
        ∀ d ∈ after, ¬ Classified rs fact d .missing := by
  constructor
  · rintro ⟨os, ps, h, hps⟩
    obtain ⟨before, rest, rfl, -, hrest⟩ := List.map_eq_append_iff.mp h
    obtain ⟨c, after, rfl, hc, rfl⟩ := List.map_eq_cons_iff.mp hrest
    exact ⟨before, c, after, rfl, classified_iff.mpr hc, not_mem_outcomes_iff.mp hps⟩
  · rintro ⟨before, c, after, rfl, hc, hafter⟩
    refine ⟨before.map (rs.outcome fact), after.map (rs.outcome fact), ?_,
      not_mem_outcomes_iff.mpr hafter⟩
    rw [List.map_append, List.map_cons, classified_iff.mp hc]

theorem holds_eq_verdict {c : Combinator} (hc : rs.metadata.combinator = c) (rule : Rule)
    (fact : Fact) : rs.holds rule fact = c.verdict (rule.conditions.map (rs.outcome fact)) := by
  rw [holds, hc]

end RuleSet

open RuleSet in
/-- **When a rule holds of a fact.**  Every condition cell has one outcome, for one of the reasons
of `RuleSet.Classified`.

If all conditions are asked for, the rule holds exactly if none is missing and none has failed, in
whatever order they stand.

If one condition is asked for, the rule holds exactly if one has passed and none is missing after it
in the order of the cells.  So the order does not count as long as nothing is missing, conditions
that are all blank make no rule hold, and a missing condition undoes what stands before it and
nothing that stands after it. -/
theorem firing_condition (rs : RuleSet) (rule : Rule) (fact : Fact) :
    (∀ cell, ∃! o, Classified rs fact cell o) ∧
    (rs.metadata.combinator = .all →
      (rs.holds rule fact = true ↔
        ∀ c ∈ rule.conditions,
          ¬ Classified rs fact c .missing ∧ ¬ Classified rs fact c .failed) ∧
      ∀ cells, cells.Perm rule.conditions →
        rs.holds { rule with conditions := cells } fact = rs.holds rule fact) ∧
    (rs.metadata.combinator = .any →
      (rs.holds rule fact = true ↔
        ∃ before c after, rule.conditions = before ++ c :: after ∧ Classified rs fact c .passed ∧
          ∀ d ∈ after, ¬ Classified rs fact d .missing) ∧
      ((∀ c ∈ rule.conditions, ¬ Classified rs fact c .missing) →
        ∀ cells, cells.Perm rule.conditions →
          rs.holds { rule with conditions := cells } fact = rs.holds rule fact) ∧
      ((∀ c ∈ rule.conditions, Classified rs fact c .wildcard) → rs.holds rule fact = false) ∧
      ∀ before c after, rule.conditions = before ++ c :: after → Classified rs fact c .missing →
        rs.holds rule fact = rs.holds { rule with conditions := after } fact) := by
  refine ⟨fun cell => ⟨_, classified_outcome rs fact cell, fun o h => h.outcome_eq.symm⟩,
    fun hall => ⟨?_, fun cells hperm => ?_⟩,
    fun hany => ⟨?_, fun hpresent cells hperm => ?_, fun hblank => ?_,
      fun before c after heq hmissing => ?_⟩⟩
  · rw [holds_eq_verdict hall, Combinator.verdict_all_iff, not_mem_outcomes_iff,
      not_mem_outcomes_iff]
    exact forall₂_and.symm
  · rw [holds_eq_verdict hall, holds_eq_verdict hall]
    exact Combinator.verdict_all_perm (hperm.map _)
  · rw [holds_eq_verdict hany, Combinator.verdict_any_iff, passedForGood_outcomes_iff]
  · rw [holds_eq_verdict hany, holds_eq_verdict hany]
    exact (Combinator.verdict_any_perm (hperm.map _).symm (not_mem_outcomes_iff.mpr hpresent)).symm
  · rw [holds_eq_verdict hany]
    refine Combinator.verdict_any_of_not_mem (not_mem_outcomes_iff.mpr fun c hc hp => ?_)
    have ho := (hblank c hc).outcome_eq
    rw [hp.outcome_eq] at ho
    cases ho
  · rw [holds_eq_verdict hany, holds_eq_verdict hany, heq, List.map_append, List.map_cons,
      hmissing.outcome_eq, Combinator.verdict_any_missing]

/-- Two columns, `c` on the field `x` and `d` on the field `y`, under a combinator. -/
def RuleSet.twoColumns (combinator : Combinator) : RuleSet :=
  ((((RuleSet.Draft.ofId "a").combinator combinator).column "c" "x" "Equals").column "d" "y"
    "Equals").build

/-- A rule of these conditions. -/
def Rule.ofConditions (conditions : List Cell) : Rule :=
  ⟨"1", conditions, []⟩

/-- The fact whose field `x` is the text `u`, and that has no field `y`. -/
def Fact.onlyX : Fact :=
  Fact.empty.insert "x" (.text "u")

/-- Where one condition is asked for, one that passes counts behind a missing one and not in front
of it; where all are asked for, neither rule holds. -/
theorem firing_condition_beside_missing :
    (RuleSet.twoColumns .any).holds (.ofConditions [⟨"d", "u"⟩, ⟨"c", "u"⟩]) .onlyX = true ∧
      (RuleSet.twoColumns .any).holds (.ofConditions [⟨"c", "u"⟩, ⟨"d", "u"⟩]) .onlyX = false ∧
      (RuleSet.twoColumns .all).holds (.ofConditions [⟨"d", "u"⟩, ⟨"c", "u"⟩]) .onlyX = false := by
  have hpassed : RuleSet.Classified (.twoColumns .any) .onlyX ⟨"c", "u"⟩ .passed :=
    .passed rfl rfl rfl rfl rfl rfl
  have hmissing (combinator : Combinator) :
      RuleSet.Classified (.twoColumns combinator) .onlyX ⟨"d", "u"⟩ .missing :=
    .absent rfl rfl
  obtain ⟨-, -, hbehind⟩ :=
    firing_condition (.twoColumns .any) (.ofConditions [⟨"d", "u"⟩, ⟨"c", "u"⟩]) .onlyX
  obtain ⟨-, -, hbefore⟩ :=
    firing_condition (.twoColumns .any) (.ofConditions [⟨"c", "u"⟩, ⟨"d", "u"⟩]) .onlyX
  obtain ⟨-, hall, -⟩ :=
    firing_condition (.twoColumns .all) (.ofConditions [⟨"d", "u"⟩, ⟨"c", "u"⟩]) .onlyX
  refine ⟨(hbehind rfl).1.mpr ⟨[⟨"d", "u"⟩], ⟨"c", "u"⟩, [], rfl, hpassed, ?_⟩, ?_, ?_⟩
  · exact fun d hd => absurd hd List.not_mem_nil
  · rw [(hbefore rfl).2.2.2 [⟨"c", "u"⟩] ⟨"d", "u"⟩ [] rfl (hmissing .any)]
    rfl
  · refine Bool.eq_false_iff.mpr fun h => ?_
    exact ((hall rfl).1.mp h ⟨"d", "u"⟩ (.head _)).1 (hmissing .all)

end DecisionTable
