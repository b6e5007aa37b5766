import DecisionTable.Proofs.Network.Registration

/-!
# Network — Matching

What the shared tests of a network say of a rule is what its own condition cells say.

* `View`: the values of fields by name, as a fact has them or as they were seen at some time.
  `RuleSet.holdsOn` is the verdict on a rule when its conditions look at a view.
* `Network.Answers`: a table of outcomes answers for a view if it has, for every test, the outcome
  on that view.  Joins that read such a table give the verdicts of their rules on the view
  (`Stands.joinHolds_eq`).
* `matching_ofRuleSets`: a network finds, of every rule set and in the order of registration, the
  rules that hold; sharing tests is invisible.
-/

namespace DecisionTable

/-! ### Rules on views -/

/-- The values of fields by name. -/
abbrev View := String → Option Json

namespace RuleSet

/-- The outcome of a condition cell on a view. -/
def outcomeOn (rs : RuleSet) (view : View) (cell : Cell) : Outcome :=
  (rs.condition cell).outcome ((rs.columns.fieldName? cell.column).bind view)

/-- Whether a rule holds on a view. -/
def holdsOn (rs : RuleSet) (view : View) (rule : Rule) : Bool :=
  rs.metadata.combinator.verdict (rule.conditions.map (rs.outcomeOn view))

theorem holdsOn_get? (rs : RuleSet) (fact : Fact) (rule : Rule) :
    rs.holdsOn fact.get? rule = rs.holds rule fact :=
  rfl

/-- A cell with a test has the outcome of its test. -/
theorem outcomeOn_of_cellTest?_eq_some {rs : RuleSet} {cell : Cell} {t : Test}
    (h : Network.cellTest? rs cell = some t) (view : View) :
    rs.outcomeOn view cell = t.condition.outcome (view t.field) := by
  obtain ⟨field, hf, rfl⟩ := Option.map_eq_some_iff.mp h
  rw [outcomeOn, hf]
  rfl

/-- A cell without a test looks at a column without a field. -/
theorem outcomeOn_of_cellTest?_eq_none {rs : RuleSet} {cell : Cell}
    (h : Network.cellTest? rs cell = none) (view : View) :
    rs.outcomeOn view cell = .missing := by
  rw [outcomeOn, Option.map_eq_none_iff.mp h]
  rfl

end RuleSet

/-- Whether the rule of an activation holds on a view. -/
def Activation.holdsOn (a : Activation) (view : View) : Bool :=
  a.ruleSet.holdsOn view a.rule

namespace Network

/-! ### Tables of outcomes -/

/-- The table has, for every test, the outcome on the view. -/
def Answers (net : Network) (outcomes : Array Outcome) (view : View) : Prop :=
  ∀ (i : Nat) (t : Test), net.tests.items[i]? = some t →
    outcomes[i]? = some (t.condition.outcome (view t.field))

theorem Answers.termOutcome_eq {net : Network} {outcomes : Array Outcome} {view : View}
    (h : net.Answers outcomes view) {rs : RuleSet} {cell : Cell} {term : Term}
    (hr : term.Reads net.tests.items rs cell) :
    termOutcome outcomes term = rs.outcomeOn view cell := by
  cases term with
  | test i =>
      obtain ⟨t, hc, ht⟩ := hr
      rw [RuleSet.outcomeOn_of_cellTest?_eq_some hc, termOutcome, h i t ht, Option.getD_some]
  | unresolved => exact (RuleSet.outcomeOn_of_cellTest?_eq_none hr view).symm

/-- **The verdict of a join** is the verdict of its rule on the view that the table answers for. -/
theorem Stands.joinHolds_eq {net : Network} {a : Activation} {join : Join} (hj : net.Stands a join)
    {outcomes : Array Outcome} {view : View} (h : net.Answers outcomes view) :
    joinHolds outcomes join = a.holdsOn view := by
  have hterms : ∀ {cells terms}, List.Forall₂ (Term.Reads net.tests.items a.ruleSet) cells terms →
      terms.map (termOutcome outcomes) = cells.map (a.ruleSet.outcomeOn view) := by
    intro cells terms hr
    induction hr with
    | nil => rfl
    | cons hr _ ih => rw [List.map_cons, List.map_cons, h.termOutcome_eq hr, ih]
  rw [joinHolds, Activation.holdsOn, RuleSet.holdsOn, hj.2.combinator, hterms hj.2.terms]

theorem outcomeAt_eq {net : Network} {values : Array (Option Json)} {i s : Nat} {t : Test}
    (ht : net.tests.items[i]? = some t) (hs : net.slots[i]? = some s) :
    net.outcomeAt values i = t.condition.outcome (values[s]?.getD none) := by
  rw [outcomeAt, ht, hs]

theorem getElem?_outcomes (net : Network) (values : Array (Option Json)) {i : Nat}
    (hi : i < net.tests.size) : (net.outcomes values)[i]? = some (net.outcomeAt values i) := by
  rw [outcomes, Array.getElem?_ofFn, dif_pos hi]

/-- A test on values that a view gives has the outcome on the view. -/
theorem Consistent.outcomeAt_map {net : Network} (h : net.Consistent) (view : View) {i : Nat}
    {t : Test} (ht : net.tests.items[i]? = some t) :
    net.outcomeAt (net.fields.items.map view) i = t.condition.outcome (view t.field) := by
  obtain ⟨s, hs, hf⟩ := h.slot i t ht
  rw [outcomeAt_eq ht hs, Array.getElem?_map, hf, Option.map_some, Option.getD_some]

/-- The outcomes on values that a view gives answer for the view. -/
theorem Consistent.answers_outcomes {net : Network} (h : net.Consistent) (view : View) :
    net.Answers (net.outcomes (net.fields.items.map view)) view := by
  intro i t ht
  rw [net.getElem?_outcomes _ (Numbering.getElem?_items_lt ht), h.outcomeAt_map view ht]

/-! ### Matching -/

theorem Compiles.matching_eq {net : Network} {ruleSets : List RuleSet}
    (h : net.Compiles ruleSets) (fact : Fact) :
    net.matching fact
      = (Activation.ofRuleSets ruleSets).filter fun a => a.holdsOn fact.get? := by
  have hans : net.Answers (net.outcomes (net.values fact)) fact.get? :=
    h.consistent.answers_outcomes fact.get?
  have hjoins : ∀ {as joins}, List.Forall₂ net.Stands as joins →
      (joins.filter (joinHolds (net.outcomes (net.values fact)))).filterMap net.activation?
        = as.filter fun a => a.holdsOn fact.get? := by
    intro as joins hst
    induction hst with
    | nil => rfl
    | @cons a join as joins hj _ ih =>
        rw [List.filter_cons, List.filter_cons, hj.joinHolds_eq hans]
        cases a.holdsOn fact.get? with
        | true => simpa [hj.activation?_eq] using ih
        | false => simpa using ih
  exact hjoins h.joins

end Network

/-- The rules of a rule set that hold of a fact, in order. -/
def RuleSet.matching (rs : RuleSet) (fact : Fact) : List Activation :=
  (rs.rules.filter fun rule => rs.holds rule fact).map (Activation.mk rs)

theorem Activation.filter_ofRuleSet (rs : RuleSet) (fact : Fact) :
    ((Activation.ofRuleSet rs).filter fun a => a.holdsOn fact.get?) = rs.matching fact := by
  simp only [Activation.ofRuleSet, RuleSet.matching, List.filter_map, Function.comp_def,
    Activation.holdsOn, RuleSet.holdsOn_get?]

theorem Activation.filter_ofRuleSets (ruleSets : List RuleSet) (fact : Fact) :
    ((Activation.ofRuleSets ruleSets).filter fun a => a.holdsOn fact.get?)
      = ruleSets.flatMap fun rs => rs.matching fact := by
  rw [Activation.ofRuleSets, List.filter_flatMap]
  exact List.flatMap_congr fun rs _ => Activation.filter_ofRuleSet rs fact

/-- **Sharing is invisible.**  A network finds of every rule set, in the order of registration, the
rules that hold of the fact, each with its own rule set; and a rule set that joins later only adds
its own rules at the end. -/
theorem matching_ofRuleSets (ruleSets : List RuleSet) (fact : Fact) :
    (Network.ofRuleSets ruleSets).matching fact = ruleSets.flatMap (fun rs => rs.matching fact) ∧
      ∀ rs, ((Network.ofRuleSets ruleSets).push rs).matching fact
        = (Network.ofRuleSets ruleSets).matching fact ++ rs.matching fact := by
  have hnet := Network.compiles_ofRuleSets ruleSets
  refine ⟨by rw [hnet.matching_eq, Activation.filter_ofRuleSets], fun rs => ?_⟩
  rw [(hnet.push rs).matching_eq, hnet.matching_eq, Activation.filter_ofRuleSets,
    Activation.filter_ofRuleSets, List.flatMap_append, List.flatMap_singleton]

end DecisionTable
