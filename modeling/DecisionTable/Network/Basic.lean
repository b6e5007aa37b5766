import DecisionTable.Numbering
import DecisionTable.RuleName
import DecisionTable.RuleSet.Conditions

/-!
# Network — Basic

Rules of several rule sets compiled to shared tests.  A test is a field with an operator and the
text of a cell, and equal tests of all rules are kept once; a join is a rule, as the tests of its
condition cells.  Every test knows the slot of its field, and every slot the tests that read it.
`Network.matching` finds the rules that hold of a fact.
-/

namespace DecisionTable

/-- A condition on a field. -/
structure Test where
  field : String
  operator : Option Condition.Operator
  literal : String
  deriving DecidableEq, Hashable

/-- The condition that a test puts on the value of its field. -/
def Test.condition (t : Test) : Condition :=
  ⟨t.operator, ⟨t.literal⟩⟩

/-- A condition cell of a compiled rule. -/
inductive Term where
  /-- the test of a number -/
  | test (i : Nat)
  /-- a cell whose column has no field -/
  | unresolved
  deriving DecidableEq

/-- A compiled rule: its place among the rule sets, and its condition cells. -/
structure Join where
  ruleSet : Nat
  rule : Nat
  combinator : Combinator
  terms : List Term
  deriving DecidableEq

/-- Rule sets compiled to shared tests. -/
structure Network where
  ruleSets : Array RuleSet
  fields : Numbering String
  tests : Numbering Test
  /-- the slot of the field of each test -/
  slots : Array Nat
  /-- the tests of each slot -/
  readers : Array (Array Nat)
  joins : Array Join

/-- A rule that holds, with its rule set. -/
structure Activation where
  ruleSet : RuleSet
  rule : Rule

/-- The name of the rule. -/
def Activation.name (a : Activation) : RuleName :=
  .ofRule a.ruleSet a.rule

namespace Network

/-- The network without rule sets. -/
def empty : Network :=
  { ruleSets := #[], fields := .empty, tests := .empty, slots := #[], readers := #[], joins := #[] }

/-! ### Registration -/

/-- The slot of a field, a new one if it has none. -/
def addField (net : Network) (field : String) : Nat × Network :=
  match net.fields.number? field with
  | some slot => (slot, net)
  | none =>
    (net.fields.size, { net with fields := net.fields.push field, readers := net.readers.push #[] })

/-- The number of a test, a new one if it has none. -/
def addTest (net : Network) (test : Test) : Nat × Network :=
  match net.tests.number? test with
  | some i => (i, net)
  | none =>
    let (slot, net) := net.addField test.field
    let i := net.tests.size
    (i, { net with
      tests := net.tests.push test
      slots := net.slots.push slot
      readers := net.readers.modify slot (·.push i) })

/-- The test of a condition cell, if its column has a field. -/
def cellTest? (rs : RuleSet) (cell : Cell) : Option Test :=
  (rs.columns.fieldName? cell.column).map fun field =>
    ⟨field, (rs.columns.operator? cell.column).bind Condition.Operator.ofPhrase?, cell.text⟩

/-- Registers condition cells. -/
def addCells (rs : RuleSet) : List Cell → Network → List Term × Network
  | [], net => ([], net)
  | cell :: cells, net =>
    match cellTest? rs cell with
    | none =>
      let (terms, net) := addCells rs cells net
      (.unresolved :: terms, net)
    | some test =>
      let (i, net) := net.addTest test
      let (terms, net) := addCells rs cells net
      (.test i :: terms, net)

/-- Registers rules, the first of them at a position of its rule set. -/
def addRules (rs : RuleSet) (ruleSet : Nat) : Nat → List Rule → Network → Network
  | _, [], net => net
  | position, rule :: rules, net =>
    let (terms, net) := addCells rs rule.conditions net
    let join := { ruleSet, rule := position, combinator := rs.metadata.combinator, terms }
    addRules rs ruleSet (position + 1) rules { net with joins := net.joins.push join }

/-- Registers a rule set after the others. -/
def push (net : Network) (rs : RuleSet) : Network :=
  let net := addRules rs net.ruleSets.size 0 rs.rules net
  { net with ruleSets := net.ruleSets.push rs }

/-- The network of rule sets, registered in order. -/
def ofRuleSets (ruleSets : List RuleSet) : Network :=
  ruleSets.foldl push empty

/-! ### Matching -/

/-- The values of the fields of a fact, by slot. -/
def values (net : Network) (fact : Fact) : Array (Option Json) :=
  net.fields.items.map fact.get?

/-- The outcome of the test of a number on values by slot. -/
def outcomeAt (net : Network) (values : Array (Option Json)) (i : Nat) : Outcome :=
  match net.tests.items[i]?, net.slots[i]? with
  | some test, some slot => test.condition.outcome (values[slot]?.getD none)
  | _, _ => .missing

/-- The outcomes of all tests. -/
def outcomes (net : Network) (values : Array (Option Json)) : Array Outcome :=
  Array.ofFn fun (i : Fin net.tests.size) => net.outcomeAt values i

/-- The outcome of a term. -/
def termOutcome (outcomes : Array Outcome) : Term → Outcome
  | .test i => outcomes[i]?.getD .missing
  | .unresolved => .missing

/-- Whether a rule holds, given the outcomes of the tests. -/
def joinHolds (outcomes : Array Outcome) (join : Join) : Bool :=
  join.combinator.verdict (join.terms.map (termOutcome outcomes))

/-- The rule of a join. -/
def activation? (net : Network) (join : Join) : Option Activation := do
  let ruleSet ← net.ruleSets[join.ruleSet]?
  let rule ← ruleSet.rules[join.rule]?
  some { ruleSet, rule }

/-- The rules that hold of a fact, in the order of registration. -/
def matching (net : Network) (fact : Fact) : List Activation :=
  let outcomes := net.outcomes (net.values fact)
  (net.joins.toList.filter (joinHolds outcomes)).filterMap net.activation?

/-! ### Counts -/

/-- The number of tests. -/
def testCount (net : Network) : Nat := net.tests.size

/-- The number of rules. -/
def ruleCount (net : Network) : Nat := net.joins.size

/-- The number of rule sets. -/
def ruleSetCount (net : Network) : Nat := net.ruleSets.size

/-- The number of fields that tests read. -/
def fieldCount (net : Network) : Nat := net.fields.size

end Network

end DecisionTable
