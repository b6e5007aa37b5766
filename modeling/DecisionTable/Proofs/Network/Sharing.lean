import DecisionTable.Proofs.Network.Registration
import DecisionTable.Proofs.Occurrences
import Mathlib.Algebra.Order.BigOperators.Group.Finset
import Mathlib.Data.Set.Card

/-!
# Network — Sharing

How much a network shares: it keeps every test that some condition cell asks once, and the field of
every test once.

* `RuleSet.Asks`: some condition cell of a rule set asks a test.  `RuleSet.tests` lists the tests
  that are asked, cell by cell.
* `Network.Tabulates`: the tables of a network hold the tests of a list and their fields, the first
  of equal ones each time.  Registering a test, the cells of a rule, a rule and a rule set each
  makes the list longer by the tests that are asked.
* `sharing_is_maximal`: so tests and fields are counted without repetitions, a rule set that asks
  nothing new leaves the tables as they are, and there are no more tests than condition cells in the
  different rule sets.
-/

namespace DecisionTable

/-! ### The tests of a rule set -/

namespace RuleSet

/-- A condition cell of a rule asks a test: the column has the field of the test, and its phrase the
operator, if there is one, and the cell has the text. -/
inductive Asks (rs : RuleSet) : Test → Prop where
  | cell {rule : Rule} (hrule : rule ∈ rs.rules) {cell : Cell} (hcell : cell ∈ rule.conditions)
      {field : String} (hfield : rs.columns.fieldName? cell.column = some field) :
      Asks rs ⟨field, (rs.columns.operator? cell.column).bind Condition.Operator.ofPhrase?,
        cell.text⟩

/-- The tests of condition cells, in order. -/
def testsOf (rs : RuleSet) (cells : List Cell) : List Test :=
  cells.filterMap (Network.cellTest? rs)

/-- The tests of the rules of a rule set, in order. -/
def tests (rs : RuleSet) : List Test :=
  rs.rules.flatMap fun rule => rs.testsOf rule.conditions

/-- The number of condition cells. -/
def conditionCount (rs : RuleSet) : Nat :=
  (rs.rules.map fun rule => rule.conditions.length).sum

variable {rs : RuleSet}

theorem mem_tests_iff {t : Test} : t ∈ rs.tests ↔ rs.Asks t := by
  simp only [tests, testsOf, List.mem_flatMap, List.mem_filterMap]
  constructor
  · rintro ⟨rule, hrule, cell, hcell, htest⟩
    obtain ⟨field, hfield, rfl⟩ := Option.map_eq_some_iff.mp htest
    exact .cell hrule hcell hfield
  · rintro ⟨hrule, hcell, hfield⟩
    exact ⟨_, hrule, _, hcell, by rw [Network.cellTest?, hfield]; rfl⟩

theorem length_tests_le (rs : RuleSet) : rs.tests.length ≤ rs.conditionCount := by
  rw [tests, List.length_flatMap, conditionCount]
  exact List.sum_le_sum fun rule _ => List.length_filterMap_le _ _

end RuleSet

/-! ### Values that arrive -/

namespace Numbering

variable {α : Type} [BEq α] [Hashable α] {n : Numbering α} {a : α}

theorem Lawful.mem_of_number? (h : n.Lawful) {i : Nat} (hi : n.number? a = some i) :
    a ∈ n.items.toList :=
  Array.mem_toList_iff.mpr (Array.mem_of_getElem? ((h a i).mp hi))

theorem Lawful.not_mem_of_number? (h : n.Lawful) (ha : n.number? a = none) :
    a ∉ n.items.toList := by
  intro hmem
  obtain ⟨i, hi⟩ := Array.mem_iff_getElem?.mp (Array.mem_toList_iff.mp hmem)
  rw [(h a i).mpr hi] at ha
  cases ha

end Numbering

namespace Network

/-- The tables of a network hold the tests that arrived and their fields, each where it arrived
first. -/
structure Tabulates (net : Network) (arrived : List Test) : Prop where
  tests : net.tests.items.toList = arrived.eraseDups
  fields : net.fields.items.toList = (arrived.map Test.field).eraseDups

theorem tabulates_empty : empty.Tabulates [] :=
  ⟨rfl, rfl⟩

/-- A field that arrives. -/
theorem Consistent.toList_addField {net : Network} (h : net.Consistent) {seen : List String}
    (hs : net.fields.items.toList = seen.eraseDups) (field : String) :
    (net.addField field).2.fields.items.toList = (seen ++ [field]).eraseDups := by
  rw [Network.addField]
  split
  · next slot hn =>
    have hmem : field ∈ seen := by
      rw [← List.mem_eraseDups, ← hs]
      exact h.fields.mem_of_number? hn
    rw [eraseDups_concat_of_mem hmem, hs]
  · next hn =>
    have hnot : field ∉ seen := by
      rw [← List.mem_eraseDups, ← hs]
      exact h.fields.not_mem_of_number? hn
    rw [eraseDups_concat_of_not_mem hnot, ← hs]
    exact Array.toList_push

/-- **A test that arrives**: the tables hold it already, with its field, or it comes last. -/
theorem Tabulates.addTest {net : Network} {arrived : List Test} (ht : net.Tabulates arrived)
    (h : net.Consistent) (test : Test) : (net.addTest test).2.Tabulates (arrived ++ [test]) := by
  cases hn : net.tests.number? test with
  | some i =>
      have hmem : test ∈ arrived := by
        rw [← List.mem_eraseDups, ← ht.tests]
        exact h.tests.mem_of_number? hn
      rw [addTest_of_some hn]
      refine ⟨?_, ?_⟩
      · rw [eraseDups_concat_of_mem hmem, ht.tests]
      · rw [List.map_append, List.map_singleton,
          eraseDups_concat_of_mem (List.mem_map_of_mem hmem), ht.fields]
  | none =>
      have hnot : test ∉ arrived := by
        rw [← List.mem_eraseDups, ← ht.tests]
        exact h.tests.not_mem_of_number? hn
      rw [addTest_of_none hn]
      refine ⟨?_, ?_⟩
      · rw [eraseDups_concat_of_not_mem hnot, ← ht.tests, ← tests_addField net test.field]
        exact Array.toList_push
      · rw [List.map_append, List.map_singleton]
        exact h.toList_addField ht.fields test.field

/-- The cells of a rule. -/
theorem Tabulates.addCells {net : Network} {arrived : List Test} (ht : net.Tabulates arrived)
    (h : net.Consistent) (rs : RuleSet) (cells : List Cell) :
    (Network.addCells rs cells net).2.Tabulates (arrived ++ rs.testsOf cells) := by
  induction cells generalizing net arrived with
  | nil => rwa [RuleSet.testsOf, List.filterMap_nil, List.append_nil]
  | cons cell cells ih =>
      cases hc : cellTest? rs cell with
      | none =>
          rw [addCells_cons_none hc, RuleSet.testsOf, List.filterMap_cons_none hc]
          exact ih ht h
      | some test =>
          rw [addCells_cons_some hc, RuleSet.testsOf, List.filterMap_cons_some hc,
            List.append_cons]
          exact ih (ht.addTest h test) (h.addTest test)

/-- The rules of a rule set. -/
theorem Tabulates.addRules {net : Network} {arrived : List Test} (ht : net.Tabulates arrived)
    (h : net.Consistent) (rs : RuleSet) (ruleSet position : Nat) (rules : List Rule) :
    (Network.addRules rs ruleSet position rules net).Tabulates
      (arrived ++ rules.flatMap fun rule => rs.testsOf rule.conditions) := by
  induction rules generalizing net arrived position with
  | nil => rwa [List.flatMap_nil, List.append_nil]
  | cons rule rules ih =>
      have hcells := ht.addCells h rs rule.conditions
      -- the join of the rule is no part of the tables
      have hrule : (Network.addRule rs ruleSet position rule net).Tabulates
          (arrived ++ rs.testsOf rule.conditions) := ⟨hcells.tests, hcells.fields⟩
      have hcons : (Network.addRule rs ruleSet position rule net).Consistent :=
        (h.addCells rs rule.conditions).1.withJoin _
      rw [addRules_cons, List.flatMap_cons, ← List.append_assoc]
      exact ih hrule hcons (position + 1)

/-- **One more rule set.** -/
theorem Tabulates.push {net : Network} {arrived : List Test} (ht : net.Tabulates arrived)
    (h : net.Consistent) (rs : RuleSet) : (net.push rs).Tabulates (arrived ++ rs.tests) :=
  have hrules := ht.addRules h rs net.ruleSets.size 0 rs.rules
  ⟨hrules.tests, hrules.fields⟩

theorem Tabulates.foldl_push {net : Network} {arrived : List Test} {done : List RuleSet}
    (ht : net.Tabulates arrived) (h : net.Compiles done) (ruleSets : List RuleSet) :
    (ruleSets.foldl Network.push net).Tabulates (arrived ++ ruleSets.flatMap RuleSet.tests) := by
  induction ruleSets generalizing net arrived done with
  | nil => rwa [List.foldl_nil, List.flatMap_nil, List.append_nil]
  | cons rs ruleSets ih =>
      rw [List.foldl_cons, List.flatMap_cons, ← List.append_assoc]
      exact ih (ht.push h.consistent rs) (h.push rs)

/-- **Registration** tabulates the tests that the rule sets ask. -/
theorem tabulates_ofRuleSets (ruleSets : List RuleSet) :
    (ofRuleSets ruleSets).Tabulates (ruleSets.flatMap RuleSet.tests) :=
  tabulates_empty.foldl_push compiles_empty ruleSets

/-! ### Counts -/

theorem Tabulates.testCount_eq {net : Network} {arrived : List Test} (h : net.Tabulates arrived) :
    net.testCount = arrived.toFinset.card := by
  rw [testCount, Numbering.size, ← Array.length_toList, h.tests, length_eraseDups]

theorem Tabulates.fieldCount_eq {net : Network} {arrived : List Test}
    (h : net.Tabulates arrived) : net.fieldCount = (arrived.map Test.field).toFinset.card := by
  rw [fieldCount, Numbering.size, ← Array.length_toList, h.fields, length_eraseDups]

theorem Compiles.ruleCount_eq {net : Network} {ruleSets : List RuleSet}
    (h : net.Compiles ruleSets) :
    net.ruleCount = (ruleSets.map fun rs => rs.rules.length).sum := by
  rw [ruleCount, ← Array.length_toList, ← h.joins.length_eq, Activation.ofRuleSets,
    List.length_flatMap]
  simp only [Activation.ofRuleSet, List.length_map]

theorem Compiles.ruleSetCount_eq {net : Network} {ruleSets : List RuleSet}
    (h : net.Compiles ruleSets) : net.ruleSetCount = ruleSets.length := by
  rw [ruleSetCount, ← Array.length_toList, h.sets]

/-- Tests that were there before arrive to no effect. -/
theorem Tabulates.items_eq {net later : Network} {arrived again : List Test}
    (h : net.Tabulates arrived) (hlater : later.Tabulates (arrived ++ again))
    (hagain : again ⊆ arrived) :
    later.tests.items = net.tests.items ∧ later.fields.items = net.fields.items := by
  have hdrop : ∀ {β : Type} [BEq β] [LawfulBEq β] {as bs : List β}, bs ⊆ as →
      (as ++ bs).eraseDups = as.eraseDups := by
    intro β _ _ as bs hsub
    rw [List.eraseDups_append, List.removeAll,
      List.filter_eq_nil_iff.mpr fun b hb => by simp [hsub hb], List.eraseDups_nil, List.append_nil]
  refine ⟨Array.toList_inj.mp ?_, Array.toList_inj.mp ?_⟩
  · rw [hlater.tests, h.tests, hdrop hagain]
  · rw [hlater.fields, h.fields, List.map_append, hdrop (List.map_subset _ hagain)]

end Network

/-! ### The tests of several rule sets -/

namespace RuleSet

theorem mem_flatMap_tests_iff {ruleSets : List RuleSet} {t : Test} :
    t ∈ ruleSets.flatMap tests ↔ ∃ rs ∈ ruleSets, rs.Asks t := by
  simp only [List.mem_flatMap, mem_tests_iff]

theorem card_tests_eq (ruleSets : List RuleSet) :
    (ruleSets.flatMap tests).toFinset.card = {t | ∃ rs ∈ ruleSets, rs.Asks t}.ncard := by
  have hset : {t | ∃ rs ∈ ruleSets, rs.Asks t}
      = ((ruleSets.flatMap tests).toFinset : Set Test) := by
    ext t
    rw [List.coe_toFinset, Set.mem_ofPred_eq, Set.mem_ofPred_eq, mem_flatMap_tests_iff]
  rw [hset, Set.ncard_coe_finset]

theorem card_fields_eq (ruleSets : List RuleSet) :
    ((ruleSets.flatMap tests).map Test.field).toFinset.card
      = {field | ∃ rs ∈ ruleSets, ∃ t, rs.Asks t ∧ t.field = field}.ncard := by
  have hset : {field | ∃ rs ∈ ruleSets, ∃ t, rs.Asks t ∧ t.field = field}
      = (((ruleSets.flatMap tests).map Test.field).toFinset : Set String) := by
    ext field
    rw [List.coe_toFinset, Set.mem_ofPred_eq, Set.mem_ofPred_eq, List.mem_map]
    constructor
    · rintro ⟨rs, hrs, t, ht, rfl⟩
      exact ⟨t, mem_flatMap_tests_iff.mpr ⟨rs, hrs, ht⟩, rfl⟩
    · rintro ⟨t, ht, rfl⟩
      obtain ⟨rs, hrs, hasks⟩ := mem_flatMap_tests_iff.mp ht
      exact ⟨rs, hrs, t, hasks, rfl⟩
  rw [hset, Set.ncard_coe_finset]

/-- There are no more different tests than condition cells in the different rule sets. -/
theorem card_tests_le (ruleSets : List RuleSet) :
    (ruleSets.flatMap tests).toFinset.card ≤ ∑ rs ∈ ruleSets.toFinset, rs.conditionCount := by
  have hcover : (ruleSets.flatMap tests).toFinset
      ⊆ ruleSets.toFinset.biUnion fun rs => rs.tests.toFinset := by
    intro t ht
    simpa using ht
  calc (ruleSets.flatMap tests).toFinset.card
      ≤ (ruleSets.toFinset.biUnion fun rs => rs.tests.toFinset).card := Finset.card_le_card hcover
    _ ≤ ∑ rs ∈ ruleSets.toFinset, rs.tests.toFinset.card := Finset.card_biUnion_le
    _ ≤ ∑ rs ∈ ruleSets.toFinset, rs.conditionCount :=
        Finset.sum_le_sum fun rs _ => (List.toFinset_card_le _).trans rs.length_tests_le

end RuleSet

/-- **Sharing is maximal**, and the counts are exact.  A network has as many tests as different ones
are asked by condition cells of its rule sets, as many fields as these tests have, a rule for every
rule, and a rule set for every registration.  A rule set that asks only tests that are asked already
adds neither a test nor a field.  There are no more tests than condition cells in the different rule
sets. -/
theorem sharing_is_maximal (ruleSets : List RuleSet) :
    let net := Network.ofRuleSets ruleSets
    net.testCount = {t | ∃ rs ∈ ruleSets, rs.Asks t}.ncard ∧
      net.fieldCount = {field | ∃ rs ∈ ruleSets, ∃ t, rs.Asks t ∧ t.field = field}.ncard ∧
      net.ruleCount = (ruleSets.map fun rs => rs.rules.length).sum ∧
      net.ruleSetCount = ruleSets.length ∧
      (∀ rs, (∀ t, rs.Asks t → ∃ old ∈ ruleSets, old.Asks t) →
        (net.push rs).tests.items = net.tests.items ∧
          (net.push rs).fields.items = net.fields.items) ∧
      net.testCount ≤ ∑ rs ∈ ruleSets.toFinset, rs.conditionCount := by
  intro net
  have hcompiles : net.Compiles ruleSets := Network.compiles_ofRuleSets ruleSets
  have htables : net.Tabulates (ruleSets.flatMap RuleSet.tests) :=
    Network.tabulates_ofRuleSets ruleSets
  refine ⟨?_, ?_, hcompiles.ruleCount_eq, hcompiles.ruleSetCount_eq, fun rs hrs => ?_, ?_⟩
  · rw [htables.testCount_eq, RuleSet.card_tests_eq]
  · rw [htables.fieldCount_eq, RuleSet.card_fields_eq]
  · refine htables.items_eq (htables.push hcompiles.consistent rs) fun t ht => ?_
    exact RuleSet.mem_flatMap_tests_iff.mpr (hrs t (RuleSet.mem_tests_iff.mp ht))
  · rw [htables.testCount_eq]
    exact RuleSet.card_tests_le ruleSets

end DecisionTable
