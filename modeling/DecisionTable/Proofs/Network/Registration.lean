import DecisionTable.Network.Basic
import Mathlib.Data.List.Forall2

/-!
# Network — Registration

What a network knows of the rule sets that were registered into it.

* `Numbering.Lawful`: the way back from a value to its number finds every value where it stands,
  and nothing else; so no value has two numbers.
* `Network.Consistent`: both numberings are lawful, every test knows the slot of its field, and
  every slot exactly the tests that read it.
* `Network.Compiles`: the joins are the rules of the rule sets in the order of registration, and
  each of their terms is the test of its condition cell (`Term.Reads`).
* `compiles_ofRuleSets`: registration, however many tests it shares, ends in a network that
  compiles its rule sets.

A join names its tests by number while later rules still add tests.  So the lemmas of the single
registrations say in one breath what the new cell, rule or rule set is compiled to and that every
earlier number keeps its test (`Network.Keeps`).
-/

namespace DecisionTable

/-! ### Numberings -/

namespace Numbering

variable {α : Type} [BEq α] [Hashable α]

/-- A value has a number exactly where it stands. -/
def Lawful (n : Numbering α) : Prop :=
  ∀ a i, n.number? a = some i ↔ n.items[i]? = some a

theorem lawful_empty : (empty : Numbering α).Lawful := by
  intro a i
  simp [number?, empty]

/-- No value has two numbers. -/
theorem Lawful.number_unique {n : Numbering α} (h : n.Lawful) {a : α} {i j : Nat}
    (hi : n.items[i]? = some a) (hj : n.items[j]? = some a) : i = j :=
  Option.some.inj (((h a i).mpr hi).symm.trans ((h a j).mpr hj))

theorem getElem?_items_lt {n : Numbering α} {a : α} {i : Nat} (h : n.items[i]? = some a) :
    i < n.size :=
  (Array.getElem?_eq_some_iff.mp h).1

/-- A value that arrives leaves the others where they stand. -/
theorem getElem?_items_push {n : Numbering α} {b : α} {i : Nat} (h : n.items[i]? = some b)
    (a : α) : (n.push a).items[i]? = some b := by
  have hi : i ≠ n.items.size := Nat.ne_of_lt (getElem?_items_lt h)
  rwa [push, Array.getElem?_push, if_neg hi]

@[simp] theorem getElem?_items_push_size (n : Numbering α) (a : α) :
    (n.push a).items[n.size]? = some a :=
  Array.getElem?_push_size

/-- **A new value keeps a numbering lawful.** -/
theorem Lawful.push [LawfulBEq α] {n : Numbering α} (h : n.Lawful) {a : α}
    (ha : n.number? a = none) : (n.push a).Lawful := by
  intro b i
  rw [number?, Numbering.push, Std.HashMap.getElem?_insert, Array.getElem?_push]
  by_cases hab : a = b
  · subst hab
    rw [if_pos BEq.rfl]
    have hne : n.items[i]? ≠ some a := fun hi => by
      have := (h a i).mpr hi
      rw [ha] at this
      cases this
    split
    · next hi => simp [hi]
    · next hi => simp [hne, Ne.symm hi]
  · rw [if_neg (by simpa using hab)]
    split
    · next hi =>
      subst hi
      have := h b n.items.size
      rw [number?] at this
      simp [this, hab]
    · exact h b i

end Numbering

/-! ### What a join stands for -/

/-- A term stands for a condition cell: it is the number of the cell's test, or the mark of a cell
whose column has no field. -/
def Term.Reads (tests : Array Test) (rs : RuleSet) (cell : Cell) : Term → Prop
  | .test i => ∃ t, Network.cellTest? rs cell = some t ∧ tests[i]? = some t
  | .unresolved => Network.cellTest? rs cell = none

/-- A join is compiled from a rule: it has the rule's place in the rule set, the combinator of the
rule set and a term for each condition cell. -/
structure Join.Compiles (tests : Array Test) (a : Activation) (join : Join) : Prop where
  rule : a.ruleSet.rules[join.rule]? = some a.rule
  combinator : join.combinator = a.ruleSet.metadata.combinator
  terms : List.Forall₂ (Term.Reads tests a.ruleSet) a.rule.conditions join.terms

/-- The rules of a rule set, in order. -/
def Activation.ofRuleSet (rs : RuleSet) : List Activation :=
  rs.rules.map (Activation.mk rs)

/-- The rules of rule sets, in the order of registration. -/
def Activation.ofRuleSets (ruleSets : List RuleSet) : List Activation :=
  ruleSets.flatMap Activation.ofRuleSet

/-- Every test keeps its number. -/
def Test.Keep (tests later : Array Test) : Prop :=
  ∀ (i : Nat) (t : Test), tests[i]? = some t → later[i]? = some t

theorem Term.Reads.mono {tests later : Array Test}
    (h : Test.Keep tests later) {rs : RuleSet} {cell : Cell} {term : Term}
    (hr : term.Reads tests rs cell) : term.Reads later rs cell := by
  cases term with
  | test i =>
      obtain ⟨t, hc, ht⟩ := hr
      exact ⟨t, hc, h i t ht⟩
  | unresolved => exact hr

theorem Join.Compiles.mono {tests later : Array Test}
    (h : Test.Keep tests later) {a : Activation} {join : Join}
    (hj : join.Compiles tests a) : join.Compiles later a :=
  ⟨hj.rule, hj.combinator, hj.terms.imp fun _ _ => Term.Reads.mono h⟩

namespace Network

/-! ### The tables of a network -/

/-- The tests that read the field of a slot, by number. -/
def testsOn (net : Network) (slot : Nat) : List Nat :=
  (List.range net.slots.size).filter fun i => net.slots[i]? = some slot

theorem mem_testsOn {net : Network} {slot i : Nat} :
    i ∈ net.testsOn slot ↔ net.slots[i]? = some slot := by
  simp only [testsOn, List.mem_filter, List.mem_range, decide_eq_true_eq, and_iff_right_iff_imp]
  exact fun h => (Array.getElem?_eq_some_iff.mp h).1

/-- The tables of a network agree with each other. -/
structure Consistent (net : Network) : Prop where
  fields : net.fields.Lawful
  tests : net.tests.Lawful
  size_slots : net.slots.size = net.tests.size
  size_readers : net.readers.size = net.fields.size
  /-- a test knows the slot of its field -/
  slot : ∀ (i : Nat) (t : Test), net.tests.items[i]? = some t →
    ∃ s, net.slots[i]? = some s ∧ net.fields.items[s]? = some t.field
  /-- a slot knows the tests that read it -/
  readers : ∀ (s : Nat) (is : Array Nat), net.readers[s]? = some is → is.toList = net.testsOn s

/-- The later network has the tests, the joins and the rule sets of the earlier one in their
places, and no other joins and rule sets. -/
structure Keeps (net later : Network) : Prop where
  tests : Test.Keep net.tests.items later.tests.items
  joins : later.joins = net.joins
  ruleSets : later.ruleSets = net.ruleSets

theorem Keeps.refl (net : Network) : net.Keeps net :=
  ⟨fun _ _ h => h, rfl, rfl⟩

theorem Keeps.trans {net₁ net₂ net₃ : Network} (h₁ : net₁.Keeps net₂) (h₂ : net₂.Keeps net₃) :
    net₁.Keeps net₃ :=
  ⟨fun i t h => h₂.tests i t (h₁.tests i t h), h₂.joins.trans h₁.joins,
    h₂.ruleSets.trans h₁.ruleSets⟩

theorem consistent_empty : empty.Consistent where
  fields := Numbering.lawful_empty
  tests := Numbering.lawful_empty
  size_slots := rfl
  size_readers := rfl
  slot i t h := by simp [empty, Numbering.empty] at h
  readers s is h := by simp [empty] at h

/-- A slot that no field has yet has no tests. -/
theorem Consistent.testsOn_size_fields {net : Network} (h : net.Consistent) :
    net.testsOn net.fields.size = [] := by
  refine List.eq_nil_iff_forall_not_mem.mpr fun i hi => ?_
  have hs := mem_testsOn.mp hi
  have hlt : i < net.tests.size := h.size_slots ▸ (Array.getElem?_eq_some_iff.mp hs).1
  obtain ⟨s, hs', hf⟩ := h.slot i _ (Array.getElem?_eq_getElem hlt)
  obtain rfl : net.fields.size = s := Option.some.inj (hs.symm.trans hs')
  exact Nat.lt_irrefl _ (Numbering.getElem?_items_lt hf)

/-! ### Registering a field -/

theorem keeps_addField (net : Network) (field : String) : net.Keeps (net.addField field).2 := by
  rw [addField]
  split
  · exact .refl net
  · exact ⟨fun _ _ h => h, rfl, rfl⟩

theorem Consistent.getElem?_addField {net : Network} (h : net.Consistent) (field : String) :
    (net.addField field).2.fields.items[(net.addField field).1]? = some field := by
  rw [addField]
  split
  · next slot hn => exact (h.fields field slot).mp hn
  · exact net.fields.getElem?_items_push_size field

theorem Consistent.addField {net : Network} (h : net.Consistent) (field : String) :
    (net.addField field).2.Consistent := by
  rw [Network.addField]
  split
  · exact h
  · next hn =>
    refine ⟨h.fields.push hn, h.tests, h.size_slots, ?_, fun i t ht => ?_, fun s is hs => ?_⟩
    · rw [Array.size_push, h.size_readers, Numbering.size, Numbering.size, Numbering.push,
        Array.size_push]
    · obtain ⟨s, hs, hf⟩ := h.slot i t ht
      exact ⟨s, hs, Numbering.getElem?_items_push hf field⟩
    · rw [Array.getElem?_push] at hs
      split at hs
      · next he =>
        cases hs
        rw [he, h.size_readers]
        exact h.testsOn_size_fields.symm
      · exact h.readers s is hs

/-! ### Registering a test -/

/-- A new test on the field of a slot. -/
def withTest (net : Network) (slot : Nat) (test : Test) : Network :=
  { net with
    tests := net.tests.push test
    slots := net.slots.push slot
    readers := net.readers.modify slot (·.push net.tests.size) }

theorem addTest_of_some {net : Network} {test : Test} {i : Nat}
    (h : net.tests.number? test = some i) : net.addTest test = (i, net) := by
  rw [addTest, h]

theorem addTest_of_none {net : Network} {test : Test} (h : net.tests.number? test = none) :
    net.addTest test = ((net.addField test.field).2.tests.size,
      (net.addField test.field).2.withTest (net.addField test.field).1 test) := by
  rw [addTest, h]
  rfl

theorem testsOn_withTest (net : Network) (slot : Nat) (test : Test) (s : Nat) :
    (net.withTest slot test).testsOn s
      = net.testsOn s ++ if slot = s then [net.slots.size] else [] := by
  have hold : ∀ i ∈ List.range net.slots.size,
      decide ((net.slots.push slot)[i]? = some s) = decide (net.slots[i]? = some s) := by
    intro i hi
    rw [Array.getElem?_push, if_neg (Nat.ne_of_lt (List.mem_range.mp hi))]
  have hnew : (net.slots.push slot)[net.slots.size]? = some slot := Array.getElem?_push_size
  rw [testsOn, testsOn, withTest, Array.size_push, List.range_succ, List.filter_append,
    List.filter_congr hold]
  by_cases h : slot = s
  · simp [h]
  · simp [h]

theorem Consistent.withTest {net : Network} (h : net.Consistent) {slot : Nat} {test : Test}
    (hn : net.tests.number? test = none) (hs : net.fields.items[slot]? = some test.field) :
    (net.withTest slot test).Consistent where
  fields := h.fields
  tests := h.tests.push hn
  size_slots := by
    simp [Network.withTest, Numbering.push, Numbering.size, h.size_slots]
  size_readers := by
    rw [Network.withTest, Array.size_modify]
    exact h.size_readers
  slot i t ht := by
    have hsize : net.slots.size = net.tests.items.size := h.size_slots
    simp only [Network.withTest, Numbering.push, Array.getElem?_push] at ht ⊢
    rw [hsize]
    split at ht
    · next hi =>
      cases ht
      exact ⟨slot, by rw [if_pos hi], hs⟩
    · next hi =>
      obtain ⟨s, hs', hf⟩ := h.slot i t ht
      exact ⟨s, by rw [if_neg hi, hs'], hf⟩
  readers s is hr := by
    rw [testsOn_withTest]
    simp only [Network.withTest, Array.getElem?_modify] at hr
    split at hr
    · next he =>
      obtain ⟨old, hold, rfl⟩ := Option.map_eq_some_iff.mp hr
      rw [Array.toList_push, h.readers s old hold, if_pos he, h.size_slots]
    · next he =>
      rw [h.readers s is hr, if_neg he, List.append_nil]

theorem keeps_withTest (net : Network) (slot : Nat) (test : Test) :
    net.Keeps (net.withTest slot test) :=
  ⟨fun _ _ h => Numbering.getElem?_items_push h test, rfl, rfl⟩

theorem tests_addField (net : Network) (field : String) :
    (net.addField field).2.tests = net.tests := by
  rw [addField]
  split <;> rfl

theorem keeps_addTest (net : Network) (test : Test) : net.Keeps (net.addTest test).2 := by
  cases hn : net.tests.number? test with
  | some i => rw [addTest_of_some hn]; exact .refl net
  | none =>
      rw [addTest_of_none hn]
      exact (keeps_addField net test.field).trans (keeps_withTest _ _ _)

theorem Consistent.addTest {net : Network} (h : net.Consistent) (test : Test) :
    (net.addTest test).2.Consistent := by
  cases hn : net.tests.number? test with
  | some i => rw [addTest_of_some hn]; exact h
  | none =>
      rw [addTest_of_none hn]
      refine (h.addField test.field).withTest ?_ (h.getElem?_addField test.field)
      rw [tests_addField, hn]

/-- The number that registration gives out is the number of the test, be it new or shared. -/
theorem Consistent.getElem?_addTest {net : Network} (h : net.Consistent) (test : Test) :
    (net.addTest test).2.tests.items[(net.addTest test).1]? = some test := by
  cases hn : net.tests.number? test with
  | some i => rw [addTest_of_some hn]; exact (h.tests test i).mp hn
  | none => rw [addTest_of_none hn]; exact Numbering.getElem?_items_push_size _ test

/-! ### Registering condition cells, rules and rule sets -/

theorem addCells_cons_none {rs : RuleSet} {cell : Cell} (h : cellTest? rs cell = none)
    (cells : List Cell) (net : Network) :
    addCells rs (cell :: cells) net
      = (.unresolved :: (addCells rs cells net).1, (addCells rs cells net).2) := by
  rw [addCells, h]

theorem addCells_cons_some {rs : RuleSet} {cell : Cell} {test : Test}
    (h : cellTest? rs cell = some test) (cells : List Cell) (net : Network) :
    addCells rs (cell :: cells) net
      = (.test (net.addTest test).1 :: (addCells rs cells (net.addTest test).2).1,
        (addCells rs cells (net.addTest test).2).2) := by
  rw [addCells, h]

/-- **The cells of a rule.**  Each is compiled to the number of its test, whatever tests the
network has already. -/
theorem Consistent.addCells {net : Network} (h : net.Consistent) (rs : RuleSet)
    (cells : List Cell) :
    (Network.addCells rs cells net).2.Consistent ∧ net.Keeps (Network.addCells rs cells net).2 ∧
      List.Forall₂ (Term.Reads (Network.addCells rs cells net).2.tests.items rs) cells
        (Network.addCells rs cells net).1 := by
  induction cells generalizing net with
  | nil => exact ⟨h, .refl net, .nil⟩
  | cons cell cells ih =>
      cases hc : cellTest? rs cell with
      | none =>
          rw [addCells_cons_none hc]
          obtain ⟨hcons, hkeep, hterms⟩ := ih h
          exact ⟨hcons, hkeep, .cons hc hterms⟩
      | some test =>
          rw [addCells_cons_some hc]
          obtain ⟨hcons, hkeep, hterms⟩ := ih (h.addTest test)
          refine ⟨hcons, (keeps_addTest net test).trans hkeep, .cons ⟨test, hc, ?_⟩ hterms⟩
          -- the later cells keep the number that this one was given
          exact hkeep.tests _ _ (h.getElem?_addTest test)

/-- A new join leaves the tables of the tests as they are. -/
theorem Consistent.withJoin {net : Network} (h : net.Consistent) (join : Join) :
    { net with joins := net.joins.push join }.Consistent :=
  ⟨h.fields, h.tests, h.size_slots, h.size_readers, h.slot, h.readers⟩

/-- A new rule set leaves the tables of the tests as they are. -/
theorem Consistent.withRuleSet {net : Network} (h : net.Consistent) (rs : RuleSet) :
    { net with ruleSets := net.ruleSets.push rs }.Consistent :=
  ⟨h.fields, h.tests, h.size_slots, h.size_readers, h.slot, h.readers⟩

/-- The network after one more rule. -/
def addRule (rs : RuleSet) (ruleSet position : Nat) (rule : Rule) (net : Network) : Network :=
  let compiled := addCells rs rule.conditions net
  { compiled.2 with
    joins := compiled.2.joins.push ⟨ruleSet, position, rs.metadata.combinator, compiled.1⟩ }

theorem addRules_cons (rs : RuleSet) (ruleSet position : Nat) (rule : Rule) (rules : List Rule)
    (net : Network) :
    addRules rs ruleSet position (rule :: rules) net
      = addRules rs ruleSet (position + 1) rules (addRule rs ruleSet position rule net) :=
  rfl

/-- **One more rule.**  It is compiled to one join, behind those that are there. -/
theorem Consistent.addRule {net : Network} (h : net.Consistent) {rs : RuleSet} {position : Nat}
    {rule : Rule} (hr : rs.rules[position]? = some rule) (ruleSet : Nat) :
    (Network.addRule rs ruleSet position rule net).Consistent ∧
      Test.Keep net.tests.items (Network.addRule rs ruleSet position rule net).tests.items ∧
      (Network.addRule rs ruleSet position rule net).ruleSets = net.ruleSets ∧
      ∃ join, (Network.addRule rs ruleSet position rule net).joins = net.joins.push join ∧
        join.ruleSet = ruleSet ∧
        join.Compiles (Network.addRule rs ruleSet position rule net).tests.items ⟨rs, rule⟩ := by
  obtain ⟨hcons, hkeep, hterms⟩ := h.addCells rs rule.conditions
  refine ⟨hcons.withJoin _, hkeep.tests, hkeep.ruleSets,
    ⟨ruleSet, position, rs.metadata.combinator, (Network.addCells rs rule.conditions net).1⟩,
    ?_, rfl, hr, rfl, hterms⟩
  simp only [Network.addRule, hkeep.joins]

/-- The rest of a rule set is compiled to one join for each rule. -/
theorem Consistent.addRules {net : Network} (h : net.Consistent) (rs : RuleSet) (ruleSet : Nat)
    {position : Nat} {rules : List Rule} (hd : rs.rules.drop position = rules) :
    (Network.addRules rs ruleSet position rules net).Consistent ∧
      Test.Keep net.tests.items (Network.addRules rs ruleSet position rules net).tests.items ∧
      (Network.addRules rs ruleSet position rules net).ruleSets = net.ruleSets ∧
      ∃ js, (Network.addRules rs ruleSet position rules net).joins.toList = net.joins.toList ++ js ∧
        List.Forall₂
          (fun a join => join.ruleSet = ruleSet ∧
            join.Compiles (Network.addRules rs ruleSet position rules net).tests.items a)
          (rules.map (Activation.mk rs)) js := by
  induction rules generalizing net position with
  | nil => exact ⟨h, fun _ _ ht => ht, rfl, [], by simp [Network.addRules], .nil⟩
  | cons rule rules ih =>
      have hrule : rs.rules[position]? = some rule := by
        rw [← List.head?_drop, hd, List.head?_cons]
      have hrest : rs.rules.drop (position + 1) = rules := by
        rw [← List.tail_drop, hd, List.tail_cons]
      -- the join of the first rule is compiled before the others add tests: `mono` carries it on
      obtain ⟨hcons₁, htests₁, hsets₁, join, hjoin, hset, hj⟩ := h.addRule hrule ruleSet
      obtain ⟨hcons, htests, hsets, js, hjs, hcomp⟩ := ih hcons₁ hrest
      rw [addRules_cons]
      refine ⟨hcons, fun i t ht => htests i t (htests₁ i t ht), hsets.trans hsets₁, join :: js, ?_,
        .cons ⟨hset, hj.mono htests⟩ hcomp⟩
      rw [hjs, hjoin, Array.toList_push, List.append_assoc, List.singleton_append]

/-- A join stands for a rule: it is compiled from it and names its rule set. -/
def Stands (net : Network) (a : Activation) (join : Join) : Prop :=
  net.ruleSets[join.ruleSet]? = some a.ruleSet ∧ join.Compiles net.tests.items a

theorem Stands.activation?_eq {net : Network} {a : Activation} {join : Join}
    (h : net.Stands a join) : net.activation? join = some a := by
  simp [activation?, h.1, h.2.rule]

/-- The joins of a network stand for the rules of the rule sets, in the order of registration. -/
structure Compiles (net : Network) (ruleSets : List RuleSet) : Prop where
  consistent : net.Consistent
  sets : net.ruleSets.toList = ruleSets
  joins : List.Forall₂ net.Stands (Activation.ofRuleSets ruleSets) net.joins.toList

theorem compiles_empty : empty.Compiles [] :=
  ⟨consistent_empty, rfl, .nil⟩

/-- **One more rule set.**  Its rules come behind those that are registered, which stay what they
were. -/
theorem Compiles.push {net : Network} {ruleSets : List RuleSet} (h : net.Compiles ruleSets)
    (rs : RuleSet) : (net.push rs).Compiles (ruleSets ++ [rs]) := by
  have hall : rs.rules.drop 0 = rs.rules := List.drop_zero
  obtain ⟨hcons, htests, hsets, js, hjs, hcomp⟩ :=
    h.consistent.addRules rs net.ruleSets.size hall
  have hsets' : (net.push rs).ruleSets = net.ruleSets.push rs := by rw [Network.push, hsets]
  refine ⟨hcons.withRuleSet rs, by rw [hsets', Array.toList_push, h.sets], ?_⟩
  have hold : List.Forall₂ (net.push rs).Stands (Activation.ofRuleSets ruleSets)
      net.joins.toList := by
    refine h.joins.imp fun a join hj => ⟨?_, hj.2.mono htests⟩
    rw [hsets', Array.getElem?_push,
      if_neg (Nat.ne_of_lt (Array.getElem?_eq_some_iff.mp hj.1).1)]
    exact hj.1
  have hnew : List.Forall₂ (net.push rs).Stands (Activation.ofRuleSet rs) js := by
    refine List.forall₂_map_left_iff.mpr ((List.forall₂_map_left_iff.mp hcomp).imp ?_)
    rintro rule join ⟨hset, hj⟩
    refine ⟨?_, hj⟩
    rw [hsets', hset]
    exact Array.getElem?_push_size
  have hjoins : (net.push rs).joins.toList = net.joins.toList ++ js := hjs
  have hrules : Activation.ofRuleSets (ruleSets ++ [rs])
      = Activation.ofRuleSets ruleSets ++ Activation.ofRuleSet rs := by
    simp [Activation.ofRuleSets]
  rw [hjoins, hrules]
  exact List.rel_append hold hnew

theorem Compiles.foldl_push {net : Network} {done : List RuleSet} (h : net.Compiles done)
    (ruleSets : List RuleSet) : (ruleSets.foldl Network.push net).Compiles (done ++ ruleSets) := by
  induction ruleSets generalizing net done with
  | nil => rwa [List.foldl_nil, List.append_nil]
  | cons rs ruleSets ih =>
      rw [List.foldl_cons, ← List.singleton_append, ← List.append_assoc]
      exact ih (h.push rs)

/-- **Registration.**  Every network that rule sets were registered into compiles them. -/
theorem compiles_ofRuleSets (ruleSets : List RuleSet) :
    (ofRuleSets ruleSets).Compiles ruleSets :=
  compiles_empty.foldl_push ruleSets

end Network

end DecisionTable
