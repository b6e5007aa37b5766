import DecisionTable.Proofs.Network.Memory

/-!
# Network — Bounds

The tables of a network are in step, and no access to one of them is out of its bounds.

* `Network.InStep`: what the tables of a network and the joins say of each other.  It holds of every
  network that compiles rule sets (`Compiles.inStep`).
* `Network.matching?`, `Network.run?`: matching and walking where an access out of bounds fails.
* `InStep.getElem?_rerun`: which outcomes change when the tests of a slot are run again.  After a
  new value of one field that is enough (`InStep.rerun_outcomes`).
* `Memory.Fits`: what the accesses for the next rule need of the memory of a walk; a look at the
  fact keeps it (`InStep.refresh?_eq`).
* `tables_in_step`: so nothing that is done with registered rule sets fails.
-/

namespace DecisionTable

/-! ### Computations that do not fail -/

section Succeeds

variable {α β : Type}

theorem mapM_eq_some {f : α → Option β} {g : α → β} {as : List α}
    (h : ∀ a ∈ as, f a = some (g a)) : as.mapM f = some (as.map g) := by
  induction as with
  | nil => rfl
  | cons a as ih =>
      rw [List.mapM_cons, h a (.head _), ih fun b hb => h b (.tail _ hb)]
      rfl

/-- A fold does not fail if its steps do not, as long as they keep an invariant. -/
theorem foldlM_eq_some {f : β → α → Option β} {g : β → α → β} {P : β → Prop} {as : List α}
    (h : ∀ b a, a ∈ as → P b → f b a = some (g b a) ∧ P (g b a)) {b : β} (hb : P b) :
    as.foldlM f b = some (as.foldl g b) ∧ P (as.foldl g b) := by
  induction as generalizing b with
  | nil => exact ⟨rfl, hb⟩
  | cons a as ih =>
      obtain ⟨hstep, hkept⟩ := h b a (.head _) hb
      rw [List.foldlM_cons, hstep]
      exact ih (fun b a ha => h b a (.tail _ ha)) hkept

/-- A value on the right is related to some value. -/
theorem exists_rel_of_mem_right {R : α → β → Prop} {as : List α} {bs : List β}
    (h : List.Forall₂ R as bs) {b : β} (hb : b ∈ bs) : ∃ a, R a b := by
  induction h with
  | nil => cases hb
  | @cons a _ _ _ hr _ ih =>
      cases hb with
      | head => exact ⟨a, hr⟩
      | tail _ hb => exact ih hb

end Succeeds

namespace Network

/-! ### Accesses that can fail

Matching and walking once more, step by step as in the network, where an access out of the bounds
of a table is a failure of the whole. -/

/-- A write, which fails out of bounds. -/
def write? {α : Type} (as : Array α) (i : Nat) (a : α) : Option (Array α) :=
  if i < as.size then some (as.setIfInBounds i a) else none

/-- The outcome of the test of a number. -/
def outcomeAt? (net : Network) (values : Array (Option Json)) (i : Nat) : Option Outcome := do
  let test ← net.tests.items[i]?
  let slot ← net.slots[i]?
  let value ← values[slot]?
  some (test.condition.outcome value)

/-- The outcomes of all tests. -/
def outcomes? (net : Network) (values : Array (Option Json)) : Option (Array Outcome) := do
  let outcomes ← (List.range net.tests.size).mapM (net.outcomeAt? values)
  some outcomes.toArray

/-- The outcome of a term. -/
def termOutcome? (outcomes : Array Outcome) : Term → Option Outcome
  | .test i => outcomes[i]?
  | .unresolved => some .missing

/-- Whether a rule holds.  Every term is looked at. -/
def joinHolds? (outcomes : Array Outcome) (join : Join) : Option Bool := do
  let terms ← join.terms.mapM (termOutcome? outcomes)
  some (join.combinator.verdict terms)

/-- Runs one test on the value of a slot again. -/
def rerunAt? (net : Network) (values : Array (Option Json)) (slot : Nat)
    (outcomes : Array Outcome) (i : Nat) : Option (Array Outcome) := do
  let test ← net.tests.items[i]?
  let value ← values[slot]?
  write? outcomes i (test.condition.outcome value)

/-- Runs the tests of a slot again. -/
def rerun? (net : Network) (values : Array (Option Json)) (slot : Nat)
    (outcomes : Array Outcome) : Option (Array Outcome) := do
  let tests ← net.readers[slot]?
  tests.toList.foldlM (net.rerunAt? values slot) outcomes

/-- Looks again at the field of a slot. -/
def refreshSlot? (net : Network) (fact : Fact) (slot : Nat) (field : String) (m : Memory) :
    Option Memory := do
  let seen ← m.values[slot]?
  if unchanged (fact.get? field) seen then some m
  else
    let values ← write? m.values slot (fact.get? field)
    let outcomes ← net.rerun? values slot m.outcomes
    some ⟨values, outcomes⟩

/-- Looks again at all fields. -/
def refresh? (net : Network) (fact : Fact) (m : Memory) : Option Memory :=
  net.fields.items.toList.zipIdx.foldlM (fun m entry => net.refreshSlot? fact entry.2 entry.1 m) m

/-- The rules of the joins that hold. -/
def holding? (net : Network) (outcomes : Array Outcome) : List Join → Option (List Activation)
  | [] => some []
  | join :: joins => do
    if ← joinHolds? outcomes join then
      let activation ← net.activation? join
      let rest ← net.holding? outcomes joins
      some (activation :: rest)
    else
      net.holding? outcomes joins

/-- The rules that hold of a fact. -/
def matching? (net : Network) (fact : Fact) : Option (List Activation) := do
  let outcomes ← net.outcomes? (net.values fact)
  net.holding? outcomes net.joins.toList

/-- Walks joins. -/
def walk? {σ ε : Type} (net : Network) (fire : Activation → Fact → σ → Reply σ ε) :
    List Join → Memory → Fact → σ → Option (Reply σ ε)
  | [], _, fact, state => some ⟨fact, state, none⟩
  | join :: joins, m, fact, state => do
    if ← joinHolds? m.outcomes join then
      let activation ← net.activation? join
      let reply := fire activation fact state
      match reply.failure with
      | some _ => some reply
      | none =>
        let seen ← net.refresh? reply.fact m
        net.walk? fire joins seen reply.fact reply.state
    else
      net.walk? fire joins m fact state

/-- Hands every rule that holds when its turn comes to `fire`, until a failure. -/
def run? {σ ε : Type} (net : Network) (fire : Activation → Fact → σ → Reply σ ε) (fact : Fact)
    (state : σ) : Option (Reply σ ε) := do
  let outcomes ← net.outcomes? (net.values fact)
  net.walk? fire net.joins.toList ⟨net.values fact, outcomes⟩ fact state

/-! ### Tables in step -/

/-- The tables of a network are in step with each other and with its joins. -/
structure InStep (net : Network) : Prop where
  /-- the way back from a field to its slot finds it where it stands, and nothing else -/
  field_number : ∀ (field : String) (s : Nat),
    net.fields.number? field = some s ↔ net.fields.items[s]? = some field
  fields_nodup : net.fields.items.toList.Nodup
  size_readers : net.readers.size = net.fields.size
  /-- a slot lists the tests that read it, each once -/
  readers : ∀ (s : Nat) (is : Array Nat), net.readers[s]? = some is →
    is.toList.Nodup ∧ ∀ i, i ∈ is ↔ net.slots[i]? = some s
  size_slots : net.slots.size = net.tests.size
  /-- the numbers of the tests are the positions of the table, each of one test -/
  number_lt : ∀ (t : Test) (i : Nat), net.tests.number? t = some i → i < net.tests.size
  number_injective : ∀ (t t' : Test) (i : Nat),
    net.tests.number? t = some i → net.tests.number? t' = some i → t = t'
  number_surjective : ∀ i < net.tests.size, ∃ t, net.tests.number? t = some i
  /-- at the number of a test are its condition and the slot of its field -/
  node : ∀ (t : Test) (i : Nat), net.tests.number? t = some i → ∃ node s,
    net.tests.items[i]? = some node ∧ node.condition = ⟨t.operator, ⟨t.literal⟩⟩ ∧
      net.slots[i]? = some s ∧ net.fields.items[s]? = some t.field
  /-- a join names a rule set, a rule of it, and tests that are there -/
  joins : ∀ join ∈ net.joins.toList, ∃ rs, net.ruleSets[join.ruleSet]? = some rs ∧
    join.rule < rs.rules.length ∧ ∀ i, Term.test i ∈ join.terms → i < net.tests.size

theorem nodup_testsOn (net : Network) (slot : Nat) : (net.testsOn slot).Nodup :=
  List.nodup_range.filter _

/-- The numbers that the terms of a compiled join name are numbers of tests. -/
theorem lt_of_mem_terms {tests : Array Test} {rs : RuleSet} {cells : List Cell} {terms : List Term}
    (h : List.Forall₂ (Term.Reads tests rs) cells terms) {i : Nat} (hi : Term.test i ∈ terms) :
    i < tests.size := by
  obtain ⟨cell, t, -, ht⟩ := exists_rel_of_mem_right h hi
  exact (Array.getElem?_eq_some_iff.mp ht).1

/-- **Compiled networks are in step.** -/
theorem Compiles.inStep {net : Network} {ruleSets : List RuleSet} (h : net.Compiles ruleSets) :
    net.InStep where
  field_number := h.consistent.fields
  fields_nodup := h.consistent.fields.nodup_items
  size_readers := h.consistent.size_readers
  readers s is hs := by
    have hlist : is.toList = net.testsOn s := h.consistent.readers s is hs
    refine ⟨hlist ▸ net.nodup_testsOn s, fun i => ?_⟩
    rw [← Array.mem_toList_iff, hlist, mem_testsOn]
  size_slots := h.consistent.size_slots
  number_lt t i hi := Numbering.getElem?_items_lt ((h.consistent.tests t i).mp hi)
  number_injective t t' i hi hi' := by
    have ht := (h.consistent.tests t i).mp hi
    exact Option.some.inj (ht.symm.trans ((h.consistent.tests t' i).mp hi'))
  number_surjective i hi :=
    ⟨net.tests.items[i], (h.consistent.tests _ i).mpr (Array.getElem?_eq_getElem hi)⟩
  node t i hi := by
    have ht := (h.consistent.tests t i).mp hi
    obtain ⟨s, hs, hf⟩ := h.consistent.slot i t ht
    exact ⟨t, s, ht, rfl, hs, hf⟩
  joins join hjoin := by
    obtain ⟨a, hset, hcomp⟩ := exists_rel_of_mem_right h.joins hjoin
    exact ⟨a.ruleSet, hset, (List.getElem?_eq_some_iff.mp hcomp.rule).1,
      fun i hi => lt_of_mem_terms hcomp.terms hi⟩

/-! ### Refreshing -/

section Refresh

variable {net : Network}

theorem InStep.exists_slot (h : net.InStep) {i : Nat} (hi : i < net.tests.size) :
    ∃ s, net.slots[i]? = some s ∧ s < net.fields.size := by
  obtain ⟨t, ht⟩ := h.number_surjective i hi
  obtain ⟨-, s, -, -, hs, hf⟩ := h.node t i ht
  exact ⟨s, hs, Numbering.getElem?_items_lt hf⟩

theorem size_outcomes (net : Network) (values : Array (Option Json)) :
    (net.outcomes values).size = net.tests.size :=
  Array.size_ofFn

/-- The tests that read a slot, and no others, have new outcomes. -/
theorem InStep.getElem?_rerun (h : net.InStep) {slot : Nat} (hslot : slot < net.fields.size)
    (values : Array (Option Json)) (outcomes : Array Outcome) (i : Nat) :
    (net.rerun values slot outcomes)[i]?
      = if net.slots[i]? = some slot then outcomes[i]?.map (fun _ => net.outcomeAt values i)
        else outcomes[i]? := by
  have hr := Array.getElem?_eq_getElem (h.size_readers ▸ hslot)
  rw [Network.getElem?_rerun hr]
  simp only [Array.mem_toList_iff, (h.readers slot _ hr).2]

/-- The tests on a field, run again, have their outcomes on its value. -/
theorem InStep.getElem?_rerun_of_field (h : net.InStep) {t : Test} {slot i : Nat}
    (hslot : net.fields.number? t.field = some slot) (hi : net.tests.number? t = some i)
    (values : Array (Option Json)) {outcomes : Array Outcome}
    (ho : outcomes.size = net.tests.size) :
    (net.rerun values slot outcomes)[i]?
      = some (t.condition.outcome (values[slot]?.getD none)) := by
  obtain ⟨node, s, hnode, hcond, hs, hf⟩ := h.node t i hi
  have hcond' : node.condition = t.condition := hcond
  obtain rfl : slot = s :=
    Option.some.inj (hslot.symm.trans ((h.field_number t.field s).mpr hf))
  have hlt : i < outcomes.size := ho ▸ h.number_lt t i hi
  rw [h.getElem?_rerun (Numbering.getElem?_items_lt hf), if_pos hs,
    Array.getElem?_eq_getElem hlt, Option.map_some, outcomeAt_eq hnode hs, hcond']

/-- **The tests of its slot are enough** when a field has a new value: all outcomes are then those
on the new values. -/
theorem InStep.rerun_outcomes (h : net.InStep) {slot : Nat} (hslot : slot < net.fields.size)
    (values : Array (Option Json)) (v : Option Json) :
    net.rerun (values.setIfInBounds slot v) slot (net.outcomes values)
      = net.outcomes (values.setIfInBounds slot v) := by
  refine Array.ext_getElem? fun i => ?_
  rw [h.getElem?_rerun hslot]
  by_cases hi : i < net.tests.size
  · obtain ⟨s, hs, -⟩ := h.exists_slot hi
    have ht : net.tests.items[i]? = some net.tests.items[i] := Array.getElem?_eq_getElem hi
    rw [getElem?_outcomes net _ hi, getElem?_outcomes net _ hi]
    split
    · rw [Option.map_some]
    · next hne =>
      -- the test reads another slot, where the value is the same
      have hother : slot ≠ s := fun he => hne (he ▸ hs)
      rw [outcomeAt_eq ht hs, outcomeAt_eq ht hs, Array.getElem?_setIfInBounds_ne hother]
  · have hout : ∀ values, (net.outcomes values)[i]? = none := fun values =>
      Array.getElem?_eq_none (net.size_outcomes values ▸ Nat.not_lt.mp hi)
    rw [hout, hout, Option.map_none, ite_self]

end Refresh

/-! ### No access fails -/

section Bounds

variable {net : Network}

/-- What the accesses of a walk need of its memory: a value for every field, and an outcome for
every test. -/
structure Memory.Fits (net : Network) (m : Memory) : Prop where
  values : m.values.size = net.fields.size
  outcomes : m.outcomes.size = net.tests.size

theorem write?_eq_some {α : Type} {as : Array α} {i : Nat} (hi : i < as.size) (a : α) :
    write? as i a = some (as.setIfInBounds i a) :=
  if_pos hi

theorem size_values (net : Network) (fact : Fact) : (net.values fact).size = net.fields.size :=
  Array.size_map

theorem InStep.outcomeAt?_eq (h : net.InStep) {values : Array (Option Json)}
    (hv : values.size = net.fields.size) {i : Nat} (hi : i < net.tests.size) :
    net.outcomeAt? values i = some (net.outcomeAt values i) := by
  obtain ⟨s, hs, hlt⟩ := h.exists_slot hi
  have ht : net.tests.items[i]? = some net.tests.items[i] := Array.getElem?_eq_getElem hi
  have hlt' : s < values.size := hv ▸ hlt
  have hvalue := Array.getElem?_eq_getElem hlt'
  rw [outcomeAt_eq ht hs, outcomeAt?, ht, hs, hvalue]
  simp [hvalue]

theorem InStep.outcomes?_eq (h : net.InStep) {values : Array (Option Json)}
    (hv : values.size = net.fields.size) : net.outcomes? values = some (net.outcomes values) := by
  have hall := mapM_eq_some fun i hi => h.outcomeAt?_eq hv (List.mem_range.mp hi)
  rw [outcomes?, hall]
  refine congrArg some (Array.ext (by simp [outcomes]) fun i _ _ => ?_)
  simp [outcomes]

theorem termOutcome?_eq {outcomes : Array Outcome} {term : Term}
    (h : ∀ i, term = .test i → i < outcomes.size) :
    termOutcome? outcomes term = some (termOutcome outcomes term) := by
  cases term with
  | test i =>
      have hlt := Array.getElem?_eq_getElem (h i rfl)
      rw [termOutcome?, termOutcome, hlt, Option.getD_some]
  | unresolved => rfl

theorem InStep.joinHolds?_eq (h : net.InStep) {join : Join} (hjoin : join ∈ net.joins.toList)
    {outcomes : Array Outcome} (ho : outcomes.size = net.tests.size) :
    joinHolds? outcomes join = some (joinHolds outcomes join) := by
  obtain ⟨-, -, -, hterms⟩ := h.joins join hjoin
  have hall : ∀ term ∈ join.terms,
      termOutcome? outcomes term = some (termOutcome outcomes term) :=
    fun term hterm => termOutcome?_eq fun i hi => ho ▸ hterms i (hi ▸ hterm)
  rw [joinHolds?, mapM_eq_some hall]
  rfl

theorem InStep.exists_activation? (h : net.InStep) {join : Join} (hjoin : join ∈ net.joins.toList) :
    ∃ a, net.activation? join = some a := by
  obtain ⟨rs, hrs, hrule, -⟩ := h.joins join hjoin
  refine ⟨⟨rs, rs.rules[join.rule]⟩, ?_⟩
  rw [activation?, hrs, Option.bind_eq_bind, Option.bind_some, List.getElem?_eq_getElem hrule]
  rfl

/-- The tests of a slot do not fail, and give the outcomes that the tests of these numbers have. -/
theorem InStep.rerun?_eq (h : net.InStep) {values : Array (Option Json)}
    (hv : values.size = net.fields.size) {slot : Nat} (hslot : slot < net.fields.size)
    {outcomes : Array Outcome} (ho : outcomes.size = net.tests.size) :
    net.rerun? values slot outcomes = some (net.rerun values slot outcomes) ∧
      (net.rerun values slot outcomes).size = net.tests.size := by
  have hr := Array.getElem?_eq_getElem (h.size_readers ▸ hslot)
  have hlt' : slot < values.size := hv ▸ hslot
  have hvalue := Array.getElem?_eq_getElem hlt'
  rw [rerun?, rerun, hr, Option.getD_some, ← Array.foldl_toList]
  refine foldlM_eq_some (P := fun outcomes : Array Outcome => outcomes.size = net.tests.size)
    (fun outcomes i hi ho => ?_) ho
  -- a test that the slot lists reads the slot
  have hs : net.slots[i]? = some slot := ((h.readers slot _ hr).2 i).mp (Array.mem_toList_iff.mp hi)
  have hlt : i < net.tests.size := h.size_slots ▸ (Array.getElem?_eq_some_iff.mp hs).1
  have ht : net.tests.items[i]? = some net.tests.items[i] := Array.getElem?_eq_getElem hlt
  refine ⟨?_, Array.size_setIfInBounds.trans ho⟩
  rw [outcomeAt_eq ht hs, rerunAt?, ht, hvalue]
  exact write?_eq_some (ho ▸ hlt) _

/-- **A look at one field** does not fail, and keeps the memory fit. -/
theorem InStep.refreshSlot?_eq (h : net.InStep) {m : Memory} (hm : m.Fits net) {slot : Nat}
    (hslot : slot < net.fields.size) (fact : Fact) (field : String) :
    net.refreshSlot? fact slot field m = some (net.refreshSlot fact slot field m) ∧
      (net.refreshSlot fact slot field m).Fits net := by
  have hlt : slot < m.values.size := hm.values ▸ hslot
  have hvalue := Array.getElem?_eq_getElem hlt
  rw [refreshSlot?, refreshSlot, hvalue, Option.getD_some]
  split
  · next hsame => exact ⟨if_pos hsame, hm⟩
  · next hnew =>
    have hsize : (m.values.setIfInBounds slot (fact.get? field)).size = net.fields.size :=
      Array.size_setIfInBounds.trans hm.values
    obtain ⟨hrerun, hout⟩ := h.rerun?_eq hsize hslot hm.outcomes
    refine ⟨?_, hsize, hout⟩
    rw [Option.bind_eq_bind, Option.bind_some, if_neg hnew, write?_eq_some hlt,
      Option.bind_eq_bind, Option.bind_some, hrerun]
    rfl

/-- **A look at the fact.** -/
theorem InStep.refresh?_eq (h : net.InStep) {m : Memory} (hm : m.Fits net) (fact : Fact) :
    net.refresh? fact m = some (net.refresh fact m) ∧ (net.refresh fact m).Fits net := by
  refine foldlM_eq_some (P := Memory.Fits net) (fun m entry hentry hm => ?_) hm
  have hslot : net.fields.items[entry.2]? = some entry.1 := by
    simpa using List.mem_zipIdx_iff_getElem?.mp hentry
  exact h.refreshSlot?_eq hm (Numbering.getElem?_items_lt hslot) fact entry.1

theorem InStep.holding?_eq (h : net.InStep) {outcomes : Array Outcome}
    (ho : outcomes.size = net.tests.size) {joins : List Join} (hj : joins ⊆ net.joins.toList) :
    net.holding? outcomes joins
      = some ((joins.filter (joinHolds outcomes)).filterMap net.activation?) := by
  induction joins with
  | nil => rfl
  | cons join joins ih =>
      obtain ⟨hjoin, hrest⟩ := List.cons_subset.mp hj
      obtain ⟨a, ha⟩ := h.exists_activation? hjoin
      rw [holding?, h.joinHolds?_eq hjoin ho, Option.bind_eq_bind, Option.bind_some, ih hrest]
      cases hholds : joinHolds outcomes join with
      | true => simp [hholds, ha]
      | false => simp [hholds]

/-- **A walk** from a memory that fits does not fail. -/
theorem InStep.walk?_eq {σ ε : Type} (h : net.InStep)
    (fire : Activation → Fact → σ → Reply σ ε) {joins : List Join} (hj : joins ⊆ net.joins.toList)
    {m : Memory} (hm : m.Fits net) (fact : Fact) (state : σ) :
    net.walk? fire joins m fact state = some (net.walk fire joins m fact state) := by
  induction joins generalizing m fact state with
  | nil => rfl
  | cons join joins ih =>
      obtain ⟨hjoin, hrest⟩ := List.cons_subset.mp hj
      obtain ⟨a, ha⟩ := h.exists_activation? hjoin
      rw [walk?, walk, h.joinHolds?_eq hjoin hm.outcomes, Option.bind_eq_bind, Option.bind_some]
      split
      · rw [ha, Option.bind_eq_bind, Option.bind_some]
        dsimp only
        cases (fire a fact state).failure with
        | some e => rfl
        | none =>
            obtain ⟨hlook, hfits⟩ := h.refresh?_eq hm (fire a fact state).fact
            dsimp only
            rw [hlook]
            exact ih hrest hfits _ _
      · exact ih hrest hm fact state

theorem InStep.matching?_eq (h : net.InStep) (fact : Fact) :
    net.matching? fact = some (net.matching fact) := by
  rw [matching?, h.outcomes?_eq (net.size_values fact), Option.bind_eq_bind, Option.bind_some,
    h.holding?_eq (net.size_outcomes _) (List.Subset.refl _)]
  rfl

theorem InStep.run?_eq {σ ε : Type} (h : net.InStep) (fire : Activation → Fact → σ → Reply σ ε)
    (fact : Fact) (state : σ) : net.run? fire fact state = some (net.run fire fact state) := by
  have hfits : (Memory.mk (net.values fact) (net.outcomes (net.values fact))).Fits net :=
    ⟨net.size_values fact, net.size_outcomes _⟩
  rw [run?, h.outcomes?_eq (net.size_values fact), Option.bind_eq_bind, Option.bind_some,
    h.walk?_eq fire (List.Subset.refl _) hfits]
  rfl

end Bounds

end Network

/-- **Tables in step.**  However rule sets are registered, the tables of the network and its joins
are in step.  So matching and walks, whatever is done at a firing, stay within the tables: with
every access out of bounds a failure they do not fail, and give what they give without.  And all
tests that read a field are among those of its slot: run again, they have their outcomes on the
value of the slot, and where no other value is new, all outcomes are then those on the values. -/
theorem tables_in_step (ruleSets : List RuleSet) :
    let net := Network.ofRuleSets ruleSets
    net.InStep ∧
      (∀ fact, net.matching? fact = some (net.matching fact)) ∧
      (∀ {σ ε : Type} (fire : Activation → Fact → σ → Reply σ ε) (fact : Fact) (state : σ),
        net.run? fire fact state = some (net.run fire fact state)) ∧
      (∀ (t : Test) (i slot : Nat), net.tests.number? t = some i →
        net.fields.number? t.field = some slot → ∀ values outcomes,
          outcomes.size = net.tests.size →
          (net.rerun values slot outcomes)[i]?
            = some (t.condition.outcome (values[slot]?.getD none))) ∧
      ∀ slot < net.fields.size, ∀ values v,
        net.rerun (values.setIfInBounds slot v) slot (net.outcomes values)
          = net.outcomes (values.setIfInBounds slot v) := by
  intro net
  have h : net.InStep := (Network.compiles_ofRuleSets ruleSets).inStep
  refine ⟨h, h.matching?_eq, h.run?_eq, fun t i slot hi hslot values outcomes ho => ?_,
    fun slot hslot values v => h.rerun_outcomes hslot values v⟩
  exact h.getElem?_rerun_of_field hslot hi values ho

end DecisionTable
