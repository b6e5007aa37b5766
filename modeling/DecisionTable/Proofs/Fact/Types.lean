import DecisionTable.Proofs.Action.Operator
import DecisionTable.Proofs.RuleSet.Sequence

/-!
# Fact — The types of fields

The type of a field changes in one way only: a `Set` makes a text of everything but truth values,
and no other action changes a type.

* `Json.type`: truth value, text or word.  Any other value is the only one of its type, so it stays
  as it is while its type does.
* `Fact.Shifts`: the type of a field in one fact and in a later one, according to whether a `Set`
  took effect on the field in between.  Shifts compose (`Fact.Shifts.trans`).
* `RuleSet.Sets`, `Firing.SetAmong`: a `Set` takes effect on a field, while action cells are applied
  and while rules are fired one after another.
* `RuleSet.shifts_cell`, `RuleSet.shifts_applyCells`, `Firing.shifts_run`: what one cell does to the
  type of a field, what the cells of a rule do, and what rules do that are fired one after another.
* `field_types_evolve`: what this says of the values, and of later actions on texts.
-/

namespace DecisionTable

/-! ### Types of values -/

namespace Json

/-- The types of values that actions tell apart. -/
inductive FieldType where
  | truth
  | text
  | word
  /-- the value alone -/
  | only (v : Json)

/-- The type that a `Set` makes of a type. -/
def FieldType.afterSet : FieldType → FieldType
  | .truth => .truth
  | _ => .text

theorem FieldType.afterSet_afterSet (t : FieldType) : t.afterSet.afterSet = t.afterSet := by
  cases t <;> rfl

/-- The values of a type. -/
def FieldType.Has : FieldType → Json → Prop
  | .truth, v => ∃ b, v = .bool b
  | .text, v => ∃ s, v = .text s
  | .word, v => ∃ w, v = .ofInt64 w
  | .only u, v => v = u

/-- The type of a value. -/
def type (v : Json) : FieldType :=
  match v with
  | .bool _ => .truth
  | .text _ => .text
  | v => if v.int64?.isSome then .word else .only v

/-- The values that are neither truth values nor texts nor words. -/
inductive Fixed : Json → Prop
  | null : Fixed .null
  | real (x : DecisionTable.Number.Binary64) : Fixed (.number (.real x))
  | beyond {n : Integer} (h : 0x7fffffffffffffff < n.val) : Fixed (.number (.integer n))
  | array (items : List Json) : Fixed (.array items)
  | object (fields : List (String × Json)) : Fixed (.object fields)

theorem type_number (n : Number) :
    (number n).type = if (number n).int64?.isSome then .word else .only (number n) := rfl

@[simp] theorem type_text (s : String) : (text s).type = .text := rfl

@[simp] theorem type_ofInt64 (w : Int64) : (ofInt64 w).type = .word := by
  have hw : (ofInt64 w).int64? = some w := int64?_eq_some_iff.mpr rfl
  rw [ofInt64] at hw ⊢
  rw [type_number, hw]
  rfl

theorem type_of_fixed {v : Json} (h : v.Fixed) : v.type = .only v := by
  cases h with
  | @beyond n h =>
      have hout : n.toInt64? = none := DecisionTable.Number.int64?_eq_none_iff.mpr (.inr (by omega))
      rw [type_number, int64?, hout]
      rfl
  | _ => rfl

/-- A value is one of its type. -/
theorem has_type (v : Json) : v.type.Has v := by
  cases v with
  | bool b => exact ⟨b, rfl⟩
  | text s => exact ⟨s, rfl⟩
  | number n =>
      cases hw : (number n).int64? with
      | some w =>
          rw [type_number, hw]
          exact ⟨w, int64?_eq_some_iff.mp hw⟩
      | none =>
          rw [type_number, hw]
          rfl
  | _ => rfl

theorem FieldType.has_of_eq {v : Json} {t : FieldType} (h : v.type = t) : t.Has v :=
  h ▸ v.has_type

theorem afterSet_type_of_ne_bool {v : Json} (h : ∀ b, v ≠ .bool b) : v.type.afterSet = .text := by
  cases ht : v.type with
  | truth =>
      obtain ⟨b, rfl⟩ := FieldType.has_of_eq ht
      exact absurd rfl (h b)
  | _ => rfl

end Json

/-- A `Set` stores a value of the type that it makes of the type of the field. -/
theorem Action.Operator.type_of_apply_set {field text : String} {current v : Json}
    (h : apply .set field current text = .ok v) : v.type = current.type.afterSet := by
  rcases apply_set_eq_ok_iff.mp h with ⟨a, b, rfl, -, rfl⟩ | ⟨hcurrent, rfl⟩
  · rfl
  · rw [Json.type_text, Json.afterSet_type_of_ne_bool hcurrent]

/-- The other operators keep the type. -/
theorem Action.Operator.type_of_apply {op : Operator} (hop : op ≠ .set) {field text : String}
    {current v : Json} (h : op.apply field current text = .ok v) : v.type = current.type := by
  obtain ⟨a, b, w, rfl, -, -, rfl⟩ := (apply_eq_ok_iff hop).mp h
  rw [Json.type_ofInt64, Json.type_ofInt64]

/-! ### Types of fields -/

namespace Fact

/-- The type of a field, if the fact has it. -/
def type? (f : Fact) (field : String) : Option Json.FieldType :=
  (f.get? field).map Json.type

/-- The type of a field in a fact and in a later one, when `set` says whether a `Set` took effect on
the field in between. -/
structure Shifts (field : String) (set : Prop) (before after : Fact) : Prop where
  shifted : set → after.type? field = (before.type? field).map .afterSet
  kept : ¬ set → after.type? field = before.type? field

namespace Shifts

variable {field : String} {set set' : Prop} {before between after : Fact}

theorem of_kept (hset : ¬ set) (h : after.get? field = before.get? field) :
    Shifts field set before after :=
  ⟨fun hyes => absurd hyes hset, fun _ => congrArg (Option.map Json.type) h⟩

theorem congr (h : Shifts field set before after) (hset : set ↔ set') :
    Shifts field set' before after :=
  propext hset ▸ h

/-- **Shifts compose.**  A `Set` that takes effect later finds the type that an earlier one made. -/
theorem trans (h₁ : Shifts field set before between) (h₂ : Shifts field set' between after) :
    Shifts field (set ∨ set') before after where
  shifted := by
    intro hset
    by_cases hlater : set'
    · rw [h₂.shifted hlater]
      by_cases hearlier : set
      · rw [h₁.shifted hearlier, Option.map_map]
        exact congrArg (Option.map · _) (funext Json.FieldType.afterSet_afterSet)
      · rw [h₁.kept hearlier]
    · rw [h₂.kept hlater, h₁.shifted (hset.resolve_right hlater)]
  kept := by
    intro hset
    rw [h₂.kept fun h => hset (.inr h), h₁.kept fun h => hset (.inl h)]

end Shifts

end Fact

/-! ### Action cells -/

namespace RuleSet

/-- While action cells are applied to a fact, a `Set` takes effect on a field: it is reached, and
succeeds. -/
inductive Sets (rs : RuleSet) (name : RuleName) (auditField field : String) :
    List Cell → Fact → Prop
  | here {cell : Cell} {cells : List Cell} {fact left : Fact} {n : Nat}
      (hset : rs.ActsOn cell .set field)
      (hcell : rs.applyCells name auditField [cell] fact = ⟨left, .ok n⟩) :
      Sets rs name auditField field (cell :: cells) fact
  | later {cell : Cell} {cells : List Cell} {fact left : Fact} {n : Nat}
      (hcell : rs.applyCells name auditField [cell] fact = ⟨left, .ok n⟩)
      (hrest : Sets rs name auditField field cells left) :
      Sets rs name auditField field (cell :: cells) fact

variable {rs : RuleSet} {name : RuleName} {auditField field : String} {cell : Cell}
  {cells : List Cell} {fact left : Fact} {n : Nat} {op : Action.Operator}

theorem sets_cons_of_ok (h : rs.applyCells name auditField [cell] fact = ⟨left, .ok n⟩) :
    rs.Sets name auditField field (cell :: cells) fact ↔
      rs.ActsOn cell .set field ∨ rs.Sets name auditField field cells left := by
  constructor
  · intro hsets
    cases hsets with
    | here hset => exact .inl hset
    | later hcell hrest =>
        rw [hcell] at h
        cases h
        exact .inr hrest
  · rintro (hset | hrest)
    · exact .here hset h
    · exact .later h hrest

theorem not_sets_cons_of_error {err : ActionError}
    (h : rs.applyCells name auditField [cell] fact = ⟨left, .error err⟩) :
    ¬ rs.Sets name auditField field (cell :: cells) fact := by
  intro hsets
  cases hsets with
  | here _ hcell | later hcell =>
      rw [hcell] at h
      cases h

/-- **One cell** that succeeds shifts the type of a field if it is a `Set` on the field. -/
theorem shifts_cell (haudit : ¬ rs.RecordsAt auditField field)
    (h : rs.applyCells name auditField [cell] fact = ⟨left, .ok n⟩) :
    Fact.Shifts field (rs.ActsOn cell .set field) fact left := by
  cases acts_iff.mpr h with
  | passedOver ht =>
      -- a `Set` is passed over if the fact lacks the field
      refine ⟨fun hset => ?_, fun _ => rfl⟩
      have hnone : fact.get? field = none := by
        cases hc : fact.get? field with
        | none => rfl
        | some current =>
            rw [hset.target?_eq hc] at ht
            cases ht
      rw [Fact.type?, hnone, Option.map_none, Option.map_none]
  | idle ht hnone =>
      refine .of_kept (fun hset => ?_) (get?_audit haudit name fact)
      have hsome := hset.operator
      rw [hnone] at hsome
      cases hsome
  | @wrote target current v op ht hop hv =>
      obtain ⟨-, htarget, hc⟩ := target?_eq_some_iff.mp ht
      have hafter := get?_audit haudit name (fact.insert target v)
      by_cases hfield : target = field
      · subst hfield
        rw [Fact.get?_insert_self] at hafter
        constructor
        · intro hset
          obtain rfl : op = .set := Option.some.inj (hop.symm.trans hset.operator)
          rw [Fact.type?, Fact.type?, hafter, hc, Option.map_some, Option.map_some, Option.map_some,
            Action.Operator.type_of_apply_set hv]
        · intro hset
          have hne : op ≠ .set := by
            rintro rfl
            exact hset ⟨(target?_eq_some_iff.mp ht).1, hop, htarget⟩
          rw [Fact.type?, Fact.type?, hafter, hc, Option.map_some, Option.map_some,
            Action.Operator.type_of_apply hne hv]
      · rw [Fact.get?_insert_of_ne hfield] at hafter
        refine .of_kept (fun hset => hfield ?_) hafter
        exact Option.some.inj (htarget.symm.trans hset.fieldName)

/-- **The cells of a rule**, whether they succeed or fail. -/
theorem shifts_applyCells (haudit : ¬ rs.RecordsAt auditField field) (name : RuleName)
    (cells : List Cell) (fact : Fact) :
    Fact.Shifts field (rs.Sets name auditField field cells fact) fact
      (rs.applyCells name auditField cells fact).fact := by
  induction cells generalizing fact with
  | nil => exact .of_kept (fun h => nomatch h) rfl
  | cons cell cells ih =>
      rw [applyCells_cons]
      cases hcell : rs.applyCells name auditField [cell] fact with
      | mk left result =>
          cases result with
          | error err =>
              -- a failing cell leaves the fact alone, and the cells behind it are not reached
              obtain rfl := fact_eq_of_error hcell
              exact .of_kept (not_sets_cons_of_error hcell) rfl
          | ok n =>
              rw [Applied.andThen_ok]
              exact ((shifts_cell haudit hcell).trans (ih left)).congr (sets_cons_of_ok hcell).symm

/-- Nothing is added to a text: the action fails, and the fact stays as the cells before it left
it. -/
theorem applyCells_text {before : List Cell} {s : String} (hop : op ≠ .set)
    (h : rs.ActsOn cell op field) (hs : left.get? field = some (.text s))
    (hbefore : rs.applyCells name auditField before fact = ⟨left, .ok n⟩) (after : List Cell) :
    rs.applyCells name auditField (before ++ cell :: after) fact
      = ⟨left, .error (.notAnInteger field (Json.text s).render)⟩ := by
  refine applyCells_of_failing_cell hbefore ?_ after
  rw [h.applyCells_eq hs, Action.Operator.apply_text hop]

end RuleSet

/-! ### Rules fired one after another -/

/-- A rule that is fired, with the rule set that it is fired under and the audit field. -/
structure Firing where
  ruleSet : RuleSet
  rule : Rule
  auditField : String

namespace Firing

/-- Fires the rule on a fact. -/
def applied (firing : Firing) (fact : Fact) : Applied :=
  firing.ruleSet.fire firing.rule firing.auditField fact

/-- The fact that rules leave which are fired one after another, whether they succeed or fail. -/
def run : List Firing → Fact → Fact
  | [], fact => fact
  | firing :: firings, fact => run firings (firing.applied fact).fact

/-- A `Set` takes effect on a field while the rule is fired. -/
def Sets (firing : Firing) (field : String) (fact : Fact) : Prop :=
  firing.ruleSet.Sets (.ofRule firing.ruleSet firing.rule) firing.auditField field
    firing.rule.actions fact

/-- A `Set` takes effect on a field while rules are fired one after another. -/
inductive SetAmong (field : String) : List Firing → Fact → Prop
  | here {firing : Firing} {firings : List Firing} {fact : Fact} (hset : firing.Sets field fact) :
      SetAmong field (firing :: firings) fact
  | later {firing : Firing} {firings : List Firing} {fact : Fact}
      (hrest : SetAmong field firings (firing.applied fact).fact) :
      SetAmong field (firing :: firings) fact

variable {field : String} {firing : Firing} {firings : List Firing} {fact : Fact}

theorem setAmong_cons_iff : SetAmong field (firing :: firings) fact ↔
    firing.Sets field fact ∨ SetAmong field firings (firing.applied fact).fact := by
  constructor
  · intro h
    cases h with
    | here hset => exact .inl hset
    | later hrest => exact .inr hrest
  · rintro (hset | hrest)
    · exact .here hset
    · exact .later hrest

/-- **Rules fired one after another** shift the type of a field if one of them sets it. -/
theorem shifts_run (haudit : ∀ firing ∈ firings, ¬ firing.ruleSet.RecordsAt firing.auditField field)
    (fact : Fact) : Fact.Shifts field (SetAmong field firings fact) fact (run firings fact) := by
  induction firings generalizing fact with
  | nil => exact .of_kept (fun h => nomatch h) rfl
  | cons firing firings ih =>
      obtain ⟨hhead, htail⟩ := List.forall_mem_cons.mp haudit
      have hfiring : Fact.Shifts field (firing.Sets field fact) fact (firing.applied fact).fact :=
        RuleSet.shifts_applyCells hhead _ firing.rule.actions fact
      exact (hfiring.trans (ih htail _)).congr setAmong_cons_iff.symm

end Firing

/-! ### Values of fields -/

/-- The value of a field and a later one, when `set` says whether a `Set` took effect on the field
in between.  Truth values stay truth values and texts stay texts in any case.  Until the `Set` a
word is a word and any other value stays as it is, and from then on both are texts. -/
structure Json.Evolves (set : Prop) (v w : Json) : Prop where
  truth : ∀ a, v = .bool a → ∃ b, w = .bool b
  text : ∀ s, v = .text s → ∃ t, w = .text t
  word : ¬ set → ∀ a, v = .ofInt64 a → ∃ b, w = .ofInt64 b
  fixed : ¬ set → v.Fixed → w = v
  spelled : set → (∀ b, v ≠ .bool b) → ∃ t, w = .text t

theorem Json.evolves_of_type {set : Prop} {v w : Json} (hset : set → w.type = v.type.afterSet)
    (hkept : ¬ set → w.type = v.type) : Evolves set v w where
  truth := by
    rintro a rfl
    by_cases h : set
    · exact FieldType.has_of_eq (hset h)
    · exact FieldType.has_of_eq (hkept h)
  text := by
    rintro s rfl
    by_cases h : set
    · exact FieldType.has_of_eq (hset h)
    · exact FieldType.has_of_eq (hkept h)
  word := by
    rintro h a rfl
    exact FieldType.has_of_eq ((hkept h).trans (type_ofInt64 a))
  fixed h hv := FieldType.has_of_eq ((hkept h).trans (type_of_fixed hv))
  spelled h hv := FieldType.has_of_eq ((hset h).trans (afterSet_type_of_ne_bool hv))

/-- A value evolves as the type of its field shifts. -/
theorem Fact.Shifts.exists_evolves {field : String} {set : Prop} {before after : Fact} {v : Json}
    (h : Shifts field set before after) (hv : before.get? field = some v) :
    ∃ w, after.get? field = some w ∧ Json.Evolves set v w := by
  have hbefore : before.type? field = some v.type := by rw [type?, hv, Option.map_some]
  by_cases hset : set
  · have hafter := h.shifted hset
    rw [hbefore, Option.map_some] at hafter
    obtain ⟨w, hw, htype⟩ := Option.map_eq_some_iff.mp hafter
    exact ⟨w, hw, Json.evolves_of_type (fun _ => htype) fun hno => absurd hset hno⟩
  · obtain ⟨w, hw, htype⟩ := Option.map_eq_some_iff.mp ((h.kept hset).trans hbefore)
    exact ⟨w, hw, Json.evolves_of_type (fun hyes => absurd hyes hset) fun _ => htype⟩

/-- **The types of fields evolve one way.**  Rules are fired one after another, of any rule sets and
with success or without, and none of them records applied rules in some field of the fact.  The
field keeps a value, and this is related to the first one as `Json.Evolves` says, according to
whether a `Set` took effect on the field.  If the field holds a text when a later rule comes to an
action that adds to it or takes away from it, then the rule fails there and leaves the fact as it
found it at that action, whatever the text spells. -/
theorem field_types_evolve {firings : List Firing} {fact : Fact} {field : String} {v : Json}
    (hv : fact.get? field = some v)
    (haudit : ∀ firing ∈ firings, ¬ firing.ruleSet.RecordsAt firing.auditField field) :
    (∃ w, (Firing.run firings fact).get? field = some w ∧
      Json.Evolves (Firing.SetAmong field firings fact) v w) ∧
    ∀ (rs : RuleSet) (rule : Rule) (auditField : String) (before after : List Cell) (cell : Cell)
      (op : Action.Operator) (left : Fact) (n : Nat) (s : String),
      rule.actions = before ++ cell :: after → rs.ActsOn cell op field → op ≠ .set →
      rs.fire { rule with actions := before } auditField (Firing.run firings fact)
        = ⟨left, .ok n⟩ →
      left.get? field = some (.text s) →
      rs.fire rule auditField (Firing.run firings fact)
        = ⟨left, .error (.notAnInteger field (Json.text s).render)⟩ := by
  refine ⟨(Firing.shifts_run haudit fact).exists_evolves hv, ?_⟩
  intro rs rule auditField before after cell op left n s hactions hcell hop hbefore hs
  rw [RuleSet.fire, hactions]
  exact RuleSet.applyCells_text hop hcell hs hbefore after

/-! ### A number that becomes a text -/

/-- A rule set that sets and increases `x`, and records its rules. -/
def Firing.sampleRules : RuleSet :=
  .ofRows { Metadata.ofId "a" .all with generalAction := some Metadata.setAppliedRules }
    ((ColumnTable.empty.define "s" "x" "Set").define "i" "x" "Increase")
    [⟨"1", [], [⟨"i", "1"⟩, ⟨"s", "7"⟩]⟩, ⟨"2", [], [⟨"i", "1"⟩]⟩]

/-- Its two rules. -/
def Firing.sample : List Firing :=
  sampleRules.rules.map fun rule => ⟨sampleRules, rule, "log"⟩

/-- A fact with the number 5 under `x`. -/
def Firing.sampleFact : Fact :=
  Fact.empty.insert "x" (.ofInt64 5)

/-- The first rule adds 1 and sets the field to a text that spells a number, so the second rule
fails.  A rule that sets the field once more and then adds to it fails behind its own `Set`. -/
theorem field_types_evolve_spelled_number :
    Firing.sampleFact.get? "x" = some (.ofInt64 5) ∧
    (∀ firing ∈ Firing.sample, ¬ firing.ruleSet.RecordsAt firing.auditField "x") ∧
    (Firing.run Firing.sample Firing.sampleFact).get? "x" = some (.text "7") ∧
    Firing.SetAmong "x" Firing.sample Firing.sampleFact ∧
    Json.Evolves (Firing.SetAmong "x" Firing.sample Firing.sampleFact) (.ofInt64 5) (.text "7") ∧
    ∃ left, left.get? "x" = some (.text "8") ∧
      Firing.sampleRules.fire ⟨"3", [], [⟨"s", "8"⟩, ⟨"i", "1"⟩, ⟨"s", "9"⟩]⟩ "log"
          (Firing.run Firing.sample Firing.sampleFact)
        = ⟨left, .error (.notAnInteger "x" "\"8\"")⟩ := by
  have haudit : ∀ firing ∈ Firing.sample, ¬ firing.ruleSet.RecordsAt firing.auditField "x" := by
    intro firing hfiring hrecords
    obtain ⟨rule, -, rfl⟩ := List.mem_map.mp hfiring
    have hne : "x" ≠ "log" := by decide
    exact hne hrecords.2
  have hrun : (Firing.run Firing.sample Firing.sampleFact).get? "x" = some (.text "7") := rfl
  have hset : Firing.SetAmong "x" Firing.sample Firing.sampleFact :=
    .here (.later (n := 1) rfl (.here (n := 1) ⟨rfl, rfl, rfl⟩ rfl))
  have hv : Firing.sampleFact.get? "x" = some (.ofInt64 5) := rfl
  obtain ⟨⟨w, hw, hevolves⟩, hfails⟩ := field_types_evolve hv haudit
  obtain rfl : w = .text "7" := Option.some.inj (hw.symm.trans hrun)
  refine ⟨hv, haudit, hrun, hset, hevolves, _, ?_, hfails Firing.sampleRules
    ⟨"3", [], [⟨"s", "8"⟩, ⟨"i", "1"⟩, ⟨"s", "9"⟩]⟩ "log" [⟨"s", "8"⟩] [⟨"s", "9"⟩] ⟨"i", "1"⟩
    .increase _ 1 "8" rfl ⟨rfl, rfl, rfl⟩ (by decide) rfl rfl⟩
  rfl

end DecisionTable
