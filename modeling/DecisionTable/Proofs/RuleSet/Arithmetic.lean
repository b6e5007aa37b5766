import DecisionTable.Proofs.Fact.Sums
import DecisionTable.Proofs.RuleSet.Sequence

/-!
# RuleSet — Sums and differences

What a rule does to a fact if all of its cells add to fields or take away from them.

* `RuleSet.Counts`: such a cell, on a field that holds a word if it is there.
* `RuleSet.deltas`: the integers that the cells of a rule add to the fields of a fact.
* `RuleSet.Counts.write_eq`: one cell stores the exact sum, or there is an overflow.
* `RuleSet.ends_applyCells`: cells add their integers, all of them or those before the first one
  that leaves the words.
* `arithmetic_exact`: what a rule leaves, by the running values of the fields.
-/

namespace DecisionTable

/-- A sum is a word, or it is refused. -/
theorem Action.Operator.checked_cases (field : String) (n : Int) :
    (∃ w : Int64, w.toInt = n ∧ checked field n = .ok (.ofInt64 w)) ∨
      ¬ Number.IsWord n ∧ checked field n = .error (.overflow field) := by
  rw [checked]
  cases h : Number.int64? n with
  | none => exact .inr ⟨Number.not_isWord_of_int64? h, rfl⟩
  | some w => exact .inl ⟨w, Number.int64?_eq_some_iff.mp h, rfl⟩

namespace RuleSet

/-- A cell adds to a field or takes away from it: its text is a word, the field holds one if the
fact has it, and applied rules are not recorded there. -/
structure Counts (rs : RuleSet) (auditField : String) (fact : Fact) (cell : Cell)
    (field : String) : Prop where
  operator : rs.operator? cell = some .increase ∨ rs.operator? cell = some .decrease
  text : ∃ w, Text.int64? cell.text = some w
  value : ∀ v, fact.get? field = some v → ∃ w, v.int64? = some w
  unaudited : ¬ rs.RecordsAt auditField field

/-- The integer that a cell adds, with its sign. -/
def amount? (rs : RuleSet) (cell : Cell) : Option Int :=
  match rs.operator? cell, Text.int64? cell.text with
  | some .increase, some w => some w.toInt
  | some .decrease, some w => some (-w.toInt)
  | _, _ => none

/-- What a cell adds to a field of the fact, unless it is passed over. -/
def delta? (rs : RuleSet) (fact : Fact) (cell : Cell) : Option Delta :=
  (rs.target? fact cell).bind fun target => (rs.amount? cell).map fun n => ⟨target.1, n⟩

/-- What cells add to the fields of the fact, from left to right. -/
def deltas (rs : RuleSet) (fact : Fact) (cells : List Cell) : List Delta :=
  cells.filterMap (rs.delta? fact)

variable {rs : RuleSet} {auditField : String} {fact other : Fact} {cell : Cell}
  {cells : List Cell} {field : String} {current : Json}

/-! ### One cell -/

theorem delta?_eq_some_iff {d : Delta} :
    rs.delta? fact cell = some d ↔ cell.isBlank = false ∧
      rs.columns.fieldName? cell.column = some d.field ∧ (fact.get? d.field).isSome = true ∧
        rs.amount? cell = some d.amount := by
  simp only [delta?, Option.bind_eq_some_iff, Option.map_eq_some_iff, Prod.exists,
    target?_eq_some_iff, Option.isSome_iff_exists]
  constructor
  · rintro ⟨field, v, ⟨hb, hf, hv⟩, n, hn, rfl⟩
    exact ⟨hb, hf, ⟨v, hv⟩, hn⟩
  · rintro ⟨hb, hf, ⟨v, hv⟩, hn⟩
    exact ⟨d.field, v, ⟨hb, hf, hv⟩, d.amount, hn, rfl⟩

/-- **One cell** stores the exact sum of the two words, or there is an overflow. -/
theorem Counts.write_eq (h : rs.Counts auditField fact cell field)
    (ht : rs.target? fact cell = some (field, current)) :
    ∃ (a : Int64) (n : Int), current.int64? = some a ∧ rs.delta? fact cell = some ⟨field, n⟩ ∧
      rs.write cell field current fact =
        (Action.Operator.checked field (a.toInt + n)).map (fact.insert field) := by
  obtain ⟨hb, hf, hc⟩ := target?_eq_some_iff.mp ht
  have hpresent : (fact.get? field).isSome = true := by rw [hc]; rfl
  obtain ⟨a, ha⟩ := h.value current hc
  obtain ⟨b, hb64⟩ := h.text
  have hoperands : Action.Operator.operands field current cell.text = .ok (a, b) := by
    rw [Action.Operator.operands, ha, hb64]
  rcases h.operator with hop | hop
  · have hn : rs.amount? cell = some b.toInt := by rw [amount?, hop, hb64]
    refine ⟨a, b.toInt, ha, delta?_eq_some_iff.mpr ⟨hb, hf, hpresent, hn⟩, ?_⟩
    rw [operator?] at hop
    rw [write, hop]
    simp only [Action.Operator.apply, hoperands]
    rfl
  · have hn : rs.amount? cell = some (-b.toInt) := by rw [amount?, hop, hb64]
    refine ⟨a, -b.toInt, ha, delta?_eq_some_iff.mpr ⟨hb, hf, hpresent, hn⟩, ?_⟩
    rw [operator?] at hop
    rw [write, hop]
    simp only [Action.Operator.apply, hoperands, ← Int.sub_eq_add_neg]
    rfl

/-- A cell that counts still does so on a fact with other sums. -/
theorem Counts.of_books {ds : List Delta} (h : rs.Counts auditField fact cell field)
    (hbooks : Fact.Books (rs.RecordsAt auditField) ds fact other) :
    rs.Counts auditField other cell field where
  operator := h.operator
  text := h.text
  value := by
    intro v hv
    have hpresent := hbooks.present field h.unaudited
    rw [hv, Option.isSome_some] at hpresent
    obtain ⟨u, hu⟩ := Option.isSome_iff_exists.mp hpresent.symm
    obtain ⟨w, hw⟩ := h.value u hu
    have hinteger := hbooks.integers field h.unaudited
    rw [Fact.running?, Fact.integer?_eq hu hw, Fact.integer?, hv, Option.bind_some] at hinteger
    obtain ⟨w', hw', -⟩ := Option.map_eq_some_iff.mp hinteger
    exact ⟨w', hw'⟩
  unaudited := h.unaudited

/-- The sum is stored, and the rule is recorded elsewhere. -/
theorem books_of_word (rs : RuleSet) (name : RuleName) (auditField : String) {a w : Int64} {n : Int}
    (hc : fact.get? field = some current) (ha : current.int64? = some a)
    (hw : w.toInt = a.toInt + n) :
    Fact.Books (rs.RecordsAt auditField) [⟨field, n⟩] fact
      (rs.audit name auditField (fact.insert field (.ofInt64 w))) := by
  have haudit := rs.edits_audit name auditField (fact.insert field (.ofInt64 w))
  exact (Fact.Books.insert hc ha hw).append (.of_kept haudit.kept)

/-! ### All cells of a rule -/

/-- Every cell that is not blank and whose column has a field counts. -/
def Arithmetic (rs : RuleSet) (auditField : String) (fact : Fact) (cells : List Cell) : Prop :=
  ∀ cell ∈ cells, cell.isBlank = false →
    ∀ field, rs.columns.fieldName? cell.column = some field → rs.Counts auditField fact cell field

namespace Arithmetic

variable {ds : List Delta}

theorem of_books (h : rs.Arithmetic auditField fact cells)
    (hbooks : Fact.Books (rs.RecordsAt auditField) ds fact other) :
    rs.Arithmetic auditField other cells :=
  fun cell hcell hb field hf => (h cell hcell hb field hf).of_books hbooks

theorem tail (h : rs.Arithmetic auditField fact (cell :: cells)) :
    rs.Arithmetic auditField fact cells :=
  fun cell hcell => h cell (.tail _ hcell)

/-- What cells add depends on the presence of fields, and not on what these hold. -/
theorem deltas_eq (h : rs.Arithmetic auditField fact cells)
    (hbooks : Fact.Books (rs.RecordsAt auditField) ds fact other) :
    rs.deltas other cells = rs.deltas fact cells := by
  refine List.filterMap_congr fun cell hcell => Option.ext fun d => ?_
  rw [delta?_eq_some_iff, delta?_eq_some_iff]
  refine and_congr_right fun hb => and_congr_right fun hf => ?_
  rw [hbooks.present d.field (h cell hcell hb d.field hf).unaudited]

theorem unaudited (h : rs.Arithmetic auditField fact cells) :
    ∀ d ∈ rs.deltas fact cells, ¬ rs.RecordsAt auditField d.field := by
  intro d hd
  obtain ⟨cell, hcell, hdelta⟩ := List.mem_filterMap.mp hd
  obtain ⟨hb, hf, -, -⟩ := delta?_eq_some_iff.mp hdelta
  exact (h cell hcell hb d.field hf).unaudited

/-- There is one integer for each cell that is not passed over. -/
theorem length_deltas (h : rs.Arithmetic auditField fact cells) :
    (rs.deltas fact cells).length = cells.countP fun cell => (rs.target? fact cell).isSome := by
  rw [deltas, List.length_filterMap_eq_countP]
  refine List.countP_congr fun cell hcell => ?_
  cases ht : rs.target? fact cell with
  | none => simp [delta?, ht]
  | some target =>
      obtain ⟨field, current⟩ := target
      obtain ⟨hb, hf, -⟩ := target?_eq_some_iff.mp ht
      obtain ⟨-, n, -, hdelta, -⟩ := (h cell hcell hb field hf).write_eq ht
      rw [hdelta, Option.isSome_some, Option.isSome_some]

end Arithmetic

/-- **The cells of a rule** add their integers, all of them or those before the first one that
leaves the words. -/
theorem ends_applyCells (rs : RuleSet) (name : RuleName) (auditField : String)
    {cells : List Cell} {fact : Fact} (h : rs.Arithmetic auditField fact cells) :
    Fact.Ends (rs.RecordsAt auditField) (rs.deltas fact cells) fact
      (rs.applyCells name auditField cells fact) := by
  induction cells generalizing fact with
  | nil => exact .exact fact.bears_nil (.of_kept fun _ _ => rfl)
  | cons cell cells ih =>
      rw [applyCells]
      cases ht : rs.target? fact cell with
      | none =>
          have hdelta : rs.delta? fact cell = none := by rw [delta?, ht, Option.bind_none]
          rw [deltas, List.filterMap_cons_none hdelta]
          exact ih h.tail
      | some target =>
          obtain ⟨field, current⟩ := target
          obtain ⟨hb, hf, hc⟩ := target?_eq_some_iff.mp ht
          obtain ⟨a, n, ha, hdelta, hwrite⟩ := (h cell (.head _) hb field hf).write_eq ht
          have hdeltas : rs.deltas fact (cell :: cells) = ⟨field, n⟩ :: rs.deltas fact cells :=
            List.filterMap_cons_some hdelta
          have hunaudited := h.unaudited
          rw [hdeltas] at hunaudited ⊢
          rcases Action.Operator.checked_cases field (a.toInt + n) with
            ⟨w, hw, hchecked⟩ | ⟨hleaves, hchecked⟩
          · have hbooks := rs.books_of_word name auditField hc ha hw
            have hrest := ih (h.tail.of_books hbooks)
            rw [h.tail.deltas_eq hbooks] at hrest
            simp only [hwrite, hchecked]
            exact hrest.cons hbooks hunaudited
          · have hn : fact.running? [⟨field, n⟩] field = some (a.toInt + n) := by
              rw [Fact.running?_singleton_self, Fact.integer?_eq hc ha, Option.map_some]
            simp only [hwrite, hchecked]
            exact .overflow (List.nil_append _).symm fact.bears_nil hn hleaves
              (.of_kept fun _ _ => rfl)

end RuleSet

/-- **Arithmetic is exact.**  Take a rule whose cells, if they are not blank and their columns have
fields, all add words to these fields or take words away, and a fact that holds words there.  If it
bears the integers of the cells that are not passed over, then the rule succeeds with the number of
these cells, and every field ends at its value plus the exact sum.  Otherwise there is a first
integer with which its field leaves the words.  The rule fails with an overflow of this field, and
the fact holds the values that were reached before. -/
theorem arithmetic_exact {rs : RuleSet} {rule : Rule} {auditField : String} {fact : Fact}
    (h : rs.Arithmetic auditField fact rule.actions) :
    let ds := rs.deltas fact rule.actions
    let applied := rs.fire rule auditField fact
    (fact.Bears ds →
      applied.result = .ok (rule.actions.countP fun cell => (rs.target? fact cell).isSome) ∧
        Fact.Books (rs.RecordsAt auditField) ds fact applied.fact) ∧
    (¬ fact.Bears ds → ∃ before d rest n, ds = before ++ d :: rest ∧ fact.Bears before ∧
      fact.running? (before ++ [d]) d.field = some n ∧ ¬ Number.IsWord n ∧
        applied.result = .error (.overflow d.field) ∧
          Fact.Books (rs.RecordsAt auditField) before fact applied.fact) := by
  intro ds applied
  have hends : Fact.Ends (rs.RecordsAt auditField) ds fact applied :=
    rs.ends_applyCells (.ofRule rs rule) auditField h
  rw [← h.length_deltas]
  generalize applied = result at hends ⊢
  cases hends with
  | exact hbears hbooks => exact ⟨fun _ => ⟨rfl, hbooks⟩, fun hno => absurd hbears hno⟩
  | @overflow before rest d n _ hds hbears hn hleaves hbooks =>
      refine ⟨fun hall => ?_, fun _ => ⟨before, d, rest, n, hds, hbears, hn, hleaves, rfl, hbooks⟩⟩
      have hprefix : before ++ [d] <+: ds := ⟨rest, by rw [hds, ← List.append_cons]⟩
      exact absurd (hall _ hprefix d.field n hn) hleaves

/-! ### The least word -/

namespace RuleSet

/-- A rule that takes the least word away from a balance, then adds 1 to it and takes 3 away. -/
def ledgerRule : Rule :=
  ⟨"1", [], [⟨"c", "-9223372036854775808"⟩, ⟨"e", " +7"⟩, ⟨"d", "1"⟩, ⟨"c", "3"⟩]⟩

/-- A rule set that keeps a balance under `x` and another number under `y`, and records the rule. -/
def ledger : RuleSet :=
  .ofRows { Metadata.ofId "a" .all with generalAction := some Metadata.setAppliedRules }
    (((ColumnTable.empty.define "c" "x" "Decrease").define "d" "x" "Increase").define
      "e" "y" "increase ") [ledgerRule]

/-- A fact with a balance. -/
def ledgerFact (x : Int64) : Fact :=
  (Fact.empty.insert "x" (.ofInt64 x)).insert "y" (.ofInt64 5)

/-- The rule, applied to a balance. -/
def ledgerRun (x : Int64) : Applied :=
  ledger.fire ledgerRule "log" (ledgerFact x)

theorem arithmetic_ledger (x : Int64) :
    ledger.Arithmetic "log" (ledgerFact x) ledgerRule.actions := by
  have hx : ∀ v, (ledgerFact x).get? "x" = some v → ∃ w, v.int64? = some w := by
    rintro v ⟨⟩
    exact ⟨x, Json.Integer.toInt64?_ofInt64 x⟩
  have hy : ∀ v, (ledgerFact x).get? "y" = some v → ∃ w, v.int64? = some w := by
    rintro v ⟨⟩
    exact ⟨5, rfl⟩
  have hlog : ∀ field, field ≠ "log" → ¬ ledger.RecordsAt "log" field := fun _ hne h => hne h.2
  rw [Arithmetic, ledgerRule]
  simp only [List.forall_mem_cons]
  refine ⟨fun _ field hf => ?_, fun _ field hf => ?_, fun _ field hf => ?_, fun _ field hf => ?_,
    by simp⟩
  · obtain rfl : "x" = field := Option.some.inj hf
    exact ⟨.inr rfl, ⟨Int64.minValue, by decide⟩, hx, hlog _ (by decide)⟩
  · obtain rfl : "y" = field := Option.some.inj hf
    exact ⟨.inl rfl, ⟨7, by decide⟩, hy, hlog _ (by decide)⟩
  · obtain rfl : "x" = field := Option.some.inj hf
    exact ⟨.inl rfl, ⟨1, by decide⟩, hx, hlog _ (by decide)⟩
  · obtain rfl : "x" = field := Option.some.inj hf
    exact ⟨.inr rfl, ⟨3, by decide⟩, hx, hlog _ (by decide)⟩

end RuleSet

/-- From -2 the balance goes up to the greatest word and down again.  From -1 the second sum is
refused, although the last one would be a word, and the fact holds the values that were reached
until then. -/
theorem arithmetic_exact_of_least_word :
    (RuleSet.ledger.Arithmetic "log" (RuleSet.ledgerFact (-2)) RuleSet.ledgerRule.actions ∧
      (RuleSet.ledgerRun (-2)).result = .ok 4 ∧
      (RuleSet.ledgerRun (-2)).fact.integer? "x" = some 9223372036854775804) ∧
    RuleSet.ledger.Arithmetic "log" (RuleSet.ledgerFact (-1)) RuleSet.ledgerRule.actions ∧
      (RuleSet.ledgerRun (-1)).result = .error (.overflow "x") ∧
      (RuleSet.ledgerRun (-1)).fact.integer? "x" = some 9223372036854775807 ∧
      ∃ before, Fact.Books (RuleSet.ledger.RecordsAt "log") before (RuleSet.ledgerFact (-1))
        (RuleSet.ledgerRun (-1)).fact := by
  have hlog : ¬ RuleSet.ledger.RecordsAt "log" "x" := fun h => absurd h.2 (by decide)
  have h := RuleSet.arithmetic_ledger (-2)
  have h' := RuleSet.arithmetic_ledger (-1)
  obtain ⟨hresult, hbooks⟩ := (arithmetic_exact h).1 (by decide)
  obtain ⟨before, -, -, -, -, -, -, -, -, hbooks'⟩ := (arithmetic_exact h').2 (by decide)
  exact ⟨⟨h, hresult, (hbooks.integers "x" hlog).trans (by decide)⟩, h', by decide, by decide,
    before, hbooks'⟩

end DecisionTable
