import DecisionTable.RuleSet.Actions

/-!
# RuleSet — The footprint of actions

Action cells edit a fact in place.  They write fields that the fact has, and no others; only the
record of applied rules may bring a field of its own, at the end.

* `Fact.Edits`: one fact comes from another by edits of some fields in place, with at most one field
  appended.  Edits compose (`Edits.trans`).
* `RuleSet.resolves`: some action cell is not passed over.  `RuleSet.Writes`: the fields that action
  cells may edit.
* `RuleSet.edits_applyCells`: action cells edit only these fields, and append the audit field only
  if they record a cell that resolves; this holds also when one of them fails.
* `RuleSet.Stage`: the facts that action cells go through; `Stage.edits` says the same of each.
-/

namespace DecisionTable

/-! ### Edits in place -/

namespace Fact

/-- The later fact has the fields of the earlier one in their order, with `auditField` behind them
only if `recorded`; and a field that is not `edited` holds what it held. -/
structure Edits (auditField : String) (edited : String → Prop) (recorded : Prop)
    (before after : Fact) : Prop where
  names : after.names = before.names ∨ recorded ∧ after.names = before.names ++ [auditField]
  kept : ∀ field, ¬ edited field → after.get? field = before.get? field

/-- Apart from the audit field, both facts have the same fields. -/
def SameFields (auditField : String) (f g : Fact) : Prop :=
  ∀ field, field ≠ auditField → (f.get? field).isSome = (g.get? field).isSome

theorem mem_names_iff {f : Fact} {field : String} :
    field ∈ f.names ↔ (f.get? field).isSome = true := by
  rw [Option.isSome_iff_ne_none, get?, names, Ne, Entries.get?_eq_none_iff,
    Classical.not_not]

/-- A new field goes to the end. -/
theorem names_insert_of_not_mem {f : Fact} {field : String} (h : field ∉ f.names) (v : Json) :
    (f.insert field v).names = f.names ++ [field] := by
  change Entries.names (Entries.put field v f.fields) = Entries.names f.fields ++ [field]
  rw [Entries.put_of_not_mem v h, Entries.names, List.map_append]
  rfl

namespace Edits

variable {auditField : String} {edited edited' : String → Prop} {recorded recorded' : Prop}
  {before between after : Fact}

theorem refl (fact : Fact) : Edits auditField edited recorded fact fact :=
  ⟨.inl rfl, fun _ _ => rfl⟩

theorem mono (he : ∀ field, edited field → edited' field) (hr : recorded → recorded')
    (h : Edits auditField edited recorded before after) :
    Edits auditField edited' recorded' before after :=
  ⟨h.names.imp_right (And.imp_left hr), fun field hf => h.kept field (mt (he field) hf)⟩

/-- A field cannot be appended twice. -/
theorem trans (h₁ : Edits auditField edited recorded before between)
    (h₂ : Edits auditField edited recorded' between after) :
    Edits auditField edited (recorded ∨ recorded') before after where
  names := by
    rcases h₁.names with hn₁ | ⟨hr₁, hn₁⟩
    · rw [← hn₁]
      exact h₂.names.imp_right (And.imp_left .inr)
    · rcases h₂.names with hn₂ | ⟨-, hn₂⟩
      · exact .inr ⟨.inl hr₁, hn₂.trans hn₁⟩
      · have hd : (before.names ++ [auditField] ++ [auditField]).Nodup := by
          rw [← hn₁, ← hn₂]
          exact after.distinct
        exact absurd rfl ((List.nodup_append.mp hd).2.2 auditField
          (List.mem_append_right _ (.head _)) auditField (.head _))
  kept field hf := (h₂.kept field hf).trans (h₁.kept field hf)

/-- A known field gets a value. -/
theorem insert {fact : Fact} {field : String} (h : field ∈ fact.names) (v : Json) :
    Edits auditField (· = field) False fact (fact.insert field v) :=
  ⟨.inl (names_insert_of_mem h v), fun _ hf => get?_insert_of_ne (Ne.symm hf) fact v⟩

/-- The audit field gets a value, at the end if it is new. -/
theorem record (fact : Fact) (auditField : String) (name : RuleName) :
    Edits auditField (· = auditField) True fact (fact.record auditField name) := by
  refine ⟨?_, fun _ hf => get?_insert_of_ne (Ne.symm hf) fact _⟩
  by_cases h : auditField ∈ fact.names
  · exact .inl (names_insert_of_mem h _)
  · exact .inr ⟨trivial, names_insert_of_not_mem h _⟩

/-- Fields neither come nor go, the audit field apart. -/
theorem sameFields (h : Edits auditField edited recorded before after) :
    SameFields auditField after before := by
  intro field hf
  rw [Bool.eq_iff_iff, ← mem_names_iff, ← mem_names_iff]
  rcases h.names with hn | ⟨-, hn⟩
  · rw [hn]
  · rw [hn, List.mem_append, List.mem_singleton, or_iff_left hf]

end Edits

end Fact

namespace RuleSet

/-! ### Cells that resolve, and the fields they write -/

/-- Some action cell is not passed over: it is not blank, its column has a field, and the fact has
the field. -/
def resolves (rs : RuleSet) (cells : List Cell) (fact : Fact) : Bool :=
  cells.any fun cell => (rs.target? fact cell).isSome

/-- The column of some action cell has the field. -/
def Targets (rs : RuleSet) (cells : List Cell) (field : String) : Prop :=
  ∃ cell ∈ cells, rs.columns.fieldName? cell.column = some field

/-- The fields that action cells may edit: those they target, and the audit field if the rule set
records applied rules. -/
def Writes (rs : RuleSet) (auditField : String) (cells : List Cell) (field : String) : Prop :=
  rs.Targets cells field ∨ rs.metadata.recordsAppliedRules = true ∧ field = auditField

variable {rs : RuleSet} {cell : Cell} {cells : List Cell} {field : String} {current : Json}
  {fact written : Fact}

theorem target?_eq_some_iff :
    rs.target? fact cell = some (field, current) ↔
      cell.isBlank = false ∧ rs.columns.fieldName? cell.column = some field ∧
        fact.get? field = some current := by
  rw [target?]
  cases cell.isBlank with
  | true => simp
  | false => simp [Option.bind_eq_some_iff]

theorem resolves_cons_of_none (h : rs.target? fact cell = none) :
    rs.resolves (cell :: cells) fact = rs.resolves cells fact := by
  simp [resolves, h]

theorem resolves_cons_of_some {t : String × Json} (h : rs.target? fact cell = some t) :
    rs.resolves (cell :: cells) fact = true := by
  simp [resolves, h]

theorem isSome_target?_iff :
    (rs.target? fact cell).isSome = true ↔
      cell.isBlank = false ∧ ∃ field, rs.columns.fieldName? cell.column = some field ∧
        (fact.get? field).isSome = true := by
  simp only [Option.isSome_iff_exists, Prod.exists, target?_eq_some_iff]
  constructor
  · rintro ⟨field, current, hb, hf, hc⟩
    exact ⟨hb, field, hf, current, hc⟩
  · rintro ⟨hb, field, hf, current, hc⟩
    exact ⟨field, current, hb, hf, hc⟩

/-- Whether cells resolve depends on the presence of the fields that they target, and not on what
these hold. -/
theorem resolves_congr {other : Fact}
    (h : ∀ field, rs.Targets cells field → (fact.get? field).isSome = (other.get? field).isSome) :
    rs.resolves cells fact = rs.resolves cells other := by
  rw [Bool.eq_iff_iff, resolves, resolves, List.any_eq_true, List.any_eq_true]
  refine exists_congr fun cell => and_congr_right fun hc => ?_
  rw [isSome_target?_iff, isSome_target?_iff]
  refine and_congr_right fun _ => exists_congr fun field => and_congr_right fun hf => ?_
  rw [h field ⟨cell, hc, hf⟩]

theorem Targets.cons (h : rs.Targets cells field) (cell : Cell) :
    rs.Targets (cell :: cells) field := by
  obtain ⟨c, hc, hf⟩ := h
  exact ⟨c, .tail _ hc, hf⟩

theorem Writes.cons {auditField : String} (h : rs.Writes auditField cells field) (cell : Cell) :
    rs.Writes auditField (cell :: cells) field :=
  h.imp_left (·.cons cell)

/-! ### What action cells edit -/

theorem edits_write {auditField : String}
    (ht : rs.target? fact cell = some (field, current))
    (hw : rs.write cell field current fact = .ok written) :
    Fact.Edits auditField (· = field) False fact written := by
  rcases of_write hw with rfl | ⟨_, v, -, rfl⟩
  · exact .refl written
  · refine .insert ?_ v
    rw [Fact.mem_names_iff, (target?_eq_some_iff.mp ht).2.2]
    rfl

theorem edits_audit (rs : RuleSet) (name : RuleName) (auditField : String) (fact : Fact) :
    Fact.Edits auditField (fun f => rs.metadata.recordsAppliedRules = true ∧ f = auditField)
      (rs.metadata.recordsAppliedRules = true) fact (rs.audit name auditField fact) := by
  rw [audit]
  split
  · next hr =>
    exact (Fact.Edits.record fact auditField name).mono (fun _ hf => ⟨hr, hf⟩) fun _ => hr
  · exact .refl fact

/-- **Action cells** edit the fields they may edit, and append the audit field only if they record a
cell that resolves. -/
theorem edits_applyCells (rs : RuleSet) (name : RuleName) (auditField : String)
    (cells : List Cell) (fact : Fact) :
    Fact.Edits auditField (rs.Writes auditField cells)
      (rs.metadata.recordsAppliedRules = true ∧ rs.resolves cells fact = true) fact
      (rs.applyCells name auditField cells fact).fact := by
  induction cells generalizing fact with
  | nil => exact .refl fact
  | cons cell cells ih =>
      rw [applyCells]
      split
      · next ht =>
        rw [resolves_cons_of_none ht]
        exact (ih fact).mono (fun _ hf => hf.cons cell) fun h => h
      · next field current ht =>
        split
        · exact .refl fact
        · next written hw =>
          rw [resolves_cons_of_some ht]
          have hwrite : Fact.Edits auditField (rs.Writes auditField (cell :: cells))
              (rs.metadata.recordsAppliedRules = true) fact written := by
            refine (edits_write ht hw).mono ?_ False.elim
            rintro _ rfl
            exact .inl ⟨cell, .head _, (target?_eq_some_iff.mp ht).2.1⟩
          have haudit : Fact.Edits auditField (rs.Writes auditField (cell :: cells))
              (rs.metadata.recordsAppliedRules = true) written (rs.audit name auditField written) :=
            (rs.edits_audit name auditField written).mono (fun _ hf => .inr hf) fun hr => hr
          have hrest : Fact.Edits auditField (rs.Writes auditField (cell :: cells))
              (rs.metadata.recordsAppliedRules = true) (rs.audit name auditField written)
              (rs.applyCells name auditField cells (rs.audit name auditField written)).fact :=
            (ih _).mono (fun _ hf => hf.cons cell) And.left
          refine ((hwrite.trans haudit).trans hrest).mono (fun _ hf => hf) fun hr => ⟨?_, rfl⟩
          rcases hr with (hr | hr) | hr <;> exact hr

/-! ### The facts that action cells go through -/

/-- A fact that applying action cells to a fact goes through, with the cells that are worked off
until then.  It stands between two cells, or a cell has written its field and is not recorded
yet. -/
inductive Stage (rs : RuleSet) (name : RuleName) (auditField : String) (cells : List Cell)
    (fact : Fact) : List Cell → Fact → Prop
  | between {done rest : List Cell} (hcells : cells = done ++ rest) :
      Stage rs name auditField cells fact done (rs.applyCells name auditField done fact).fact
  | unrecorded {done rest : List Cell} {cell : Cell} {n : Nat} {field : String} {current : Json}
      {written : Fact} (hcells : cells = done ++ cell :: rest)
      (hdone : (rs.applyCells name auditField done fact).result = .ok n)
      (ht : rs.target? (rs.applyCells name auditField done fact).fact cell = some (field, current))
      (hw : rs.write cell field current (rs.applyCells name auditField done fact).fact
        = .ok written) :
      Stage rs name auditField cells fact (done ++ [cell]) written

theorem Targets.of_append {more : List Cell} (h : rs.Targets cells field) :
    rs.Targets (cells ++ more) field := by
  obtain ⟨c, hc, hf⟩ := h
  exact ⟨c, List.mem_append_left _ hc, hf⟩

/-- **At every stage** only fields that the cells may edit are edited, and the audit field is
appended only if one of the cells worked off resolves and is recorded. -/
theorem Stage.edits {name : RuleName} {auditField : String} {done : List Cell} {stage : Fact}
    (h : rs.Stage name auditField cells fact done stage) :
    Fact.Edits auditField (rs.Writes auditField cells)
      (rs.metadata.recordsAppliedRules = true ∧ rs.resolves done fact = true) fact stage := by
  cases h with
  | @between _ rest hcells =>
      subst hcells
      exact (rs.edits_applyCells name auditField done fact).mono
        (fun _ hf => hf.imp_left Targets.of_append) fun hr => hr
  | @unrecorded done rest cell n field current _ hcells hdone ht hw =>
      subst hcells
      have hdone' : Fact.Edits auditField (rs.Writes auditField (done ++ cell :: rest)) _ fact
          (rs.applyCells name auditField done fact).fact :=
        (rs.edits_applyCells name auditField done fact).mono
          (fun _ hf => hf.imp_left Targets.of_append) fun hr => hr
      have hwrite : Fact.Edits auditField (rs.Writes auditField (done ++ cell :: rest)) False
          (rs.applyCells name auditField done fact).fact stage := by
        refine (edits_write ht hw).mono ?_ fun hr => hr
        rintro _ rfl
        exact .inl ⟨cell, by simp, (target?_eq_some_iff.mp ht).2.1⟩
      refine (hdone'.trans hwrite).mono (fun _ hf => hf) ?_
      rintro (⟨hr, hres⟩ | h)
      · exact ⟨hr, by rw [resolves, List.any_append, ← resolves, hres, Bool.true_or]⟩
      · exact h.elim

end RuleSet

end DecisionTable
