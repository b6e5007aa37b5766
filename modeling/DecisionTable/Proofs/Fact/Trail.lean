import DecisionTable.Proofs.Fact.Revision
import DecisionTable.Proofs.RuleSet.Footprint

/-!
# Fact — The trail of applied rules

The entries under an audit field are written anew with every action that is recorded, and equal ones
are dropped.  It comes to the same as adding all entries behind what was recorded and dropping equal
ones once.

* `Fact.Adds`: one fact comes from another by adding entries under the audit field, whatever happens
  in other fields.  Without an entry the field stays as it is, be it no list, be it one with
  repetitions.
  Additions compose (`Adds.trans`), and adding one entry twice is adding it once (`Adds.twice`).
* `RuleSet.adds_applyCells`: action cells that do not target the audit field add one entry, if they
  are recorded and one of them resolves, and none otherwise.
-/

namespace DecisionTable

namespace Json

/-- Dropping equal values early makes no difference later. -/
theorem dedup_dedup_append (us vs : List Json) : dedup (dedup us ++ vs) = dedup (us ++ vs) := by
  have hsplit : ∀ ws, dedup (ws ++ vs) = keepFirst (dedup ws) vs := fun ws =>
    keepFirst_append [] ws vs
  rw [hsplit, hsplit, dedup_dedup]

/-- Adding a text that is there already. -/
theorem dedup_append_of_mem {vs : List Json} {s : String} (h : text s ∈ vs) :
    dedup (vs ++ [text s]) = dedup vs := by
  have hmem : text s ∈ dedup vs := text_mem_keepFirst h
  rcases dedup_append_text vs s with ⟨-, he⟩ | ⟨hn, -⟩
  · exact he
  · exact absurd hmem hn

end Json

/-! ### Adding entries -/

namespace Fact

/-- What stands under the audit field of a fact when entries are added: what stands there, if there
are none to add, and otherwise the recorded entries with the new ones, each value once. -/
def trail (f : Fact) (auditField : String) : List Json → Option Json
  | [] => f.get? auditField
  | e :: es => some (.array (Json.dedup (f.auditEntries auditField ++ e :: es)))

/-- The later fact has, under the audit field, what the earlier one has there with the entries
added. -/
def Adds (auditField : String) (entries : List Json) (before after : Fact) : Prop :=
  after.get? auditField = before.trail auditField entries

theorem trail_of_ne_nil (f : Fact) (auditField : String) {entries : List Json}
    (h : entries ≠ []) :
    f.trail auditField entries
      = some (.array (Json.dedup (f.auditEntries auditField ++ entries))) := by
  cases entries with
  | nil => exact absurd rfl h
  | cons e es => rfl

theorem trail_congr {f g : Fact} {auditField : String}
    (h : f.get? auditField = g.get? auditField) (entries : List Json) :
    f.trail auditField entries = g.trail auditField entries := by
  cases entries with
  | nil => exact h
  | cons e es => rw [trail, trail, auditEntries_congr h]

namespace Adds

variable {auditField : String} {es es' : List Json} {before between after : Fact}

theorem refl (fact : Fact) : Adds auditField [] fact fact :=
  rfl

theorem auditEntries_eq (h : Adds auditField es before after) (hne : es ≠ []) :
    after.auditEntries auditField = Json.dedup (before.auditEntries auditField ++ es) := by
  rw [auditEntries, h, trail_of_ne_nil before auditField hne]

/-- **Additions compose**: the entries of both, in order. -/
theorem trans (h₁ : Adds auditField es before between) (h₂ : Adds auditField es' between after) :
    Adds auditField (es ++ es') before after := by
  by_cases hes : es = []
  · subst hes
    exact h₂.trans (trail_congr h₁ es')
  · by_cases hes' : es' = []
    · subst hes'
      rw [List.append_nil]
      exact Eq.trans h₂ h₁
    · have hne : es ++ es' ≠ [] := fun h => hes (List.append_eq_nil_iff.mp h).1
      rw [Adds, h₂, trail_of_ne_nil between auditField hes', h₁.auditEntries_eq hes,
        Json.dedup_dedup_append, List.append_assoc, ← trail_of_ne_nil before auditField hne]

/-- Adding one entry twice is adding it once. -/
theorem twice {s : String} (h₁ : Adds auditField [.text s] before between)
    (h₂ : Adds auditField [.text s] between after) :
    Adds auditField [.text s] before after := by
  have hne : [Json.text s] ≠ [] := List.cons_ne_nil _ _
  rw [Adds, h₂, trail_of_ne_nil between auditField hne, h₁.auditEntries_eq hne,
    Json.dedup_append_text_twice, ← trail_of_ne_nil before auditField hne]

/-- Adding an entry that was added before changes nothing. -/
theorem of_mem {s : String} (h₁ : Adds auditField es before between) (hs : .text s ∈ es)
    (h₂ : Adds auditField [.text s] between after) :
    after.get? auditField = between.get? auditField := by
  have hne : es ≠ [] := List.ne_nil_of_mem hs
  have hmem : .text s ∈ before.auditEntries auditField ++ es := List.mem_append_right _ hs
  rw [h₂, trail_of_ne_nil between auditField (List.cons_ne_nil _ _), h₁.auditEntries_eq hne,
    Json.dedup_dedup_append, Json.dedup_append_of_mem hmem, h₁,
    trail_of_ne_nil before auditField hne]

theorem record (fact : Fact) (auditField : String) (name : RuleName) :
    Adds auditField [.text name.text] fact (fact.record auditField name) :=
  get?_insert_self fact auditField _

end Adds

end Fact

/-! ### What action cells add -/

namespace RuleSet

/-- The entries that action cells add when they are applied to a fact under the name of a rule: the
entry of the rule, if it is recorded and one of the cells resolves. -/
def entries (rs : RuleSet) (name : RuleName) (cells : List Cell) (fact : Fact) : List Json :=
  if rs.metadata.recordsAppliedRules && rs.resolves cells fact then [.text name.text] else []

variable {rs : RuleSet} {name : RuleName} {auditField : String} {cell : Cell} {cells : List Cell}
  {fact : Fact}

theorem entries_of_silent (h : rs.metadata.recordsAppliedRules = false) (name : RuleName)
    (cells : List Cell) (fact : Fact) : rs.entries name cells fact = [] := by
  simp [entries, h]

theorem entries_eq_nil_or (rs : RuleSet) (name : RuleName) (cells : List Cell) (fact : Fact) :
    rs.entries name cells fact = [] ∨ rs.entries name cells fact = [.text name.text] := by
  rw [entries]
  split
  · exact .inr rfl
  · exact .inl rfl

/-- A recorded action adds the entry, and what it writes does not matter. -/
theorem adds_audit (h : rs.metadata.recordsAppliedRules = true) (name : RuleName)
    (auditField : String) (fact : Fact) :
    Fact.Adds auditField [.text name.text] fact (rs.audit name auditField fact) := by
  rw [audit, if_pos h]
  exact .record fact auditField name

theorem adds_write {field : String} {current : Json} {written : Fact} (hne : auditField ≠ field)
    (ht : rs.target? fact cell = some (field, current))
    (hw : rs.write cell field current fact = .ok written) :
    Fact.Adds auditField [] fact written := by
  have hedits : Fact.Edits auditField (· = field) False fact written := edits_write ht hw
  exact hedits.kept auditField hne

/-- Once the entry is there, further cells add the same entry again, or nothing. -/
theorem adds_entries_after {recorded left : Fact}
    (h : Fact.Adds auditField [.text name.text] fact recorded)
    (hrest : Fact.Adds auditField (rs.entries name cells recorded) recorded left) :
    Fact.Adds auditField [.text name.text] fact left := by
  rcases rs.entries_eq_nil_or name cells recorded with he | he
  · rw [he] at hrest
    exact h.trans hrest
  · rw [he] at hrest
    exact h.twice hrest

/-- **Action cells that do not target the audit field** add the entry of the rule once, if they are
recorded and one of them resolves.  If one fails before any resolves, they add nothing. -/
theorem adds_applyCells (hc : ¬ rs.Targets cells auditField) (name : RuleName) (fact : Fact) :
    Fact.Adds auditField (rs.entries name cells fact) fact
        (rs.applyCells name auditField cells fact).fact ∨
      Fact.Adds auditField [] fact (rs.applyCells name auditField cells fact).fact ∧
        ∃ err, (rs.applyCells name auditField cells fact).result = .error err := by
  induction cells generalizing fact with
  | nil => exact .inl (by simp [entries, resolves, applyCells, Fact.Adds.refl])
  | cons cell cells ih =>
      have hrest : ¬ rs.Targets cells auditField := fun h => hc (h.cons cell)
      rw [applyCells]
      split
      · next ht =>
        rw [entries, resolves_cons_of_none ht, ← entries]
        exact ih hrest fact
      · next field current ht =>
        have hne : auditField ≠ field := by
          rintro rfl
          exact hc ⟨cell, .head _, (target?_eq_some_iff.mp ht).2.1⟩
        split
        · next err _ => exact .inr ⟨.refl fact, err, rfl⟩
        · next written hw =>
          have hwrite := adds_write hne ht hw
          refine .inl ?_
          cases hr : rs.metadata.recordsAppliedRules with
          | false =>
              have haudit : rs.audit name auditField written = written := by simp [audit, hr]
              rw [haudit, entries_of_silent hr]
              rcases ih hrest written with h | ⟨h, -⟩
              · rw [entries_of_silent hr] at h
                exact hwrite.trans h
              · exact hwrite.trans h
          | true =>
              have hone : rs.entries name (cell :: cells) fact = [.text name.text] := by
                rw [entries, resolves_cons_of_some ht, hr]
                rfl
              rw [hone]
              have haudit := hwrite.trans (adds_audit hr name auditField written)
              rcases ih hrest (rs.audit name auditField written) with h | ⟨h, -⟩
              · exact adds_entries_after haudit h
              · exact haudit.trans h

end RuleSet

end DecisionTable
