import DecisionTable.Proofs.Engine.Footprint
import DecisionTable.Proofs.Fact.Trail

/-!
# Engine — The trail of a pass

If no action targets the audit field, a pass that fails nowhere adds the entries of the rules that
it records, in the order of its calls, and drops equal ones.

* `Pass.entries`: the entries that the calls of a pass add.
* `Pass.Trace.adds`: a walk adds the entries of its calls.
* `Pass.Trace.get?_refire`: rules that a walk called add nothing when they are applied again.
* `pass_audit_trail`: the audit field after a pass.
-/

namespace DecisionTable

namespace Activation

/-- The entries that the rule adds when it is applied to a fact. -/
def entries (a : Activation) (fact : Fact) : List Json :=
  a.ruleSet.entries a.name a.rule.actions fact

variable {a : Activation} {auditField : String} {fact : Fact}

theorem adds_fire (hc : ¬ a.ruleSet.Targets a.rule.actions auditField) (fact : Fact) :
    fact.Adds auditField (a.entries fact) (a.ruleSet.fire a.rule auditField fact).fact ∨
      fact.Adds auditField [] (a.ruleSet.fire a.rule auditField fact).fact ∧
        ∃ err, (a.ruleSet.fire a.rule auditField fact).result = .error err :=
  RuleSet.adds_applyCells hc a.name fact

theorem adds_fire_of_ok (hc : ¬ a.ruleSet.Targets a.rule.actions auditField) {n : Nat}
    (hfire : (a.ruleSet.fire a.rule auditField fact).result = .ok n) :
    fact.Adds auditField (a.entries fact) (a.ruleSet.fire a.rule auditField fact).fact := by
  rcases adds_fire hc fact with h | ⟨-, err, herr⟩
  · exact h
  · rw [hfire] at herr
    cases herr

/-- Once its entries were added, the rule adds nothing, be it that it fails. -/
theorem get?_fire_of_mem (hc : ¬ a.ruleSet.Targets a.rule.actions auditField) {before : Fact}
    {es : List Json} (h : before.Adds auditField es fact) (hes : ∀ e ∈ a.entries fact, e ∈ es) :
    (a.ruleSet.fire a.rule auditField fact).fact.get? auditField = fact.get? auditField := by
  rcases adds_fire hc fact with hadds | ⟨hadds, -⟩
  · rcases a.ruleSet.entries_eq_nil_or a.name a.rule.actions fact with he | he
    · rw [entries, he] at hadds
      exact hadds
    · rw [entries, he] at hadds hes
      exact h.of_mem (hes _ (.head _)) hadds
  · exact hadds

end Activation

namespace Pass

/-- The entries that calls add, in their order. -/
def entries (calls : List (Activation × Fact)) : List Json :=
  calls.flatMap fun call => call.1.entries call.2

/-- Applies rules once more, one after the other, without asking for their conditions. -/
def refire (auditField : String) (again : List Activation) (fact : Fact) : Fact :=
  again.foldl (fun fact a => (a.ruleSet.fire a.rule auditField fact).fact) fact

namespace Trace

variable {auditField : String} {as : List Activation} {fact : Fact}
  {calls : List (Activation × Fact)} {walked : Reply (List RuleName) ActionError}

/-- **A walk** that fails nowhere adds the entries of its calls. -/
theorem adds (h : Trace auditField as fact calls walked)
    (hc : ∀ a ∈ as, ¬ a.ruleSet.Targets a.rule.actions auditField)
    (hdone : walked.failure = none) : fact.Adds auditField (entries calls) walked.fact := by
  induction h with
  | done fact => exact .refl fact
  | passedOver _ _ ih => exact ih (fun a ha => hc a (.tail _ ha)) hdone
  | applied _ hfire _ ih =>
      have hfirst := Activation.adds_fire_of_ok (hc _ (.head _)) hfire
      exact hfirst.trans (ih (fun a ha => hc a (.tail _ ha)) hdone)
  | failed => cases hdone

/-- A rule that was called resolves where it resolved, as long as no field comes or goes. -/
theorem mem_entries (h : Trace auditField as fact calls walked)
    (hc : ∀ a ∈ as, ¬ a.ruleSet.Targets a.rule.actions auditField) {a : Activation}
    (ha : a ∈ calls.map Prod.fst) {left : Fact} (hleft : left.SameFields auditField fact) :
    ∀ e ∈ a.entries left, e ∈ entries calls := by
  obtain ⟨⟨a, found⟩, hcall, rfl⟩ := List.mem_map.mp ha
  obtain ⟨before, after, hcalls⟩ := List.append_of_mem hcall
  have hfound : fact.Edits auditField (fun _ => True) (Recorded before) found :=
    h.edits_found (fun _ _ _ _ => trivial) hcalls
  have hresolves : a.ruleSet.resolves a.rule.actions left
      = a.ruleSet.resolves a.rule.actions found := by
    refine RuleSet.resolves_congr fun field hf => ?_
    have hne : field ≠ auditField := by
      rintro rfl
      exact hc a (h.mem_of_mem_calls hcall) hf
    exact (hleft field hne).trans (hfound.sameFields field hne).symm
  intro e he
  rw [Activation.entries, RuleSet.entries, hresolves] at he
  exact List.mem_flatMap.mpr ⟨_, hcall, he⟩

/-- **Rules that were called** add nothing when they are applied again. -/
theorem get?_refire (h : Trace auditField as fact calls walked)
    (hc : ∀ a ∈ as, ¬ a.ruleSet.Targets a.rule.actions auditField) {again : List Activation}
    (hagain : ∀ a ∈ again, a ∈ calls.map Prod.fst) {left : Fact}
    (hadds : fact.Adds auditField (entries calls) left) (hleft : left.SameFields auditField fact) :
    (refire auditField again left).get? auditField = left.get? auditField := by
  induction again generalizing left with
  | nil => rfl
  | cons a again ih =>
      have ha := hagain a (.head _)
      obtain ⟨call, hcall, hcalled⟩ := List.mem_map.mp ha
      have hca : ¬ a.ruleSet.Targets a.rule.actions auditField :=
        hcalled ▸ hc call.1 (h.mem_of_mem_calls hcall)
      have hsame := Activation.get?_fire_of_mem hca hadds (h.mem_entries hc ha hleft)
      have hfields := (a.edits_fire auditField left).sameFields
      -- the field stands as it stood, so the next rule finds it with the same entries added
      have hrest := ih (fun b hb => hagain b (.tail _ hb)) (hsame.trans hadds)
        fun field hf => (hfields field hf).trans (hleft field hf)
      exact hrest.trans hsame

end Trace

end Pass

/-- **The trail of a pass.**  A pass that fails nowhere names its calls.  If no action targets the
audit field, then the field stays as it is when no call adds an entry, and otherwise holds the
recorded entries followed by those of the calls, the first of equal ones kept.  Rules that were
called add nothing when they are applied again, in whatever order and number. -/
theorem pass_audit_trail {auditField : String} {fact : Fact} {ruleSets : List RuleSet}
    {calls : List (Activation × Fact)} {walked : Reply (List RuleName) ActionError}
    (h : Pass.Walked auditField fact ruleSets calls walked) (hdone : walked.failure = none)
    (hc : ∀ rs ∈ ruleSets, ∀ rule ∈ rs.rules, ¬ rs.Targets rule.actions auditField) :
    walked.state = calls.map (fun call => call.1.name) ∧
      (Pass.entries calls = [] → walked.fact.get? auditField = fact.get? auditField) ∧
      (Pass.entries calls ≠ [] → walked.fact.get? auditField
        = some (.array (Json.dedup (fact.auditEntries auditField ++ Pass.entries calls)))) ∧
      ∀ again, (∀ a ∈ again, a ∈ calls.map Prod.fst) →
        (Pass.refire auditField again walked.fact).get? auditField
          = walked.fact.get? auditField := by
  have hc' : ∀ a ∈ Activation.ofRuleSets ruleSets,
      ¬ a.ruleSet.Targets a.rule.actions auditField := by
    intro a ha
    obtain ⟨hrs, hrule⟩ := Activation.mem_of_mem_ofRuleSets ha
    exact hc a.ruleSet hrs a.rule hrule
  have hadds := h.trace.adds hc' hdone
  obtain ⟨log, hpoint⟩ := h.trace.exists_point
  have hleft : fact.Edits auditField (fun _ => True) (Pass.Recorded log) walked.fact :=
    h.trace.edits_point (fun _ _ _ _ => trivial) hpoint
  refine ⟨h.trace.state_eq hdone, fun he => ?_, fun hne => ?_, fun again hagain => ?_⟩
  · rw [he] at hadds
    exact hadds
  · rw [hadds, Fact.trail_of_ne_nil fact auditField hne]
  · exact h.trace.get?_refire hc' hagain hadds hleft.sameFields

/-- A rule set of an id whose rule adds to `n`. -/
def RuleSet.raising (id : String) (recording : Bool) : RuleSet :=
  let draft := (RuleSet.Draft.ofId id).column "d" "n" "Increase"
  let draft := if recording then draft.generalAction Metadata.setAppliedRules else draft
  (draft.rule [] [⟨"d", "1"⟩]).build

/-- A network of two rule sets, of which only the first one records its rule: the entry comes behind
what stands there, and a repetition is dropped. -/
theorem pass_audit_trail_of_one_recording :
    let ruleSets := [RuleSet.raising "a" true, .raising "b" false]
    let fact := Fact.zeroN.insert "log" (.array [.text "x", .text "x"])
    ∃ calls walked, Pass.Walked "log" fact ruleSets calls walked ∧ walked.failure = none ∧
      walked.state = [⟨"a", "1"⟩, ⟨"b", "1"⟩] ∧
      walked.fact.get? "log" = some (.array [.text "x", .text "RuleId:a RuleIndex:1"]) ∧
      (Pass.refire "log" (calls.map Prod.fst) walked.fact).get? "log"
        = some (.array [.text "x", .text "RuleId:a RuleIndex:1"]) := by
  intro ruleSets fact
  have hwalked : Pass.Walked "log" fact ruleSets _ _ := .viaNetwork ruleSets
  rw [(Network.compiles_ofRuleSets ruleSets).run_eq_inTurn (Pass.candid_fireActivation "log"),
    (Network.compiles_ofRuleSets ruleSets).run_eq_inTurn
      (Pass.candid_fireActivation "log").noting] at hwalked
  have hcells : ∀ rs ∈ [RuleSet.raising "a" true, .raising "b" false], ∀ rule ∈ rs.rules,
      ∀ cell ∈ rule.actions, rs.columns.fieldName? cell.column ≠ some "log" := by decide
  have hc : ∀ rs ∈ ruleSets, ∀ rule ∈ rs.rules, ¬ rs.Targets rule.actions "log" := by
    rintro rs hrs rule hrule ⟨cell, hcell, hf⟩
    exact hcells rs hrs rule hrule cell hcell hf
  obtain ⟨-, -, htrail, hagain⟩ := pass_audit_trail hwalked rfl hc
  have hne : [Json.text "RuleId:a RuleIndex:1"] ≠ [] := List.cons_ne_nil _ _
  have hlog := htrail hne
  exact ⟨_, _, hwalked, rfl, rfl, hlog, (hagain _ fun _ ha => ha).trans hlog⟩

end DecisionTable
