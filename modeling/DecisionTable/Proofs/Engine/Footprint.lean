import DecisionTable.Proofs.Engine.Trace
import DecisionTable.Proofs.RuleSet.Footprint

/-!
# Engine — The footprint of a pass

A pass edits a fact in place.  Wherever it stands, be it direct or over a network, before a failure
or at one, the fact has the fields of the input in their order, and behind them nothing or the audit
field; and only fields that some action targets, or an audit field that is recorded under, hold
anything new.

* `Pass.Point`: a point of a pass, with the calls so far; the last of them is cut to the action
  cells that it has come to.
* `Pass.Recorded`: one of the calls recorded its rule.  Only then the audit field is appended.
* `Pass.Trace.edits_point`: the edits of a walk up to each of its points.
* `pass_edits_in_place`: the footprint of passes and of a rule that is applied on its own.
-/

namespace DecisionTable

namespace Activation

/-- Some action of the rule resolves on the fact, and its rule set records applied rules. -/
def records (a : Activation) (fact : Fact) : Bool :=
  a.ruleSet.metadata.recordsAppliedRules && a.ruleSet.resolves a.rule.actions fact

/-- The rule with other action cells. -/
def withActions (a : Activation) (cells : List Cell) : Activation :=
  ⟨a.ruleSet, { a.rule with actions := cells }⟩

theorem records_eq_true_iff {a : Activation} {fact : Fact} :
    a.records fact = true ↔ a.ruleSet.metadata.recordsAppliedRules = true ∧
      a.ruleSet.resolves a.rule.actions fact = true := by
  rw [records, Bool.and_eq_true]

/-- **A rule that is applied** edits the fields that its action cells may edit. -/
theorem edits_fire (a : Activation) (auditField : String) (fact : Fact) :
    fact.Edits auditField (a.ruleSet.Writes auditField a.rule.actions) (a.records fact = true)
      (a.ruleSet.fire a.rule auditField fact).fact :=
  (a.ruleSet.edits_applyCells a.name auditField a.rule.actions fact).mono (fun _ hf => hf)
    records_eq_true_iff.mpr

end Activation

namespace Pass

/-- Some call records its rule. -/
def Recorded (calls : List (Activation × Fact)) : Prop :=
  ∃ call ∈ calls, call.1.records call.2 = true

theorem recorded_cons {call : Activation × Fact} {calls : List (Activation × Fact)} :
    Recorded (call :: calls) ↔ call.1.records call.2 = true ∨ Recorded calls := by
  simp only [Recorded, List.mem_cons, or_and_right, exists_or, exists_eq_left]

theorem recorded_concat {call : Activation × Fact} {calls : List (Activation × Fact)} :
    Recorded (calls ++ [call]) ↔ Recorded calls ∨ call.1.records call.2 = true := by
  simp only [Recorded, List.mem_append, List.mem_singleton, or_and_right, exists_or,
    exists_eq_left]

/-- The fields that a pass of rule sets may edit: those that the column of some action cell names,
and the audit field if a rule set records applied rules. -/
def Writes (auditField : String) (ruleSets : List RuleSet) (field : String) : Prop :=
  ∃ rs ∈ ruleSets, (∃ rule ∈ rs.rules, rs.Targets rule.actions field) ∨
    rs.metadata.recordsAppliedRules = true ∧ field = auditField

theorem writes_of_mem_ofRuleSets {auditField : String} {ruleSets : List RuleSet} {a : Activation}
    (ha : a ∈ Activation.ofRuleSets ruleSets) {field : String}
    (h : a.ruleSet.Writes auditField a.rule.actions field) : Writes auditField ruleSets field := by
  obtain ⟨hrs, hrule⟩ := Activation.mem_of_mem_ofRuleSets ha
  exact ⟨a.ruleSet, hrs, h.imp_left fun ht => ⟨a.rule, hrule, ht⟩⟩

/-- A point of a pass that makes these calls on a fact: the calls so far, and the fact as it stands.
A pass stands at its start, or at some stage of a call; then the last of the calls so far has the
action cells that are worked off. -/
inductive Point (auditField : String) (fact : Fact) (calls : List (Activation × Fact)) :
    List (Activation × Fact) → Fact → Prop
  | start : Point auditField fact calls [] fact
  | applying {before after : List (Activation × Fact)} {a : Activation} {found stage : Fact}
      {done : List Cell} (hcalls : calls = before ++ (a, found) :: after)
      (hstage : a.ruleSet.Stage a.name auditField a.rule.actions found done stage) :
      Point auditField fact calls (before ++ [(a.withActions done, found)]) stage

namespace Trace

variable {auditField : String} {edited : String → Prop} {as : List Activation} {fact : Fact}
  {calls : List (Activation × Fact)} {walked : Reply (List RuleName) ActionError}

/-- What a call finds comes from the input by the edits of the calls before it. -/
theorem edits_found (h : Trace auditField as fact calls walked)
    (hw : ∀ a ∈ as, ∀ field, a.ruleSet.Writes auditField a.rule.actions field → edited field)
    {before after : List (Activation × Fact)} {a : Activation} {found : Fact}
    (hcalls : calls = before ++ (a, found) :: after) :
    fact.Edits auditField edited (Recorded before) found := by
  induction h generalizing before with
  | done fact => simp at hcalls
  | passedOver _ _ ih => exact ih (fun a ha => hw a (.tail _ ha)) hcalls
  | @applied first as fact calls walked n _ _ _ ih =>
      cases before with
      | nil =>
          obtain ⟨rfl, rfl⟩ := Prod.mk.inj (List.cons.inj hcalls).1
          exact .refl fact
      | cons call before =>
          obtain ⟨rfl, htail⟩ := List.cons.inj hcalls
          have hfirst := (first.edits_fire auditField fact).mono (hw first (.head _)) fun hr => hr
          have hrest := ih (fun a ha => hw a (.tail _ ha)) htail
          exact (hfirst.trans hrest).mono (fun _ hf => hf) recorded_cons.mpr
  | @failed first as fact err _ _ =>
      cases before with
      | nil =>
          obtain ⟨rfl, rfl⟩ := Prod.mk.inj (List.cons.inj hcalls).1
          exact .refl fact
      | cons call before => simp at hcalls

/-- **At every point** the fact comes from the input by edits in place, of fields that the rules may
edit. -/
theorem edits_point (h : Trace auditField as fact calls walked)
    (hw : ∀ a ∈ as, ∀ field, a.ruleSet.Writes auditField a.rule.actions field → edited field)
    {log : List (Activation × Fact)} {stage : Fact} (hp : Point auditField fact calls log stage) :
    fact.Edits auditField edited (Recorded log) stage := by
  cases hp with
  | start => exact .refl fact
  | @applying before after a found _ done hcalls hstage =>
      have hmem : (a, found) ∈ calls := by simp [hcalls]
      have hcall := hstage.edits.mono (hw a (h.mem_of_mem_calls hmem)) fun hr => hr
      refine ((h.edits_found hw hcalls).trans hcall).mono (fun _ hf => hf) fun hr => ?_
      exact recorded_concat.mpr (hr.imp_right Activation.records_eq_true_iff.mpr)

/-- What a walk leaves stands at one of its points. -/
theorem exists_point (h : Trace auditField as fact calls walked) :
    ∃ log, Point auditField fact calls log walked.fact := by
  rcases h.eq_fact_or_last with ⟨-, hleft⟩ | ⟨before, a, found, hcalls, hleft⟩
  · rw [hleft]
    exact ⟨[], .start⟩
  · rw [hleft]
    exact ⟨_, .applying hcalls (.between (List.append_nil _).symm)⟩

end Trace

end Pass

/-- **A pass edits in place.**  At every point of a pass, and so at the moment an action fails, the
fact has the fields of the input in their order, followed by the audit field only if a call so far
records its rule; and a field that no action targets, and that is no audit field recorded under,
holds what it held.  The same is true of a rule that is applied on its own. -/
theorem pass_edits_in_place (auditField : String) (fact : Fact) :
    (∀ {ruleSets calls walked}, Pass.Walked auditField fact ruleSets calls walked →
      (∀ {log stage}, Pass.Point auditField fact calls log stage →
        fact.Edits auditField (Pass.Writes auditField ruleSets) (Pass.Recorded log) stage) ∧
      ∃ log, Pass.Point auditField fact calls log walked.fact) ∧
    ∀ (rs : RuleSet) (rule : Rule),
      (∀ {done stage}, rs.Stage (.ofRule rs rule) auditField rule.actions fact done stage →
        fact.Edits auditField (rs.Writes auditField rule.actions)
          (rs.metadata.recordsAppliedRules = true ∧ rs.resolves done fact = true) stage) ∧
      rs.Stage (.ofRule rs rule) auditField rule.actions fact rule.actions
        (rs.fire rule auditField fact).fact := by
  refine ⟨fun {ruleSets _ _} hwalked => ?_, fun rs rule => ?_⟩
  · have hw : ∀ a ∈ Activation.ofRuleSets ruleSets, ∀ field,
        a.ruleSet.Writes auditField a.rule.actions field → Pass.Writes auditField ruleSets field :=
      fun a ha field => Pass.writes_of_mem_ofRuleSets ha
    exact ⟨hwalked.trace.edits_point hw, hwalked.trace.exists_point⟩
  · exact ⟨RuleSet.Stage.edits, .between (List.append_nil _).symm⟩

/-- A rule set that records its rules, with a rule that adds to `n`, then writes `log`, then fails
to add to `n`. -/
def RuleSet.selfRecording : RuleSet :=
  let draft := (RuleSet.Draft.ofId "a").generalAction Metadata.setAppliedRules
  let draft := (draft.column "d" "n" "Increase").column "e" "log" "Set"
  (draft.rule [] [⟨"d", "1"⟩, ⟨"e", "x"⟩, ⟨"d", "x"⟩]).build

/-- Zero in `n`. -/
def Fact.zeroN : Fact :=
  Fact.empty.insert "n" (.number (.integer ⟨0, by decide, by decide⟩))

/-- The audit field is appended by the first action, and so the second one can write it, before the
third one fails. -/
theorem pass_edits_in_place_failing :
    let walked := Pass.fireRules .selfRecording "log" RuleSet.selfRecording.rules .zeroN []
    walked.failure = some (.notAnInteger "n" "x") ∧ walked.fact.names = ["n", "log"] ∧
      ∃ calls log, Pass.Walked "log" .zeroN [.selfRecording] calls walked ∧
        Pass.Point "log" .zeroN calls log walked.fact ∧
        Fact.zeroN.Edits "log" (Pass.Writes "log" [.selfRecording]) (Pass.Recorded log)
          walked.fact := by
  intro walked
  have hwalked : Pass.Walked "log" .zeroN [.selfRecording] _ walked := .direct .selfRecording
  obtain ⟨hedits, log, hpoint⟩ := (pass_edits_in_place "log" .zeroN).1 hwalked
  exact ⟨rfl, rfl, _, log, hwalked, hpoint, hedits hpoint⟩

end DecisionTable
