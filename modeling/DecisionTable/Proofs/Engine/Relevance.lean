import DecisionTable.Proofs.Engine.Trail
import DecisionTable.Proofs.RuleSet.Relevance

/-!
# Engine — The fields that matter to a pass

A pass looks at the fields that its rule sets mention.  Two passes of the same rule sets over facts
that agree on these make the same calls, name the same rules, end alike and leave facts that agree,
whatever else is in the facts.

* `Pass.Mentions`: the fields that some rule set mentions.
* `Pass.Trace.congr`: two walks of the same rules, side by side.
* `pass_ignores_unmentioned`: two passes, each direct or over a network.
-/

namespace DecisionTable

namespace Pass

/-- The fields that some of the rule sets looks at. -/
def Mentions (auditField : String) (ruleSets : List RuleSet) (field : String) : Prop :=
  ∃ rs ∈ ruleSets, rs.Mentions auditField field

/-- **Two walks** of the same rules over facts that agree on what the rules look at: the same calls
and names, the same failure, and facts that agree. -/
theorem Trace.congr {auditField : String} {relevant : String → Prop} {as : List Activation}
    {f g : Fact} {calls calls' : List (Activation × Fact)}
    {walked walked' : Reply (List RuleName) ActionError}
    (h : Trace auditField as f calls walked) (h' : Trace auditField as g calls' walked')
    (hm : ∀ a ∈ as, ∀ field, a.ruleSet.Mentions auditField field → relevant field)
    (hfg : f.AgreesOn relevant g) :
    calls.map Prod.fst = calls'.map Prod.fst ∧ walked.state = walked'.state ∧
      walked.failure = walked'.failure ∧ walked.fact.AgreesOn relevant walked'.fact := by
  induction h generalizing g calls' walked' with
  | done f =>
      cases h'
      exact ⟨rfl, rfl, rfl, hfg⟩
  | @passedOver a as f calls walked hholds hrest ih =>
      have hm' := fun b hb => hm b (.tail _ hb)
      rw [RuleSet.holds_congr hfg (hm a (.head _))] at hholds
      cases h' with
      | passedOver _ hrest' => exact ih hrest' hm' hfg
      | applied hholds' => exact absurd (hholds.symm.trans hholds') Bool.false_ne_true
      | failed hholds' => exact absurd (hholds.symm.trans hholds') Bool.false_ne_true
  | @applied a as f calls walked n hholds hfire hrest ih =>
      have hm' := fun b hb => hm b (.tail _ hb)
      obtain ⟨hresult, hleft⟩ := RuleSet.fire_congr hfg (hm a (.head _)) a.rule
      rw [RuleSet.holds_congr hfg (hm a (.head _))] at hholds
      rw [hresult] at hfire
      cases h' with
      | passedOver hholds' => exact absurd (hholds'.symm.trans hholds) Bool.false_ne_true
      | applied _ _ hrest' =>
          obtain ⟨hcalls, hstate, hfailure, hfact⟩ := ih hrest' hm' hleft
          exact ⟨by rw [List.map_cons, List.map_cons, hcalls], by rw [hstate], hfailure, hfact⟩
      | failed _ hfire' => cases hfire.symm.trans hfire'
  | @failed a as f err hholds hfire =>
      obtain ⟨hresult, hleft⟩ := RuleSet.fire_congr hfg (hm a (.head _)) a.rule
      rw [RuleSet.holds_congr hfg (hm a (.head _))] at hholds
      rw [hresult] at hfire
      cases h' with
      | passedOver hholds' => exact absurd (hholds'.symm.trans hholds) Bool.false_ne_true
      | applied _ hfire' => cases hfire.symm.trans hfire'
      | failed _ hfire' =>
          obtain rfl := Except.error.inj (hfire.symm.trans hfire')
          exact ⟨rfl, rfl, rfl, hleft⟩

end Pass

/-- **Unmentioned fields never matter.**  Over two facts that have the same in every field that the
rule sets mention, two passes of the same rule sets, each of them direct or over a network, apply
the same rules in the same order, name the same, and succeed or fail with the same failure.  The
facts they leave again have the same in every field that is mentioned. -/
theorem pass_ignores_unmentioned {auditField : String} {ruleSets : List RuleSet} {f g : Fact}
    {calls calls' : List (Activation × Fact)} {walked walked' : Reply (List RuleName) ActionError}
    (hfg : f.AgreesOn (Pass.Mentions auditField ruleSets) g)
    (h : Pass.Walked auditField f ruleSets calls walked)
    (h' : Pass.Walked auditField g ruleSets calls' walked') :
    calls.map Prod.fst = calls'.map Prod.fst ∧ walked.state = walked'.state ∧
      walked.failure = walked'.failure ∧
      walked.fact.AgreesOn (Pass.Mentions auditField ruleSets) walked'.fact := by
  have hm : ∀ a ∈ Activation.ofRuleSets ruleSets, ∀ field,
      a.ruleSet.Mentions auditField field → Pass.Mentions auditField ruleSets field :=
    fun a ha _ hf => ⟨a.ruleSet, (Activation.mem_of_mem_ofRuleSets ha).1, hf⟩
  exact h.trace.congr h'.trace hm hfg

/-- A direct pass of a fact, and a pass over the network of a fact with one more field: the rule
set mentions `n` and the audit field only. -/
theorem pass_ignores_unmentioned_across :
    let rs := RuleSet.raising "a" true
    let g := Fact.zeroN.insert "y" (.text "x")
    ∃ calls walked calls' walked', Pass.Walked "log" .zeroN [rs] calls walked ∧
      Pass.Walked "log" g [rs] calls' walked' ∧ calls.map Prod.fst = calls'.map Prod.fst ∧
      walked'.state = [⟨"a", "1"⟩] ∧ walked'.failure = none ∧
      walked'.fact.get? "log" = some (.array [.text "RuleId:a RuleIndex:1"]) := by
  intro rs g
  have hcolumns : ∀ e ∈ (RuleSet.raising "a" true).columns.columns.entries,
      e.2.fieldName ≠ some "y" := by decide
  have hfg : Fact.zeroN.AgreesOn (Pass.Mentions "log" [rs]) g := by
    rintro field ⟨_, hrs, hf⟩
    obtain rfl := List.mem_singleton.mp hrs
    refine (Fact.get?_insert_of_ne ?_ _ _).symm
    rintro rfl
    rcases hf with ⟨column, hf⟩ | ⟨-, hf⟩
    · obtain ⟨c, hc, hname⟩ := Option.bind_eq_some_iff.mp hf
      exact hcolumns _ (SortedMap.get?_eq_some_iff.mp hc) hname
    · exact absurd hf (by decide)
  have hlog : Pass.Mentions "log" [rs] "log" := ⟨rs, .head _, .inr ⟨rfl, rfl⟩⟩
  have hdirect : Pass.Walked "log" .zeroN [rs] _ _ := .direct rs
  have hnetwork : Pass.Walked "log" g [rs] _ _ := .viaNetwork [rs]
  obtain ⟨hcalls, hstate, hfailure, hfact⟩ := pass_ignores_unmentioned hfg hdirect hnetwork
  exact ⟨_, _, _, _, hdirect, hnetwork, hcalls, hstate.symm, hfailure.symm, (hfact "log" hlog).symm⟩

end DecisionTable
