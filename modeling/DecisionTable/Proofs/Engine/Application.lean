import DecisionTable.Engine.Application
import DecisionTable.Proofs.Batch
import DecisionTable.Proofs.Engine.History

/-!
# Engine — Applications, one by one

Applying the rule sets of a class to a batch of facts is applying each rule set to each fact alone,
and the two policies agree on which of these applications fail.

* `Pass.Completes`, `Pass.StopsAt`: the rules of a rule set worked off on a fact, without failure or
  up to a failing one; one of the two always happens (`fireRules_completes_or_stops`).
* `Pass.alone`: the report of one rule set on one fact that gives the fact back when an action
  fails.  The reports of a batch are these, and a batch that may fail takes them strictly
  (`Engine.directReports_of_restoreObject`, `Engine.directReports_of_failBatch`).
* `Engine.run_applyDetailed` and its like: an application, from the rule sets that were loaded.
* `application_decomposes`: the reports of a batch, and the outcome under the other policy.
-/

namespace DecisionTable

namespace Pass

/-! ### Rules worked off on a fact -/

section Walk

variable (rs : RuleSet) (auditField : String)

/-- The rules are worked off without failure: those that hold when their turn comes are applied,
each on the fact that the earlier ones left, and named. -/
inductive Completes : List Rule → Fact → Fact → List RuleName → Prop
  | done (fact : Fact) : Completes [] fact fact []
  | passedOver {rule : Rule} {rules : List Rule} {fact left : Fact} {names : List RuleName}
      (hholds : rs.holds rule fact = false) (hrest : Completes rules fact left names) :
      Completes (rule :: rules) fact left names
  | applied {rule : Rule} {rules : List Rule} {fact left : Fact} {names : List RuleName} {n : Nat}
      (hholds : rs.holds rule fact = true)
      (hfire : (rs.fire rule auditField fact).result = .ok n)
      (hrest : Completes rules (rs.fire rule auditField fact).fact left names) :
      Completes (rule :: rules) fact left (.ofRule rs rule :: names)

/-- The rules before some rule are worked off, with these names; that rule holds then, and an action
of it fails. -/
def StopsAt (rules : List Rule) (fact : Fact) (names : List RuleName) (err : ActionError) : Prop :=
  ∃ before rule after left, rules = before ++ rule :: after ∧
    Completes rs auditField before fact left names ∧ rs.holds rule left = true ∧
    (rs.fire rule auditField left).result = .error err

variable {rs auditField} {rule : Rule} {rules : List Rule} {fact : Fact} {names : List RuleName}
  {err : ActionError}

theorem StopsAt.passedOver (hholds : rs.holds rule fact = false)
    (h : StopsAt rs auditField rules fact names err) :
    StopsAt rs auditField (rule :: rules) fact names err := by
  obtain ⟨before, failing, after, left, rfl, hbefore, hstop⟩ := h
  exact ⟨rule :: before, failing, after, left, rfl, hbefore.passedOver hholds, hstop⟩

theorem StopsAt.applied {n : Nat} (hholds : rs.holds rule fact = true)
    (hfire : (rs.fire rule auditField fact).result = .ok n)
    (h : StopsAt rs auditField rules (rs.fire rule auditField fact).fact names err) :
    StopsAt rs auditField (rule :: rules) fact (.ofRule rs rule :: names) err := by
  obtain ⟨before, failing, after, left, rfl, hbefore, hstop⟩ := h
  exact ⟨rule :: before, failing, after, left, rfl, .applied hholds hfire hbefore, hstop⟩

/-- **A walk completes or stops**, and notes the names of the rules that were applied behind those
that it was given. -/
theorem fireRules_completes_or_stops (rs : RuleSet) (auditField : String) (rules : List Rule)
    (fact : Fact) (fired : List RuleName) :
    ∃ left names failure,
      fireRules rs auditField rules fact fired = ⟨left, fired ++ names, failure⟩ ∧
      (failure = none → Completes rs auditField rules fact left names) ∧
      ∀ err, failure = some err → StopsAt rs auditField rules fact names err := by
  induction rules generalizing fact fired with
  | nil =>
      refine ⟨fact, [], none, ?_, fun _ => .done fact, fun _ h => nomatch h⟩
      rw [fireRules, List.append_nil]
  | cons rule rules ih =>
      rw [fireRules]
      cases hholds : rs.holds rule fact with
      | false =>
          obtain ⟨left, names, failure, hwalk, hdone, hstop⟩ := ih fact fired
          exact ⟨left, names, failure, hwalk, fun h => (hdone h).passedOver hholds,
            fun err h => (hstop err h).passedOver hholds⟩
      | true =>
          rw [if_pos rfl]
          cases hfire : (rs.fire rule auditField fact).result with
          | error err =>
              refine ⟨(rs.fire rule auditField fact).fact, [], some err, ?_, nofun, ?_⟩
              · simp only [hfire, List.append_nil]
              · rintro _ ⟨rfl⟩
                exact ⟨[], rule, rules, fact, rfl, .done fact, hholds, hfire⟩
          | ok n =>
              obtain ⟨left, names, failure, hwalk, hdone, hstop⟩ :=
                ih (rs.fire rule auditField fact).fact (fired ++ [.ofRule rs rule])
              refine ⟨left, .ofRule rs rule :: names, failure, ?_,
                fun h => .applied hholds hfire (hdone h),
                fun err h => (hstop err h).applied hholds hfire⟩
              simp only [hfire, hwalk, List.append_assoc, List.singleton_append]

end Walk

/-! ### One rule set on one fact -/

/-- The report of a walk that gives the fact back as it came in when an action fails. -/
def restored (input : Fact) (walked : Reply (List RuleName) ActionError) : Report :=
  match walked.failure with
  | none => ⟨walked.fact, walked.state, none⟩
  | some err => ⟨input, walked.state, some err⟩

theorem settle_restoreObject (input : Fact) (walked : Reply (List RuleName) ActionError) :
    settle .restoreObject input walked = .ok (restored input walked) := by
  obtain ⟨left, names, failure⟩ := walked
  cases failure <;> rfl

theorem settle_failBatch (input : Fact) (walked : Reply (List RuleName) ActionError) :
    settle .failBatch input walked
      = match (restored input walked).error with
        | none => .ok (restored input walked)
        | some err => .error err := by
  obtain ⟨left, names, failure⟩ := walked
  cases failure <;> rfl

/-- The report of a rule set on a fact; if an action fails, the fact comes back as it came in. -/
def alone (auditField : String) (rs : RuleSet) (fact : Fact) : Report :=
  restored fact (fireRules rs auditField rs.rules fact [])

/-- **What a report says.**  Without a failure, all rules were worked off from the fact that came in
to the one that is reported.  With a failure, the fact is the one that came in, and the names are
those of the rules that were applied before the failing one. -/
theorem alone_spec (auditField : String) (rs : RuleSet) (fact : Fact) :
    ((alone auditField rs fact).error = none →
      Completes rs auditField rs.rules fact (alone auditField rs fact).fact
        (alone auditField rs fact).fired) ∧
    ∀ err, (alone auditField rs fact).error = some err →
      (alone auditField rs fact).fact = fact ∧
        StopsAt rs auditField rs.rules fact (alone auditField rs fact).fired err := by
  obtain ⟨left, names, failure, hwalk, hdone, hstop⟩ :=
    fireRules_completes_or_stops rs auditField rs.rules fact []
  rw [List.nil_append] at hwalk
  rw [alone, restored, hwalk]
  cases failure with
  | none => exact ⟨fun _ => hdone rfl, fun _ h => nomatch h⟩
  | some err => exact ⟨nofun, fun err' h => ⟨rfl, hstop err' h⟩⟩

theorem direct_of_restoreObject {config : Config} (h : config.onActionError = .restoreObject)
    (rs : RuleSet) (facts : List Fact) :
    direct config rs facts = .ok (facts.map (alone config.auditField rs)) := by
  simp only [direct, h, settle_restoreObject]
  exact List.mapM_pure

theorem direct_of_failBatch {config : Config} (h : config.onActionError = .failBatch)
    (rs : RuleSet) (facts : List Fact) :
    direct config rs facts
      = Batch.strict Report.error (facts.map (alone config.auditField rs)) := by
  simp only [direct, h, settle_failBatch]
  refine Batch.mapM_strict (fun fact err herr => ?_) (fun fact hnone => ?_) facts
  · rw [alone] at herr
    rw [herr]
  · rw [alone] at hnone
    rw [hnone, alone]

end Pass

namespace Engine

/-! ### All rule sets on all facts -/

/-- The reports of rule sets on facts, each rule set on each fact alone. -/
def reports (auditField : String) (ruleSets : List RuleSet) (facts : List Fact) : List Report :=
  ruleSets.flatMap fun rs => facts.map (Pass.alone auditField rs)

theorem length_reports (auditField : String) (ruleSets : List RuleSet) (facts : List Fact) :
    (reports auditField ruleSets facts).length = ruleSets.length * facts.length := by
  simp [reports, List.length_flatMap]

theorem getElem?_reports (auditField : String) {ruleSets : List RuleSet} {facts : List Fact}
    {i j : Nat} {rs : RuleSet} {fact : Fact} (hi : ruleSets[i]? = some rs)
    (hj : facts[j]? = some fact) :
    (reports auditField ruleSets facts)[i * facts.length + j]?
      = some (Pass.alone auditField rs fact) := by
  obtain ⟨hlt, -⟩ := List.getElem?_eq_some_iff.mp hj
  rw [reports, Batch.getElem?_flatMap (fun rs => List.length_map _) hi hlt, List.getElem?_map, hj]
  rfl

theorem directReports_of_restoreObject {config : Config}
    (h : config.onActionError = .restoreObject) (ruleSets : List RuleSet) (facts : List Fact) :
    directReports config ruleSets facts = .ok (reports config.auditField ruleSets facts) := by
  have hpasses : (ruleSets.mapM fun rs => Pass.direct config rs facts)
      = .ok (ruleSets.map fun rs => facts.map (Pass.alone config.auditField rs)) := by
    simp only [Pass.direct_of_restoreObject h]
    exact List.mapM_pure
  rw [directReports, hpasses]
  rfl

theorem directReports_of_failBatch {config : Config} (h : config.onActionError = .failBatch)
    (ruleSets : List RuleSet) (facts : List Fact) :
    directReports config ruleSets facts
      = Batch.strict Report.error (reports config.auditField ruleSets facts) :=
  Batch.mapM_strict_flatten (fun rs => Pass.direct_of_failBatch h rs facts) ruleSets

/-! ### Applications -/

section Applications

variable {σ : Type} {e : Engine σ} {className : String} {ruleSets : List RuleSet} {s s' : σ}

/-- The outcome of `applyDetailed` for the rule sets of a class. -/
def detailedOutcome (config : Config) (ruleSets : List RuleSet) (facts : List Fact) :
    Except EngineError (List Report) :=
  if ruleSets.isEmpty then .ok (facts.map untouched)
  else (directReports config ruleSets facts).mapError .action

theorem detailedOutcome_of_ne_nil (h : ruleSets ≠ []) (config : Config) (facts : List Fact) :
    detailedOutcome config ruleSets facts
      = (directReports config ruleSets facts).mapError .action :=
  if_neg (mt List.isEmpty_iff.mp h)

theorem run_applyDetailed (h : (e.load className).run.run s = (.ok ruleSets, s'))
    (facts : List Fact) :
    (e.applyDetailed className facts).run.run s
      = (detailedOutcome e.config ruleSets facts, s') := by
  rw [applyDetailed, run_bind_of_ok h, detailedOutcome]
  split
  · rfl
  · rw [run_lift]

theorem run_applyDirect (h : (e.load className).run.run s = (.ok ruleSets, s'))
    (facts : List Fact) :
    (e.applyDirect className facts).run.run s
      = ((detailedOutcome e.config ruleSets facts).map (List.map Report.fact), s') := by
  have hdetailed := run_applyDetailed h facts
  rw [applyDirect]
  cases hr : detailedOutcome e.config ruleSets facts with
  | error err => rw [run_bind_of_error (hr ▸ hdetailed)]; rfl
  | ok reports => rw [run_bind_of_ok (hr ▸ hdetailed)]; rfl

/-- The outcome of `applyViaNetwork` for the rule sets of a class. -/
def networkOutcome (config : Config) (ruleSets : List RuleSet) (facts : List Fact) :
    Except EngineError (List Fact) :=
  if ruleSets.isEmpty then .ok facts
  else ((networkReports config facts ruleSets .empty).mapError .action).map (List.map Report.fact)

theorem run_applyViaNetwork (h : (e.load className).run.run s = (.ok ruleSets, s'))
    (facts : List Fact) :
    (e.applyViaNetwork className facts).run.run s
      = (networkOutcome e.config ruleSets facts, s') := by
  rw [applyViaNetwork, run_bind_of_ok h, networkOutcome]
  split
  · rfl
  · cases hr : networkReports e.config facts ruleSets .empty with
    | error err => rfl
    | ok reports => rfl

end Applications

/-! ### The two policies -/

section Policies

variable {σ : Type}

/-- The engine with a policy of its own. -/
def withPolicy (e : Engine σ) (policy : ErrorPolicy) : Engine σ :=
  { e with config := { e.config with onActionError := policy } }

variable {e : Engine σ} {className : String} {ruleSets : List RuleSet} {s s' : σ}

theorem run_restoreObject (hload : (e.load className).run.run s = (.ok ruleSets, s'))
    (hne : ruleSets ≠ []) (facts : List Fact) :
    ((e.withPolicy .restoreObject).applyDetailed className facts).run.run s
      = (.ok (reports e.config.auditField ruleSets facts), s') := by
  have hload' : ((e.withPolicy .restoreObject).load className).run.run s = (.ok ruleSets, s') :=
    hload
  rw [run_applyDetailed hload', detailedOutcome_of_ne_nil hne,
    directReports_of_restoreObject rfl]
  rfl

theorem run_failBatch (hload : (e.load className).run.run s = (.ok ruleSets, s'))
    (hne : ruleSets ≠ []) (facts : List Fact) :
    ((e.withPolicy .failBatch).applyDirect className facts).run.run s
      = (((Batch.strict Report.error (reports e.config.auditField ruleSets facts)).mapError
          EngineError.action).map (List.map Report.fact), s') := by
  have hload' : ((e.withPolicy .failBatch).load className).run.run s = (.ok ruleSets, s') := hload
  rw [run_applyDirect hload', detailedOutcome_of_ne_nil hne, directReports_of_failBatch rfl]
  rfl

end Policies

/-- **Applications decompose.**  Let a class have rule sets.  Under the policy that gives objects
back, there is one report for each rule set and fact, in the order of the rule sets and then of the
facts, and it is the report of that rule set passing that fact alone; with a failure it has the fact
as it came in, and the names of the rules applied before the failing one.  Under the other policy
the same input gives the facts of these reports if none of them has a failure, and fails with the
first of their failures otherwise.  For a class without rule sets, the facts come back as they came
in. -/
theorem application_decomposes {σ : Type} (e : Engine σ) (className : String) (facts : List Fact)
    {ruleSets : List RuleSet} {s s' : σ}
    (hload : (e.load className).run.run s = (.ok ruleSets, s')) :
    (ruleSets ≠ [] → ∃ reports,
      ((e.withPolicy .restoreObject).applyDetailed className facts).run.run s
        = (.ok reports, s') ∧
      reports.length = ruleSets.length * facts.length ∧
      (∀ i rs j fact, ruleSets[i]? = some rs → facts[j]? = some fact →
        ∃ report, reports[i * facts.length + j]? = some report ∧
          Pass.direct (e.withPolicy .restoreObject).config rs [fact] = .ok [report] ∧
          (report.error = none → Pass.Completes rs e.config.auditField rs.rules fact report.fact
            report.fired) ∧
          ∀ err, report.error = some err → report.fact = fact ∧
            Pass.StopsAt rs e.config.auditField rs.rules fact report.fired err) ∧
      ((∃ after s'', ((e.withPolicy .failBatch).applyDirect className facts).run.run s
        = (.ok after, s'')) ↔ ∀ report ∈ reports, report.error = none) ∧
      ((∀ report ∈ reports, report.error = none) →
        ((e.withPolicy .failBatch).applyDirect className facts).run.run s
          = (.ok (reports.map Report.fact), s')) ∧
      ∀ before report after err, reports = before ++ report :: after →
        (∀ r ∈ before, r.error = none) → report.error = some err →
        ((e.withPolicy .failBatch).applyDirect className facts).run.run s
          = (.error (.action err), s')) ∧
    (ruleSets = [] → ∀ policy,
      ((e.withPolicy policy).applyDirect className facts).run.run s = (.ok facts, s') ∧
      ((e.withPolicy policy).applyDetailed className facts).run.run s
        = (.ok (facts.map untouched), s')) := by
  constructor
  · intro hne
    have hfail := run_failBatch hload hne facts
    refine ⟨reports e.config.auditField ruleSets facts, run_restoreObject hload hne facts,
      length_reports _ _ _, fun i rs j fact hi hj => ?_, ?_, fun hnone => ?_, ?_⟩
    · exact ⟨Pass.alone e.config.auditField rs fact, getElem?_reports _ hi hj,
        Pass.direct_of_restoreObject rfl rs [fact], Pass.alone_spec _ rs fact⟩
    · rw [← Batch.exists_strict_eq_ok_iff, hfail]
      cases Batch.strict Report.error (reports e.config.auditField ruleSets facts) with
      | error err => exact iff_of_false (fun ⟨_, _, h⟩ => nomatch h) (fun ⟨_, h⟩ => nomatch h)
      | ok all => exact iff_of_true ⟨_, s', rfl⟩ ⟨all, rfl⟩
    · rw [hfail, Batch.strict_of_forall_eq_none hnone]
      rfl
    · intro before report after err hreports hbefore herr
      rw [hfail, hreports, Batch.strict_of_first hbefore herr]
      rfl
  · rintro rfl policy
    have hload' : ((e.withPolicy policy).load className).run.run s = (.ok [], s') := hload
    rw [run_applyDirect hload', run_applyDetailed hload']
    have hfacts : (facts.map untouched).map Report.fact = facts := by
      rw [List.map_map]
      exact List.map_id facts
    exact ⟨congrArg (fun fs => (Except.ok fs, s')) hfacts, rfl⟩

/-- A rule set whose first rule adds to `x`, and whose second one fails to. -/
def faltering : RuleSet :=
  let draft := (RuleSet.Draft.ofId "a").column "d" "x" "Increase"
  ((draft.rule [] [⟨"d", "1"⟩]).rule [] [⟨"d", "lots"⟩]).build

/-- Five in `x`. -/
def five : Fact :=
  Fact.empty.insert "x" (.number (.integer ⟨5, by decide, by decide⟩))

/-- Two facts, of which the first one fails after one rule. -/
theorem application_decomposes_faltering :
    let e := ofMemory .default
    let s := Store.empty.save faltering
    (e.load "a").run.run s = (.ok [faltering], s) ∧ (e.load "b").run.run s = (.ok [], s) ∧
      (∃ reports,
        ((e.withPolicy .restoreObject).applyDetailed "a" [five, .empty]).run.run s
          = (.ok reports, s) ∧ reports.length = 2 ∧
        (∃ report, reports[0]? = some report ∧ report.fact = five ∧
          report.fired = [⟨"a", "1"⟩] ∧ report.error = some (.notAnInteger "x" "lots")) ∧
        ((e.withPolicy .failBatch).applyDirect "a" [five, .empty]).run.run s
          = (.error (.action (.notAnInteger "x" "lots")), s)) ∧
      ((e.withPolicy .failBatch).applyDirect "b" [five]).run.run s = (.ok [five], s) := by
  intro e s
  have ha : (e.load "a").run.run s = (.ok [faltering], s) := rfl
  have hb : (e.load "b").run.run s = (.ok [], s) := rfl
  obtain ⟨hsome, -⟩ := application_decomposes e "a" [five, .empty] ha
  obtain ⟨-, hnone⟩ := application_decomposes e "b" [five] hb
  obtain ⟨reports, hrun, hlength, hreport, -, -, hfirst⟩ := hsome (List.cons_ne_nil _ _)
  obtain ⟨report, hget, hpass, -, hstop⟩ := hreport 0 faltering 0 five rfl rfl
  have halone : report = Pass.alone "AppliedRules" faltering five := by
    rw [Pass.direct_of_restoreObject rfl] at hpass
    exact (List.head_eq_of_cons_eq (Except.ok.inj hpass)).symm
  have herr : report.error = some (.notAnInteger "x" "lots") := by
    rw [halone]
    decide +kernel
  have hfired : report.fired = [⟨"a", "1"⟩] := by
    rw [halone]
    decide +kernel
  obtain ⟨rest, rfl⟩ : ∃ rest, reports = [] ++ report :: rest := by
    cases reports with
    | nil => cases hget
    | cons r rest => exact ⟨rest, congrArg (· :: rest) (Option.some.inj hget)⟩
  exact ⟨ha, hb, ⟨_, hrun, hlength, ⟨report, hget, (hstop _ herr).1, hfired, herr⟩,
    hfirst [] report rest _ rfl (fun _ h => nomatch h) herr⟩, (hnone rfl .failBatch).1⟩

end Engine

end DecisionTable
