import DecisionTable.Proofs.Engine.Pass

/-!
# Engine — The calls of a pass

A pass over a fact applies rules one after the other.  `Pass.Walked` is a pass, direct or over a
network, together with its *calls*: the rules that it applies, each with the fact that it finds, the
failing one included.

* `Pass.Trace`: rules walked in turn, as a relation between the fact that comes in, the calls, and
  what the walk leaves.  What holds of every pass is proved by induction on it.
* `Pass.Walked.trace`: every pass is such a walk over the rules of its rule sets in order.
* `Pass.Trace.eq_fact_or_last`: a walk leaves the fact as it came in, or as its last call left it.
-/

namespace DecisionTable

/-- The rules of rule sets are rules of one of them. -/
theorem Activation.mem_of_mem_ofRuleSets {ruleSets : List RuleSet} {a : Activation}
    (h : a ∈ ofRuleSets ruleSets) : a.ruleSet ∈ ruleSets ∧ a.rule ∈ a.ruleSet.rules := by
  obtain ⟨rs, hrs, ha⟩ := List.mem_flatMap.mp h
  obtain ⟨rule, hrule, rfl⟩ := List.mem_map.mp ha
  exact ⟨hrs, hrule⟩

namespace Walk

variable {σ ε : Type}

/-- Taking notes changes nothing in what a callback leaves. -/
theorem Candid.noting {fire : Activation → Fact → σ → Reply σ ε} (h : Candid fire) :
    Candid (Walk.noting fire) :=
  fun a fact noted field hf hu => h a fact noted.1 field hf hu

end Walk

/-- With a candid callback, the walk over a network is the walk in turn. -/
theorem Network.Compiles.run_eq_inTurn {σ ε : Type} {net : Network} {ruleSets : List RuleSet}
    (h : net.Compiles ruleSets) {fire : Activation → Fact → σ → Reply σ ε} (hc : Walk.Candid fire)
    (fact : Fact) (state : σ) :
    net.run fire fact state = Walk.inTurn fire (Activation.ofRuleSets ruleSets) fact state := by
  rw [h.run_eq_along, Walk.along_refresh_of_upToDate (hc.upToDate _ fact state)]

namespace Pass

/-- A pass over a fact, with the calls that it makes and what it leaves: the direct pass of a rule
set, or the pass over the network of any rule sets. -/
inductive Walked (auditField : String) (fact : Fact) :
    List RuleSet → List (Activation × Fact) → Reply (List RuleName) ActionError → Prop
  | direct (rs : RuleSet) :
      Walked auditField fact [rs]
        (Walk.inTurn (Walk.noting (fireActivation auditField)) (Activation.ofRuleSet rs) fact
          ([], [])).state.2
        (fireRules rs auditField rs.rules fact [])
  | viaNetwork (ruleSets : List RuleSet) :
      Walked auditField fact ruleSets
        ((Network.ofRuleSets ruleSets).run (Walk.noting (fireActivation auditField)) fact
          ([], [])).state.2
        ((Network.ofRuleSets ruleSets).run (fireActivation auditField) fact [])

/-- Rules walked in turn from a fact, with the calls and what the walk leaves.  Rules that do not
hold when their turn comes are passed over; the others are applied, each to the fact that the
earlier ones left, and named, until one fails. -/
inductive Trace (auditField : String) :
    List Activation → Fact → List (Activation × Fact) → Reply (List RuleName) ActionError → Prop
  | done (fact : Fact) : Trace auditField [] fact [] ⟨fact, [], none⟩
  | passedOver {a : Activation} {as : List Activation} {fact : Fact}
      {calls : List (Activation × Fact)} {walked : Reply (List RuleName) ActionError}
      (hholds : a.ruleSet.holds a.rule fact = false)
      (hrest : Trace auditField as fact calls walked) :
      Trace auditField (a :: as) fact calls walked
  | applied {a : Activation} {as : List Activation} {fact : Fact}
      {calls : List (Activation × Fact)} {walked : Reply (List RuleName) ActionError} {n : Nat}
      (hholds : a.ruleSet.holds a.rule fact = true)
      (hfire : (a.ruleSet.fire a.rule auditField fact).result = .ok n)
      (hrest : Trace auditField as (a.ruleSet.fire a.rule auditField fact).fact calls walked) :
      Trace auditField (a :: as) fact ((a, fact) :: calls)
        ⟨walked.fact, a.name :: walked.state, walked.failure⟩
  | failed {a : Activation} {as : List Activation} {fact : Fact} {err : ActionError}
      (hholds : a.ruleSet.holds a.rule fact = true)
      (hfire : (a.ruleSet.fire a.rule auditField fact).result = .error err) :
      Trace auditField (a :: as) fact [(a, fact)]
        ⟨(a.ruleSet.fire a.rule auditField fact).fact, [], some err⟩

/-! ### Every pass is a walk in turn -/

theorem fireActivation_of_ok {auditField : String} {a : Activation} {fact : Fact} {n : Nat}
    (h : (a.ruleSet.fire a.rule auditField fact).result = .ok n) (fired : List RuleName) :
    fireActivation auditField a fact fired
      = ⟨(a.ruleSet.fire a.rule auditField fact).fact, fired ++ [a.name], none⟩ := by
  simp only [fireActivation, h]

theorem fireActivation_of_error {auditField : String} {a : Activation} {fact : Fact}
    {err : ActionError} (h : (a.ruleSet.fire a.rule auditField fact).result = .error err)
    (fired : List RuleName) :
    fireActivation auditField a fact fired
      = ⟨(a.ruleSet.fire a.rule auditField fact).fact, fired, some err⟩ := by
  simp only [fireActivation, h]

/-- The walk in turn has a trace.  It names the rules behind those that it was given, and with notes
of the calls it does the same. -/
theorem exists_trace (auditField : String) (as : List Activation) (fact : Fact) :
    ∃ calls walked, Trace auditField as fact calls walked ∧
      (∀ fired, Walk.inTurn (fireActivation auditField) as fact fired
        = ⟨walked.fact, fired ++ walked.state, walked.failure⟩) ∧
      ∀ fired log, Walk.inTurn (Walk.noting (fireActivation auditField)) as fact (fired, log)
        = ⟨walked.fact, (fired ++ walked.state, log ++ calls), walked.failure⟩ := by
  induction as generalizing fact with
  | nil => exact ⟨[], ⟨fact, [], none⟩, .done fact, by simp [Walk.inTurn], by simp [Walk.inTurn]⟩
  | cons a as ih =>
      cases hholds : a.ruleSet.holds a.rule fact with
      | false =>
          obtain ⟨calls, walked, htrace, hplain, hnoted⟩ := ih fact
          refine ⟨calls, walked, .passedOver hholds htrace, fun fired => ?_, fun fired log => ?_⟩
          · rw [Walk.inTurn, hholds]
            exact hplain fired
          · rw [Walk.inTurn, hholds]
            exact hnoted fired log
      | true =>
          cases hfire : (a.ruleSet.fire a.rule auditField fact).result with
          | error err =>
              refine ⟨_, _, .failed hholds hfire, fun fired => ?_, fun fired log => ?_⟩
              · simp [Walk.inTurn, hholds, fireActivation_of_error hfire]
              · simp [Walk.inTurn, Walk.noting, hholds, fireActivation_of_error hfire]
          | ok n =>
              obtain ⟨calls, walked, htrace, hplain, hnoted⟩ :=
                ih (a.ruleSet.fire a.rule auditField fact).fact
              refine ⟨_, _, .applied hholds hfire htrace, fun fired => ?_, fun fired log => ?_⟩
              · simp [Walk.inTurn, hholds, fireActivation_of_ok hfire, hplain]
              · simp [Walk.inTurn, Walk.noting, hholds, fireActivation_of_ok hfire, hnoted]

/-- **Every pass**, direct or over a network, walks the rules of its rule sets in turn. -/
theorem Walked.trace {auditField : String} {fact : Fact} {ruleSets : List RuleSet}
    {calls : List (Activation × Fact)} {walked : Reply (List RuleName) ActionError}
    (h : Walked auditField fact ruleSets calls walked) :
    Trace auditField (Activation.ofRuleSets ruleSets) fact calls walked := by
  obtain ⟨calls', walked', htrace, hplain, hnoted⟩ :=
    exists_trace auditField (Activation.ofRuleSets ruleSets) fact
  have hcandid := candid_fireActivation auditField
  cases h with
  | direct rs =>
      have hall : Activation.ofRuleSets [rs] = Activation.ofRuleSet rs := List.flatMap_singleton _ _
      rw [hall] at htrace hplain hnoted ⊢
      rw [← inTurn_map_mk, ← Activation.ofRuleSet, hplain, hnoted]
      exact htrace
  | viaNetwork =>
      have hnet := Network.compiles_ofRuleSets ruleSets
      rw [hnet.run_eq_inTurn hcandid, hnet.run_eq_inTurn hcandid.noting, hplain, hnoted]
      exact htrace

/-! ### What a trace tells -/

namespace Trace

variable {auditField : String} {as : List Activation} {fact : Fact}
  {calls : List (Activation × Fact)} {walked : Reply (List RuleName) ActionError}

/-- A walk leaves the fact as it came in, or as its last call left it. -/
theorem eq_fact_or_last (h : Trace auditField as fact calls walked) :
    calls = [] ∧ walked.fact = fact ∨
      ∃ before a found, calls = before ++ [(a, found)] ∧
        walked.fact = (a.ruleSet.fire a.rule auditField found).fact := by
  induction h with
  | done fact => exact .inl ⟨rfl, rfl⟩
  | passedOver _ _ ih => exact ih
  | @applied a as fact calls walked n hholds hfire hrest ih =>
      rcases ih with ⟨rfl, hleft⟩ | ⟨before, last, found, rfl, hleft⟩
      · exact .inr ⟨[], a, fact, rfl, hleft⟩
      · exact .inr ⟨(a, fact) :: before, last, found, rfl, hleft⟩
  | @failed a as fact err hholds hfire => exact .inr ⟨[], a, fact, rfl, rfl⟩

/-- A walk without failure names all of its calls. -/
theorem state_eq (h : Trace auditField as fact calls walked) (hdone : walked.failure = none) :
    walked.state = calls.map fun call => call.1.name := by
  induction h with
  | done fact => rfl
  | passedOver _ _ ih => exact ih hdone
  | applied _ _ _ ih => rw [List.map_cons, ih hdone]
  | failed => cases hdone

/-- Only rules that are walked are called. -/
theorem mem_of_mem_calls (h : Trace auditField as fact calls walked) {call : Activation × Fact}
    (hc : call ∈ calls) : call.1 ∈ as := by
  induction h with
  | done fact => cases hc
  | passedOver _ _ ih => exact .tail _ (ih hc)
  | applied _ _ _ ih =>
      rcases List.mem_cons.mp hc with rfl | hc
      · exact .head _
      · exact .tail _ (ih hc)
  | failed =>
      obtain rfl := List.mem_singleton.mp hc
      exact .head _

end Trace

end Pass

end DecisionTable
