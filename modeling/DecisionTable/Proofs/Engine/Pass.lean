import DecisionTable.Engine.Application
import DecisionTable.Proofs.Engine.Run
import DecisionTable.Proofs.Fact.Revision
import DecisionTable.Proofs.Network.Walk

/-!
# Engine — The pass over a network

The pass over a network is the plain pass: all rules of the rule sets in the order of registration,
each tested from scratch on the fact as the rules before it left it.

* `Pass.fireRuleSets`, `Pass.plain`: the plain walk and the plain pass of several rule sets.
* `Pass.candid_fireActivation`: applying a rule is candid, so that the walk over a network always
  finds what it last saw up to date; its walk is the plain walk (`Compiles.run_fireActivation`).
* `Engine.networkReports_eq`: the passes of a growing network, block by block.
* `viaNetwork_refines_plain`: the pass over a network, the application through a growing network,
  and its agreement with the direct one for a class with a single rule set.
-/

namespace DecisionTable

namespace Walk

variable {σ ε : Type}

/-- A walk in turn over more rules goes on where the first walk ended, unless it failed. -/
theorem inTurn_append (fire : Activation → Fact → σ → Reply σ ε) (as bs : List Activation)
    (fact : Fact) (state : σ) :
    inTurn fire (as ++ bs) fact state =
      match (inTurn fire as fact state).failure with
      | some _ => inTurn fire as fact state
      | none => inTurn fire bs (inTurn fire as fact state).fact (inTurn fire as fact state).state := by
  induction as generalizing fact state with
  | nil => rfl
  | cons a as ih =>
      rw [List.cons_append, inTurn, inTurn]
      cases a.ruleSet.holds a.rule fact with
      | false => exact ih fact state
      | true =>
          rw [if_pos rfl, if_pos rfl]
          cases hf : (fire a fact state).failure with
          | some e => simp only [hf]
          | none =>
              simp only [hf]
              exact ih _ _

end Walk

namespace Pass

/-! ### The plain pass -/

/-- Applies the rules of rule sets that hold, one rule set after the other, each rule on the fact
that the earlier ones left, until an action fails. -/
def fireRuleSets (auditField : String) :
    List RuleSet → Fact → List RuleName → Reply (List RuleName) ActionError
  | [], fact, fired => ⟨fact, fired, none⟩
  | rs :: ruleSets, fact, fired =>
    let reply := fireRules rs auditField rs.rules fact fired
    match reply.failure with
    | some _ => reply
    | none => fireRuleSets auditField ruleSets reply.fact reply.state

/-- A pass of rule sets, testing every rule on its own. -/
def plain (config : Config) (ruleSets : List RuleSet) (facts : List Fact) :
    Except ActionError (List Report) :=
  facts.mapM fun fact =>
    settle config.onActionError fact (fireRuleSets config.auditField ruleSets fact [])

theorem fireRuleSets_singleton (auditField : String) (rs : RuleSet) (fact : Fact)
    (fired : List RuleName) :
    fireRuleSets auditField [rs] fact fired = fireRules rs auditField rs.rules fact fired := by
  rw [fireRuleSets]
  obtain ⟨after, state, failure⟩ := fireRules rs auditField rs.rules fact fired
  cases failure <;> rfl

/-- The plain pass of one rule set is its direct pass. -/
theorem plain_singleton (config : Config) (rs : RuleSet) (facts : List Fact) :
    plain config [rs] facts = direct config rs facts := by
  simp only [plain, direct, fireRuleSets_singleton]

/-! ### The walk over a network -/

theorem inTurn_map_mk (rs : RuleSet) (auditField : String) (rules : List Rule) (fact : Fact)
    (fired : List RuleName) :
    Walk.inTurn (fireActivation auditField) (rules.map (Activation.mk rs)) fact fired
      = fireRules rs auditField rules fact fired := by
  induction rules generalizing fact fired with
  | nil => rfl
  | cons rule rules ih =>
      rw [List.map_cons, Walk.inTurn, fireRules]
      split
      · dsimp only [fireActivation]
        cases hr : (rs.fire rule auditField fact).result with
        | error e => rfl
        | ok n => exact ih _ _
      · exact ih fact fired

theorem inTurn_ofRuleSets (auditField : String) (ruleSets : List RuleSet) (fact : Fact)
    (fired : List RuleName) :
    Walk.inTurn (fireActivation auditField) (Activation.ofRuleSets ruleSets) fact fired
      = fireRuleSets auditField ruleSets fact fired := by
  induction ruleSets generalizing fact fired with
  | nil => rfl
  | cons rs ruleSets ih =>
      rw [Activation.ofRuleSets, List.flatMap_cons, Walk.inTurn_append, Activation.ofRuleSet,
        inTurn_map_mk, fireRuleSets]
      cases (fireRules rs auditField rs.rules fact fired).failure with
      | some e => rfl
      | none => exact ih _ _

/-- What an applied rule leaves in a field is what was there, or is not the same. -/
theorem candid_fireActivation (auditField : String) :
    Walk.Candid (fireActivation auditField) := by
  intro a fact fired field _ hu
  have hfact : (fireActivation auditField a fact fired).fact
      = (a.ruleSet.fire a.rule auditField fact).fact := by
    rw [fireActivation]
    split <;> rfl
  rw [hfact] at hu ⊢
  exact (a.ruleSet.revises_fire a.rule auditField fact field).eq_of_unchanged hu

end Pass

namespace Network.Compiles

variable {net : Network} {ruleSets : List RuleSet}

/-- **The walk over a network**, when it applies rules, is the plain walk. -/
theorem run_fireActivation (h : net.Compiles ruleSets) (auditField : String) (fact : Fact)
    (fired : List RuleName) :
    net.run (Pass.fireActivation auditField) fact fired
      = Pass.fireRuleSets auditField ruleSets fact fired := by
  have hup := (Pass.candid_fireActivation auditField).upToDate (Activation.ofRuleSets ruleSets)
    fact fired
  rw [h.run_eq_along, Walk.along_refresh_of_upToDate hup, Pass.inTurn_ofRuleSets]

theorem viaNetwork_eq (h : net.Compiles ruleSets) (config : Config) (facts : List Fact) :
    Pass.viaNetwork config net facts = Pass.plain config ruleSets facts := by
  simp only [Pass.viaNetwork, Pass.plain, h.run_fireActivation]

end Network.Compiles

namespace Engine

/-! ### Growing networks -/

/-- The reports of the plain passes of the first rule set, the first two, and so on, over the same
facts. -/
def plainReports (config : Config) (ruleSets : List RuleSet) (facts : List Fact) :
    Except ActionError (List Report) :=
  ((List.range ruleSets.length).mapM fun i =>
    Pass.plain config (ruleSets.take (i + 1)) facts).map List.flatten

/-- **The passes of a growing network**, block by block, are the plain passes. -/
theorem networkReports_eq {net : Network} {done : List RuleSet} (h : net.Compiles done)
    (config : Config) (facts : List Fact) (ruleSets : List RuleSet) :
    networkReports config facts ruleSets net
      = ((List.range ruleSets.length).mapM fun i =>
          Pass.plain config (done ++ ruleSets.take (i + 1)) facts).map List.flatten := by
  -- on the rule sets that are still to join; `done` grows with the network
  induction ruleSets generalizing net done with
  | nil => rfl
  | cons rs ruleSets ih =>
      have hrest : ∀ i, done ++ (rs :: ruleSets).take (i + 1 + 1)
          = (done ++ [rs]) ++ ruleSets.take (i + 1) := by
        intro i
        rw [List.take_succ_cons, List.append_assoc, List.singleton_append]
      rw [networkReports, List.length_cons, List.range_succ_eq_map, List.mapM_cons, List.mapM_map]
      simp only [ih (h.push rs), (h.push rs).viaNetwork_eq, Function.comp_def, hrest]
      rw [List.take_succ_cons, List.take_zero]
      cases Pass.plain config (done ++ [rs]) facts with
      | error e => rfl
      | ok first =>
          cases (List.range ruleSets.length).mapM fun i =>
              Pass.plain config ((done ++ [rs]) ++ ruleSets.take (i + 1)) facts with
          | error e => rfl
          | ok others => rfl

variable {σ : Type}

/-- Applies the rule sets of a class in growing plain passes. -/
def applyPlain (e : Engine σ) (className : String) (facts : List Fact) :
    EngineM σ (List Fact) := do
  let ruleSets ← e.load className
  if ruleSets.isEmpty then return facts
  return (← lift .action (plainReports e.config ruleSets facts)).map Report.fact

theorem applyViaNetwork_eq_applyPlain (e : Engine σ) (className : String) (facts : List Fact) :
    e.applyViaNetwork className facts = e.applyPlain className facts := by
  have hreports : ∀ ruleSets,
      networkReports e.config facts ruleSets .empty = plainReports e.config ruleSets facts :=
    networkReports_eq Network.compiles_empty e.config facts
  simp only [applyViaNetwork, applyPlain, hreports]

/-- One block for a single rule set, which is its direct pass. -/
theorem plainReports_singleton (config : Config) (rs : RuleSet) (facts : List Fact) :
    plainReports config [rs] facts = directReports config [rs] facts := by
  have hone : List.range [rs].length = [0] := rfl
  rw [plainReports, directReports, hone, List.mapM_cons, List.mapM_cons, List.take_succ_cons,
    List.take_zero, Pass.plain_singleton]
  rfl

theorem applyViaNetwork_eq_applyDirect {e : Engine σ} {className : String} {rs : RuleSet} {s s' : σ}
    (h : (e.load className).run.run s = (.ok [rs], s')) (facts : List Fact) :
    (e.applyViaNetwork className facts).run.run s = (e.applyDirect className facts).run.run s := by
  rw [applyViaNetwork_eq_applyPlain, applyPlain, applyDirect, applyDetailed, bind_assoc,
    run_bind_of_ok h, run_bind_of_ok h]
  simp [plainReports_singleton]

end Engine

/-- **The pass over a network refines the plain pass.**  For all rule sets and facts both give the
same reports or fail with the same error.  So an engine that lets the rule sets of a class join a
network one after the other makes the plain pass of the first of them, of the first two, and so
on; and if the class has a single rule set, it does what it does without a network. -/
theorem viaNetwork_refines_plain {σ : Type} (config : Config) (e : Engine σ) (className : String)
    (ruleSets : List RuleSet) (facts : List Fact) :
    Pass.viaNetwork config (Network.ofRuleSets ruleSets) facts
        = Pass.plain config ruleSets facts ∧
      e.applyViaNetwork className facts = e.applyPlain className facts ∧
      ∀ (rs : RuleSet) (s s' : σ), (e.load className).run.run s = (.ok [rs], s') →
        (e.applyViaNetwork className facts).run.run s
          = (e.applyDirect className facts).run.run s :=
  ⟨(Network.compiles_ofRuleSets ruleSets).viaNetwork_eq config facts,
    e.applyViaNetwork_eq_applyPlain className facts,
    fun _ _ _ h => Engine.applyViaNetwork_eq_applyDirect h facts⟩

/-- A rule set whose first rule writes the field that the second one reads and writes. -/
def RuleSet.chained : RuleSet :=
  let draft := ((RuleSet.Draft.ofId "a").column "c" "x" "Equals").column "d" "x" "Set"
  ((draft.rule [] [⟨"d", "1"⟩]).rule [⟨"c", "1"⟩] [⟨"d", "2"⟩]).build

/-- The engine over the store in memory. -/
def Engine.inMemory : Engine Store :=
  ⟨Store.backend, .default⟩

/-- A class of one rule set, whose rules act on each other. -/
theorem viaNetwork_refines_plain_chained :
    (Engine.inMemory.load "a").run.run (Store.empty.save RuleSet.chained)
        = (.ok [RuleSet.chained], Store.empty.save RuleSet.chained) ∧
      (Engine.inMemory.applyViaNetwork "a" [Fact.empty.zeroX true]).run.run
          (Store.empty.save RuleSet.chained)
        = (Engine.inMemory.applyDirect "a" [Fact.empty.zeroX true]).run.run
          (Store.empty.save RuleSet.chained) := by
  have hload : (Engine.inMemory.load "a").run.run (Store.empty.save RuleSet.chained)
      = (.ok [RuleSet.chained], Store.empty.save RuleSet.chained) := rfl
  exact ⟨hload, (viaNetwork_refines_plain .default Engine.inMemory "a" [RuleSet.chained]
    [Fact.empty.zeroX true]).2.2 RuleSet.chained _ _ hload⟩

end DecisionTable
