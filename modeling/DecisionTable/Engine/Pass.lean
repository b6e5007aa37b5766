import DecisionTable.Engine.Config
import DecisionTable.Network.Walk
import DecisionTable.RuleSet.Actions
import DecisionTable.RuleSet.Conditions

/-!
# Engine — Pass

One pass of rules over a batch of facts.  Each fact is walked on its own, and a rule is tested
against the fact as the rules before it left it: directly (`Pass.direct`), or through a network
(`Pass.viaNetwork`).  A failing action either fails the batch or gives its fact back as it came in.
-/

namespace DecisionTable

/-- What a pass did to one fact. -/
structure Report where
  fact : Fact
  fired : List RuleName
  error : Option ActionError

/-- A line that lists the rules that were applied, and the failure. -/
def Report.display (r : Report) : String :=
  "fired: [" ++ String.intercalate ", " (r.fired.map RuleName.text) ++ "]"
    ++ (match r.error with
      | some e => ", error: " ++ e.message
      | none => "")

namespace Pass

/-- Applies the rules of a rule set that hold, each on the fact that the earlier ones left. -/
def fireRules (rs : RuleSet) (auditField : String) :
    List Rule → Fact → List RuleName → Reply (List RuleName) ActionError
  | [], fact, fired => ⟨fact, fired, none⟩
  | rule :: rules, fact, fired =>
    if rs.holds rule fact then
      let applied := rs.fire rule auditField fact
      match applied.result with
      | .ok _ => fireRules rs auditField rules applied.fact (fired ++ [.ofRule rs rule])
      | .error e => ⟨applied.fact, fired, some e⟩
    else
      fireRules rs auditField rules fact fired

/-- Applies a rule that holds, and notes it if it succeeds. -/
def fireActivation (auditField : String) (a : Activation) (fact : Fact) (fired : List RuleName) :
    Reply (List RuleName) ActionError :=
  let applied := a.ruleSet.fire a.rule auditField fact
  match applied.result with
  | .ok _ => ⟨applied.fact, fired ++ [a.name], none⟩
  | .error e => ⟨applied.fact, fired, some e⟩

/-- What becomes of a fact after its walk, given the fact as it came in. -/
def settle (policy : ErrorPolicy) (input : Fact) (walked : Reply (List RuleName) ActionError) :
    Except ActionError Report :=
  match walked.failure, policy with
  | none, _ => .ok ⟨walked.fact, walked.state, none⟩
  | some e, .failBatch => .error e
  | some e, .restoreObject => .ok ⟨input, walked.state, some e⟩

/-- A pass of one rule set, testing every rule on its own. -/
def direct (config : Config) (rs : RuleSet) (facts : List Fact) :
    Except ActionError (List Report) :=
  facts.mapM fun fact =>
    settle config.onActionError fact (fireRules rs config.auditField rs.rules fact [])

/-- A pass of all rule sets of a network. -/
def viaNetwork (config : Config) (net : Network) (facts : List Fact) :
    Except ActionError (List Report) :=
  facts.mapM fun fact =>
    settle config.onActionError fact (net.run (fireActivation config.auditField) fact [])

end Pass

end DecisionTable
