import DecisionTable.Engine.Basic
import DecisionTable.Engine.Pass

/-!
# Engine — Application

Applying the rule sets of a class to a batch of facts.  Every rule set makes its own pass over the
facts as they came in, directly or through a network that the rule sets join one after the other;
the facts of a class without rule sets come back as they are.
-/

namespace DecisionTable.Engine

variable {σ : Type}

/-- The report of a fact that no rule set looked at. -/
def untouched (fact : Fact) : Report :=
  ⟨fact, [], none⟩

/-- The reports of the passes of rule sets over the same facts, one rule set after the other. -/
def directReports (config : Config) (ruleSets : List RuleSet) (facts : List Fact) :
    Except ActionError (List Report) :=
  (ruleSets.mapM fun rs => Pass.direct config rs facts).map List.flatten

/-- The reports of the passes of a growing network over the same facts, one for each rule set that
joins it. -/
def networkReports (config : Config) (facts : List Fact) :
    List RuleSet → Network → Except ActionError (List Report)
  | [], _ => .ok []
  | rs :: ruleSets, net => do
    let net := net.push rs
    let first ← Pass.viaNetwork config net facts
    let others ← networkReports config facts ruleSets net
    .ok (first ++ others)

/-- Applies each rule set of a class to the facts as they came in, with a report for every rule set
and fact. -/
def applyDetailed (e : Engine σ) (className : String) (facts : List Fact) :
    EngineM σ (List Report) := do
  let ruleSets ← e.load className
  if ruleSets.isEmpty then return facts.map untouched
  lift .action (directReports e.config ruleSets facts)

/-- The facts after `applyDetailed`. -/
def applyDirect (e : Engine σ) (className : String) (facts : List Fact) :
    EngineM σ (List Fact) := do
  return (← e.applyDetailed className facts).map Report.fact

/-- Applies the rule sets of a class through a network that they join one after the other. -/
def applyViaNetwork (e : Engine σ) (className : String) (facts : List Fact) :
    EngineM σ (List Fact) := do
  let ruleSets ← e.load className
  if ruleSets.isEmpty then return facts
  return (← lift .action (networkReports e.config facts ruleSets .empty)).map Report.fact

/-- Applies the rule sets of a class in the way that the configuration names. -/
def apply (e : Engine σ) (className : String) (facts : List Fact) : EngineM σ (List Fact) :=
  match e.config.defaultStrategy with
  | .naive => e.applyDirect className facts
  | .network => e.applyViaNetwork className facts

end DecisionTable.Engine
