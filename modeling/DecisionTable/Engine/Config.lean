import DecisionTable.Json.Record
import DecisionTable.RuleSet.Actions

/-!
# Engine — Config

How an engine applies rules: the field where it records them, what a failing action does to a
batch, and which way of matching it uses by default.  `Config.parse?` reads a record whose fields
may all be left out.
-/

namespace DecisionTable

/-- What a failing action does. -/
inductive ErrorPolicy where
  /-- the object is given back as it came in, and the batch goes on -/
  | restoreObject
  /-- the batch fails -/
  | failBatch
  deriving DecidableEq

/-- A way of finding the rules that hold. -/
inductive Strategy where
  /-- every rule on its own -/
  | naive
  /-- shared tests -/
  | network
  deriving DecidableEq

/-- The configuration of an engine. -/
structure Config where
  auditField : String
  onActionError : ErrorPolicy
  defaultStrategy : Strategy
  deriving DecidableEq

/-- The names of the policies. -/
def ErrorPolicy.names : List (String × ErrorPolicy) :=
  [("restore_object", .restoreObject), ("fail_batch", .failBatch)]

/-- The names of the strategies. -/
def Strategy.names : List (String × Strategy) :=
  [("naive", .naive), ("network", .network)]

/-- The name of a policy. -/
def ErrorPolicy.name : ErrorPolicy → String
  | .restoreObject => "restore_object"
  | .failBatch => "fail_batch"

/-- The name of a strategy. -/
def Strategy.name : Strategy → String
  | .naive => "naive"
  | .network => "network"

namespace Config

open Json (Form)

/-- The configuration without a choice. -/
def default : Config :=
  ⟨Fact.defaultAuditField, .restoreObject, .naive⟩

/-- Reads a configuration. -/
def ofForm? (form : Form) : Option Config := do
  match ← form.record? [("audit_field", .defaulted), ("on_action_error", .defaulted),
      ("default_strategy", .defaulted)] with
  | [auditField, onActionError, defaultStrategy] =>
    let auditField ← Form.orDefault? Form.text? default.auditField auditField
    let onActionError ←
      Form.orDefault? (Form.choice? ErrorPolicy.names) default.onActionError onActionError
    let defaultStrategy ←
      Form.orDefault? (Form.choice? Strategy.names) default.defaultStrategy defaultStrategy
    some { auditField, onActionError, defaultStrategy }
  | _ => none

/-- Reads a configuration from JSON text. -/
def parse? (s : String) : Option Config :=
  (Form.parse? s).bind ofForm?

end Config

end DecisionTable
