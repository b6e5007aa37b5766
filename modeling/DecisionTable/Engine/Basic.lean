import DecisionTable.Engine.Config
import DecisionTable.Engine.Store
import DecisionTable.Snapshot.Basic

/-!
# Engine — Basic

The service over a store.  Every operation is a computation on the states of the store that may
fail; here are its failures and the two operations of the store as operations of the engine.
-/

namespace DecisionTable

/-- Why an operation fails. -/
inductive EngineError where
  | load (e : LoadError)
  | action (e : ActionError)
  | store (e : StoreError)
  | emptyUpload
  | tooLarge (e : SnapshotTooLarge)
  | snapshot (e : SnapshotError)
  deriving DecidableEq

/-- The wording of a failure. -/
def EngineError.message : EngineError → String
  | .load e => e.message
  | .action e => e.message
  | .store e => e.message
  | .emptyUpload => "upload contains no rule set document"
  | .tooLarge e => e.message
  | .snapshot e => e.message

/-- A computation on the states of a store that may fail. -/
abbrev EngineM (σ : Type) := ExceptT EngineError (StateM σ)

/-- An engine over a store with states `σ`. -/
structure Engine (σ : Type) where
  backend : Backend σ
  config : Config

namespace Engine

variable {σ : Type}

/-- A failure or a result of a part. -/
def lift {ε α : Type} (wrap : ε → EngineError) (r : Except ε α) : EngineM σ α :=
  match r with
  | .ok a => pure a
  | .error e => throw (wrap e)

/-- The rule sets of a class. -/
def load (e : Engine σ) (className : String) : EngineM σ (List RuleSet) :=
  ExceptT.adapt .store (e.backend.load className)

/-- Saves a rule set. -/
def save (e : Engine σ) (rs : RuleSet) : EngineM σ Unit :=
  ExceptT.adapt .store (e.backend.save rs)

end Engine

end DecisionTable
