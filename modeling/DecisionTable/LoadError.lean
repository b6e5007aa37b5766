/-!
# LoadError

Why a text is not a fact or not the document of a rule set.
-/

namespace DecisionTable

/-- The first fault of a document. -/
inductive LoadError where
  | invalidJson
  | missingSection (name : String)
  | wrongShape (field expected : String)
  | missingField (field : String)
  | unknownCombinator (phrase : String)
  deriving DecidableEq

/-- The wording of a fault. -/
def LoadError.message : LoadError → String
  | .invalidJson => "rule set document is not valid JSON"
  | .missingSection name => "rule set document has no '" ++ name ++ "' section"
  | .wrongShape field expected => "'" ++ field ++ "' must be " ++ expected
  | .missingField field => "required field '" ++ field ++ "' is missing"
  | .unknownCombinator phrase =>
    "unknown conditions operator '" ++ phrase ++ "'; expected AND or OR"

end DecisionTable
