import DecisionTable.RuleSet.Basic

/-!
# RuleName

The name under which a rule is known outside its rule set: the id of the rule set and the index of
the rule.  Its text is the entry that facts record.
-/

namespace DecisionTable

/-- The id of a rule set and the index of a rule. -/
structure RuleName where
  ruleSetId : String
  ruleIndex : String
  deriving DecidableEq

namespace RuleName

/-- The name of a rule of a rule set. -/
def ofRule (rs : RuleSet) (r : Rule) : RuleName :=
  ⟨rs.id, r.index⟩

/-- The entry that facts record. -/
def text (n : RuleName) : String :=
  "RuleId:" ++ n.ruleSetId ++ " RuleIndex:" ++ n.ruleIndex

end RuleName

end DecisionTable
