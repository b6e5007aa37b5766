import DecisionTable.Entries
import DecisionTable.Text.Blank
import DecisionTable.Text.Match

/-!
# Condition — Operator

The operators of condition columns, six comparisons and four tests on text, with the phrases that
name them.  A phrase is read without blanks at its ends and in any ASCII case; the comparisons also
have symbols.
-/

namespace DecisionTable.Condition

/-- A test on the order of two values. -/
inductive Comparison where
  | equals
  | notEquals
  | greaterThan
  | greaterThanOrEqual
  | lessThan
  | lessThanOrEqual
  deriving DecidableEq, Hashable

/-- A test on the text of a value. -/
inductive TextTest where
  | contains
  | notContains
  | startsWith
  | endsWith
  deriving DecidableEq, Hashable

/-- The operator of a condition column. -/
inductive Operator where
  | comparison (c : Comparison)
  | textTest (t : TextTest)
  deriving DecidableEq, Hashable

/-- Whether a comparison holds of two values in this order. -/
def Comparison.accepts : Comparison → Ordering → Bool
  | .equals, o => o == .eq
  | .notEquals, o => o != .eq
  | .greaterThan, o => o == .gt
  | .greaterThanOrEqual, o => o != .lt
  | .lessThan, o => o == .lt
  | .lessThanOrEqual, o => o != .gt

namespace Operator

/-- The name of an operator. -/
def name : Operator → String
  | .comparison .equals => "Equals"
  | .comparison .notEquals => "NotEquals"
  | .comparison .greaterThan => "GreaterThan"
  | .comparison .greaterThanOrEqual => "GreaterThanOrEqual"
  | .comparison .lessThan => "LessThan"
  | .comparison .lessThanOrEqual => "LessThanOrEqual"
  | .textTest .contains => "Contains"
  | .textTest .notContains => "NotContains"
  | .textTest .startsWith => "StartsWith"
  | .textTest .endsWith => "EndsWith"

/-- Every operator. -/
def every : List Operator :=
  [.comparison .equals, .comparison .notEquals, .comparison .greaterThan,
    .comparison .greaterThanOrEqual, .comparison .lessThan, .comparison .lessThanOrEqual,
    .textTest .contains, .textTest .notContains, .textTest .startsWith, .textTest .endsWith]

/-- The symbols of the comparisons. -/
def symbols : List (String × Operator) :=
  [("==", .comparison .equals), ("=", .comparison .equals), ("!=", .comparison .notEquals),
    ("<>", .comparison .notEquals), (">", .comparison .greaterThan),
    (">=", .comparison .greaterThanOrEqual), ("<", .comparison .lessThan),
    ("<=", .comparison .lessThanOrEqual)]

/-- Reads a symbol or a name. -/
def ofPhrase? (phrase : String) : Option Operator :=
  let phrase := Text.trim phrase
  match Entries.get? phrase symbols with
  | some op => some op
  | none => every.find? fun op => Text.sameIgnoringCase op.name phrase

theorem mem_every (op : Operator) : op ∈ every := by
  rcases op with c | t
  · cases c <;> simp [every]
  · cases t <;> simp [every]

end Operator

end DecisionTable.Condition
