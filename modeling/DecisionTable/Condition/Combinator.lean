import DecisionTable.Text.Blank
import DecisionTable.Text.Match

/-!
# Condition — Combinator

How the outcomes of a rule's conditions combine.  Outcomes are folded from left to right without
stopping early: a missing field sets the verdict to false whatever stood before it, a blank cell
leaves the verdict as it is, and a test acts as the combinator says.
-/

namespace DecisionTable

/-- All conditions, or one of them. -/
inductive Combinator where
  | all
  | any
  deriving DecidableEq

/-- What became of a condition. -/
inductive Outcome where
  /-- the column has no field, or the fact lacks it -/
  | missing
  /-- the cell is blank -/
  | wildcard
  | passed
  | failed
  deriving DecidableEq

namespace Combinator

/-- The name of a combinator. -/
def name : Combinator → String
  | .all => "AND"
  | .any => "OR"

/-- Reads a name, without blanks at its ends and in any ASCII case. -/
def ofPhrase? (phrase : String) : Option Combinator :=
  [Combinator.all, .any].find? fun c => Text.sameIgnoringCase (Text.trim phrase) c.name

/-- The verdict before the first condition. -/
def initial : Combinator → Bool
  | .all => true
  | .any => false

/-- The verdict after one more condition. -/
def step (c : Combinator) (verdict : Bool) (outcome : Outcome) : Bool :=
  match outcome, c with
  | .missing, _ => false
  | .wildcard, _ => verdict
  | .passed, .all => verdict
  | .passed, .any => true
  | .failed, .all => false
  | .failed, .any => verdict

/-- The verdict on a list of outcomes. -/
def verdict (c : Combinator) (outcomes : List Outcome) : Bool :=
  outcomes.foldl c.step c.initial

end Combinator

end DecisionTable
