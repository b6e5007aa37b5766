import DecisionTable.Coercion

/-!
# Action — Operator

The operators of action columns: storing the text of a cell, and adding it to a number or taking it
away.  `Operator.apply` is the value that takes the place of a field's current one, or the reason
why there is none; a truth value stays a truth value, and sums are exact or refused.
-/

namespace DecisionTable

/-- Why an action fails. -/
inductive ActionError where
  | notAnInteger (field value : String)
  | notABoolean (field value : String)
  | overflow (field : String)
  deriving DecidableEq

/-- The wording of a failure. -/
def ActionError.message : ActionError → String
  | .notAnInteger field value => "field '" ++ field ++ "': '" ++ value ++ "' is not an integer"
  | .notABoolean field value => "field '" ++ field ++ "': '" ++ value ++ "' is not a boolean"
  | .overflow field => "field '" ++ field ++ "': integer overflow"

/-- A value as a word: only numbers count, not texts. -/
def Json.int64? : Json → Option Int64
  | .number (.integer n) => n.toInt64?
  | _ => none

/-- The number of a word. -/
def Json.ofInt64 (w : Int64) : Json :=
  .number (.integer (.ofInt64 w))

namespace Action

/-- The operator of an action column. -/
inductive Operator where
  | set
  | increase
  | decrease
  deriving DecidableEq

namespace Operator

/-- The name of an operator. -/
def name : Operator → String
  | .set => "Set"
  | .increase => "Increase"
  | .decrease => "Decrease"

/-- Every operator. -/
def every : List Operator :=
  [.set, .increase, .decrease]

/-- Reads a name, without blanks at its ends and in any ASCII case. -/
def ofPhrase? (phrase : String) : Option Operator :=
  every.find? fun op => Text.sameIgnoringCase op.name (Text.trim phrase)

/-- The value that a `Set` stores: a truth value in a field that holds one, and otherwise the text
of the cell as it is. -/
def setValue (field : String) (current : Json) (text : String) : Except ActionError Json :=
  match current with
  | .bool _ =>
    match Text.bool? text with
    | some b => .ok (.bool b)
    | none => .error (.notABoolean field text)
  | _ => .ok (.text text)

/-- The two words of an addition: the value of the field, then the text of the cell. -/
def operands (field : String) (current : Json) (text : String) :
    Except ActionError (Int64 × Int64) :=
  match current.int64?, Text.int64? text with
  | none, _ => .error (.notAnInteger field current.render)
  | some _, none => .error (.notAnInteger field text)
  | some a, some b => .ok (a, b)

/-- A sum or difference, if it is a word. -/
def checked (field : String) (n : Int) : Except ActionError Json :=
  match Number.int64? n with
  | some w => .ok (.ofInt64 w)
  | none => .error (.overflow field)

/-- The value that takes the place of the current one. -/
def apply (op : Operator) (field : String) (current : Json) (text : String) :
    Except ActionError Json :=
  match op with
  | .set => setValue field current text
  | .increase => do
    let (a, b) ← operands field current text
    checked field (a.toInt + b.toInt)
  | .decrease => do
    let (a, b) ← operands field current text
    checked field (a.toInt - b.toInt)

end Operator

end Action

end DecisionTable
