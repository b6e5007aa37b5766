import DecisionTable.Coercion
import DecisionTable.Json.Reader
import DecisionTable.LoadError
import DecisionTable.RuleSet.Basic

/-!
# RuleSet — Document

The tabular document of a rule set: a JSON object with the section `Metadata` and the rows of a
table in the section `Rules`.  `RuleSet.ofDocument?` reads one and reports the first fault: the
metadata section comes before the rows, a row before the next one, and within a row its shape, its
index and its cells in the order of their keys.  A cell takes the text of its value.
-/

namespace DecisionTable

namespace Document

/-- The shape of a value that stands for a name or a number. -/
def scalarShape : String := "a string or number"

/-- An optional entry of the metadata section: a text that is not blank, trimmed, or the text of a
number or a truth value. -/
def scalar? (entries : List (String × Json)) (key : String) : Except LoadError (Option String) :=
  match Entries.get? key entries with
  | none | some .null => .ok none
  | some (.text s) => .ok (Text.nonBlank? s)
  | some (.number n) => .ok (some (Json.number n).render)
  | some (.bool b) => .ok (some (Json.bool b).render)
  | some _ => .error (.wrongShape ("Metadata." ++ key) scalarShape)

/-- An entry of the metadata section that may not be left out. -/
def requiredScalar? (entries : List (String × Json)) (key : String) : Except LoadError String := do
  match ← scalar? entries key with
  | some s => .ok s
  | none => .error (.missingField ("Metadata." ++ key))

/-- The entries of the metadata section that have a meaning of their own. -/
def knownKeys : List String :=
  ["Id", "ClassName", "Version", "ConditionsOperator", "GeneralAction"]

/-- All other entries of the metadata section, as texts. -/
def extra (entries : List (String × Json)) : SortedMap String :=
  .ofList ((entries.filter fun e => !knownKeys.contains e.1).map fun e => (e.1, e.2.asText))

/-- Reads the metadata section. -/
def metadata? : Json → Except LoadError Metadata
  | .object entries => do
    let id ← requiredScalar? entries "Id"
    let phrase ← requiredScalar? entries "ConditionsOperator"
    let combinator ← match Combinator.ofPhrase? phrase with
      | some c => .ok c
      | none => .error (.unknownCombinator phrase)
    let className ← scalar? entries "ClassName"
    let version ← scalar? entries "Version"
    let generalAction ← scalar? entries "GeneralAction"
    .ok { id, className, version, combinator, generalAction, extra := extra entries }
  | _ => .error (.wrongShape "Metadata" "an object")

/-- How faults name a row, counted from zero. -/
def rowName (position : Nat) : String :=
  "Rules[" ++ Number.decimal position ++ "]"

/-- Reads the index of a row. -/
def index? (position : Nat) (row : List (String × Json)) : Except LoadError String :=
  match Entries.get? "Index" row with
  | some (.text s) => .ok (Text.trim s)
  | some (.number n) => .ok (Json.number n).render
  | some .null | none => .error (.missingField (rowName position ++ ".Index"))
  | some _ => .error (.wrongShape (rowName position ++ ".Index") scalarShape)

/-- The two kinds of columns. -/
inductive ColumnKind where
  | condition
  | action
  deriving DecidableEq

/-- The kind of column that a key starts, if it starts one. -/
def columnKind? (key : String) : Option ColumnKind :=
  if Text.startsWith key "Condition_" then some .condition
  else if Text.startsWith key "Action_" then some .action
  else none

/-- Reads the cells of a row from left to right; other keys are passed over. -/
def cells? (position : Nat) : List (String × Json) → Except LoadError (List Cell × List Cell)
  | [] => .ok ([], [])
  | (key, v) :: es =>
    match columnKind? key, v with
    | none, _ => cells? position es
    | some _, .array _ | some _, .object _ =>
      .error (.wrongShape (rowName position ++ "." ++ key) "a string")
    | some .condition, v => do
      let (conditions, actions) ← cells? position es
      .ok (⟨key, v.asText⟩ :: conditions, actions)
    | some .action, v => do
      let (conditions, actions) ← cells? position es
      .ok (conditions, ⟨key, v.asText⟩ :: actions)

/-- Reads a row. -/
def row? (position : Nat) : Json → Except LoadError Rule
  | .object row => do
    let index ← index? position row
    let (conditions, actions) ← cells? position row
    .ok { index, conditions, actions }
  | _ => .error (.wrongShape (rowName position) "an object")

/-- Reads rows, the first of them at a position. -/
def rows? (position : Nat) : List Json → Except LoadError (List Rule)
  | [] => .ok []
  | v :: vs => do
    let row ← row? position v
    let rows ← rows? (position + 1) vs
    .ok (row :: rows)

/-- Reads the section of the rows. -/
def rules? (document : List (String × Json)) : Except LoadError (List Rule) :=
  match Entries.get? "Rules" document with
  | none => .error (.missingSection "Rules")
  | some (.array items) => rows? 0 items
  | some _ => .error (.wrongShape "Rules" "an array")

end Document

namespace RuleSet

/-- Reads the document of a rule set. -/
def ofDocument? : Json → Except LoadError RuleSet
  | .object document => do
    let metadata ← match Entries.get? "Metadata" document with
      | some v => Document.metadata? v
      | none => .error (.missingSection "Metadata")
    let rows ← Document.rules? document
    .ok (.ofRows metadata (.ofRows rows) rows)
  | _ => .error (.wrongShape "document" "an object")

/-- Reads a document from JSON text. -/
def parse? (s : String) : Except LoadError RuleSet :=
  match Json.parse? s with
  | some v => ofDocument? v
  | none => .error .invalidJson

/-- Reads a document from JSON text in UTF-8. -/
def parseBytes? (bs : List UInt8) : Except LoadError RuleSet :=
  match Json.parseBytes? bs with
  | some v => ofDocument? v
  | none => .error .invalidJson

end RuleSet

end DecisionTable
