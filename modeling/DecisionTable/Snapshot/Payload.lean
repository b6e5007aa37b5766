import DecisionTable.RuleSet.Basic
import DecisionTable.Snapshot.Varint
import DecisionTable.Text.Utf8

/-!
# Snapshot — Payload

The parts of a rule set in bytes, one after the other: numbers as varints, texts and lists with
their lengths in front, an optional part behind a byte that says whether it is there.  Each part
has a writer and a reader (`Decoder`), which leaves over what follows the part.  Maps are written
in the order of their keys and read in any order, the last of equal keys staying.
-/

namespace DecisionTable

/-- Reads a value off the front of some bytes. -/
abbrev Decoder (α : Type) := List UInt8 → Option (α × List UInt8)

namespace Decoder

variable {α β : Type}

/-- Reads one part, then what depends on it. -/
def andThen (d : Decoder α) (next : α → Decoder β) : Decoder β :=
  fun bs => (d bs).bind fun p => next p.1 p.2

/-- Reads nothing. -/
def done (a : α) : Decoder α :=
  fun bs => some (a, bs)

instance : Monad Decoder where
  pure := done
  bind := andThen

/-- Reads values one after the other. -/
def repeated (d : Decoder α) : Nat → Decoder (List α)
  | 0 => done []
  | n + 1 => do
    let a ← d
    let as ← repeated d n
    done (a :: as)

end Decoder

namespace Payload

variable {α : Type}

/-- Writes a count. -/
def putNat (n : Nat) : List UInt8 :=
  Varint.encode n

/-- Reads a count. -/
def getNat : Decoder Nat :=
  Varint.decode? 8

/-- Writes a text. -/
def putText (s : String) : List UInt8 :=
  putNat (Text.Utf8.encode s).length ++ Text.Utf8.encode s

/-- Reads a text. -/
def getText : Decoder String := do
  let length ← getNat
  let bytes ← takeBytes? length
  fun rest => (Text.Utf8.decode? bytes).map fun s => (s, rest)

/-- Writes a list. -/
def putList (put : α → List UInt8) (as : List α) : List UInt8 :=
  putNat as.length ++ as.flatMap put

/-- Reads a list. -/
def getList (get : Decoder α) : Decoder (List α) := do
  let length ← getNat
  get.repeated length

/-- Writes an optional text. -/
def putOption : Option String → List UInt8
  | none => [0]
  | some s => 1 :: putText s

/-- Reads an optional text. -/
def getOption : Decoder (Option String)
  | 0 :: bs => some (none, bs)
  | 1 :: bs => (getText bs).map fun p => (some p.1, p.2)
  | _ => none

/-- Writes a map. -/
def putMap (put : α → List UInt8) (m : SortedMap α) : List UInt8 :=
  putList (fun e => putText e.1 ++ put e.2) m.entries

/-- Reads a map. -/
def getMap (get : Decoder α) : Decoder (SortedMap α) := do
  let entries ← getList do
    let key ← getText
    let value ← get
    return (key, value)
  return .ofList entries

/-- Writes a combinator. -/
def putCombinator : Combinator → List UInt8
  | .all => putNat 0
  | .any => putNat 1

/-- Reads a combinator; its number has at most four bytes. -/
def getCombinator : Decoder Combinator := do
  match ← Varint.decode? 4 with
  | 0 => return .all
  | 1 => return .any
  | _ => fun _ => none

/-- Writes metadata. -/
def putMetadata (m : Metadata) : List UInt8 :=
  putText m.id ++ putOption m.className ++ putOption m.version ++ putCombinator m.combinator
    ++ putOption m.generalAction ++ putMap putText m.extra

/-- Reads metadata. -/
def getMetadata : Decoder Metadata := do
  let id ← getText
  let className ← getOption
  let version ← getOption
  let combinator ← getCombinator
  let generalAction ← getOption
  let extra ← getMap getText
  return { id, className, version, combinator, generalAction, extra }

/-- Writes a cell. -/
def putCell (c : Cell) : List UInt8 :=
  putText c.column ++ putText c.text

/-- Reads a cell. -/
def getCell : Decoder Cell := do
  let column ← getText
  let text ← getText
  return { column, text }

/-- Writes a rule. -/
def putRule (r : Rule) : List UInt8 :=
  putText r.index ++ putList putCell r.conditions ++ putList putCell r.actions

/-- Reads a rule. -/
def getRule : Decoder Rule := do
  let index ← getText
  let conditions ← getList getCell
  let actions ← getList getCell
  return { index, conditions, actions }

/-- Writes a column definition. -/
def putColumn (d : Column) : List UInt8 :=
  putOption d.fieldName ++ putOption d.operator

/-- Reads a column definition. -/
def getColumn : Decoder Column := do
  let fieldName ← getOption
  let operator ← getOption
  return { fieldName, operator }

end Payload

/-- The parts of a rule set behind the counts of its rules and columns. -/
structure Payload where
  ruleCount : Nat
  columnCount : Nat
  ruleSet : RuleSet

namespace Payload

/-- The parts of a rule set. -/
def ofRuleSet (rs : RuleSet) : Payload :=
  ⟨rs.rules.length, rs.columns.size, rs⟩

/-- Writes a payload. -/
def encode (p : Payload) : List UInt8 :=
  putNat p.ruleCount ++ putNat p.columnCount ++ putMetadata p.ruleSet.metadata
    ++ putList putRule p.ruleSet.rules ++ putMap putColumn p.ruleSet.columns.columns

/-- Reads a payload off the front of some bytes. -/
def decoder : Decoder Payload := do
  let ruleCount ← getNat
  let columnCount ← getNat
  let metadata ← getMetadata
  let rules ← getList getRule
  let columns ← getMap getColumn
  return { ruleCount, columnCount, ruleSet := { metadata, rules, columns := ⟨columns⟩ } }

end Payload

end DecisionTable
