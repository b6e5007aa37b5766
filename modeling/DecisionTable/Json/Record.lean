import DecisionTable.Json.Form
import DecisionTable.SortedMap

/-!
# Json — Records

Reading typed records from forms.  A record stands as an object, where unknown keys are passed
over unread and a known key may stand only once, or as an array of its fields in their order.
What may be left out depends on the field (`Presence`).
-/

namespace DecisionTable.Json

/-- When a field of a record may be left out. -/
inductive Presence where
  /-- never -/
  | required
  /-- from an object, and then it is null -/
  | optional
  /-- from an object, and from the end of an array -/
  | defaulted
  deriving DecidableEq

namespace Form

/-- The field of a name in an object; a key that stands twice is refused. -/
def field? (name : String) (fields : List (Option String × Form)) : Option (Option Form) :=
  match fields.filter fun e => e.1 == some name with
  | [] => some none
  | [(_, v)] => some (some v)
  | _ => none

/-- The fields of a record written as an object. -/
def objectFields? (fields : List (Option String × Form)) :
    List (String × Presence) → Option (List (Option Form))
  | [] => some []
  | (name, presence) :: rest => do
    let given ← field? name fields
    if given.isNone && presence == .required then none
    else
      let others ← objectFields? fields rest
      some (given :: others)

/-- The fields of a record written as an array. -/
def arrayFields? : List Form → List (String × Presence) → Option (List (Option Form))
  | [], [] => some []
  | _ :: _, [] => none
  | x :: xs, _ :: rest => (arrayFields? xs rest).map (some x :: ·)
  | [], (_, presence) :: rest =>
    if presence = .defaulted then (arrayFields? [] rest).map (none :: ·) else none

/-- The fields of a record in the order of its declaration, `none` for one left out. -/
def record? (shape : List (String × Presence)) : Form → Option (List (Option Form))
  | .object fields =>
    if fields.all fun e => e.1.isSome then objectFields? fields shape else none
  | .array items => arrayFields? items shape
  | _ => none

/-- Reads a text. -/
def text? : Form → Option String
  | .text s => s
  | _ => none

/-- Reads a list, item by item. -/
def list? {α : Type} (item? : Form → Option α) : Form → Option (List α)
  | .array items => items.mapM item?
  | _ => none

/-- Reads a pair of texts. -/
def textPair? : Form → Option (String × String)
  | .array [.text (some a), .text (some b)] => some (a, b)
  | _ => none

/-- Reads an object as a map; the last of two equal keys stays. -/
def map? {α : Type} (value? : Form → Option α) : Form → Option (SortedMap α)
  | .object fields => do
    let entries ← fields.mapM fun e => do
      let key ← e.1
      let v ← value? e.2
      some (key, v)
    some (.ofList entries)
  | _ => none

/-- Reads a value that may be null or left out. -/
def nullable? {α : Type} (value? : Form → Option α) : Option Form → Option (Option α)
  | none => some none
  | some .null => some none
  | some form => (value? form).map some

/-- Reads a value that has a default where it is left out. -/
def orDefault? {α : Type} (value? : Form → Option α) (default : α) : Option Form → Option α
  | none => some default
  | some form => value? form

/-- Reads one of several names: as a text, or as the only key of an object whose value is null. -/
def choice? {α : Type} (names : List (String × α)) : Form → Option α
  | .text (some name) => Entries.get? name names
  | .object [(some name, .null)] => Entries.get? name names
  | _ => none

end Form

end DecisionTable.Json
