import DecisionTable.Json.Basic
import DecisionTable.Json.Form
import DecisionTable.Text.Utf8

/-!
# Json — Reading values

`Json.parse?` reads one value from a text, strictly: every text must be readable, a number must
not be too large, and at most 127 arrays and objects may be nested.  A repeated key keeps its first
place and its last value.
-/

namespace DecisionTable.Json

mutual

/-- The value of a form with at most `depth` arrays and objects inside each other. -/
def Form.value? (depth : Nat) : Form → Option Json
  | .null => some .null
  | .bool b => some (.bool b)
  | .number n => n.value?.map .number
  | .text s => s.map .text
  | .array xs =>
    match depth with
    | 0 => none
    | depth + 1 => (Form.items? depth xs).map .array
  | .object es =>
    match depth with
    | 0 => none
    | depth + 1 => (Form.fields? depth es).map fun fs => .object (Entries.ofList fs)

/-- The values of items. -/
def Form.items? (depth : Nat) : List Form → Option (List Json)
  | [] => some []
  | x :: xs => do
    let v ← Form.value? depth x
    let vs ← Form.items? depth xs
    some (v :: vs)

/-- The names and values of fields. -/
def Form.fields? (depth : Nat) : List (Option String × Form) → Option (List (String × Json))
  | [] => some []
  | (key, x) :: es => do
    let name ← key
    let v ← Form.value? depth x
    let fs ← Form.fields? depth es
    some ((name, v) :: fs)

end

/-- The number of arrays and objects that may be nested. -/
def maxDepth : Nat := 127

/-- Reads one value from a text. -/
def parse? (s : String) : Option Json :=
  (Form.parse? s).bind (Form.value? maxDepth)

/-- Reads one value from a text in UTF-8. -/
def parseBytes? (bs : List UInt8) : Option Json :=
  (Text.Utf8.decode? bs).bind parse?

end DecisionTable.Json
