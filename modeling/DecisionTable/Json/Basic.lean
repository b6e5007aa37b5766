import DecisionTable.Entries
import DecisionTable.Number.Layout

/-!
# Json — Values

JSON values with their order of fields.  Numbers are integers of a signed or an unsigned 64-bit
word, or binary64 numbers; an integer never equals a binary64 number.  `Json.same` is equality of
values: the two zeros are the same, and the order of an object's fields does not count.
-/

namespace DecisionTable

/-- An integer that fits a signed or an unsigned 64-bit word. -/
structure Json.Integer where
  val : Int
  ge : -0x8000000000000000 ≤ val
  lt : val < 0x10000000000000000
  deriving DecidableEq

/-- An integer or a binary64 number. -/
inductive Json.Number where
  | integer (n : Json.Integer)
  | real (x : Number.Binary64)
  deriving DecidableEq

/-- A JSON value; the fields of an object keep their order. -/
inductive Json where
  | null
  | bool (b : Bool)
  | number (n : Json.Number)
  | text (s : String)
  | array (items : List Json)
  | object (fields : List (String × Json))

namespace Json

namespace Integer

theorem natAbs_lt (n : Integer) : n.val.natAbs < 1 <<< 65 := by
  have := n.ge
  have := n.lt
  omega

/-- The integer of a signed word. -/
def ofInt64 (w : Int64) : Integer :=
  ⟨w.toInt, w.le_toInt, Int.lt_trans w.toInt_lt (by decide)⟩

/-- The signed word, for an integer in its range. -/
def toInt64? (n : Integer) : Option Int64 :=
  Number.int64? n.val

theorem toInt64?_ofInt64 (w : Int64) : (ofInt64 w).toInt64? = some w :=
  Number.int64?_eq_some_iff.2 rfl

theorem toInt64?_eq_some_iff {n : Integer} {w : Int64} : n.toInt64? = some w ↔ n = ofInt64 w := by
  rw [toInt64?, Number.int64?_eq_some_iff]
  constructor
  · intro h
    cases n
    simp only [ofInt64, h]
  · rintro rfl
    rfl

end Integer

namespace Number

/-- The nearest binary64 number. -/
def toBinary64 : Number → DecisionTable.Number.Binary64
  | .integer n => .ofInt n.val n.natAbs_lt
  | .real x => x

/-- Equality of numbers by value, within one of the two kinds. -/
def same : Number → Number → Bool
  | .integer m, .integer n => m.val == n.val
  | .real x, .real y => x.signedUnits == y.signedUnits
  | _, _ => false

/-- The decimal text of a number. -/
def chars : Number → List Char
  | .integer n => DecisionTable.Number.signedDigits n.val
  | .real x => x.text

@[simp] theorem same_refl (n : Number) : n.same n = true := by
  cases n <;> simp [same]

end Number

mutual

/-- Equality of values. -/
def same : Json → Json → Bool
  | .null, .null => true
  | .bool a, .bool b => a == b
  | .number m, .number n => m.same n
  | .text s, .text t => s == t
  | .array xs, .array ys => sameItems xs ys
  | .object es, .object fs => es.length == fs.length && sameFields es fs
  | _, _ => false

/-- Items are equal place by place. -/
def sameItems : List Json → List Json → Bool
  | [], [] => true
  | x :: xs, y :: ys => x.same y && sameItems xs ys
  | _, _ => false

/-- Every field of the first object is a field of the second with an equal value. -/
def sameFields : List (String × Json) → List (String × Json) → Bool
  | [], _ => true
  | (name, v) :: es, fs =>
    (match Entries.get? name fs with
      | some w => v.same w
      | none => false) && sameFields es fs

end

/-- How a character stands in a JSON string. -/
def escape (c : Char) : List Char :=
  if c = '"' then ['\\', '"']
  else if c = '\\' then ['\\', '\\']
  else if c = '\x08' then ['\\', 'b']
  else if c = '\x0c' then ['\\', 'f']
  else if c = '\n' then ['\\', 'n']
  else if c = '\r' then ['\\', 'r']
  else if c = '\t' then ['\\', 't']
  else if c.toNat < 0x20 then
    ['\\', 'u', '0', '0', Nat.digitChar (c.toNat / 16), Nat.digitChar (c.toNat % 16)]
  else [c]

/-- A text in quotes: quotes, backslashes and control characters are escaped, nothing else. -/
def quoted (s : String) : List Char :=
  '"' :: (s.toList.flatMap escape ++ ['"'])

mutual

/-- The compact JSON text of a value. -/
def chars : Json → List Char
  | .null => ['n', 'u', 'l', 'l']
  | .bool b => if b then ['t', 'r', 'u', 'e'] else ['f', 'a', 'l', 's', 'e']
  | .number n => n.chars
  | .text s => quoted s
  | .array xs => '[' :: (itemChars xs ++ [']'])
  | .object es => '\x7b' :: (fieldChars es ++ ['\x7d'])

/-- Items, with commas between them. -/
def itemChars : List Json → List Char
  | [] => []
  | [x] => x.chars
  | x :: xs => x.chars ++ ',' :: itemChars xs

/-- Fields, with commas between them. -/
def fieldChars : List (String × Json) → List Char
  | [] => []
  | [(name, v)] => quoted name ++ ':' :: v.chars
  | (name, v) :: es => quoted name ++ ':' :: (v.chars ++ ',' :: fieldChars es)

end

/-- The compact JSON text of a value. -/
def render (v : Json) : String :=
  String.ofList v.chars

end Json

end DecisionTable
