import DecisionTable.Json.Basic
import DecisionTable.Number.Numeral
import DecisionTable.Text.Blank
import DecisionTable.Text.Match

/-!
# Coercion

How texts and values of facts read as a word, a number, a truth value or a text.  Texts are read
without the blanks at their ends, and a value that does not read as asked gives `none`; every
value has a text.
-/

namespace DecisionTable

namespace Text

/-- Reads a signed 64-bit word. -/
def int64? (s : String) : Option Int64 :=
  Number.int64OfText? (trim s)

/-- Reads a finite binary64 number. -/
def binary64? (s : String) : Option Number.Binary64 :=
  Number.binary64OfText? (trim s)

/-- Reads `true` or `false` in any ASCII case. -/
def bool? (s : String) : Option Bool :=
  if sameIgnoringCase (trim s) "true" then some true
  else if sameIgnoringCase (trim s) "false" then some false
  else none

end Text

/-- The binary64 number nearest to a word. -/
def Number.Binary64.ofInt64 (w : Int64) : Number.Binary64 :=
  .ofInt w.toInt (by have := w.le_toInt; have := w.toInt_lt; omega)

namespace Json

/-- A number of the range of words, or a text that spells one. -/
def asInt64? : Json → Option Int64
  | .number (.integer n) => n.toInt64?
  | .text s => Text.int64? s
  | _ => none

/-- A number, or a text that spells one. -/
def asBinary64? : Json → Option DecisionTable.Number.Binary64
  | .number n => some n.toBinary64
  | .text s => Text.binary64? s
  | _ => none

/-- A truth value, or a text that spells one. -/
def asBool? : Json → Option Bool
  | .bool b => some b
  | .text s => Text.bool? s
  | _ => none

/-- The text of a value: texts as they are, nothing for null, JSON text for all others. -/
def asText : Json → String
  | .text s => s
  | .null => ""
  | v => v.render

end Json

end DecisionTable
