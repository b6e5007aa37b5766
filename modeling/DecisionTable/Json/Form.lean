import DecisionTable.Json.Token

/-!
# Json — Forms

A JSON text as it is written: repeated keys, numerals and unreadable texts are all still there.
`Form.ofTokens?` reads the tokens of one whole text with a stack of the arrays and objects that are
open, so its depth is not limited.
-/

namespace DecisionTable.Json

/-- A JSON text as written; a text or key `none` has an unpaired surrogate. -/
inductive Form where
  | null
  | bool (b : Bool)
  | number (n : WrittenNumber)
  | text (s : Option String)
  | array (items : List Form)
  | object (fields : List (Option String × Form))

namespace Form

/-- An array or object that is still open: what it holds so far, last first, and for an object
the key that waits for its value. -/
inductive Frame where
  | array (done : List Form)
  | object (done : List (Option String × Form)) (key : Option String)

mutual

/-- Reads on where a value has to start. -/
def start? (frames : List Frame) : List Token → Option Form
  | .null :: ts => finish? frames .null ts
  | .bool b :: ts => finish? frames (.bool b) ts
  | .number n :: ts => finish? frames (.number n) ts
  | .text s :: ts => finish? frames (.text s) ts
  | .openArray :: .closeArray :: ts => finish? frames (.array []) ts
  | .openArray :: ts => start? (.array [] :: frames) ts
  | .openObject :: .closeObject :: ts => finish? frames (.object []) ts
  | .openObject :: .text key :: .colon :: ts => start? (.object [] key :: frames) ts
  | _ => none

/-- Reads on where a value has just ended. -/
def finish? (frames : List Frame) (v : Form) (tokens : List Token) : Option Form :=
  match frames, tokens with
  | [], [] => some v
  | .array done :: frames, .comma :: ts => start? (.array (v :: done) :: frames) ts
  | .array done :: frames, .closeArray :: ts => finish? frames (.array (v :: done).reverse) ts
  | .object done key :: frames, .comma :: .text next :: .colon :: ts =>
    start? (.object ((key, v) :: done) next :: frames) ts
  | .object done key :: frames, .closeObject :: ts =>
    finish? frames (.object ((key, v) :: done).reverse) ts
  | _, _ => none
termination_by structural tokens

end

/-- Reads a whole text, given by its tokens. -/
def ofTokens? (ts : List Token) : Option Form :=
  start? [] ts

/-- Reads a whole text. -/
def parse? (s : String) : Option Form :=
  (tokens? s.toList).bind ofTokens?

end Form

end DecisionTable.Json
