import DecisionTable.Json.Reader
import DecisionTable.LoadError

/-!
# Fact — Basic

The object that rules look at and change: named values in the order of their arrival, each name
once.  A value under a known name keeps the place of the name, and a new name goes to the end.
-/

namespace DecisionTable

/-- Named values, each name once. -/
structure Fact where
  fields : List (String × Json)
  distinct : (Entries.names fields).Nodup

namespace Fact

/-- The fact without fields. -/
def empty : Fact :=
  ⟨[], List.nodup_nil⟩

/-- The value of a field. -/
def get? (f : Fact) (field : String) : Option Json :=
  Entries.get? field f.fields

/-- Whether there is a field of the name, be its value null. -/
def contains (f : Fact) (field : String) : Bool :=
  (f.get? field).isSome

/-- Writes a field, in its place or at the end. -/
def insert (f : Fact) (field : String) (value : Json) : Fact :=
  ⟨Entries.put field value f.fields, Entries.nodup_names_put field value f.distinct⟩

/-- The names of the fields in order. -/
def names (f : Fact) : List String :=
  Entries.names f.fields

/-- The number of fields. -/
def size (f : Fact) : Nat :=
  f.fields.length

/-- A list of fields as a fact: a repeated name keeps its first place and its last value. -/
def ofFields (fields : List (String × Json)) : Fact :=
  ⟨Entries.ofList fields, Entries.nodup_names_ofList fields⟩

/-- The fact as a JSON object. -/
def toJson (f : Fact) : Json :=
  .object f.fields

/-- An object as a fact. -/
def ofJson? : Json → Except LoadError Fact
  | .object fields => .ok (ofFields fields)
  | _ => .error (.wrongShape "fact" "object")

/-- Reads a fact from JSON text. -/
def parse? (s : String) : Except LoadError Fact :=
  match Json.parse? s with
  | some v => ofJson? v
  | none => .error .invalidJson

/-- The compact JSON text. -/
def render (f : Fact) : String :=
  f.toJson.render

/-- Equality of facts by value; the order of the fields does not count. -/
def same (f g : Fact) : Bool :=
  f.toJson.same g.toJson

@[simp] theorem get?_insert_self (f : Fact) (field : String) (value : Json) :
    (f.insert field value).get? field = some value :=
  Entries.get?_put_self field value f.fields

theorem get?_insert_of_ne {field other : String} (h : field ≠ other) (f : Fact) (value : Json) :
    (f.insert field value).get? other = f.get? other :=
  Entries.get?_put_of_ne h value f.fields

/-- Overwriting a field keeps the names and their order. -/
theorem names_insert_of_mem {f : Fact} {field : String} (h : field ∈ f.names) (value : Json) :
    (f.insert field value).names = f.names :=
  Entries.names_put_of_mem value h

end Fact

end DecisionTable
