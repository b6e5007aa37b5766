import DecisionTable.RuleSet.Document

/-!
# Document — Checks

Reading a document is checking it, part by part in a fixed order, and taking its table.  The two are
stated apart: `Document.checks` lists everything that is asked of a document, each check with the
fault that it leads to, and `Document.tableOf` takes the table from any value at all.

* `Check.guard`: a value, or the fault of the first check that fails.  What is guarded by some
  checks and then by others is guarded by all of them (`Check.guard_bind`).
* `Document.cells?_eq_guard`, `Document.rows?_eq_guard`: the cells of a row, and the rows.
* `RuleSet.ofDocument?_eq_guard`: a document is read as the rule set of its table, guarded by its
  checks; so what is accepted gives this rule set (`RuleSet.eq_tableOf`).
-/

namespace DecisionTable

/-! ### Checks -/

/-- Something that is asked of a document, and the fault that is reported if it is not so. -/
structure Check where
  holds : Bool
  fault : LoadError

namespace Check

variable {α β : Type}

/-- The value, or the fault of the first check that fails. -/
def guard (a : α) (cs : List Check) : Except LoadError α :=
  match cs.find? fun c => !c.holds with
  | none => .ok a
  | some c => .error c.fault

@[simp] theorem guard_nil (a : α) : guard a [] = .ok a := rfl

theorem guard_cons (a : α) (c : Check) (cs : List Check) :
    guard a (c :: cs) = if c.holds then guard a cs else .error c.fault := by
  cases hc : c.holds <;> simp [guard, hc]

theorem guard_cons_of_holds {a : α} {c : Check} {cs : List Check} (h : c.holds = true) :
    guard a (c :: cs) = guard a cs := by
  rw [guard_cons, if_pos h]

theorem guard_bind {a : α} {b : β} {cs cs' : List Check} {f : α → Except LoadError β}
    (h : f a = guard b cs') : (guard a cs >>= f) = guard b (cs ++ cs') := by
  rw [guard, guard, List.find?_append]
  cases cs.find? fun c => !c.holds with
  | none => exact h
  | some c => rfl

/-- **The value** is given exactly if every check passes. -/
theorem guard_eq_ok_iff {a a' : α} {cs : List Check} :
    guard a cs = .ok a' ↔ (∀ c ∈ cs, c.holds = true) ∧ a = a' := by
  have hfind : guard a cs = .ok a' ↔ cs.find? (fun c => !c.holds) = none ∧ a = a' := by
    rw [guard]
    cases cs.find? fun c => !c.holds <;> simp
  simp only [hfind, List.find?_eq_none, Bool.not_eq_true', Bool.not_eq_false]

/-- **A fault** is that of a check that fails, behind checks that pass. -/
theorem guard_eq_error_iff {a : α} {cs : List Check} {e : LoadError} :
    guard a cs = .error e ↔ ∃ before c after, cs = before ++ c :: after ∧
      (∀ b ∈ before, b.holds = true) ∧ c.holds = false ∧ c.fault = e := by
  have hfind : guard a cs = .error e ↔
      ∃ c, cs.find? (fun c => !c.holds) = some c ∧ c.fault = e := by
    rw [guard]
    cases cs.find? fun c => !c.holds <;> simp
  simp only [hfind, List.find?_eq_some_iff_append, Bool.not_eq_true', Bool.not_not]
  constructor
  · rintro ⟨c, ⟨hc, before, after, rfl, hbefore⟩, rfl⟩
    exact ⟨before, c, after, rfl, hbefore, hc, rfl⟩
  · rintro ⟨before, c, after, rfl, hbefore, hc, rfl⟩
    exact ⟨c, ⟨hc, before, after, rfl, hbefore⟩, rfl⟩

/-- The last part completes the value. -/
theorem guard_last (a : α) (cs : List Check) (f : α → β) :
    (guard a cs >>= fun a => .ok (f a)) = guard (f a) cs := by
  rw [guard, guard]
  cases cs.find? fun c => !c.holds <;> rfl

end Check

/-! ### Values -/

namespace Json

/-- The fields of an object. -/
def fields : Json → List (String × Json)
  | .object es => es
  | _ => []

/-- The items of an array. -/
def items : Json → List Json
  | .array vs => vs
  | _ => []

def isNull : Json → Bool
  | .null => true
  | _ => false

def isArray : Json → Bool
  | .array _ => true
  | _ => false

def isObject : Json → Bool
  | .object _ => true
  | _ => false

/-- Neither an array nor an object. -/
def isPlain : Json → Bool
  | .array _ | .object _ => false
  | _ => true

/-- A text or a number. -/
def isIndex : Json → Bool
  | .text _ | .number _ => true
  | _ => false

end Json

namespace Document

open Check

/-! ### What a document holds -/

/-- The value under a key, null if there is none. -/
def valueAt (es : List (String × Json)) (key : String) : Json :=
  (Entries.get? key es).getD .null

/-- The text of an entry of the metadata section. -/
def scalarText? : Json → Option String
  | .text s => Text.nonBlank? s
  | .number n => some (Json.number n).render
  | .bool b => some (Json.bool b).render
  | _ => none

/-- The text of an entry of the metadata section that may not be left out. -/
def requiredText (es : List (String × Json)) (key : String) : String :=
  (scalarText? (valueAt es key)).getD ""

/-- The metadata of a section. -/
def metadataOf (v : Json) : Metadata where
  id := requiredText v.fields "Id"
  className := scalarText? (valueAt v.fields "ClassName")
  version := scalarText? (valueAt v.fields "Version")
  combinator := (Combinator.ofPhrase? (requiredText v.fields "ConditionsOperator")).getD .all
  generalAction := scalarText? (valueAt v.fields "GeneralAction")
  extra := extra v.fields

/-- The index of a row. -/
def indexText : Json → String
  | .text s => Text.trim s
  | v => v.render

/-- The cells of a row under the columns of a kind, in the order of their keys. -/
def cellsOf (kind : ColumnKind) (row : List (String × Json)) : List Cell :=
  (row.filter fun e => columnKind? e.1 == some kind).map fun e => ⟨e.1, e.2.asText⟩

/-- The row of a table. -/
def rowOf (v : Json) : Rule where
  index := indexText (valueAt v.fields "Index")
  conditions := cellsOf .condition v.fields
  actions := cellsOf .action v.fields

/-- The items of the section of the rows. -/
def rowItems (d : Json) : List Json :=
  (valueAt d.fields "Rules").items

/-- The rows of a document. -/
def rowsOf (d : Json) : List Rule :=
  (rowItems d).map rowOf

/-- The rule set of the table that a document holds. -/
def tableOf (d : Json) : RuleSet :=
  .ofRows (metadataOf (valueAt d.fields "Metadata")) (.ofRows (rowsOf d)) (rowsOf d)

/-! ### What is asked of a document -/

/-- An entry of the metadata section is no array and no object. -/
def shapeCheck (es : List (String × Json)) (key : String) : Check :=
  ⟨(valueAt es key).isPlain, .wrongShape ("Metadata." ++ key) scalarShape⟩

/-- An entry of the metadata section has a text. -/
def presenceCheck (es : List (String × Json)) (key : String) : Check :=
  ⟨(scalarText? (valueAt es key)).isSome, .missingField ("Metadata." ++ key)⟩

/-- The metadata section names a combinator. -/
def combinatorCheck (es : List (String × Json)) : Check :=
  ⟨(Combinator.ofPhrase? (requiredText es "ConditionsOperator")).isSome,
    .unknownCombinator (requiredText es "ConditionsOperator")⟩

/-- What is asked of the entries of the metadata section. -/
def entryChecks (es : List (String × Json)) : List Check :=
  [shapeCheck es "Id", presenceCheck es "Id"] ++
  [shapeCheck es "ConditionsOperator", presenceCheck es "ConditionsOperator"] ++
  [combinatorCheck es] ++
  [shapeCheck es "ClassName"] ++ [shapeCheck es "Version"] ++ [shapeCheck es "GeneralAction"]

/-- What is asked of the metadata section. -/
def metadataChecks (v : Json) : List Check :=
  ⟨v.isObject, .wrongShape "Metadata" "an object"⟩ :: entryChecks v.fields

/-- What is asked of the index of a row. -/
def indexChecks (position : Nat) (row : List (String × Json)) : List Check :=
  [⟨!(valueAt row "Index").isNull, .missingField (rowName position ++ ".Index")⟩,
    ⟨(valueAt row "Index").isIndex, .wrongShape (rowName position ++ ".Index") scalarShape⟩]

/-- What is asked of the cells of a row. -/
def cellChecks (position : Nat) (row : List (String × Json)) : List Check :=
  (row.filter fun e => (columnKind? e.1).isSome).map fun e =>
    ⟨e.2.isPlain, .wrongShape (rowName position ++ "." ++ e.1) "a string"⟩

/-- What is asked of a row. -/
def rowChecks (position : Nat) (v : Json) : List Check :=
  ⟨v.isObject, .wrongShape (rowName position) "an object"⟩ ::
    (indexChecks position v.fields ++ cellChecks position v.fields)

/-- What is asked of rows, the first of them at a position. -/
def rowsChecks (position : Nat) : List Json → List Check
  | [] => []
  | v :: vs => rowChecks position v ++ rowsChecks (position + 1) vs

/-- What is asked of the section of the rows. -/
def rulesChecks (document : List (String × Json)) : List Check :=
  ⟨(Entries.get? "Rules" document).isSome, .missingSection "Rules"⟩ ::
  ⟨(valueAt document "Rules").isArray, .wrongShape "Rules" "an array"⟩ ::
  rowsChecks 0 (valueAt document "Rules").items

/-- What is asked of a document, in the order in which it is asked. -/
def checks (d : Json) : List Check :=
  ⟨d.isObject, .wrongShape "document" "an object"⟩ ::
  ⟨(Entries.get? "Metadata" d.fields).isSome, .missingSection "Metadata"⟩ ::
  (metadataChecks (valueAt d.fields "Metadata") ++ rulesChecks d.fields)

/-! ### The metadata section -/

theorem scalar?_eq_guard (es : List (String × Json)) (key : String) :
    scalar? es key = guard (scalarText? (valueAt es key)) [shapeCheck es key] := by
  rw [scalar?, shapeCheck, valueAt]
  cases Entries.get? key es with
  | none => rfl
  | some v => cases v <;> rfl

theorem requiredScalar?_eq_guard (es : List (String × Json)) (key : String) :
    requiredScalar? es key =
      guard (requiredText es key) [shapeCheck es key, presenceCheck es key] := by
  rw [requiredScalar?, scalar?_eq_guard]
  change _ = guard _ ([shapeCheck es key] ++ [presenceCheck es key])
  refine guard_bind ?_
  rw [requiredText, presenceCheck]
  cases scalarText? (valueAt es key) <;> rfl

theorem metadata?_eq_guard (v : Json) : metadata? v = guard (metadataOf v) (metadataChecks v) := by
  cases v with
  | object es =>
      rw [metadataChecks, guard_cons, metadata?]
      simp only [scalar?_eq_guard, requiredScalar?_eq_guard, entryChecks, List.append_assoc]
      refine guard_bind (guard_bind ?_)
      -- the choice of the combinator has the rest of the reading in its arms
      rw [List.singleton_append, combinatorCheck, metadataOf, Json.fields]
      cases Combinator.ofPhrase? (requiredText es "ConditionsOperator") with
      | none => rfl
      | some c =>
          refine Eq.trans ?_ (guard_cons_of_holds rfl).symm
          change (guard _ [shapeCheck es "ClassName"] >>= _) = _
          exact guard_bind (guard_bind (guard_last _ _ _))
  | _ => rfl

/-! ### Rows -/

theorem index?_eq_guard (position : Nat) (row : List (String × Json)) :
    index? position row = guard (indexText (valueAt row "Index")) (indexChecks position row) := by
  rw [index?, indexChecks, valueAt]
  cases Entries.get? "Index" row with
  | none => rfl
  | some v => cases v <;> rfl

/-- The cells of a row with one more in front. -/
theorem cells?_cons (position : Nat) (key : String) (v : Json) (es : List (String × Json)) :
    cells? position ((key, v) :: es) =
      match columnKind? key with
      | none => cells? position es
      | some kind => if v.isPlain then
          cells? position es >>= fun cells => .ok
            (if kind = .condition then (⟨key, v.asText⟩ :: cells.1, cells.2)
              else (cells.1, ⟨key, v.asText⟩ :: cells.2))
        else .error (.wrongShape (rowName position ++ "." ++ key) "a string") := by
  rw [cells?.eq_def]
  dsimp only
  cases columnKind? key with
  | none => rfl
  | some kind => cases kind <;> cases v <;> rfl

theorem cells?_eq_guard (position : Nat) (row : List (String × Json)) :
    cells? position row =
      guard (cellsOf .condition row, cellsOf .action row) (cellChecks position row) := by
  induction row with
  | nil => rfl
  | cons e es ih =>
      obtain ⟨key, v⟩ := e
      rw [cells?_cons, ih, cellChecks, cellsOf, cellsOf]
      cases hk : columnKind? key with
      | none => simp [cellChecks, cellsOf, hk]
      | some kind =>
          cases kind <;> simp [hk, guard_cons, guard_last, cellChecks, cellsOf]

theorem row?_eq_guard (position : Nat) (v : Json) :
    row? position v = guard (rowOf v) (rowChecks position v) := by
  cases v with
  | object es =>
      rw [rowChecks, guard_cons, row?, index?_eq_guard]
      refine guard_bind ?_
      rw [cells?_eq_guard]
      exact guard_last _ _ _
  | _ => rfl

theorem rows?_eq_guard (position : Nat) (vs : List Json) :
    rows? position vs = guard (vs.map rowOf) (rowsChecks position vs) := by
  induction vs generalizing position with
  | nil => rfl
  | cons v vs ih =>
      rw [rows?, row?_eq_guard, rowsChecks]
      refine guard_bind ?_
      rw [ih]
      exact guard_last _ _ _

theorem rules?_eq_guard (document : List (String × Json)) :
    rules? document =
      guard ((valueAt document "Rules").items.map rowOf) (rulesChecks document) := by
  rw [rules?, rulesChecks, valueAt, guard_cons, guard_cons]
  cases Entries.get? "Rules" document with
  | none => rfl
  | some v =>
      cases v with
      | array items => exact rows?_eq_guard 0 items
      | _ => rfl

end Document

/-! ### Documents -/

/-- **A document is read** as the rule set of its table, guarded by its checks. -/
theorem RuleSet.ofDocument?_eq_guard (d : Json) :
    RuleSet.ofDocument? d = Check.guard (Document.tableOf d) (Document.checks d) := by
  cases d with
  | object document =>
      rw [ofDocument?, Document.checks, Document.tableOf, Document.valueAt, Json.fields]
      rw [Check.guard_cons_of_holds rfl]
      cases Entries.get? "Metadata" document with
      | none => rfl
      | some v =>
          refine Eq.trans ?_ (Check.guard_cons_of_holds rfl).symm
          change (Document.metadata? v >>= _) = _
          rw [Document.metadata?_eq_guard, Document.rules?_eq_guard]
          exact Check.guard_bind (Check.guard_last _ _ _)
  | _ => rfl

/-- What is accepted gives the rule set of its table. -/
theorem RuleSet.eq_tableOf {d : Json} {rs : RuleSet} (h : RuleSet.ofDocument? d = .ok rs) :
    rs = Document.tableOf d := by
  rw [RuleSet.ofDocument?_eq_guard] at h
  obtain ⟨-, htable⟩ := Check.guard_eq_ok_iff.mp h
  exact htable.symm

end DecisionTable
