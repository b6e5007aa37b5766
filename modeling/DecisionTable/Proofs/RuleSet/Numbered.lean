import DecisionTable.Proofs.Document.Checks
import DecisionTable.RuleSet.Draft
import Mathlib.Data.List.Nodup

/-!
# RuleSet — Numbered rules

* `RuleSet.Numbered`: the index of every rule is the decimal of its position, counted from 1, and
  every rule has an action.
* `RuleSet.isDefinition_of_index`: such a rule is no row of definitions, for a decimal has no mark.
* `RuleSet.number_eq`, `RuleSet.map_contents_number`: numbering gives new indices to the same cells.
* `RuleSet.ofRows_of_numbered`: numbering a numbered rule set again changes nothing.
* `RuleSet.Made`: the rule sets that come from a table, a draft or a document.  All of them are
  numbered (`Made.numbered`).
-/

namespace DecisionTable

/-- A computation that gives a result gives the results of its parts. -/
theorem exists_ok_of_bind {ε α β : Type} {x : Except ε α} {f : α → Except ε β} {b : β}
    (h : (x >>= f) = .ok b) : ∃ a, x = .ok a ∧ f a = .ok b := by
  cases x with
  | error e => cases h
  | ok a => exact ⟨a, rfl, h⟩

/-- Naming failures anew makes no result. -/
theorem ok_of_mapError {ε δ α : Type} {x : Except ε α} {f : ε → δ} {a : α}
    (h : x.mapError f = .ok a) : x = .ok a := by
  cases x with
  | error e => cases h
  | ok b => exact congrArg Except.ok (Except.ok.inj h)

/-- A computation that gives a result has passed the check in front of it. -/
theorem ok_of_check {ε α : Type} {c : Prop} [Decidable c] {e : ε} {x : Except ε α} {a : α}
    (h : (if c then .error e else x) = .ok a) : ¬ c ∧ x = .ok a := by
  split at h
  · cases h
  · next hc => exact ⟨hc, h⟩

/-- Under distinct keys, the element that is found is the one that has the key. -/
theorem find?_eq_some_iff_of_nodup {α : Type} {k : α → String} {as : List α}
    (h : (as.map k).Nodup) {key : String} {a : α} :
    as.find? (fun b => k b == key) = some a ↔ a ∈ as ∧ k a = key := by
  constructor
  · intro hfind
    have hkey := List.find?_some hfind
    exact ⟨List.mem_of_find?_eq_some hfind, beq_iff_eq.mp hkey⟩
  · rintro ⟨hmem, rfl⟩
    cases hfind : as.find? fun b => k b == k a with
    | none => exact absurd (beq_iff_eq.mpr rfl) (List.find?_eq_none.mp hfind a hmem)
    | some b =>
        have hkey := List.find?_some hfind
        rw [List.inj_on_of_nodup_map h (List.mem_of_find?_eq_some hfind) hmem (beq_iff_eq.mp hkey)]

/-- The cells of a row under conditions and under actions. -/
def Rule.contents (r : Rule) : List Cell × List Cell :=
  (r.conditions, r.actions)

/-- The rule has the index of a position, counted from zero, and an action. -/
def Rule.NumberedAt (position : Nat) (r : Rule) : Prop :=
  r.index = RuleSet.indexAt position ∧ r.hasAction = true

namespace RuleSet

/-- Every rule has the index of its position, and an action. -/
def Numbered (rs : RuleSet) : Prop :=
  ∀ (i : Nat) (r : Rule), rs.rules[i]? = some r → r.NumberedAt i

/-- A decimal has no mark. -/
theorem isDefinition_of_index {position : Nat} {r : Rule} (h : r.index = indexAt position) :
    r.isDefinition = false := by
  rw [Rule.isDefinition, h, indexAt, Number.decimal, String.toList_ofList, Number.digits]
  refine Bool.eq_false_iff.mpr fun hc => ?_
  have hm : Rule.definitionMark ∈ Nat.toDigits 10 (position + 1) := by simpa using hc
  exact absurd (Nat.isDigit_of_mem_toDigits (by decide) (by decide) hm) (by decide)

/-- Numbering looks at the cells of rows only. -/
theorem number_eq (rows : List Rule) : number rows =
    (rows.map Rule.contents).mapIdx fun position contents =>
      ⟨indexAt position, contents.1, contents.2⟩ := by
  refine List.ext_getElem? fun i => ?_
  simp only [number, List.getElem?_mapIdx, List.getElem?_map, Option.map_map]
  rfl

theorem map_contents_number (rows : List Rule) :
    (number rows).map Rule.contents = rows.map Rule.contents := by
  refine List.ext_getElem? fun i => ?_
  simp only [number, List.getElem?_mapIdx, List.getElem?_map, Option.map_map]
  rfl

theorem numbered_ofRows (metadata : Metadata) (columns : ColumnTable) (rows : List Rule) :
    (ofRows metadata columns rows).Numbered := by
  intro i r hr
  rw [ofRows, number, List.getElem?_mapIdx] at hr
  obtain ⟨row, hrow, rfl⟩ := Option.map_eq_some_iff.mp hr
  have hkept := (List.mem_filter.mp (List.mem_of_getElem? hrow)).2
  rw [isKept, Bool.and_eq_true] at hkept
  exact ⟨rfl, hkept.2⟩

/-- **A numbered rule set** is the one of its own rules: no row is dropped, and each keeps its
index. -/
theorem ofRows_of_numbered {rs : RuleSet} (h : rs.Numbered) :
    ofRows rs.metadata rs.columns rs.rules = rs := by
  have hkept : ∀ r ∈ rs.rules, isKept r = true := by
    intro r hr
    obtain ⟨i, hi⟩ := List.getElem?_of_mem hr
    obtain ⟨hindex, haction⟩ := h i r hi
    rw [isKept, isDefinition_of_index hindex, haction]
    rfl
  have hnumber : number rs.rules = rs.rules := by
    refine List.ext_getElem? fun i => ?_
    rw [number, List.getElem?_mapIdx]
    cases hi : rs.rules[i]? with
    | none => rfl
    | some r =>
        obtain ⟨hindex, -⟩ := h i r hi
        rw [Option.map_some, ← hindex]
  rw [ofRows, List.filter_eq_self.mpr hkept, hnumber]

/-- The rule sets that come from a table, a draft or a document. -/
inductive Made : RuleSet → Prop
  | rows (metadata : Metadata) (columns : ColumnTable) (rows : List Rule) :
      Made (ofRows metadata columns rows)
  | built (d : Draft) : Made d.build
  | read {document : Json} {rs : RuleSet} (h : ofDocument? document = .ok rs) : Made rs

theorem made_of_parseBytes? {bs : List UInt8} {rs : RuleSet} (h : parseBytes? bs = .ok rs) :
    rs.Made := by
  rw [parseBytes?] at h
  split at h
  · exact .read h
  · cases h

/-- **Made rule sets** are numbered. -/
theorem Made.numbered {rs : RuleSet} (h : rs.Made) : rs.Numbered := by
  cases h with
  | rows metadata columns rows => exact numbered_ofRows metadata columns rows
  | built d => exact numbered_ofRows d.metadata d.columns d.rows
  | read h =>
      rw [eq_tableOf h]
      exact numbered_ofRows _ _ _

end RuleSet

end DecisionTable
