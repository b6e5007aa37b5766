import DecisionTable.Proofs.RuleSet.Numbered
import DecisionTable.Table.Columns
import Mathlib.Data.List.Sort

/-!
# Table — Columns by their marker rows

What the columns of a table are, by the cells of its marker rows.

* `SortedMap.ext_get?`: a map is what it gives for each key.
* `SortedMap.get?_ofList_map`: a map that is made of keys and of a value for each of them.
  `SortedMap.get?_ofList_of_nodup`: one that is made of entries of distinct keys.
* `contentsOf`: the cells of the rows of an index, in the order of the rows.
* `markedCell?_eq`, `ColumnTable.mem_markedKeys`: only the contents of marker rows are read.
* `ColumnTable.get?_ofRows`: the definition of a column.
* `ColumnTable.ofRows_congr`: rows whose markers have the same contents define equal columns.
-/

namespace DecisionTable

namespace SortedMap

variable {α : Type}

/-- **A map is what it gives** for each key. -/
theorem ext_get? {m n : SortedMap α} (h : ∀ key, m.get? key = n.get? key) : m = n := by
  have hirrefl : ∀ a : String × α, ¬ compare a.1 a.1 = .lt := by
    intro a hlt
    have hself : compare a.1 a.1 = .eq := Std.ReflCmp.compare_self
    rw [hself] at hlt
    cases hlt
  have : Std.Irrefl fun a b : String × α => compare a.1 b.1 = .lt := ⟨hirrefl⟩
  have : Std.Antisymm fun a b : String × α => compare a.1 b.1 = .lt :=
    ⟨fun a b hab hba => absurd (Std.TransCmp.lt_trans hab hba) (hirrefl a)⟩
  refine ext_entries (m.sorted.eq_of_mem_iff n.sorted fun e => ?_)
  rw [← get?_eq_some_iff, ← get?_eq_some_iff, h]

theorem get?_ofList_map (ks : List String) (f : String → α) (key : String) :
    (ofList (ks.map fun k => (k, f k))).get? key = if key ∈ ks then some (f key) else none := by
  -- the last insertion of a key is as good as the first, for both write the same value
  have step : ∀ (ks : List String) (m : SortedMap α),
      ((ks.map fun k => (k, f k)).foldl (fun m e => m.insert e.1 e.2) m).get? key =
        if key ∈ ks then some (f key) else m.get? key := by
    intro ks
    induction ks with
    | nil => exact fun _ => rfl
    | cons k ks ih =>
        intro m
        rw [List.map_cons, List.foldl_cons, ih]
        by_cases hk : k = key
        · simp [hk]
        · simp [get?_insert_of_ne hk, Ne.symm hk]
  exact step ks empty

/-- Entries of distinct keys keep their values. -/
theorem get?_ofList_of_nodup {es : List (String × α)} (h : (Entries.names es).Nodup)
    (key : String) : (ofList es).get? key = Entries.get? key es := by
  have step : ∀ (es : List (String × α)) (m : SortedMap α), (Entries.names es).Nodup →
      (es.foldl (fun m e => m.insert e.1 e.2) m).get? key =
        (Entries.get? key es).or (m.get? key) := by
    intro es
    induction es with
    | nil => exact fun _ _ => rfl
    | cons e es ih =>
        intro m h
        rw [Entries.names, List.map_cons, List.nodup_cons] at h
        rw [List.foldl_cons, ih _ h.2, Entries.get?]
        by_cases hk : e.1 = key
        · subst hk
          rw [Entries.get?_eq_none_iff.mpr h.1, get?_insert_self, if_pos rfl]
          rfl
        · rw [get?_insert_of_ne hk, if_neg hk]
  rw [ofList, step es empty h, get?_empty, Option.or_none]

end SortedMap

/-- The cells of the rows of an index, row by row. -/
def contentsOf (marker : String) (rows : List Rule) : List (List Cell × List Cell) :=
  (rows.filter fun r => r.index == marker).map Rule.contents

/-- The cell under a column is one of the first row of the index. -/
theorem markedCell?_eq (rows : List Rule) (column marker : String) :
    markedCell? rows column marker = (contentsOf marker rows).head?.bind fun contents =>
      ((contents.1 ++ contents.2).find? fun c => c.column == column).map Cell.text := by
  rw [markedCell?, contentsOf, List.head?_map, List.head?_filter]
  cases rows.find? fun r => r.index == marker <;> rfl

namespace ColumnTable

theorem mem_contentsOf {marker : String} {rows : List Rule} {contents : List Cell × List Cell} :
    contents ∈ contentsOf marker rows ↔
      ∃ r ∈ rows, (r.index == marker) = true ∧ r.contents = contents := by
  simp only [contentsOf, List.mem_map, List.mem_filter, and_assoc]

theorem mem_markedKeys {rows : List Rule} {key : String} :
    key ∈ markedKeys rows ↔ ∃ contents, (contents ∈ contentsOf fieldNameMarker rows ∨
      contents ∈ contentsOf operatorMarker rows) ∧
        key ∈ (contents.1 ++ contents.2).map Cell.column := by
  simp only [markedKeys, List.mem_flatMap, List.mem_filter, Bool.or_eq_true, mem_contentsOf]
  constructor
  · rintro ⟨r, ⟨hr, hmarker⟩, hkey⟩
    exact ⟨r.contents, hmarker.imp (fun h => ⟨r, hr, h, rfl⟩) (fun h => ⟨r, hr, h, rfl⟩), hkey⟩
  · rintro ⟨_, ⟨r, hr, h, rfl⟩ | ⟨r, hr, h, rfl⟩, hkey⟩
    · exact ⟨r, ⟨hr, .inl h⟩, hkey⟩
    · exact ⟨r, ⟨hr, .inr h⟩, hkey⟩

/-- **The definition of a column** is there if a marker row has a cell under its key, and is what
the first marker row of each kind says. -/
theorem get?_ofRows (rows : List Rule) (key : String) :
    (ofRows rows).columns.get? key =
      if key ∈ markedKeys rows then some (definitionIn rows key) else none :=
  SortedMap.get?_ofList_map _ _ _

/-- **Rows whose markers have the same contents** define the same columns, wherever the markers
stand. -/
theorem ofRows_congr {rows rows' : List Rule}
    (hfields : contentsOf fieldNameMarker rows = contentsOf fieldNameMarker rows')
    (hoperators : contentsOf operatorMarker rows = contentsOf operatorMarker rows') :
    ofRows rows = ofRows rows' := by
  -- the keys come in another order, and with other repetitions
  have hkeys : ∀ key, key ∈ markedKeys rows ↔ key ∈ markedKeys rows' := by
    intro key
    rw [mem_markedKeys, mem_markedKeys, hfields, hoperators]
  have hcolumns : (ofRows rows).columns = (ofRows rows').columns := by
    refine SortedMap.ext_get? fun key => ?_
    rw [get?_ofRows, get?_ofRows, definitionIn, definitionIn]
    simp only [hkeys, markedCell?_eq, hfields, hoperators]
  exact congrArg ColumnTable.mk hcolumns

end ColumnTable

end DecisionTable
