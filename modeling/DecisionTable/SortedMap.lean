import DecisionTable.Entries

/-!
# SortedMap

Finite maps from texts, kept as entries in the order of their keys (by code points), each key once.
The order is part of the type, so two maps that answer every `get?` alike are equal.
-/

namespace DecisionTable

/-- A map whose entries stand in strictly increasing order of their keys. -/
structure SortedMap (α : Type) where
  entries : List (String × α)
  sorted : entries.Pairwise fun a b => compare a.1 b.1 = .lt
  deriving DecidableEq

namespace SortedMap

variable {α : Type}

/-- Writes an entry at its place in the order, over an entry of the same key. -/
def insertEntry (key : String) (value : α) : List (String × α) → List (String × α)
  | [] => [(key, value)]
  | (k, v) :: es =>
    match compare key k with
    | .lt => (key, value) :: (k, v) :: es
    | .eq => (key, value) :: es
    | .gt => (k, v) :: insertEntry key value es

theorem mem_insertEntry {key : String} {value : α} {e : String × α} {es : List (String × α)}
    (h : e ∈ insertEntry key value es) : e = (key, value) ∨ e ∈ es := by
  induction es with
  | nil => simpa [insertEntry] using h
  | cons d es ih =>
    unfold insertEntry at h
    split at h
    · simpa using h
    · rcases List.mem_cons.1 h with h | h
      · exact .inl h
      · exact .inr (.tail _ h)
    · rcases List.mem_cons.1 h with h | h
      · exact .inr (h ▸ .head _)
      · exact (ih h).imp_right (.tail _)

theorem sorted_insertEntry (key : String) (value : α) {es : List (String × α)}
    (h : es.Pairwise fun a b => compare a.1 b.1 = .lt) :
    (insertEntry key value es).Pairwise fun a b => compare a.1 b.1 = .lt := by
  induction es with
  | nil => exact List.pairwise_singleton _ _
  | cons d es ih =>
    rw [List.pairwise_cons] at h
    unfold insertEntry
    split
    · next hc =>
      refine List.pairwise_cons.2 ⟨fun e he => ?_, List.pairwise_cons.2 h⟩
      rcases List.mem_cons.1 he with he | he
      · exact he ▸ hc
      · exact Std.TransCmp.lt_trans hc (h.1 e he)
    · next hc =>
      have hk := Std.LawfulEqCmp.eq_of_compare hc
      exact List.pairwise_cons.2 ⟨fun e he => hk ▸ h.1 e he, h.2⟩
    · next hc =>
      refine List.pairwise_cons.2 ⟨fun e he => ?_, ih h.2⟩
      rcases mem_insertEntry he with he | he
      · exact he ▸ Std.OrientedCmp.gt_iff_lt.1 hc
      · exact h.1 e he

/-- The map without entries. -/
def empty : SortedMap α :=
  ⟨[], List.Pairwise.nil⟩

/-- The value under a key. -/
def get? (m : SortedMap α) (key : String) : Option α :=
  Entries.get? key m.entries

/-- Writes a value under a key, over an earlier one. -/
def insert (m : SortedMap α) (key : String) (value : α) : SortedMap α :=
  ⟨insertEntry key value m.entries, sorted_insertEntry key value m.sorted⟩

/-- Inserts entries one after another; the last one of a key stays. -/
def ofList (es : List (String × α)) : SortedMap α :=
  es.foldl (fun m e => m.insert e.1 e.2) empty

/-- The number of keys. -/
def size (m : SortedMap α) : Nat :=
  m.entries.length

theorem get?_insertEntry_self (key : String) (value : α) (es : List (String × α)) :
    Entries.get? key (insertEntry key value es) = some value := by
  induction es with
  | nil => simp [insertEntry, Entries.get?]
  | cons e es ih =>
    unfold insertEntry
    split
    · simp [Entries.get?]
    · simp [Entries.get?]
    · next hc =>
      have hne : e.1 ≠ key := by
        rintro rfl
        have hself : compare e.1 e.1 = .eq := Std.ReflCmp.compare_self
        rw [hself] at hc
        cases hc
      simp [Entries.get?, hne, ih]

theorem get?_insertEntry_of_ne {key other : String} (h : key ≠ other) (value : α)
    (es : List (String × α)) :
    Entries.get? other (insertEntry key value es) = Entries.get? other es := by
  induction es with
  | nil => simp [insertEntry, Entries.get?, h]
  | cons e es ih =>
    unfold insertEntry
    split
    · simp [Entries.get?, h]
    · next hc =>
      have hk := Std.LawfulEqCmp.eq_of_compare hc
      simp [Entries.get?, ← hk, h]
    · simp [Entries.get?, ih]

@[simp] theorem get?_empty (key : String) : (empty : SortedMap α).get? key = none := rfl

@[simp] theorem get?_insert_self (m : SortedMap α) (key : String) (value : α) :
    (m.insert key value).get? key = some value :=
  get?_insertEntry_self key value m.entries

theorem get?_insert_of_ne {key other : String} (h : key ≠ other) (m : SortedMap α) (value : α) :
    (m.insert key value).get? other = m.get? other :=
  get?_insertEntry_of_ne h value m.entries

theorem nodup_names_entries (m : SortedMap α) : (Entries.names m.entries).Nodup := by
  rw [Entries.names, List.Nodup, List.pairwise_map]
  refine m.sorted.imp fun {a b} hlt heq => ?_
  have hself : compare b.1 b.1 = .eq := Std.ReflCmp.compare_self
  rw [heq, hself] at hlt
  cases hlt

theorem get?_eq_some_iff {m : SortedMap α} {key : String} {value : α} :
    m.get? key = some value ↔ (key, value) ∈ m.entries :=
  Entries.get?_eq_some_iff m.nodup_names_entries

theorem ext_entries {m n : SortedMap α} (h : m.entries = n.entries) : m = n := by
  cases m
  cases n
  cases h
  rfl

/-- A key behind all others goes to the end. -/
theorem insertEntry_of_lt {key : String} {value : α} {es : List (String × α)}
    (h : ∀ e ∈ es, compare e.1 key = .lt) : insertEntry key value es = es ++ [(key, value)] := by
  induction es with
  | nil => rfl
  | cons e es ih =>
    have he : compare key e.1 = .gt := Std.OrientedCmp.gt_iff_lt.2 (h e (.head _))
    rw [insertEntry, he, ih fun d hd => h d (.tail _ hd), List.cons_append]

/-- Inserting the entries of a map one after another gives the map again. -/
theorem ofList_entries (m : SortedMap α) : ofList m.entries = m := by
  have step : ∀ (es : List (String × α)) (done : SortedMap α),
      (done.entries ++ es).Pairwise (fun a b => compare a.1 b.1 = .lt) →
      (es.foldl (fun m e => m.insert e.1 e.2) done).entries = done.entries ++ es := by
    intro es
    induction es with
    | nil => exact fun done _ => (List.append_nil _).symm
    | cons e es ih =>
      intro done h
      have hlast : (done.insert e.1 e.2).entries = done.entries ++ [e] :=
        insertEntry_of_lt fun d hd => (List.pairwise_append.1 h).2.2 d hd e (.head _)
      rw [List.foldl_cons, ih _ (by rwa [hlast, List.append_assoc]), hlast, List.append_assoc,
        List.singleton_append]
  exact ext_entries (step m.entries empty m.sorted)

/-- What holds of the empty map and is kept by inserting each of the entries holds of their map. -/
theorem ofList_induction {P : SortedMap α → Prop} {es : List (String × α)} (hempty : P empty)
    (hinsert : ∀ m, P m → ∀ e ∈ es, P (m.insert e.1 e.2)) : P (ofList es) :=
  List.foldlRecOn es _ hempty hinsert

theorem mem_of_mem_ofList {es : List (String × α)} {e : String × α}
    (h : e ∈ (ofList es).entries) : e ∈ es := by
  have hall : ∀ d ∈ (ofList es).entries, d ∈ es := by
    refine ofList_induction (P := fun m => ∀ d ∈ m.entries, d ∈ es)
      (fun d hd => absurd hd List.not_mem_nil) fun m hm e he d hd => ?_
    rcases mem_insertEntry hd with rfl | hd
    · exact he
    · exact hm d hd
  exact hall e h

end SortedMap

end DecisionTable
