/-!
# Entries

Named values in the order of their arrival.  `get?` finds the first value under a name; `put`
overwrites it in its place, or appends a new name at the end, so names that are distinct stay so.
-/

namespace DecisionTable.Entries

variable {α : Type}

/-- The names, in order. -/
def names (es : List (String × α)) : List String :=
  es.map Prod.fst

/-- The first value under a name. -/
def get? (name : String) : List (String × α) → Option α
  | [] => none
  | (n, v) :: es => if n = name then some v else get? name es

/-- Overwrites the value under a name, or appends the name. -/
def put (name : String) (value : α) : List (String × α) → List (String × α)
  | [] => [(name, value)]
  | (n, v) :: es => if n = name then (n, value) :: es else (n, v) :: put name value es

/-- Puts one entry after another: a repeated name keeps its first place and its last value. -/
def ofList (es : List (String × α)) : List (String × α) :=
  es.foldl (fun done e => put e.1 e.2 done) []

@[simp] theorem get?_put_self (name : String) (value : α) (es : List (String × α)) :
    get? name (put name value es) = some value := by
  induction es with
  | nil => simp [put, get?]
  | cons e es ih => by_cases h : e.1 = name <;> simp [put, get?, h, ih]

theorem get?_put_of_ne {name other : String} (h : name ≠ other) (value : α)
    (es : List (String × α)) : get? other (put name value es) = get? other es := by
  induction es with
  | nil => simp [put, get?, h]
  | cons e es ih =>
    by_cases he : e.1 = name
    · simp [put, get?, he, h]
    · simp only [put, if_neg he, get?, ih]

theorem get?_eq_none_iff {name : String} {es : List (String × α)} :
    get? name es = none ↔ name ∉ names es := by
  induction es with
  | nil => simp [get?, names]
  | cons e es ih =>
    by_cases h : e.1 = name
    · simp [get?, names, h]
    · simp [get?, names, h, Ne.symm h] at ih ⊢
      exact ih

/-- Under distinct names, the value under a name is the one that an entry gives it. -/
theorem get?_eq_some_iff {name : String} {value : α} {es : List (String × α)}
    (h : (names es).Nodup) : get? name es = some value ↔ (name, value) ∈ es := by
  induction es with
  | nil => simp [get?]
  | cons e es ih =>
    rw [names, List.map_cons, List.nodup_cons] at h
    obtain ⟨n, v⟩ := e
    by_cases hn : n = name
    · subst hn
      have hout : (n, value) ∉ es := fun hm => h.1 (List.mem_map.mpr ⟨_, hm, rfl⟩)
      simp [get?, hout, eq_comm]
    · have hne : ¬ (name, value) = (n, v) := fun heq => hn (Prod.mk.inj heq).1.symm
      rw [get?, if_neg hn, ih h.2, List.mem_cons, or_iff_right hne]

/-- Overwriting keeps the names as they are. -/
theorem names_put_of_mem {name : String} (value : α) {es : List (String × α)}
    (h : name ∈ names es) : names (put name value es) = names es := by
  induction es with
  | nil => simp [names] at h
  | cons e es ih =>
    by_cases he : e.1 = name
    · simp [put, names, he]
    · have h' : name ∈ names es := by
        simpa [names, Ne.symm he] using h
      simpa [put, names, he] using ih h'

/-- A new name goes to the end. -/
theorem put_of_not_mem {name : String} (value : α) {es : List (String × α)}
    (h : name ∉ names es) : put name value es = es ++ [(name, value)] := by
  induction es with
  | nil => rfl
  | cons e es ih =>
    simp only [names, List.map_cons, List.mem_cons, not_or] at h
    simp only [put, if_neg (Ne.symm h.1), ih h.2, List.cons_append]

theorem nodup_names_put (name : String) (value : α) {es : List (String × α)}
    (h : (names es).Nodup) : (names (put name value es)).Nodup := by
  by_cases hm : name ∈ names es
  · rw [names_put_of_mem value hm]
    exact h
  · rw [put_of_not_mem value hm, names, List.map_append, List.nodup_append]
    refine ⟨h, by simp, ?_⟩
    rintro a ha b hb rfl
    simp only [List.map_cons, List.map_nil, List.mem_singleton] at hb
    exact hm (hb ▸ ha)

theorem nodup_names_ofList (es : List (String × α)) : (names (ofList es)).Nodup := by
  have step : ∀ (es done : List (String × α)), (names done).Nodup →
      (names (es.foldl (fun done e => put e.1 e.2 done) done)).Nodup := by
    intro es
    induction es with
    | nil => exact fun _ h => h
    | cons e es ih => exact fun _ h => ih _ (nodup_names_put e.1 e.2 h)
  exact step es [] List.nodup_nil

end DecisionTable.Entries
