import Mathlib.Data.List.Forall2

/-!
# Batches

Lists of items that are worked off one after the other.

* `Batch.mapM_eq_ok_iff`, `Batch.mapM_of_first_error`: a batch gives the results of its items, or
  the failure of the first item that fails.
* `Batch.strict`: results some of which carry a failure, taken strictly: the first of the failures
  is the failure of all.  A batch of strict items is strict (`mapM_strict`), and so is a batch of
  strict batches (`mapM_strict_flatten`).
* `Batch.getElem?_flatMap`: where the results of an item stand if all items have the same number.
-/

namespace DecisionTable.Batch

variable {ε α β : Type}

/-! ### The first failure -/

section FirstFailure

variable {f : α → Except ε β} {a : α} {as : List α}

theorem mapM_cons_of_ok {b : β} (h : f a = .ok b) :
    (a :: as).mapM f = (as.mapM f).map (b :: ·) := by
  rw [List.mapM_cons, h]
  cases as.mapM f <;> rfl

theorem mapM_cons_of_error {err : ε} (h : f a = .error err) : (a :: as).mapM f = .error err := by
  rw [List.mapM_cons, h]
  rfl

/-- A batch gives results if its items give them, one by one. -/
theorem mapM_eq_ok_iff {bs : List β} :
    as.mapM f = .ok bs ↔ List.Forall₂ (fun a b => f a = .ok b) as bs := by
  induction as generalizing bs with
  | nil =>
      rw [List.mapM_nil, List.forall₂_nil_left_iff]
      exact ⟨fun h => (Except.ok.inj h).symm, fun h => h ▸ rfl⟩
  | cons a as ih =>
      rw [List.forall₂_cons_left_iff]
      constructor
      · intro h
        cases ha : f a with
        | error err => rw [mapM_cons_of_error ha] at h; cases h
        | ok b =>
            rw [mapM_cons_of_ok ha] at h
            cases has : as.mapM f with
            | error err => rw [has] at h; cases h
            | ok rest =>
                rw [has] at h
                exact ⟨b, rest, rfl, ih.mp has, (Except.ok.inj h).symm⟩
      · rintro ⟨b, rest, ha, hrest, rfl⟩
        rw [mapM_cons_of_ok ha, ih.mpr hrest]
        rfl

/-- Every result of a batch is the result of one of its items. -/
theorem exists_of_mem_mapM {bs : List β} (h : as.mapM f = .ok bs) {b : β} (hb : b ∈ bs) :
    ∃ a ∈ as, f a = .ok b := by
  rw [mapM_eq_ok_iff] at h
  induction h with
  | nil => cases hb
  | cons ha _ ih =>
      rcases List.mem_cons.mp hb with rfl | hb
      · exact ⟨_, .head _, ha⟩
      · obtain ⟨a, hmem, hfa⟩ := ih hb
        exact ⟨a, .tail _ hmem, hfa⟩

theorem exists_mapM_eq_ok_iff : (∃ bs, as.mapM f = .ok bs) ↔ ∀ a ∈ as, ∃ b, f a = .ok b := by
  induction as with
  | nil => exact ⟨fun _ a h => absurd h List.not_mem_nil, fun _ => ⟨[], rfl⟩⟩
  | cons a as ih =>
      rw [List.forall_mem_cons, ← ih]
      cases ha : f a with
      | error err => simp [mapM_cons_of_error ha]
      | ok b =>
          rw [mapM_cons_of_ok ha]
          cases as.mapM f with
          | error err => simp [Except.map]
          | ok bs => exact ⟨fun _ => ⟨⟨b, rfl⟩, bs, rfl⟩, fun _ => ⟨b :: bs, rfl⟩⟩

/-- **The first item that fails** gives the failure of the batch, whatever follows it. -/
theorem mapM_of_first_error {before : List α} {err : ε} (h : ∀ b ∈ before, ∃ c, f b = .ok c)
    (ha : f a = .error err) (after : List α) : (before ++ a :: after).mapM f = .error err := by
  induction before with
  | nil => exact mapM_cons_of_error ha
  | cons b before ih =>
      obtain ⟨c, hb⟩ := h b (.head _)
      rw [List.cons_append, mapM_cons_of_ok hb, ih fun b' hb' => h b' (.tail _ hb')]
      rfl

end FirstFailure

/-! ### Results that carry failures -/

/-- Results, if none of them carries a failure; else the first failure. -/
def strict (failure : β → Option ε) (bs : List β) : Except ε (List β) :=
  match bs.findSome? failure with
  | some err => .error err
  | none => .ok bs

variable {failure : β → Option ε}

theorem strict_of_forall_eq_none {bs : List β} (h : ∀ b ∈ bs, failure b = none) :
    strict failure bs = .ok bs := by
  rw [strict, List.findSome?_eq_none_iff.mpr h]

theorem exists_strict_eq_ok_iff {bs : List β} :
    (∃ cs, strict failure bs = .ok cs) ↔ ∀ b ∈ bs, failure b = none := by
  rw [strict, ← List.findSome?_eq_none_iff]
  cases bs.findSome? failure <;> simp

theorem strict_of_first {before : List β} {b : β} {err : ε} (h : ∀ c ∈ before, failure c = none)
    (hb : failure b = some err) (after : List β) :
    strict failure (before ++ b :: after) = .error err := by
  rw [strict, List.findSome?_append, List.findSome?_eq_none_iff.mpr h, List.findSome?_cons, hb]
  rfl

theorem strict_append (bs cs : List β) :
    strict failure (bs ++ cs) =
      (strict failure bs).bind fun bs => (strict failure cs).map (bs ++ ·) := by
  rw [strict, strict, strict, List.findSome?_append]
  cases bs.findSome? failure with
  | some err => rfl
  | none => cases cs.findSome? failure <;> rfl

theorem strict_cons_of_some {b : β} {err : ε} (h : failure b = some err) (bs : List β) :
    strict failure (b :: bs) = .error err := by
  rw [strict, List.findSome?_cons, h]

theorem strict_cons_of_none {b : β} (h : failure b = none) (bs : List β) :
    strict failure (b :: bs) = (strict failure bs).map (b :: ·) := by
  rw [strict, strict, List.findSome?_cons, h]
  cases bs.findSome? failure <;> rfl

/-- **A batch of strict items** is strict. -/
theorem mapM_strict {f : α → Except ε β} {g : α → β}
    (herror : ∀ a err, failure (g a) = some err → f a = .error err)
    (hok : ∀ a, failure (g a) = none → f a = .ok (g a)) (as : List α) :
    as.mapM f = strict failure (as.map g) := by
  induction as with
  | nil => rfl
  | cons a as ih =>
      rw [List.map_cons]
      cases ha : failure (g a) with
      | some err => rw [mapM_cons_of_error (herror a err ha), strict_cons_of_some ha]
      | none => rw [mapM_cons_of_ok (hok a ha), ih, strict_cons_of_none ha]

/-- **A batch of strict batches** is strict. -/
theorem mapM_strict_flatten {f : α → Except ε (List β)} {g : α → List β}
    (hf : ∀ a, f a = strict failure (g a)) (as : List α) :
    (as.mapM f).map List.flatten = strict failure (as.flatMap g) := by
  induction as with
  | nil => rfl
  | cons a as ih =>
      rw [List.flatMap_cons, strict_append, ← ih, ← hf]
      cases ha : f a with
      | error err =>
          rw [mapM_cons_of_error ha]
          rfl
      | ok bs =>
          rw [mapM_cons_of_ok ha]
          cases as.mapM f <;> rfl

/-! ### Results of equal number -/

theorem getElem?_flatMap {g : α → List β} {n : Nat} (hg : ∀ a, (g a).length = n) {as : List α}
    {i j : Nat} {a : α} (hi : as[i]? = some a) (hj : j < n) :
    (as.flatMap g)[i * n + j]? = (g a)[j]? := by
  induction as generalizing i with
  | nil => cases hi
  | cons b as ih =>
      rw [List.flatMap_cons]
      cases i with
      | zero =>
          obtain rfl : b = a := Option.some.inj hi
          rw [Nat.zero_mul, Nat.zero_add, List.getElem?_append_left (hg b ▸ hj)]
      | succ i =>
          have hpos : (i + 1) * n + j = (g b).length + (i * n + j) := by
            rw [hg, Nat.succ_mul]
            omega
          rw [hpos, List.getElem?_append_right (Nat.le_add_right _ _), Nat.add_sub_cancel_left]
          exact ih hi

end DecisionTable.Batch
