import DecisionTable.Network.Walk
import DecisionTable.RuleSet.Actions

/-!
# Fact — What a rule does to a field

Equality of JSON values is coarser than identity.  A rule does not use the slack: what it leaves in
a field, if it is the same as what was there before, is what was there before.

* `Json.Plain`: texts, truth values, integers and arrays of texts are the same only as themselves.
  What an action stores is plain (`Action.Operator.plain_of_apply`).
* `Json.dedup_append_text`: adding the entry of a rule to recorded entries, each of which then
  stands once, either leaves the text at the end or finds it there already.
* `Revised`: what a rule may leave in a field: its value, a plain value, or the recorded entries
  with the entry of the rule.  Firing a rule revises every field (`RuleSet.revises_fire`).
* `Revised.eq_of_unchanged`: a revised value is the same as before only if it is what was before.
-/

namespace DecisionTable

namespace Json

/-! ### Values that are the same only as themselves -/

/-- Only texts. -/
def Texts (items : List Json) : Prop :=
  ∀ v ∈ items, ∃ s, v = .text s

/-- The values that actions store and the records of applied rules alone. -/
inductive Plain : Json → Prop
  | text (s : String) : Plain (.text s)
  | bool (b : Bool) : Plain (.bool b)
  | integer (n : Integer) : Plain (.number (.integer n))
  | texts {items : List Json} (h : Texts items) : Plain (.array items)

theorem text_same_iff {s : String} {v : Json} : (text s).same v = true ↔ text s = v := by
  cases v <;> simp [same]

theorem same_text_iff {s : String} {v : Json} : v.same (text s) = true ↔ v = text s := by
  cases v <;> simp [same]

theorem eq_of_sameItems_of_texts {items others : List Json} (h : Texts items)
    (hs : sameItems items others = true) : items = others := by
  induction items generalizing others with
  | nil =>
      cases others with
      | nil => rfl
      | cons w ws => simp [sameItems] at hs
  | cons v vs ih =>
      cases others with
      | nil => simp [sameItems] at hs
      | cons w ws =>
          obtain ⟨s, rfl⟩ := h v (.head _)
          rw [sameItems, Bool.and_eq_true, text_same_iff] at hs
          rw [hs.1, ih (fun u hu => h u (.tail _ hu)) hs.2]

/-- **Plain values** are the same only as themselves. -/
theorem Plain.eq_of_same {v w : Json} (h : v.Plain) (hs : v.same w = true) : v = w := by
  cases h with
  | text s => exact text_same_iff.mp hs
  | bool b => cases w <;> simp_all [same]
  | integer n =>
      cases w with
      | number m =>
          cases m with
          | integer m =>
              cases n
              cases m
              simpa [same, Number.same] using hs
          | real x => simp [same, Number.same] at hs
      | _ => simp [same] at hs
  | texts h =>
      cases w with
      | array others => rw [eq_of_sameItems_of_texts h (by simpa [same] using hs)]
      | _ => simp [same] at hs

theorem exists_same_of_sameItems {items others : List Json} (h : sameItems items others = true)
    {v : Json} (hv : v ∈ items) : ∃ w ∈ others, v.same w = true := by
  induction items generalizing others with
  | nil => cases hv
  | cons u us ih =>
      cases others with
      | nil => simp [sameItems] at h
      | cons w ws =>
          rw [sameItems, Bool.and_eq_true] at h
          rcases List.mem_cons.mp hv with rfl | hv
          · exact ⟨w, .head _, h.1⟩
          · obtain ⟨w', hw, hs⟩ := ih h.2 hv
            exact ⟨w', .tail _ hw, hs⟩

theorem length_eq_of_sameItems {items others : List Json} (h : sameItems items others = true) :
    items.length = others.length := by
  induction items generalizing others with
  | nil => cases others <;> simp_all [sameItems]
  | cons v vs ih =>
      cases others with
      | nil => simp [sameItems] at h
      | cons w ws =>
          rw [sameItems, Bool.and_eq_true] at h
          rw [List.length_cons, List.length_cons, ih h.2]

/-! ### Each value once -/

theorem keepFirst_append (kept us vs : List Json) :
    keepFirst kept (us ++ vs) = keepFirst (keepFirst kept us) vs := by
  induction us generalizing kept with
  | nil => rfl
  | cons u us ih =>
      rw [List.cons_append, keepFirst, keepFirst]
      split
      · exact ih kept
      · exact ih (kept ++ [u])

/-- Some of the values that arrive are added to those that stand already. -/
theorem exists_keepFirst_eq (kept vs : List Json) :
    ∃ added, added.Sublist vs ∧ keepFirst kept vs = kept ++ added := by
  induction vs generalizing kept with
  | nil => exact ⟨[], .slnil, by simp [keepFirst]⟩
  | cons v vs ih =>
      rw [keepFirst]
      split
      · obtain ⟨added, hs, he⟩ := ih kept
        exact ⟨added, hs.cons v, he⟩
      · obtain ⟨added, hs, he⟩ := ih (kept ++ [v])
        exact ⟨v :: added, hs.cons_cons v, by rw [he, List.append_assoc, List.singleton_append]⟩

theorem dedup_sublist (vs : List Json) : (dedup vs).Sublist vs := by
  obtain ⟨added, hs, he⟩ := exists_keepFirst_eq [] vs
  rwa [dedup, he, List.nil_append]

/-- No value is the same as an earlier one. -/
def Once (vs : List Json) : Prop :=
  vs.Pairwise fun v w => v.same w = false

theorem once_keepFirst {kept : List Json} (h : Once kept) (vs : List Json) :
    Once (keepFirst kept vs) := by
  induction vs generalizing kept with
  | nil => exact h
  | cons v vs ih =>
      rw [keepFirst]
      split
      · exact ih h
      · next hn =>
        refine ih (List.pairwise_append.mpr ⟨h, List.pairwise_singleton _ v, fun k hk w hw => ?_⟩)
        rw [List.mem_singleton.mp hw]
        exact Bool.eq_false_iff.mpr fun hs => hn (List.any_eq_true.mpr ⟨k, hk, hs⟩)

theorem keepFirst_of_once {kept vs : List Json} (h : Once (kept ++ vs)) :
    keepFirst kept vs = kept ++ vs := by
  induction vs generalizing kept with
  | nil => rw [keepFirst, List.append_nil]
  | cons v vs ih =>
      have hn : ¬ (kept.any fun k => k.same v) = true := by
        rintro hk
        obtain ⟨k, hk, hs⟩ := List.any_eq_true.mp hk
        have := (List.pairwise_append.mp h).2.2 k hk v (.head _)
        rw [hs] at this
        cases this
      rw [keepFirst, if_neg hn, ih (by simpa using h), List.append_assoc, List.singleton_append]

theorem dedup_dedup (vs : List Json) : dedup (dedup vs) = dedup vs :=
  keepFirst_of_once (once_keepFirst .nil vs)

theorem any_same_text {kept : List Json} {s : String} :
    (kept.any fun k => k.same (text s)) = true ↔ text s ∈ kept := by
  simp [List.any_eq_true, same_text_iff]

/-- Adding a text: it is at the end, or was there already. -/
theorem dedup_append_text (vs : List Json) (s : String) :
    text s ∈ dedup vs ∧ dedup (vs ++ [text s]) = dedup vs ∨
      text s ∉ dedup vs ∧ dedup (vs ++ [text s]) = dedup vs ++ [text s] := by
  have he : dedup (vs ++ [text s]) = keepFirst (dedup vs) [text s] := keepFirst_append [] vs _
  rw [he, keepFirst, keepFirst, keepFirst]
  by_cases h : text s ∈ dedup vs
  · exact .inl ⟨h, if_pos (any_same_text.mpr h)⟩
  · exact .inr ⟨h, if_neg (mt any_same_text.mp h)⟩

theorem text_mem_dedup_append (vs : List Json) (s : String) :
    text s ∈ dedup (vs ++ [text s]) := by
  rcases dedup_append_text vs s with ⟨hm, he⟩ | ⟨-, he⟩
  · rwa [he]
  · rw [he]
    exact List.mem_append_right _ (.head _)

/-- Adding a text twice is adding it once. -/
theorem dedup_append_text_twice (vs : List Json) (s : String) :
    dedup (dedup (vs ++ [text s]) ++ [text s]) = dedup (vs ++ [text s]) := by
  rcases dedup_append_text (dedup (vs ++ [text s])) s with ⟨-, he⟩ | ⟨hn, -⟩
  · rw [he, dedup_dedup]
  · rw [dedup_dedup] at hn
    exact absurd (text_mem_dedup_append vs s) hn

theorem text_mem_keepFirst {kept vs : List Json} {s : String} (h : text s ∈ kept ++ vs) :
    text s ∈ keepFirst kept vs := by
  induction vs generalizing kept with
  | nil => rwa [List.append_nil] at h
  | cons v vs ih =>
      rw [keepFirst]
      split
      · next hk =>
        refine ih ?_
        rcases List.mem_append.mp h with h | h
        · exact List.mem_append_left _ h
        · rcases List.mem_cons.mp h with rfl | h
          · exact List.mem_append_left _ (any_same_text.mp hk)
          · exact List.mem_append_right _ h
      · refine ih ?_
        rwa [List.append_assoc, List.singleton_append]

/-- **Entries with one more text** are the same as before only if they are what they were. -/
theorem eq_of_sameItems_dedup {items : List Json} {s : String}
    (h : sameItems (dedup (items ++ [text s])) items = true) :
    dedup (items ++ [text s]) = items := by
  obtain ⟨w, hw, hs⟩ := exists_same_of_sameItems h (text_mem_dedup_append items s)
  -- what stands for the text among the old entries is the text itself, so nothing was added;
  -- and dropping a repeated entry would leave fewer of them
  have hmem : text s ∈ dedup items := text_mem_keepFirst ((text_same_iff.mp hs).symm ▸ hw)
  rcases dedup_append_text items s with ⟨-, he⟩ | ⟨hn, -⟩
  · rw [he] at h ⊢
    exact (dedup_sublist items).eq_of_length (length_eq_of_sameItems h)
  · exact absurd hmem hn

end Json

/-! ### What actions store -/

namespace Action.Operator

theorem plain_of_setValue {field text : String} {current v : Json}
    (h : setValue field current text = .ok v) : v.Plain := by
  unfold setValue at h
  split at h
  · split at h
    · next b _ =>
      obtain rfl : Json.bool b = v := Except.ok.inj h
      exact .bool b
    · cases h
  · obtain rfl : Json.text text = v := Except.ok.inj h
    exact .text text

theorem plain_of_checked {field : String} {n : Int} {v : Json} (h : checked field n = .ok v) :
    v.Plain := by
  rw [checked] at h
  split at h
  · next w _ =>
    obtain rfl : Json.ofInt64 w = v := Except.ok.inj h
    exact .integer _
  · cases h

/-- An action stores a plain value. -/
theorem plain_of_apply {op : Operator} {field text : String} {current v : Json}
    (h : op.apply field current text = .ok v) : v.Plain := by
  cases op with
  | set =>
      rw [apply] at h
      exact plain_of_setValue h
  | increase | decrease =>
      rw [apply] at h
      cases ho : operands field current text with
      | error e =>
          rw [ho] at h
          cases h
      | ok ab =>
          rw [ho] at h
          exact plain_of_checked h

end Action.Operator

/-! ### Revised fields -/

/-- What a rule that records the entry `entry` may leave in a field. -/
inductive Revised (entry : String) (before : Option Json) : Option Json → Prop
  | kept : Revised entry before before
  | plain {v : Json} (h : v.Plain) : Revised entry before (some v)
  | recorded {items : List Json} (h : before = some (.array items)) :
      Revised entry before (some (.array (Json.dedup (items ++ [.text entry]))))

namespace Revised

variable {entry : String} {before between after : Option Json}

/-- A revised value is the same as before only if it is what was before. -/
theorem eq_of_unchanged (h : Revised entry before after)
    (hu : Network.unchanged after before = true) : after = before := by
  cases h with
  | kept => rfl
  | plain h =>
      cases before with
      | none => cases hu
      | some w => rw [h.eq_of_same hu]
  | recorded h =>
      subst h
      rw [Network.unchanged, Json.same] at hu
      rw [Json.eq_of_sameItems_dedup hu]

/-- Recording an entry among texts leaves texts. -/
theorem plain_of_texts {items : List Json} (h : Json.Texts items) (entry : String) :
    (Json.array (Json.dedup (items ++ [.text entry]))).Plain := by
  refine .texts fun v hv => ?_
  rcases List.mem_append.mp ((Json.dedup_sublist _).subset hv) with hv | hv
  · exact h v hv
  · exact ⟨entry, List.mem_singleton.mp hv⟩

/-- Revising twice, with the same entry, is revising once. -/
theorem trans (h₁ : Revised entry before between) (h₂ : Revised entry between after) :
    Revised entry before after := by
  cases h₂ with
  | kept => exact h₁
  | plain h => exact .plain h
  | recorded h =>
      cases h₁ with
      | kept => exact .recorded h
      | plain hp =>
          -- a plain array, to which a text is added
          obtain rfl := Option.some.inj h
          cases hp with
          | texts hi => exact .plain (plain_of_texts hi entry)
      | recorded hb =>
          obtain rfl := Json.array.inj (Option.some.inj h)
          rw [Json.dedup_append_text_twice]
          exact .recorded hb

end Revised

/-- Every field is revised. -/
def Fact.Revises (entry : String) (before after : Fact) : Prop :=
  ∀ field, Revised entry (before.get? field) (after.get? field)

namespace Fact.Revises

variable {entry : String}

theorem refl (fact : Fact) : Revises entry fact fact :=
  fun _ => .kept

theorem trans {before between after : Fact} (h₁ : Revises entry before between)
    (h₂ : Revises entry between after) : Revises entry before after :=
  fun field => (h₁ field).trans (h₂ field)

/-- A field gets a value, and the others stay. -/
theorem insert {fact : Fact} {field : String} {v : Json}
    (h : Revised entry (fact.get? field) (some v)) : Revises entry fact (fact.insert field v) := by
  intro other
  by_cases he : field = other
  · subst he
    rwa [get?_insert_self]
  · rw [get?_insert_of_ne he]
    exact .kept

theorem record (fact : Fact) (auditField : String) (name : RuleName) :
    Revises name.text fact (fact.record auditField name) := by
  refine insert ?_
  rw [auditEntries]
  split
  · next items hi => exact .recorded hi
  · exact .plain (Revised.plain_of_texts (List.forall_mem_nil _) name.text)

end Fact.Revises

namespace RuleSet

theorem revises_write {rs : RuleSet} {cell : Cell} {field : String} {current : Json}
    {fact written : Fact} (h : rs.write cell field current fact = .ok written) (entry : String) :
    Fact.Revises entry fact written := by
  rcases of_write h with rfl | ⟨op, v, hv, rfl⟩
  · exact .refl written
  · exact .insert (.plain (Action.Operator.plain_of_apply hv))

theorem revises_audit (rs : RuleSet) (name : RuleName) (auditField : String) (fact : Fact) :
    Fact.Revises name.text fact (rs.audit name auditField fact) := by
  rw [audit]
  split
  · exact .record fact auditField name
  · exact .refl fact

theorem revises_applyCells (rs : RuleSet) (name : RuleName) (auditField : String)
    (cells : List Cell) (fact : Fact) :
    Fact.Revises name.text fact (rs.applyCells name auditField cells fact).fact := by
  induction cells generalizing fact with
  | nil => exact .refl fact
  | cons cell cells ih =>
      rw [applyCells]
      split
      · exact ih fact
      · split
        · exact .refl fact
        · next written hw =>
          exact ((revises_write hw name.text).trans (rs.revises_audit name auditField written)).trans
            (ih _)

/-- **Firing a rule** revises every field, under the name of the rule. -/
theorem revises_fire (rs : RuleSet) (rule : Rule) (auditField : String) (fact : Fact) :
    Fact.Revises (RuleName.ofRule rs rule).text fact (rs.fire rule auditField fact).fact :=
  rs.revises_applyCells _ auditField rule.actions fact

end RuleSet

end DecisionTable
