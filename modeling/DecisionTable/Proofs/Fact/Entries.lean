import DecisionTable.Proofs.Fact.Trail
import DecisionTable.Proofs.Number.Spelling
import DecisionTable.Proofs.Occurrences
import DecisionTable.Proofs.RuleSet.Numbered

/-!
# Fact — Entries of rules

The entry of a rule is one text, made of the id of its rule set and its index with a mark between
them, and an id may hold the mark as well.  The index of a numbered rule holds digits only, so the
last colon of the entry ends the mark, and the entry leads back to the rule.

* `append_cons_inj_of_not_mem`: a list that ends in elements other than `a`, behind an `a`, can be
  taken apart at that `a` in one way only.
* `RuleName.text_eq_iff`: names with numbered indices have different texts.
* `RuleName.dedup_append_entries`: adding the entries of such names to any list, and dropping equal
  values, drops an entry only for an earlier one of the same name or for what the list holds.
* `entries_identify_rules`: so a fact that records rules of numbered rule sets, one after the other,
  drops an entry only for an entry of the same rule.
-/

namespace DecisionTable

theorem append_cons_inj_of_not_mem {α : Type} {a : α} {as bs cs ds : List α} (hb : a ∉ bs)
    (hd : a ∉ ds) : as ++ a :: bs = cs ++ a :: ds ↔ as = cs ∧ bs = ds := by
  -- if one of the prefixes goes on behind the other, it goes on with an `a` out of `bs` or `ds`
  have hprefix : ∀ {es bs ds : List α}, a ∉ bs → a :: bs = es ++ a :: ds → es = [] := by
    intro es bs ds hb h
    cases es with
    | nil => rfl
    | cons e es =>
        rw [List.cons_append, List.cons.injEq] at h
        exact absurd (h.2 ▸ List.mem_append_right es (.head ds)) hb
  constructor
  · intro h
    rcases List.append_eq_append_iff.mp h with ⟨es, rfl, he⟩ | ⟨es, rfl, he⟩
    · obtain rfl := hprefix hb he
      exact ⟨(List.append_nil as).symm, (List.cons.inj he).2⟩
    · obtain rfl := hprefix hd he
      exact ⟨List.append_nil cs, (List.cons.inj he).2.symm⟩
  · rintro ⟨rfl, rfl⟩
    rfl

namespace Json

/-- Dropping equal values drops no text that has no equal. -/
theorem text_mem_dedup_iff {vs : List Json} {s : String} : text s ∈ dedup vs ↔ text s ∈ vs :=
  ⟨fun h => (dedup_sublist vs).subset h, fun h => text_mem_keepFirst h⟩

instance (s : String) (vs : List Json) : Decidable (text s ∈ vs) :=
  decidable_of_iff _ any_same_text

end Json

/-! ### The entry of a rule -/

namespace RuleName

/-- The entry that facts record, as a value. -/
def entry (n : RuleName) : Json :=
  .text n.text

instance (n : RuleName) (vs : List Json) : Decidable (n.entry ∈ vs) :=
  inferInstanceAs (Decidable (Json.text _ ∈ vs))

/-- The index is the one of a position. -/
def IsNumbered (n : RuleName) : Prop :=
  ∃ position, n.ruleIndex = RuleSet.indexAt position

variable {m n : RuleName}

theorem IsNumbered.colon_not_mem (h : n.IsNumbered) : ':' ∉ n.ruleIndex.toList := by
  obtain ⟨position, hindex⟩ := h
  rw [hindex, RuleSet.indexAt, Number.decimal, String.toList_ofList]
  intro hcolon
  have hdigit := Number.isDigit_of_digitsValue? (Number.digitsValue?_digits _) ':' hcolon
  exact absurd hdigit (by decide)

/-- The last colon that is not part of the index ends the mark. -/
theorem toList_text (n : RuleName) :
    n.text.toList = ("RuleId:".toList ++ n.ruleSetId.toList ++ " RuleIndex".toList)
      ++ ':' :: n.ruleIndex.toList := by
  have hmark : " RuleIndex:".toList = " RuleIndex".toList ++ [':'] := rfl
  rw [text, String.toList_append, String.toList_append, String.toList_append, hmark]
  simp only [List.append_assoc, List.singleton_append]

/-- **Names with numbered indices** have one text only if they are equal. -/
theorem text_eq_iff (hm : m.IsNumbered) (hn : n.IsNumbered) : m.text = n.text ↔ m = n := by
  rw [← String.toList_inj, toList_text, toList_text,
    append_cons_inj_of_not_mem hm.colon_not_mem hn.colon_not_mem, List.append_cancel_right_eq,
    List.append_cancel_left_eq, String.toList_inj, String.toList_inj]
  cases m
  cases n
  rw [mk.injEq]

theorem entry_mem_map_iff (hn : n.IsNumbered) {names : List RuleName}
    (h : ∀ m ∈ names, m.IsNumbered) : n.entry ∈ names.map entry ↔ n ∈ names := by
  constructor
  · intro hmem
    obtain ⟨m, hm, he⟩ := List.mem_map.mp hmem
    rwa [← (text_eq_iff (h m hm) hn).mp (Json.text.inj he)]
  · exact List.mem_map_of_mem

/-- Adding one entry: it is there already, or comes to the end. -/
theorem dedup_append_entry (vs : List Json) (n : RuleName) :
    n.entry ∈ vs ∧ Json.dedup (vs ++ [n.entry]) = Json.dedup vs ∨
      n.entry ∉ vs ∧ Json.dedup (vs ++ [n.entry]) = Json.dedup vs ++ [n.entry] := by
  have h := Json.dedup_append_text vs n.text
  rwa [Json.text_mem_dedup_iff] at h

/-- **Adding the entries of names** with numbered indices: each name counts once, where it comes
first, and not at all if its entry is there already. -/
theorem dedup_append_entries (recorded : List Json) {names : List RuleName}
    (h : ∀ n ∈ names, n.IsNumbered) :
    Json.dedup (recorded ++ names.map entry)
      = Json.dedup recorded
        ++ (names.eraseDups.filter fun n => n.entry ∉ recorded).map entry := by
  induction names using List.reverseRecOn with
  | nil => simp
  | append_singleton names n ih =>
      have hnames : ∀ m ∈ names, m.IsNumbered := fun m hm => h m (List.mem_append_left _ hm)
      have hn : n.IsNumbered := h n (List.mem_append_right _ (.head _))
      have hmem : n.entry ∈ recorded ++ names.map entry ↔ n.entry ∈ recorded ∨ n ∈ names := by
        rw [List.mem_append, entry_mem_map_iff hn hnames]
      rw [List.map_append, List.map_singleton, ← List.append_assoc]
      rcases dedup_append_entry (recorded ++ names.map entry) n with ⟨hthere, he⟩ | ⟨hnew, he⟩
      · rw [he, ih hnames]
        by_cases hname : n ∈ names
        · rw [eraseDups_concat_of_mem hname]
        · have hrecorded : n.entry ∈ recorded := (hmem.mp hthere).resolve_right hname
          simp [eraseDups_concat_of_not_mem hname, List.filter_append, hrecorded]
      · obtain ⟨hrecorded, hname⟩ := not_or.mp (mt hmem.mpr hnew)
        rw [he, ih hnames]
        simp [eraseDups_concat_of_not_mem hname, List.filter_append, hrecorded]

end RuleName

/-! ### Rules of numbered rule sets -/

namespace Activation

/-- A rule of a numbered rule set. -/
structure IsNumbered (a : Activation) : Prop where
  ruleSet : a.ruleSet.Numbered
  rule : a.rule ∈ a.ruleSet.rules

theorem IsNumbered.name {a : Activation} (h : a.IsNumbered) : a.name.IsNumbered := by
  obtain ⟨position, hposition⟩ := List.mem_iff_getElem?.mp h.rule
  exact ⟨position, (h.ruleSet position a.rule hposition).1⟩

end Activation

/-- Recording rules one after the other adds their entries. -/
theorem Fact.adds_records (auditField : String) (as : List Activation) (fact : Fact) :
    Fact.Adds auditField (as.map fun a => a.name.entry) fact
      (as.foldl (fun fact a => fact.record auditField a.name) fact) := by
  induction as generalizing fact with
  | nil => exact .refl fact
  | cons a as ih => exact (Adds.record fact auditField a.name).trans (ih _)

/-- **Entries identify rules** of numbered rule sets, whatever the ids of the rule sets hold.  Two
such rules have one entry only if they have one index in rule sets of one id.  And a fact that
records such rules keeps what it has recorded, each value once, and then has the entry of each rule
once, where the rule comes first, unless the entry was recorded before. -/
theorem entries_identify_rules {as : List Activation} (h : ∀ a ∈ as, a.IsNumbered) :
    (∀ a ∈ as, ∀ b ∈ as, a.name.text = b.name.text ↔
      a.ruleSet.id = b.ruleSet.id ∧ a.rule.index = b.rule.index) ∧
    ∀ (fact : Fact) (auditField : String), as ≠ [] →
      (as.foldl (fun fact a => fact.record auditField a.name) fact).auditEntries auditField
        = Json.dedup (fact.auditEntries auditField)
          ++ ((as.map Activation.name).eraseDups.filter fun n =>
            n.entry ∉ fact.auditEntries auditField).map RuleName.entry := by
  constructor
  · intro a ha b hb
    rw [RuleName.text_eq_iff (h a ha).name (h b hb).name, Activation.name, Activation.name,
      RuleName.ofRule, RuleName.ofRule, RuleName.mk.injEq]
  · intro fact auditField hne
    have hnames : ∀ n ∈ as.map Activation.name, n.IsNumbered := by
      intro n hn
      obtain ⟨a, ha, rfl⟩ := List.mem_map.mp hn
      exact (h a ha).name
    rw [(Fact.adds_records auditField as fact).auditEntries_eq (mt List.map_eq_nil_iff.mp hne),
      ← RuleName.dedup_append_entries _ hnames, List.map_map]
    rfl

/-! ### An id that holds the mark -/

namespace Activation

/-- The rule of a rule set of one rule. -/
def single (id : String) : Activation :=
  ⟨.ofRows (.ofId id .all) .empty [⟨"", [], [⟨"d", "x"⟩]⟩], ⟨"1", [], [⟨"d", "x"⟩]⟩⟩

theorem isNumbered_single (id : String) : (single id).IsNumbered where
  ruleSet := RuleSet.numbered_ofRows _ _ _
  rule := .head _

end Activation

/-- The entry of the rule of `a` starts the entry of the rule of `a RuleIndex:1`, and both stay;
the entry that comes again is dropped, as is what was recorded twice. -/
theorem entries_identify_rules_of_marked_ids :
    (∀ a ∈ [Activation.single "a", .single "a RuleIndex:1", .single "a"], a.IsNumbered) ∧
    (Activation.single "a").name.text ≠ (Activation.single "a RuleIndex:1").name.text ∧
    ([Activation.single "a", .single "a RuleIndex:1", .single "a"].foldl
        (fun fact a => fact.record "log" a.name)
        (Fact.empty.insert "log" (.array [.text "x", .text "x"]))).auditEntries "log"
      = [.text "x", .text "RuleId:a RuleIndex:1", .text "RuleId:a RuleIndex:1 RuleIndex:1"] := by
  have h : ∀ a ∈ [Activation.single "a", .single "a RuleIndex:1", .single "a"], a.IsNumbered := by
    simp [Activation.isNumbered_single]
  obtain ⟨htext, hrecord⟩ := entries_identify_rules h
  have hne : ¬ ((Activation.single "a").name.text
      = (Activation.single "a RuleIndex:1").name.text) := by
    rw [htext _ (.head _) _ (.tail _ (.head _))]
    exact fun he => absurd he.1 (by decide)
  exact ⟨h, hne, (hrecord _ _ (List.cons_ne_nil _ _)).trans rfl⟩

end DecisionTable
