import DecisionTable.Proofs.RuleSet.Footprint
import Mathlib.Data.List.Infix

/-!
# Fact — Running sums

Integers are added to the fields of a fact, one after another.  The sums are exact integers here,
and a signed 64-bit word may be too small for one of them even if it holds the last one.

* `Delta`: an integer that is added to a field; `Delta.total` sums up those of one field.
* `Fact.running?`: the value of a field after some deltas, in exact integers.
* `Fact.Bears`: every such value is a word, from the first to the last; this can be decided.
* `Fact.Books`: one fact comes from another by adding deltas to its fields.  The deltas of several
  steps follow each other (`Books.append`), and what a fact bears after a step was borne before it
  (`Bears.of_books`).
* `Fact.Ends`: how adding deltas ends, at the last one or at the first that leaves the words.
-/

namespace DecisionTable

/-! ### Words and deltas -/

namespace Number

/-- An integer that a signed 64-bit word holds. -/
def IsWord (n : Int) : Prop :=
  -0x8000000000000000 ≤ n ∧ n < 0x8000000000000000

instance (n : Int) : Decidable (IsWord n) :=
  inferInstanceAs (Decidable (_ ∧ _))

theorem isWord_toInt (w : Int64) : IsWord w.toInt :=
  ⟨w.le_toInt, w.toInt_lt⟩

theorem not_isWord_of_int64? {n : Int} (h : int64? n = none) : ¬ IsWord n := by
  rintro ⟨hge, hlt⟩
  have := int64?_eq_none_iff.mp h
  omega

end Number

/-- An integer that is added to a field. -/
structure Delta where
  field : String
  amount : Int
  deriving DecidableEq

namespace Delta

/-- The sum of what is added to a field. -/
def total : List Delta → String → Int
  | [], _ => 0
  | d :: ds, field => (if d.field = field then d.amount else 0) + total ds field

theorem total_append (ds es : List Delta) (field : String) :
    total (ds ++ es) field = total ds field + total es field := by
  induction ds with
  | nil => simp [total]
  | cons d ds ih => rw [List.cons_append, total, total, ih, Int.add_assoc]

theorem total_singleton_self (field : String) (amount : Int) :
    total [⟨field, amount⟩] field = amount := by
  simp [total]

/-- Nothing is added to a field without deltas. -/
theorem total_of_ne {ds : List Delta} {field : String} (h : ∀ d ∈ ds, d.field ≠ field) :
    total ds field = 0 := by
  induction ds with
  | nil => rfl
  | cons d ds ih =>
      rw [total, if_neg (h d (.head _)), ih fun e he => h e (.tail _ he), Int.add_zero]

end Delta

namespace Fact

variable {f g k : Fact} {ds es : List Delta} {field : String} {n : Int}

/-! ### Running values -/

/-- The integer that a field holds, if it holds one of the range of words. -/
def integer? (f : Fact) (field : String) : Option Int :=
  ((f.get? field).bind Json.int64?).map Int64.toInt

/-- The value of a field after some deltas, in exact integers. -/
def running? (f : Fact) (ds : List Delta) (field : String) : Option Int :=
  (f.integer? field).map (· + Delta.total ds field)

/-- Every value that some deltas give to a field, one after another, is a word. -/
def Bears (f : Fact) (ds : List Delta) : Prop :=
  ∀ before, before <+: ds → ∀ field n, f.running? before field = some n → Number.IsWord n

theorem integer?_congr (h : f.get? field = g.get? field) : f.integer? field = g.integer? field := by
  rw [integer?, integer?, h]

theorem integer?_eq {v : Json} {w : Int64} (hv : f.get? field = some v) (hw : v.int64? = some w) :
    f.integer? field = some w.toInt := by
  rw [integer?, hv, Option.bind_some, hw]
  rfl

theorem isWord_of_integer? (h : f.integer? field = some n) : Number.IsWord n := by
  obtain ⟨w, -, rfl⟩ := Option.map_eq_some_iff.mp h
  exact Number.isWord_toInt w

theorem running?_append (f : Fact) (ds es : List Delta) (field : String) :
    f.running? (ds ++ es) field = (f.running? ds field).map (· + Delta.total es field) := by
  rw [running?, running?, Delta.total_append, Option.map_map]
  exact congrArg (Option.map · _) (funext fun n => (Int.add_assoc n _ _).symm)

/-- A field without deltas keeps its value. -/
theorem running?_of_ne (f : Fact) (h : ∀ d ∈ ds, d.field ≠ field) :
    f.running? ds field = f.integer? field := by
  simp [running?, Delta.total_of_ne h]

theorem running?_singleton_self (f : Fact) (field : String) (amount : Int) :
    f.running? [⟨field, amount⟩] field = (f.integer? field).map (· + amount) := by
  rw [running?, Delta.total_singleton_self]

theorem running?_nil (f : Fact) (field : String) : f.running? [] field = f.integer? field :=
  f.running?_of_ne (by simp)

theorem bears_nil (f : Fact) : f.Bears [] := by
  intro before hbefore field n hn
  rw [List.prefix_nil.mp hbefore, running?_nil] at hn
  exact isWord_of_integer? hn

/-- Only fields of the fact have running values. -/
theorem mem_names_of_running? (h : f.running? ds field = some n) : field ∈ f.names := by
  obtain ⟨_, hinteger, -⟩ := Option.map_eq_some_iff.mp h
  obtain ⟨_, hw, -⟩ := Option.map_eq_some_iff.mp hinteger
  obtain ⟨v, hv, -⟩ := Option.bind_eq_some_iff.mp hw
  exact mem_names_iff.mpr (Option.isSome_iff_exists.mpr ⟨v, hv⟩)

theorem bears_iff : f.Bears ds ↔
    ∀ before ∈ ds.inits, ∀ field ∈ f.names, ∀ n ∈ f.running? before field, Number.IsWord n := by
  simp only [Bears, List.mem_inits, Option.mem_def]
  constructor
  · exact fun h before hbefore field _ n hn => h before hbefore field n hn
  · exact fun h before hbefore field n hn => h before hbefore field (mem_names_of_running? hn) n hn

instance (f : Fact) (ds : List Delta) : Decidable (f.Bears ds) :=
  decidable_of_iff _ bears_iff.symm

/-! ### Adding to fields -/

/-- The later fact comes from the earlier one by adding deltas to its fields: every field holds its
running value, a field without deltas is as it was, and no field comes or goes.  Nothing is said of
the exempt fields. -/
structure Books (exempt : String → Prop) (ds : List Delta) (before after : Fact) : Prop where
  integers : ∀ field, ¬ exempt field → after.integer? field = before.running? ds field
  others : ∀ field, ¬ exempt field → (∀ d ∈ ds, d.field ≠ field) →
    after.get? field = before.get? field
  present : ∀ field, ¬ exempt field →
    (after.get? field).isSome = (before.get? field).isSome

variable {exempt : String → Prop}

namespace Books

/-- Nothing is added if only exempt fields are changed. -/
theorem of_kept (h : ∀ field, ¬ exempt field → g.get? field = f.get? field) :
    Books exempt [] f g where
  integers field hf := (integer?_congr (h field hf)).trans (f.running?_nil field).symm
  others field hf _ := h field hf
  present field hf := congrArg Option.isSome (h field hf)

theorem running? (h : Books exempt ds f g) (hf : ¬ exempt field) (es : List Delta) :
    g.running? es field = f.running? (ds ++ es) field := by
  rw [Fact.running?, h.integers field hf, running?_append]

theorem append (h : Books exempt ds f g) (h' : Books exempt es g k) :
    Books exempt (ds ++ es) f k where
  integers field hf := (h'.integers field hf).trans (h.running? hf es)
  others field hf hne :=
    (h'.others field hf fun d hd => hne d (List.mem_append_right ds hd)).trans
      (h.others field hf fun d hd => hne d (List.mem_append_left es hd))
  present field hf := (h'.present field hf).trans (h.present field hf)

/-- A field gets the sum, if this is a word. -/
theorem insert {v : Json} {a w : Int64} {amount : Int} (hv : f.get? field = some v)
    (ha : v.int64? = some a) (hw : w.toInt = a.toInt + amount) :
    Books exempt [⟨field, amount⟩] f (f.insert field (.ofInt64 w)) where
  integers other _ := by
    by_cases hne : field = other
    · subst hne
      have hword : (Json.ofInt64 w).int64? = some w := Json.Integer.toInt64?_ofInt64 w
      rw [running?_singleton_self, integer?_eq hv ha, Option.map_some, ← hw]
      exact integer?_eq (get?_insert_self f field _) hword
    · rw [running?_of_ne _ (by simpa using hne)]
      exact integer?_congr (get?_insert_of_ne hne f _)
  others other _ hne := get?_insert_of_ne (hne _ (.head _)) f _
  present other _ := by
    by_cases hne : field = other
    · subst hne
      rw [get?_insert_self, hv]
      rfl
    · rw [get?_insert_of_ne hne]

end Books

/-- What a fact bears after one delta, it bears from there on; the delta itself is borne because the
later fact holds its sum. -/
theorem Bears.of_books {d : Delta} (h : Books exempt [d] f g) (hd : ∀ e ∈ d :: ds, ¬ exempt e.field)
    (hg : g.Bears ds) : f.Bears (d :: ds) := by
  intro before hbefore field n hn
  rcases List.prefix_cons_iff.mp hbefore with rfl | ⟨rest, rfl, hrest⟩
  · rw [running?_nil] at hn
    exact isWord_of_integer? hn
  by_cases hf : exempt field
  · have hne : ∀ e ∈ d :: rest, e.field ≠ field := by
      rintro e he rfl
      exact hd e (hbefore.subset he) hf
    rw [f.running?_of_ne hne] at hn
    exact isWord_of_integer? hn
  · have hrunning : g.running? rest field = some n := (h.running? hf rest).trans hn
    exact hg rest hrest field n hrunning

/-- How adding deltas one after another ends: all of them are borne and added, or those before the
first one that leaves the words. -/
inductive Ends (exempt : String → Prop) (ds : List Delta) (f : Fact) : Applied → Prop
  | exact {g : Fact} (hbears : f.Bears ds) (hbooks : Books exempt ds f g) :
      Ends exempt ds f ⟨g, .ok ds.length⟩
  | overflow {before rest : List Delta} {d : Delta} {n : Int} {g : Fact}
      (hds : ds = before ++ d :: rest) (hbears : f.Bears before)
      (hn : f.running? (before ++ [d]) d.field = some n) (hleaves : ¬ Number.IsWord n)
      (hbooks : Books exempt before f g) : Ends exempt ds f ⟨g, .error (.overflow d.field)⟩

/-- **One delta** in front of the others. -/
theorem Ends.cons {d : Delta} {applied : Applied} (h : Ends exempt ds g applied)
    (hbooks : Books exempt [d] f g) (hd : ∀ e ∈ d :: ds, ¬ exempt e.field) :
    Ends exempt (d :: ds) f ⟨applied.fact, applied.result.map (· + 1)⟩ := by
  cases h with
  | exact hbears hrest => exact .exact (.of_books hbooks hd hbears) (hbooks.append hrest)
  | @overflow before rest e n _ hds hbears hn hleaves hrest =>
      subst hds
      have hbefore : ∀ e ∈ d :: before, ¬ exempt e.field := fun e he =>
        hd e (List.mem_append_left _ he)
      have he : ¬ exempt e.field := hd e (List.mem_append_right (d :: before) (.head _))
      have hn' : f.running? (d :: before ++ [e]) e.field = some n :=
        (hbooks.running? he _).symm.trans hn
      exact .overflow rfl (.of_books hbooks hbefore hbears) hn' hleaves (hbooks.append hrest)

end Fact

end DecisionTable
