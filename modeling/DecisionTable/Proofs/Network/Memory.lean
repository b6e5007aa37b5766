import DecisionTable.Network.Walk
import DecisionTable.Proofs.Network.Matching
import Mathlib.Data.List.Nodup

/-!
# Network — Memory

What a walk over a network remembers of the fact.  After a firing it takes over only the values
that are no longer the same, and runs again only the tests that read them.  Sameness is equality of
JSON values: the two zeros are the same, and the order of an object's fields does not count, though
a test on the text of a value can tell such values apart.

* `View.refresh`: what is in view after a look at a changed fact.
* `Network.Shows`: a memory holds a view if its values and its outcomes are those of the view.
* `Consistent.shows_refresh`: the look at all fields, slot by slot, leads from a memory that holds
  a view to one that holds the refreshed view.
-/

namespace DecisionTable

/-- What is in view after a look at a fact: a value that is the same as before stays as it was
seen. -/
def View.refresh (seen : View) (fact : Fact) : View := fun field =>
  if Network.unchanged (fact.get? field) (seen field) then seen field else fact.get? field

/-! ### The memory of a walk -/

theorem Numbering.Lawful.nodup_items {α : Type} [BEq α] [Hashable α] {n : Numbering α}
    (h : n.Lawful) : n.items.toList.Nodup := by
  rw [List.nodup_iff_getElem?_ne_getElem?]
  intro i j hij hj he
  have hj' : n.items[j]? = some n.items[j] := Array.getElem?_eq_getElem hj
  rw [Array.getElem?_toList, Array.getElem?_toList] at he
  exact Nat.ne_of_lt hij (h.number_unique (he.trans hj') hj')

namespace Network

/-- A memory holds a view of the fields of a network. -/
structure Shows (net : Network) (m : Memory) (view : View) : Prop where
  values : m.values = net.fields.items.map view
  outcomes : net.Answers m.outcomes view

/-- Only the fields of the network count. -/
theorem Shows.congr {net : Network} (h : net.Consistent) {m : Memory} {view later : View}
    (hm : net.Shows m view) (he : ∀ field ∈ net.fields.items.toList, view field = later field) :
    net.Shows m later := by
  constructor
  · rw [hm.values]
    exact Array.map_congr_left fun field hf => he field (Array.mem_toList_iff.mpr hf)
  · intro i t ht
    obtain ⟨s, -, hf⟩ := h.slot i t ht
    rw [hm.outcomes i t ht, he t.field (Array.mem_toList_iff.mpr (Array.mem_of_getElem? hf))]

theorem Consistent.shows_values {net : Network} (h : net.Consistent) (fact : Fact) :
    net.Shows ⟨net.values fact, net.outcomes (net.values fact)⟩ fact.get? :=
  ⟨rfl, h.answers_outcomes fact.get?⟩

theorem getElem?_foldl_setIfInBounds (f : Nat → Outcome) (is : List Nat) (outcomes : Array Outcome)
    (j : Nat) :
    (is.foldl (fun outcomes i => outcomes.setIfInBounds i (f i)) outcomes)[j]?
      = if j ∈ is then outcomes[j]?.map (fun _ => f j) else outcomes[j]? := by
  induction is generalizing outcomes with
  | nil => simp
  | cons i is ih =>
      rw [List.foldl_cons, ih, Array.getElem?_setIfInBounds]
      by_cases hij : i = j
      · subst hij
        by_cases hlt : i < outcomes.size <;> simp [hlt]
      · simp [hij, Ne.symm hij]

/-- The tests that a slot lists, and no others, have new outcomes when they are run again. -/
theorem getElem?_rerun {net : Network} {slot : Nat} {is : Array Nat}
    (hr : net.readers[slot]? = some is) (values : Array (Option Json)) (outcomes : Array Outcome)
    (j : Nat) :
    (net.rerun values slot outcomes)[j]?
      = if j ∈ is.toList then outcomes[j]?.map (fun _ => net.outcomeAt values j)
        else outcomes[j]? := by
  rw [rerun, hr, Option.getD_some, ← Array.foldl_toList, getElem?_foldl_setIfInBounds]

/-- Writing a value at the slot of its field is writing it under the name of the field. -/
theorem Consistent.setIfInBounds_map {net : Network} (h : net.Consistent) {slot : Nat}
    {field : String} (hf : net.fields.items[slot]? = some field) (view : View) (v : Option Json) :
    (net.fields.items.map view).setIfInBounds slot v
      = net.fields.items.map (Function.update view field v) := by
  refine Array.ext_getElem? fun j => ?_
  rw [Array.getElem?_setIfInBounds, Array.getElem?_map, Array.getElem?_map]
  split
  · next hj =>
    subst hj
    have hlt : slot < net.fields.items.size := (Array.getElem?_eq_some_iff.mp hf).1
    rw [Array.size_map, if_pos hlt, hf, Option.map_some, Function.update_self]
  · next hj =>
    cases hg : net.fields.items[j]? with
    | none => rfl
    | some other =>
        have hne : other ≠ field := fun he => hj (h.fields.number_unique hf (he ▸ hg))
        rw [Option.map_some, Option.map_some, Function.update_of_ne hne]

/-- Running the tests of one slot again is enough when only its field has a new value. -/
theorem Consistent.answers_rerun {net : Network} (h : net.Consistent) {slot : Nat} {field : String}
    (hf : net.fields.items[slot]? = some field) {outcomes : Array Outcome} {view : View}
    (ha : net.Answers outcomes view) (v : Option Json) :
    net.Answers (net.rerun (net.fields.items.map (Function.update view field v)) slot outcomes)
      (Function.update view field v) := by
  have hslot : slot < net.readers.size := h.size_readers ▸ Numbering.getElem?_items_lt hf
  have hr := Array.getElem?_eq_getElem hslot
  intro i t ht
  obtain ⟨s, hs, hf'⟩ := h.slot i t ht
  rw [getElem?_rerun hr, h.readers slot _ hr, ha i t ht, h.outcomeAt_map _ ht]
  -- a test is among those run again exactly if it reads the field of the slot
  by_cases he : s = slot
  · rw [if_pos (mem_testsOn.mpr (he ▸ hs)), Option.map_some]
  · have hne : t.field ≠ field := fun e => he (h.fields.number_unique hf' (e ▸ hf))
    have hout : i ∉ net.testsOn slot := fun hi =>
      he (Option.some.inj (hs.symm.trans (mem_testsOn.mp hi)))
    rw [if_neg hout, Function.update_of_ne hne]

/-- A look at one field. -/
theorem Consistent.shows_refreshSlot {net : Network} (h : net.Consistent) {slot : Nat}
    {field : String} (hf : net.fields.items[slot]? = some field) {m : Memory} {view : View}
    (hm : net.Shows m view) (fact : Fact) :
    net.Shows (net.refreshSlot fact slot field m)
      (Function.update view field (view.refresh fact field)) := by
  have hv : m.values[slot]?.getD none = view field := by
    simp [hm.values, hf]
  rw [refreshSlot, hv, View.refresh]
  split
  · rw [Function.update_eq_self]
    exact hm
  · constructor
    · rw [hm.values]
      exact h.setIfInBounds_map hf view _
    · rw [hm.values, h.setIfInBounds_map hf view]
      exact h.answers_rerun hf hm.outcomes _

/-- Looks at some fields, each of them once, take over what is new in these fields. -/
theorem Consistent.shows_foldl_refreshSlot {net : Network} (h : net.Consistent) (fact : Fact)
    {entries : List (String × Nat)} (he : ∀ e ∈ entries, net.fields.items[e.2]? = some e.1)
    (hn : (entries.map Prod.fst).Nodup) {m : Memory} {view : View} (hm : net.Shows m view) :
    net.Shows (entries.foldl (fun m e => net.refreshSlot fact e.2 e.1 m) m)
      (fun field => if field ∈ entries.map Prod.fst then view.refresh fact field else view field) := by
  induction entries generalizing m view with
  | nil => simpa using hm
  | cons e entries ih =>
      rw [List.map_cons, List.nodup_cons] at hn
      have hhead := h.shows_refreshSlot (he e (.head _)) hm fact
      -- its field does not come again, so the later looks leave it alone
      refine (ih (fun e' he' => he e' (.tail _ he')) hn.2 hhead).congr h fun field _ => ?_
      by_cases hf : field = e.1
      · subst hf
        simp [hn.1]
      · have hmem : field ∈ (e :: entries).map Prod.fst ↔ field ∈ entries.map Prod.fst := by
          rw [List.map_cons, List.mem_cons, or_iff_right hf]
        simp only [hmem, View.refresh, Function.update_of_ne hf]

/-- **Looking again.**  From a memory that holds a view, the look at all fields leads to a memory
that holds the refreshed view. -/
theorem Consistent.shows_refresh {net : Network} (h : net.Consistent) {m : Memory} {view : View}
    (hm : net.Shows m view) (fact : Fact) :
    net.Shows (net.refresh fact m) (view.refresh fact) := by
  have he : ∀ e ∈ net.fields.items.toList.zipIdx, net.fields.items[e.2]? = some e.1 := by
    intro e hmem
    simpa using List.mem_zipIdx_iff_getElem?.mp hmem
  have hfst : net.fields.items.toList.zipIdx.map Prod.fst = net.fields.items.toList := by
    simp
  have hn : (net.fields.items.toList.zipIdx.map Prod.fst).Nodup := by
    rw [hfst]
    exact h.fields.nodup_items
  refine (h.shows_foldl_refreshSlot fact he hn hm).congr h fun field hf => ?_
  rw [hfst, if_pos hf]

end Network

end DecisionTable
