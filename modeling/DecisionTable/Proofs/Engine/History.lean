import DecisionTable.Proofs.Engine.Run
import DecisionTable.Proofs.Occurrences
import DecisionTable.RuleSet.Draft

/-!
# Engine — The store after a history

A store that starts without rule sets, after saves in any order and by any engines.

* `Store.Lists`: what a class lists after saves: one rule set for each id, in the order in which the
  ids were first saved, and of each id the rule set saved last.  A save keeps this
  (`Lists.place`), so it holds after every history (`lists_saveAll`).
* `Store.size_saveAll`: the number of rule sets is the number of pairs of a class and an id.
* `Store.load_saveAll_of_nodup`: saving the rule sets of a class with different ids lists them in
  order.
* `load_after_saves`: the contents of a store after any history.
-/

namespace DecisionTable

namespace Store

/-! ### Placing a rule set -/

theorem place_of_not_mem {rs : RuleSet} {bucket : List RuleSet}
    (h : rs.id ∉ bucket.map RuleSet.id) : place rs bucket = bucket ++ [rs] := by
  induction bucket with
  | nil => rfl
  | cons r bucket ih =>
      rw [List.map_cons, List.mem_cons, not_or] at h
      rw [place, if_neg (Ne.symm h.1), ih h.2, List.cons_append]

theorem map_id_place_of_mem {rs : RuleSet} {bucket : List RuleSet}
    (h : rs.id ∈ bucket.map RuleSet.id) :
    (place rs bucket).map RuleSet.id = bucket.map RuleSet.id := by
  induction bucket with
  | nil => cases h
  | cons r bucket ih =>
      rw [place]
      by_cases hr : r.id = rs.id
      · rw [if_pos hr, List.map_cons, List.map_cons, hr]
      · have hrest : rs.id ∈ bucket.map RuleSet.id := by
          rw [List.map_cons, List.mem_cons] at h
          exact h.resolve_left (Ne.symm hr)
        rw [if_neg hr, List.map_cons, ih hrest, List.map_cons]

/-- If ids are different, the rule sets beside the placed one are those of other ids. -/
theorem eq_or_mem_of_mem_place {rs r : RuleSet} {bucket : List RuleSet}
    (hn : (bucket.map RuleSet.id).Nodup) (h : r ∈ place rs bucket) :
    r = rs ∨ (r ∈ bucket ∧ r.id ≠ rs.id) := by
  induction bucket with
  | nil => exact .inl (List.mem_singleton.mp h)
  | cons b bucket ih =>
      rw [List.map_cons, List.nodup_cons] at hn
      rw [place] at h
      by_cases hb : b.id = rs.id
      · rw [if_pos hb, List.mem_cons] at h
        refine h.imp_right fun hr => ⟨.tail _ hr, fun hid => hn.1 ?_⟩
        rw [hb, ← hid]
        exact List.mem_map_of_mem hr
      · rw [if_neg hb, List.mem_cons] at h
        rcases h with rfl | h
        · exact .inr ⟨.head _, hb⟩
        · exact (ih hn.2 h).imp_right fun hr => ⟨.tail _ hr.1, hr.2⟩

/-- A rule set keeps the position of the one whose id it has. -/
theorem place_eq_set {rs old : RuleSet} {bucket : List RuleSet} {i : Nat}
    (hn : (bucket.map RuleSet.id).Nodup) (hi : bucket[i]? = some old) (hid : old.id = rs.id) :
    place rs bucket = bucket.set i rs := by
  induction bucket generalizing i with
  | nil => cases hi
  | cons b bucket ih =>
      rw [List.map_cons, List.nodup_cons] at hn
      cases i with
      | zero =>
          obtain rfl : b = old := Option.some.inj hi
          rw [place, if_pos hid, List.set_cons_zero]
      | succ i =>
          have hold : old ∈ bucket := List.mem_of_getElem? hi
          have hb : b.id ≠ rs.id := fun hb =>
            hn.1 (hb ▸ hid ▸ List.mem_map_of_mem hold)
          rw [place, if_neg hb, ih hn.2 hi, List.set_cons_succ]

/-! ### One class -/

/-- What a class lists after saves of its rule sets: one rule set for each id, the ids in the order
of their first save, and of each id the rule set saved last. -/
structure Lists (saves bucket : List RuleSet) : Prop where
  ids : bucket.map RuleSet.id = (saves.map RuleSet.id).eraseDups
  last : ∀ rs ∈ bucket, (saves.filter fun r => r.id = rs.id).getLast? = some rs

namespace Lists

variable {saves bucket : List RuleSet}

theorem nodup (h : Lists saves bucket) : (bucket.map RuleSet.id).Nodup := by
  rw [h.ids]
  exact nodup_eraseDups _

theorem mem_ids_iff (h : Lists saves bucket) {id : String} :
    id ∈ bucket.map RuleSet.id ↔ id ∈ saves.map RuleSet.id := by
  rw [h.ids, List.mem_eraseDups]

theorem mem_saves (h : Lists saves bucket) {rs : RuleSet} (hrs : rs ∈ bucket) : rs ∈ saves :=
  List.mem_of_mem_filter (List.mem_of_getLast? (h.last rs hrs))

/-- **One more save.** -/
theorem place (h : Lists saves bucket) (rs : RuleSet) :
    Lists (saves ++ [rs]) (Store.place rs bucket) where
  ids := by
    rw [List.map_append, List.map_singleton]
    by_cases hrs : rs.id ∈ bucket.map RuleSet.id
    · rw [map_id_place_of_mem hrs, eraseDups_concat_of_mem (h.mem_ids_iff.mp hrs), h.ids]
    · rw [place_of_not_mem hrs, eraseDups_concat_of_not_mem (mt h.mem_ids_iff.mpr hrs), ← h.ids,
        List.map_append, List.map_singleton]
  last := by
    intro r hr
    rw [List.filter_append]
    rcases eq_or_mem_of_mem_place h.nodup hr with rfl | ⟨hmem, hne⟩
    · rw [List.filter_singleton]
      simp
    · rw [List.filter_singleton]
      simp [hne.symm, h.last r hmem]

end Lists

/-! ### All classes -/

/-- Takes rule sets in, one after the other. -/
def saveAll (s : Store) (ruleSets : List RuleSet) : Store :=
  ruleSets.foldl save s

theorem saveAll_append (s : Store) (before after : List RuleSet) :
    s.saveAll (before ++ after) = (s.saveAll before).saveAll after :=
  List.foldl_append

theorem saveAll_concat (s : Store) (before : List RuleSet) (rs : RuleSet) :
    s.saveAll (before ++ [rs]) = (s.saveAll before).save rs :=
  List.foldl_concat _ _ _ _

/-- The rule sets that belong to a class. -/
def ofClass (className : String) (ruleSets : List RuleSet) : List RuleSet :=
  ruleSets.filter fun rs => rs.metadata.classKey = className

/-- **After a history**, every class lists what was saved under it. -/
theorem lists_saveAll (saves : List RuleSet) (className : String) :
    Lists (ofClass className saves) ((empty.saveAll saves).load className) := by
  -- on the history from its end, for the last save acts on what the others left
  induction saves using List.reverseRecOn with
  | nil => exact ⟨rfl, fun _ h => absurd h List.not_mem_nil⟩
  | append_singleton saves rs ih =>
      rw [saveAll_concat, ofClass, List.filter_append, List.filter_singleton]
      by_cases h : rs.metadata.classKey = className
      · subst h
        rw [load_save_self]
        simpa [ofClass] using ih.place rs
      · rw [load_save_of_ne h]
        simpa [ofClass, h] using ih

theorem nodup_load (saves : List RuleSet) (className : String) :
    (((empty.saveAll saves).load className).map RuleSet.id).Nodup :=
  (lists_saveAll saves className).nodup

theorem classKey_of_mem_load {saves : List RuleSet} {className : String} {rs : RuleSet}
    (h : rs ∈ (empty.saveAll saves).load className) : rs.metadata.classKey = className := by
  have hmem := (lists_saveAll saves className).mem_saves h
  rw [ofClass, List.mem_filter, decide_eq_true_eq] at hmem
  exact hmem.2

theorem mem_saves_of_mem_load {saves : List RuleSet} {className : String} {rs : RuleSet}
    (h : rs ∈ (empty.saveAll saves).load className) : rs ∈ saves :=
  List.mem_of_mem_filter ((lists_saveAll saves className).mem_saves h)

/-! ### The number of rule sets -/

/-- The class and the id of a rule set. -/
def key (rs : RuleSet) : String × String :=
  (rs.metadata.classKey, rs.id)

/-- The classes of a store with the ids that they list. -/
def listed (s : Store) : List (String × String) :=
  s.buckets.entries.flatMap fun e => e.2.map fun rs => (e.1, rs.id)

theorem length_listed (s : Store) : s.listed.length = s.size := by
  simp [listed, size, List.length_flatMap]

theorem mem_listed_iff {s : Store} {className id : String} :
    (className, id) ∈ s.listed ↔ id ∈ (s.load className).map RuleSet.id := by
  have hbucket : ∀ rs, rs ∈ s.load className ↔
      ∃ bucket, (className, bucket) ∈ s.buckets.entries ∧ rs ∈ bucket := by
    intro rs
    simp only [← SortedMap.get?_eq_some_iff, load]
    cases s.buckets.get? className <;> simp
  simp only [listed, List.mem_flatMap, List.mem_map, Prod.mk.injEq, hbucket]
  constructor
  · rintro ⟨⟨_, bucket⟩, he, rs, hrs, rfl, rfl⟩
    exact ⟨rs, ⟨bucket, he, hrs⟩, rfl⟩
  · rintro ⟨rs, ⟨bucket, he, hrs⟩, rfl⟩
    exact ⟨(className, bucket), he, rs, hrs, rfl, rfl⟩

/-- If the ids of every class are different, so are the pairs of a class and an id. -/
theorem nodup_listed {s : Store} (h : ∀ className, ((s.load className).map RuleSet.id).Nodup) :
    s.listed.Nodup := by
  rw [listed, List.nodup_flatMap]
  constructor
  · rintro ⟨className, bucket⟩ he
    have hbucket : (bucket.map RuleSet.id).Nodup := by
      have hload := h className
      rwa [load, SortedMap.get?_eq_some_iff.mpr he, Option.getD_some] at hload
    have hpairs : Function.Injective fun id : String => (className, id) :=
      fun _ _ heq => (Prod.mk.inj heq).2
    have hmap := hbucket.map hpairs
    rwa [List.map_map] at hmap
  · have hkeys := s.buckets.nodup_names_entries
    rw [Entries.names, List.Nodup, List.pairwise_map] at hkeys
    refine hkeys.imp fun {a b} hne => ?_
    simp only [Function.onFun, List.disjoint_left, List.mem_map]
    rintro _ ⟨r, -, rfl⟩ ⟨r', -, heq⟩
    exact hne (Prod.mk.inj heq).1.symm

/-- **The number of rule sets** is the number of pairs of a class and an id that were saved. -/
theorem size_saveAll (saves : List RuleSet) :
    (empty.saveAll saves).size = (saves.map key).toFinset.card := by
  have hset : (empty.saveAll saves).listed.toFinset = (saves.map key).toFinset := by
    ext ⟨className, id⟩
    rw [List.mem_toFinset, List.mem_toFinset, mem_listed_iff,
      (lists_saveAll saves className).mem_ids_iff]
    simp [ofClass, key, and_assoc]
  rw [← length_listed, ← hset, List.toFinset_card_of_nodup (nodup_listed (nodup_load saves))]

/-! ### Rule sets of one class -/

/-- Rule sets of a class whose ids are new and different are listed at the end, in order. -/
theorem load_saveAll_of_nodup {s : Store} {className : String} {ruleSets : List RuleSet}
    (hclass : ∀ rs ∈ ruleSets, rs.metadata.classKey = className)
    (hn : ((s.load className ++ ruleSets).map RuleSet.id).Nodup) :
    (s.saveAll ruleSets).load className = s.load className ++ ruleSets := by
  induction ruleSets generalizing s with
  | nil => rw [List.append_nil]; rfl
  | cons rs ruleSets ih =>
      obtain rfl := hclass rs (.head _)
      have hnew : rs.id ∉ (s.load rs.metadata.classKey).map RuleSet.id := by
        rw [List.map_append, List.map_cons] at hn
        exact fun h => List.disjoint_of_nodup_append hn h (.head _)
      have hload : (s.save rs).load rs.metadata.classKey = s.load rs.metadata.classKey ++ [rs] := by
        rw [load_save_self, place_of_not_mem hnew]
      have hrest := ih (s := s.save rs) (fun r hr => hclass r (.tail _ hr))
        (by rwa [hload, List.append_assoc])
      rw [hload, List.append_assoc] at hrest
      exact hrest

/-- Saves in one class change nothing in another one. -/
theorem load_saveAll_of_ne {s : Store} {className other : String} {ruleSets : List RuleSet}
    (hclass : ∀ rs ∈ ruleSets, rs.metadata.classKey = className) (hne : className ≠ other) :
    (s.saveAll ruleSets).load other = s.load other := by
  induction ruleSets generalizing s with
  | nil => rfl
  | cons rs ruleSets ih =>
      have hrs : rs.metadata.classKey ≠ other := hclass rs (.head _) ▸ hne
      rw [← load_save_of_ne hrs s]
      exact ih fun r hr => hclass r (.tail _ hr)

end Store

/-! ### Engines over one store -/

namespace Engine

/-- An engine over the store in memory. -/
def ofMemory (config : Config) : Engine Store :=
  ⟨Store.backend, config⟩

theorem run_load_ofMemory (config : Config) (className : String) (s : Store) :
    ((ofMemory config).load className).run.run s = (.ok (s.load className), s) :=
  rfl

theorem run_save_ofMemory (config : Config) (rs : RuleSet) (s : Store) :
    ((ofMemory config).save rs).run.run s = (.ok (), s.save rs) :=
  rfl

/-- Engines over one store in memory, each with its own configuration, save rule sets in turn. -/
def saveInTurn : List (Config × RuleSet) → EngineM Store Unit
  | [] => pure ()
  | (config, rs) :: calls => do
    (ofMemory config).save rs
    saveInTurn calls

theorem run_saveInTurn (calls : List (Config × RuleSet)) (s : Store) :
    (saveInTurn calls).run.run s = (.ok (), s.saveAll (calls.map Prod.snd)) := by
  induction calls generalizing s with
  | nil => rfl
  | cons call calls ih =>
      rw [saveInTurn, run_bind_of_ok (run_save_ofMemory call.1 call.2 s), ih]
      rfl

end Engine

/-- **A store after any history.**  Whatever engines over one store in memory save in whatever
order, no save fails, and the store then lists for every class one rule set for each id saved under
it, the last one of the class and the id, in the order of the first saves; its size is the number of
pairs of a class and an id.  A further save changes nothing in another class, and a rule set takes
the position of the one whose id it has. -/
theorem load_after_saves (calls : List (Config × RuleSet)) :
    ∃ s : Store, (Engine.saveInTurn calls).run.run Store.empty = (.ok (), s) ∧
      (∀ className,
        Store.Lists (Store.ofClass className (calls.map Prod.snd)) (s.load className)) ∧
      (∀ className, ∀ rs ∈ s.load className, rs.metadata.classKey = className) ∧
      s.size = ((calls.map Prod.snd).map Store.key).toFinset.card ∧
      (∀ (rs : RuleSet) (className : String), rs.metadata.classKey ≠ className →
        (s.save rs).load className = s.load className) ∧
      ∀ (rs old : RuleSet) (i : Nat), (s.load rs.metadata.classKey)[i]? = some old →
        old.id = rs.id →
        (s.save rs).load rs.metadata.classKey = (s.load rs.metadata.classKey).set i rs := by
  refine ⟨Store.empty.saveAll (calls.map Prod.snd), Engine.run_saveInTurn calls Store.empty,
    Store.lists_saveAll _, fun _ _ => Store.classKey_of_mem_load, Store.size_saveAll _,
    fun _ _ h => Store.load_save_of_ne h _, fun rs old i hi hid => ?_⟩
  rw [Store.load_save_self]
  exact Store.place_eq_set (Store.nodup_load _ _) hi hid

/-- A rule set without rules in the class `k`. -/
def RuleSet.inClassK (id version : String) : RuleSet :=
  (((RuleSet.Draft.ofId id).className "k").version version).build

/-- A rule set that names no class. -/
def RuleSet.classless (id : String) : RuleSet :=
  (RuleSet.Draft.ofId id).build

/-- The saves of two engines.  The rule set `a` comes twice, and the rule set `k` belongs to the
class of that name by its id alone. -/
def Store.reuploads : List (Config × RuleSet) :=
  let strict := { Config.default with onActionError := .failBatch }
  [(.default, .inClassK "a" "1"), (strict, .inClassK "b" "1"), (strict, .classless "k"),
    (.default, .inClassK "a" "2")]

theorem load_after_saves_reuploads :
    ∃ s : Store, (Engine.saveInTurn Store.reuploads).run.run Store.empty = (.ok (), s) ∧
      s.load "k" = [.inClassK "a" "2", .inClassK "b" "1", .classless "k"] ∧ s.size = 3 ∧
      (s.save (.classless "b")).load "k" = s.load "k" ∧
      (s.save (.inClassK "b" "2")).load "k" = (s.load "k").set 1 (.inClassK "b" "2") := by
  obtain ⟨s, hrun, -, -, hsize, hother, hplace⟩ := load_after_saves Store.reuploads
  have hs : Store.empty.saveAll (Store.reuploads.map Prod.snd) = s :=
    (Prod.mk.inj ((Engine.run_saveInTurn _ _).symm.trans hrun)).2
  have hload : s.load "k" = [.inClassK "a" "2", .inClassK "b" "1", .classless "k"] := by
    rw [← hs]
    decide
  have hb : (s.load "k")[1]? = some (.inClassK "b" "1") := by rw [hload]; rfl
  exact ⟨s, hrun, hload, hsize.trans (by decide), hother (.classless "b") "k" (by decide),
    hplace (.inClassK "b" "2") (.inClassK "b" "1") 1 hb rfl⟩

end DecisionTable
