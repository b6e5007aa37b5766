import DecisionTable.Proofs.Engine.Application
import DecisionTable.Proofs.Engine.Upload
import DecisionTable.Proofs.Snapshot.RoundTrip

/-!
# Engine — Transfer of a class

The snapshots of a class carry it from one store to another.

* `Store.Reachable`: the states of a store that starts without rule sets and takes uploads.
* `Store.FromNumbered`: a store that comes from saves of numbered rule sets.  Documents and
  snapshots give numbered rule sets only, so every reachable store is such a one
  (`Reachable.fromNumbered`).
* `Engine.run_exportSnapshots`, `Engine.run_import`: exporting the rule sets of a class, and
  uploading their snapshots.
* `class_transfer`: export, and import into a store without rule sets.
-/

namespace DecisionTable

namespace Engine

/-! ### Uploads give numbered rule sets -/

theorem numbered_of_compile {document : List UInt8} {rs : RuleSet}
    (h : compile document = .ok rs) : rs.Numbered := by
  rw [compile] at h
  split at h
  · cases h
  · exact (RuleSet.made_of_parseBytes? (ok_of_mapError h)).numbered

section Snapshots

variable {bytes : List UInt8} {rs : RuleSet}

theorem run_uploadSnapshot_of_error {σ : Type} {err : SnapshotError}
    (h : Snapshot.decode bytes = .error err) (e : Engine σ) (s : σ) :
    (e.uploadSnapshot bytes).run.run s = (.error (.snapshot err), s) :=
  run_lift_bind_of_error h _ _ s

theorem run_uploadSnapshot_of_ok (h : Snapshot.decode bytes = .ok rs) (config : Config)
    (s : Store) : ((ofMemory config).uploadSnapshot bytes).run.run s = (.ok rs, s.save rs) := by
  rw [uploadSnapshot, run_lift_bind_of_ok h, run_bind_of_ok (run_save_ofMemory config rs s),
    run_pure]

end Snapshots

end Engine

namespace Store

open Engine (ofMemory)

/-- The states that a store without rule sets comes to by uploads of engines over it, also by those
that fail. -/
inductive Reachable : Store → Prop
  | empty : Reachable .empty
  | upload {s : Store} (h : Reachable s) (config : Config) (document : List UInt8) :
      Reachable (((ofMemory config).upload document).run.run s).2
  | uploadAll {s : Store} (h : Reachable s) (config : Config) (documents : List (List UInt8)) :
      Reachable (((ofMemory config).uploadAll documents).run.run s).2
  | uploadSnapshot {s : Store} (h : Reachable s) (config : Config) (bytes : List UInt8) :
      Reachable (((ofMemory config).uploadSnapshot bytes).run.run s).2

/-- The store comes from saves of numbered rule sets. -/
def FromNumbered (s : Store) : Prop :=
  ∃ saves, s = empty.saveAll saves ∧ ∀ rs ∈ saves, rs.Numbered

theorem FromNumbered.saveAll {s : Store} {ruleSets : List RuleSet} (h : s.FromNumbered)
    (hn : ∀ rs ∈ ruleSets, rs.Numbered) : (s.saveAll ruleSets).FromNumbered := by
  obtain ⟨saves, rfl, hsaves⟩ := h
  exact ⟨saves ++ ruleSets, (saveAll_append _ _ _).symm,
    List.forall_mem_append.mpr ⟨hsaves, hn⟩⟩

theorem FromNumbered.save {s : Store} {rs : RuleSet} (h : s.FromNumbered) (hn : rs.Numbered) :
    (s.save rs).FromNumbered :=
  h.saveAll (List.forall_mem_singleton.mpr hn)

/-- **Reachable stores** come from saves of numbered rule sets. -/
theorem Reachable.fromNumbered {s : Store} (h : s.Reachable) : s.FromNumbered := by
  induction h with
  | empty => exact ⟨[], rfl, fun _ h => nomatch h⟩
  | @upload s _ config document ih =>
      cases hc : Engine.compile document with
      | error err => rwa [Engine.run_upload_of_error hc]
      | ok rs =>
          rw [Engine.run_upload_of_ok hc]
          exact ih.save (Engine.numbered_of_compile hc)
  | @uploadAll s _ config documents ih =>
      cases documents with
      | nil => exact ih
      | cons document documents =>
          cases hc : (document :: documents).mapM Engine.compile with
          | error err => rwa [Engine.run_uploadAll_of_error hc]
          | ok ruleSets =>
              rw [Engine.run_uploadAll_of_ok (List.cons_ne_nil _ _) hc]
              refine ih.saveAll fun rs hrs => ?_
              obtain ⟨d, -, hd⟩ := Batch.exists_of_mem_mapM hc hrs
              exact Engine.numbered_of_compile hd
  | @uploadSnapshot s _ config bytes ih =>
      cases hd : Snapshot.decode bytes with
      | error err => rwa [Engine.run_uploadSnapshot_of_error hd]
      | ok rs =>
          rw [Engine.run_uploadSnapshot_of_ok hd]
          exact ih.save (Snapshot.numbered_of_decode hd)

end Store

namespace Engine

/-! ### Export and import -/

section Transfer

variable {ruleSets : List RuleSet}

/-- The snapshot of a rule set whose payload fits. -/
def snapshotOf (rs : RuleSet) : List UInt8 :=
  Snapshot.frame (Payload.ofRuleSet rs).encode

theorem run_exportSnapshots (config : Config) (className : String) {s : Store}
    (hfits : ∀ rs ∈ s.load className, (Payload.ofRuleSet rs).encode.length < 1 <<< 32) :
    ((ofMemory config).exportSnapshots className).run.run s
      = (.ok ((s.load className).map snapshotOf), s) := by
  have hencode : (s.load className).mapM Snapshot.encode
      = .ok ((s.load className).map snapshotOf) := by
    rw [Batch.mapM_eq_ok_iff, List.forall₂_map_right_iff, List.forall₂_same]
    exact fun rs hrs => if_pos (hfits rs hrs)
  rw [exportSnapshots, run_bind_of_ok (run_load_ofMemory config className s), run_lift, hencode]
  rfl

/-- Numbered rule sets come back from their snapshots and are saved in order. -/
theorem run_import (config : Config)
    (hfits : ∀ rs ∈ ruleSets, (Payload.ofRuleSet rs).encode.length < 1 <<< 32)
    (hn : ∀ rs ∈ ruleSets, rs.Numbered) (s : Store) :
    ((ruleSets.map snapshotOf).mapM (ofMemory config).uploadSnapshot).run.run s
      = (.ok ruleSets, s.saveAll ruleSets) := by
  refine run_mapM_of_saves ?_ s
  rw [List.forall₂_map_left_iff, List.forall₂_same]
  exact fun rs hrs => run_uploadSnapshot_of_ok
    (Snapshot.decode_frame_of_numbered (hfits rs hrs) (hn rs hrs)) config

end Transfer

/-- **Snapshots carry a class.**  From every store that uploads can lead to, the snapshots of a class
whose payloads fit can be exported.  Uploading them in order to a store without rule sets never
fails; that store then lists the same rule sets in the same order for the class, and none for any
other class.  So applying the rule sets of the class has the same outcome over both stores. -/
theorem class_transfer {s : Store} (hs : s.Reachable) (className : String)
    (hfits : ∀ rs ∈ s.load className, (Payload.ofRuleSet rs).encode.length < 1 <<< 32)
    (source target : Config) :
    ∃ snapshots s',
      ((ofMemory source).exportSnapshots className).run.run s = (.ok snapshots, s) ∧
      (snapshots.mapM (ofMemory target).uploadSnapshot).run.run Store.empty
        = (.ok (s.load className), s') ∧
      s'.load className = s.load className ∧
      (∀ other, other ≠ className → s'.load other = []) ∧
      ∀ (config : Config) (facts : List Fact),
        (((ofMemory config).applyDirect className facts).run.run s').1
          = (((ofMemory config).applyDirect className facts).run.run s).1 ∧
        (((ofMemory config).applyViaNetwork className facts).run.run s').1
          = (((ofMemory config).applyViaNetwork className facts).run.run s).1 := by
  obtain ⟨saves, rfl, hnumbered⟩ := hs.fromNumbered
  have hn : ∀ rs ∈ (Store.empty.saveAll saves).load className, rs.Numbered := fun rs hrs =>
    hnumbered rs (Store.mem_saves_of_mem_load hrs)
  have hclass : ∀ rs ∈ (Store.empty.saveAll saves).load className,
      rs.metadata.classKey = className := fun rs => Store.classKey_of_mem_load
  have hsame := Store.load_saveAll_of_nodup (s := Store.empty) hclass
    (Store.nodup_load saves className)
  rw [Store.load_empty, List.nil_append] at hsame
  refine ⟨_, _, run_exportSnapshots source className hfits, run_import target hfits hn _, hsame,
    fun other hne => Store.load_saveAll_of_ne hclass hne.symm, fun config facts => ?_⟩
  have hload := run_load_ofMemory config className (Store.empty.saveAll saves)
  have hload' := run_load_ofMemory config className
    (Store.empty.saveAll ((Store.empty.saveAll saves).load className))
  rw [hsame] at hload'
  rw [run_applyDirect hload, run_applyDirect hload', run_applyViaNetwork hload,
    run_applyViaNetwork hload']
  exact ⟨rfl, rfl⟩

/-- A store after an upload that fails and one that does not. -/
def sampleStore : Store :=
  let blank := ((ofMemory .default).upload [0x20]).run.run Store.empty
  (((ofMemory .default).upload (sampleDocument "1")).run.run blank.2).2

theorem class_transfer_sample :
    sampleStore.Reachable ∧ (sampleStore.load "a").map RuleSet.id = ["a"] ∧
      ∃ snapshots s',
        ((ofMemory .default).exportSnapshots "a").run.run sampleStore
          = (.ok snapshots, sampleStore) ∧
        (snapshots.mapM (ofMemory .default).uploadSnapshot).run.run Store.empty
          = (.ok (sampleStore.load "a"), s') ∧
        s'.load "a" = sampleStore.load "a" ∧ s'.load "b" = [] := by
  have hreachable : sampleStore.Reachable :=
    .upload (.upload .empty .default [0x20]) .default (sampleDocument "1")
  have hfits : ∀ rs ∈ sampleStore.load "a",
      (Payload.ofRuleSet rs).encode.length < 1 <<< 32 := by decide +kernel
  have hids : (sampleStore.load "a").map RuleSet.id = ["a"] := by decide +kernel
  obtain ⟨snapshots, s', hexport, himport, hsame, hother, -⟩ :=
    class_transfer hreachable "a" hfits .default .default
  exact ⟨hreachable, hids, snapshots, s', hexport, himport, hsame, hother "b" (by decide)⟩

end Engine

end DecisionTable
