import DecisionTable.Engine.Application
import DecisionTable.Engine.Upload
import DecisionTable.Proofs.Batch
import DecisionTable.Proofs.Engine.History

/-!
# Engine — Uploads

Uploads are all or nothing, and all other operations only read.

* `readOnly_applyDetailed` and its like: over a store whose loads only read, so do the operations
  that begin with a load.
* `Engine.refusing`: an engine over a store in memory that refuses loads, saves or both.  Its
  uploads are atomic, for a batch is saved as a whole or not at all (`atomic_saveAll`).
* `Engine.Rejected`: a document that is blank or malformed.  The first such document decides a batch
  (`Batch.mapM_of_first_error`); without one, a batch is the uploads of its documents one by one
  (`run_mapM_of_saves`).
* `service_all_or_nothing`: failed calls leave the store as it was, and a batch is its single
  uploads.
-/

namespace DecisionTable

namespace Engine

/-! ### Operations that only read -/

section Reading

variable {σ : Type} {e : Engine σ} (hload : ∀ className, ReadOnly (e.load className))

include hload

theorem readOnly_applyDetailed (className : String) (facts : List Fact) :
    ReadOnly (e.applyDetailed className facts) := by
  refine (hload className).bind fun ruleSets => ?_
  split
  · exact .pure _
  · exact .lift _ _

theorem readOnly_applyDirect (className : String) (facts : List Fact) :
    ReadOnly (e.applyDirect className facts) :=
  (readOnly_applyDetailed hload className facts).bind fun _ => .pure _

theorem readOnly_applyViaNetwork (className : String) (facts : List Fact) :
    ReadOnly (e.applyViaNetwork className facts) := by
  refine (hload className).bind fun ruleSets => ?_
  split
  · exact .pure _
  · exact (ReadOnly.lift _ _).bind fun _ => .pure _

theorem readOnly_apply (className : String) (facts : List Fact) :
    ReadOnly (e.apply className facts) := by
  rw [apply]
  split
  · exact readOnly_applyDirect hload className facts
  · exact readOnly_applyViaNetwork hload className facts

theorem readOnly_exportSnapshots (className : String) : ReadOnly (e.exportSnapshots className) :=
  (hload className).bind fun _ => .lift _ _

end Reading

/-! ### Stores that refuse -/

/-- An engine over a store in memory that refuses every load or save for which a refusal is
given. -/
def refusing (config : Config) (onLoad onSave : Option StoreError) : Engine Store :=
  ⟨Store.backend.failing onLoad onSave, config⟩

/-- Without refusals it is the engine over the store in memory. -/
theorem refusing_none (config : Config) : refusing config none none = ofMemory config :=
  rfl

/-- A batch of documents is read as a whole before the first of its rule sets is saved. -/
theorem uploadAll_cons {σ : Type} (e : Engine σ) (document : List UInt8)
    (documents : List (List UInt8)) :
    e.uploadAll (document :: documents) = (do
      let ruleSets ← lift (fun err => err) ((document :: documents).mapM compile)
      e.saveAll ruleSets
      return ruleSets) :=
  rfl

section Refusing

variable (config : Config) (onLoad onSave : Option StoreError)

theorem readOnly_load_refusing (className : String) :
    ReadOnly ((refusing config onLoad onSave).load className) := by
  cases onLoad <;> exact fun _ => rfl

theorem run_save_refusing (rs : RuleSet) (s : Store) (refusal : StoreError) :
    ((refusing config onLoad (some refusal)).save rs).run.run s = (.error (.store refusal), s) :=
  rfl

theorem run_saveAll (ruleSets : List RuleSet) (s : Store) :
    ((refusing config onLoad none).saveAll ruleSets).run.run s
      = (.ok (), s.saveAll ruleSets) := by
  induction ruleSets generalizing s with
  | nil => rfl
  | cons rs ruleSets ih =>
      have hsave : ((refusing config onLoad none).save rs).run.run s = (.ok (), s.save rs) := rfl
      rw [saveAll, run_bind_of_ok hsave, ih]
      rfl

theorem atomic_save (rs : RuleSet) : Atomic ((refusing config onLoad onSave).save rs) := by
  intro s s' err h
  cases onSave with
  | none => cases h
  | some refusal =>
      rw [run_save_refusing] at h
      exact (Prod.mk.inj h).2.symm

/-- **A batch is saved as a whole or not at all**: no save fails, or the first one does. -/
theorem atomic_saveAll (ruleSets : List RuleSet) :
    Atomic ((refusing config onLoad onSave).saveAll ruleSets) := by
  intro s s' err h
  cases onSave with
  | none =>
      rw [run_saveAll] at h
      cases h
  | some refusal =>
      cases ruleSets with
      | nil => cases h
      | cons rs ruleSets =>
          rw [saveAll, run_bind_of_error (run_save_refusing config onLoad rs s refusal)] at h
          exact (Prod.mk.inj h).2.symm

theorem atomic_upload (document : List UInt8) :
    Atomic ((refusing config onLoad onSave).upload document) :=
  .bind (.lift _ _) fun rs => (atomic_save config onLoad onSave rs).result fun _ => rs

theorem atomic_uploadAll (documents : List (List UInt8)) :
    Atomic ((refusing config onLoad onSave).uploadAll documents) := by
  cases documents with
  | nil => exact (ReadOnly.throw .emptyUpload).atomic
  | cons document documents =>
      rw [uploadAll_cons]
      exact .bind (.lift _ _) fun ruleSets =>
        (atomic_saveAll config onLoad onSave ruleSets).result fun _ => ruleSets

theorem atomic_uploadSnapshot (bytes : List UInt8) :
    Atomic ((refusing config onLoad onSave).uploadSnapshot bytes) :=
  .bind (.lift _ _) fun rs => (atomic_save config onLoad onSave rs).result fun _ => rs

end Refusing

/-! ### Documents -/

/-- The document is blank or malformed. -/
def Rejected (document : List UInt8) : Prop :=
  document.all isBlankByte = true ∨ ∃ err, RuleSet.parseBytes? document = .error err

theorem rejected_iff {document : List UInt8} :
    Rejected document ↔ ∃ err, compile document = .error err := by
  rw [Rejected, compile]
  by_cases hb : document.all isBlankByte = true
  · rw [if_pos hb]
    exact ⟨fun _ => ⟨_, rfl⟩, fun _ => .inl hb⟩
  · rw [if_neg hb, or_iff_right hb]
    cases RuleSet.parseBytes? document with
    | error err => exact ⟨fun _ => ⟨_, rfl⟩, fun _ => ⟨err, rfl⟩⟩
    | ok rs =>
        constructor
        · rintro ⟨_, h⟩
          cases h
        · rintro ⟨_, h⟩
          cases h

theorem exists_compile_iff {document : List UInt8} :
    (∃ rs, compile document = .ok rs) ↔ ¬ Rejected document := by
  rw [rejected_iff]
  cases compile document with
  | error err => exact ⟨fun ⟨_, h⟩ => (nomatch h), fun h => absurd ⟨err, rfl⟩ h⟩
  | ok rs => exact ⟨fun _ ⟨_, h⟩ => (nomatch h), fun _ => ⟨rs, rfl⟩⟩

instance (document : List UInt8) : Decidable (Rejected document) :=
  decidable_of_iff ((compile document).isOk = false) <| by
    rw [rejected_iff]
    cases compile document with
    | error err => exact iff_of_true rfl ⟨err, rfl⟩
    | ok rs => exact iff_of_false Bool.noConfusion fun ⟨_, h⟩ => (nomatch h)

section Documents

variable {document : List UInt8} {documents : List (List UInt8)} {err : EngineError}

theorem run_upload_of_error {σ : Type} (h : compile document = .error err) (e : Engine σ) (s : σ) :
    (e.upload document).run.run s = (.error err, s) :=
  run_lift_bind_of_error h _ _ s

theorem run_upload_of_ok {rs : RuleSet} (h : compile document = .ok rs) (config : Config)
    (s : Store) : ((ofMemory config).upload document).run.run s = (.ok rs, s.save rs) := by
  rw [upload, run_lift_bind_of_ok h, run_bind_of_ok (run_save_ofMemory config rs s), run_pure]

theorem run_uploadAll_of_error {σ : Type} (h : documents.mapM compile = .error err)
    (e : Engine σ) (s : σ) : (e.uploadAll documents).run.run s = (.error err, s) := by
  cases documents with
  | nil => cases h
  | cons document documents =>
      rw [uploadAll_cons]
      exact run_lift_bind_of_error h _ _ s

theorem run_uploadAll_of_ok {ruleSets : List RuleSet} (hne : documents ≠ [])
    (h : documents.mapM compile = .ok ruleSets) (config : Config) (s : Store) :
    ((ofMemory config).uploadAll documents).run.run s = (.ok ruleSets, s.saveAll ruleSets) := by
  cases documents with
  | nil => exact absurd rfl hne
  | cons document documents =>
      have hsave := run_saveAll config none ruleSets s
      rw [refusing_none] at hsave
      rw [uploadAll_cons, run_lift_bind_of_ok h, run_bind_of_ok hsave, run_pure]

end Documents

/-- **Single saves in turn.**  If each operation of a list saves a rule set and gives it back, then
all of them together save the rule sets in order and give them back. -/
theorem run_mapM_of_saves {α : Type} {upload : α → EngineM Store RuleSet} {as : List α}
    {ruleSets : List RuleSet}
    (h : List.Forall₂ (fun a rs => ∀ s, (upload a).run.run s = (.ok rs, s.save rs)) as ruleSets)
    (s : Store) : (as.mapM upload).run.run s = (.ok ruleSets, s.saveAll ruleSets) := by
  induction h generalizing s with
  | nil => rfl
  | @cons a rs as ruleSets ha _ ih =>
      rw [List.mapM_cons, run_bind_of_ok (ha s), run_bind_of_ok (ih (s.save rs)), run_pure]
      rfl

/-! ### Batches of documents -/

section Batches

variable {documents : List (List UInt8)}

/-- **A batch fails** if one of its documents is rejected. -/
theorem uploadAll_fails_iff (hne : documents ≠ []) (config : Config) (s : Store) :
    (∃ err s', ((ofMemory config).uploadAll documents).run.run s = (.error err, s')) ↔
      ∃ document ∈ documents, Rejected document := by
  have hread : (∃ ruleSets, documents.mapM compile = .ok ruleSets) ↔
      ∀ document ∈ documents, ¬ Rejected document := by
    simp only [Batch.exists_mapM_eq_ok_iff, exists_compile_iff]
  cases hc : documents.mapM compile with
  | error err =>
      have hsome : ∃ document ∈ documents, Rejected document := by
        by_contra hnone
        obtain ⟨ruleSets, h⟩ := hread.mpr fun d hd hr => hnone ⟨d, hd, hr⟩
        rw [hc] at h
        cases h
      exact iff_of_true ⟨err, s, run_uploadAll_of_error hc _ s⟩ hsome
  | ok ruleSets =>
      have hnone : ¬ ∃ document ∈ documents, Rejected document := fun ⟨d, hd, hr⟩ =>
        hread.mp ⟨ruleSets, hc⟩ d hd hr
      refine iff_of_false ?_ hnone
      rintro ⟨err, s', h⟩
      rw [run_uploadAll_of_ok hne hc] at h
      cases h

/-- **The first rejected document** fails the batch as it fails alone. -/
theorem uploadAll_of_first_rejected {before : List (List UInt8)} {document : List UInt8}
    (hbefore : ∀ d ∈ before, ¬ Rejected d) (hdocument : Rejected document)
    (after : List (List UInt8)) (config : Config) (s : Store) :
    ∃ err, ((ofMemory config).upload document).run.run s = (.error err, s) ∧
      ((ofMemory config).uploadAll (before ++ document :: after)).run.run s = (.error err, s) := by
  obtain ⟨err, herr⟩ := rejected_iff.mp hdocument
  have hfirst := Batch.mapM_of_first_error
    (fun d hd => exists_compile_iff.mpr (hbefore d hd)) herr after
  exact ⟨err, run_upload_of_error herr _ s, run_uploadAll_of_error hfirst _ s⟩

/-- **Without rejected documents** a batch is the uploads of its documents one by one. -/
theorem uploadAll_of_accepted (hne : documents ≠ [])
    (h : ∀ document ∈ documents, ¬ Rejected document) (config : Config) (s : Store) :
    ∃ ruleSets,
      ((ofMemory config).uploadAll documents).run.run s = (.ok ruleSets, s.saveAll ruleSets) ∧
      (documents.mapM (ofMemory config).upload).run.run s
        = (.ok ruleSets, s.saveAll ruleSets) := by
  obtain ⟨ruleSets, hread⟩ :=
    Batch.exists_mapM_eq_ok_iff.mpr fun d hd => exists_compile_iff.mpr (h d hd)
  have hsaves := (Batch.mapM_eq_ok_iff.mp hread).imp fun d rs hd => run_upload_of_ok hd config
  exact ⟨ruleSets, run_uploadAll_of_ok hne hread config s, run_mapM_of_saves hsaves s⟩

end Batches

/-- **All or nothing.**  Over a store in memory, also one that refuses loads or saves, an upload of
a document, of a batch or of a snapshot that fails leaves the store as it was, and applying rule
sets or exporting them leaves it as it was in any case.  A batch over a working store fails exactly
if one of its documents is blank or malformed, as the upload of the first such document alone does;
otherwise it gives the rule sets and ends in the store that the uploads of its documents one by one
give, where the last rule set of a class and an id counts. -/
theorem service_all_or_nothing (config : Config) :
    (∀ onLoad onSave : Option StoreError,
      let e := refusing config onLoad onSave
      (∀ document, Atomic (e.upload document)) ∧ (∀ documents, Atomic (e.uploadAll documents)) ∧
      (∀ bytes, Atomic (e.uploadSnapshot bytes)) ∧
      ∀ className, ReadOnly (e.exportSnapshots className) ∧
        ∀ facts, ReadOnly (e.applyDetailed className facts) ∧
          ReadOnly (e.applyDirect className facts) ∧
          ReadOnly (e.applyViaNetwork className facts) ∧ ReadOnly (e.apply className facts)) ∧
    ∀ (documents : List (List UInt8)) (s : Store), documents ≠ [] →
      let e := ofMemory config
      ((∃ err s', (e.uploadAll documents).run.run s = (.error err, s')) ↔
        ∃ document ∈ documents, Rejected document) ∧
      (∀ before document after, documents = before ++ document :: after →
        (∀ d ∈ before, ¬ Rejected d) → Rejected document →
        ∃ err, (e.upload document).run.run s = (.error err, s) ∧
          (e.uploadAll documents).run.run s = (.error err, s)) ∧
      ((∀ document ∈ documents, ¬ Rejected document) →
        ∃ ruleSets s', (e.uploadAll documents).run.run s = (.ok ruleSets, s') ∧
          (documents.mapM e.upload).run.run s = (.ok ruleSets, s') ∧
          ∀ saves, s = Store.empty.saveAll saves → ∀ className,
            Store.Lists (Store.ofClass className (saves ++ ruleSets)) (s'.load className)) := by
  constructor
  · intro onLoad onSave
    have hload := readOnly_load_refusing config onLoad onSave
    exact ⟨atomic_upload config onLoad onSave, atomic_uploadAll config onLoad onSave,
      atomic_uploadSnapshot config onLoad onSave, fun className =>
        ⟨readOnly_exportSnapshots hload className, fun facts =>
          ⟨readOnly_applyDetailed hload className facts, readOnly_applyDirect hload className facts,
            readOnly_applyViaNetwork hload className facts, readOnly_apply hload className facts⟩⟩⟩
  · intro documents s hne
    refine ⟨uploadAll_fails_iff hne config s, ?_, fun h => ?_⟩
    · rintro before document after rfl hbefore hdocument
      exact uploadAll_of_first_rejected hbefore hdocument after config s
    · obtain ⟨ruleSets, hbatch, hsingle⟩ := uploadAll_of_accepted hne h config s
      refine ⟨ruleSets, s.saveAll ruleSets, hbatch, hsingle, ?_⟩
      rintro saves rfl className
      rw [← Store.saveAll_append]
      exact Store.lists_saveAll _ className

/-- The text of a document without rules. -/
def sampleDocument (version : String) : List UInt8 :=
  Text.Utf8.encode (Json.object [
    ("Metadata", .object [("Id", .text "a"), ("ConditionsOperator", .text "AND"),
      ("Version", .text version)]),
    ("Rules", .array [])]).render

/-- A batch with a blank document in the middle, and one that has an id twice. -/
theorem service_all_or_nothing_samples :
    Rejected [0x20] ∧ ¬ Rejected (sampleDocument "1") ∧ ¬ Rejected (sampleDocument "2") ∧
      (∃ err, ((ofMemory .default).upload [0x20]).run.run Store.empty
          = (.error err, Store.empty) ∧
        ((ofMemory .default).uploadAll [sampleDocument "1", [0x20], []]).run.run Store.empty
          = (.error err, Store.empty)) ∧
      ∃ ruleSets s',
        ((ofMemory .default).uploadAll [sampleDocument "1", sampleDocument "2"]).run.run Store.empty
          = (.ok ruleSets, s') ∧
        ([sampleDocument "1", sampleDocument "2"].mapM (ofMemory .default).upload).run.run
          Store.empty = (.ok ruleSets, s') ∧
        Store.Lists (Store.ofClass "a" ruleSets) (s'.load "a") := by
  have hblank : Rejected [0x20] := by decide
  have h₁ : ¬ Rejected (sampleDocument "1") := by decide +kernel
  have h₂ : ¬ Rejected (sampleDocument "2") := by decide +kernel
  obtain ⟨-, hbatch⟩ := service_all_or_nothing .default
  obtain ⟨-, hfirst, -⟩ :=
    hbatch [sampleDocument "1", [0x20], []] Store.empty (List.cons_ne_nil _ _)
  obtain ⟨-, -, hall⟩ :=
    hbatch [sampleDocument "1", sampleDocument "2"] Store.empty (List.cons_ne_nil _ _)
  have hboth : ∀ d ∈ [sampleDocument "1", sampleDocument "2"], ¬ Rejected d := by simp [h₁, h₂]
  obtain ⟨ruleSets, s', hrun, hsingle, hlists⟩ := hall hboth
  exact ⟨hblank, h₁, h₂, hfirst [sampleDocument "1"] [0x20] [[]] rfl (by simp [h₁]) hblank,
    ruleSets, s', hrun, hsingle, hlists [] rfl "a"⟩

end Engine

end DecisionTable
