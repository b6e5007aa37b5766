import DecisionTable.Engine.Basic
import DecisionTable.RuleSet.Document

/-!
# Engine — Upload

Taking rule sets in, as documents or as snapshots, and giving them out as snapshots.  A batch of
documents is read as a whole before the first of its rule sets is saved.
-/

namespace DecisionTable.Engine

variable {σ : Type}

/-- The blanks of an upload that holds nothing: space, tab, line feed, form feed and carriage
return. -/
def isBlankByte (b : UInt8) : Bool :=
  b == 0x20 || b == 0x09 || b == 0x0A || b == 0x0C || b == 0x0D

/-- Reads an uploaded document. -/
def compile (document : List UInt8) : Except EngineError RuleSet :=
  if document.all isBlankByte then .error .emptyUpload
  else (RuleSet.parseBytes? document).mapError .load

/-- Reads and saves a document. -/
def upload (e : Engine σ) (document : List UInt8) : EngineM σ RuleSet := do
  let rs ← lift (fun e => e) (compile document)
  e.save rs
  return rs

/-- Saves rule sets in order. -/
def saveAll (e : Engine σ) : List RuleSet → EngineM σ Unit
  | [] => pure ()
  | rs :: ruleSets => do
    e.save rs
    e.saveAll ruleSets

/-- Reads documents, and saves them if all of them can be read. -/
def uploadAll (e : Engine σ) (documents : List (List UInt8)) : EngineM σ (List RuleSet) := do
  if documents.isEmpty then throw .emptyUpload
  let ruleSets ← lift (fun e => e) (documents.mapM compile)
  e.saveAll ruleSets
  return ruleSets

/-- Reads and saves a snapshot. -/
def uploadSnapshot (e : Engine σ) (bytes : List UInt8) : EngineM σ RuleSet := do
  let rs ← lift .snapshot (Snapshot.decode bytes)
  e.save rs
  return rs

/-- The snapshots of the rule sets of a class. -/
def exportSnapshots (e : Engine σ) (className : String) : EngineM σ (List (List UInt8)) := do
  let ruleSets ← e.load className
  lift .tooLarge (ruleSets.mapM Snapshot.encode)

end DecisionTable.Engine
