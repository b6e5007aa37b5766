import DecisionTable.Blake3.Tree
import DecisionTable.Snapshot.Payload

/-!
# Snapshot — Basic

A rule set in bytes: a header of 32 bytes and the payload.  The header holds the magic bytes, the
version of the format, the version of the engine, flags, the length of the payload and the first
half of its digest.  `Snapshot.decode` checks the size, the magic bytes, the format, the length and
the digest in this order, reads the payload, and then asks that its rules be numbered from 1 and
have actions; the version of the engine and the flags may be anything.
-/

namespace DecisionTable

/-- Why a payload that can be read is not one of a rule set. -/
inductive PayloadFault where
  | ruleCount (stated actual : Nat)
  | columnCount (stated actual : Nat)
  | ruleIndex (position : Nat) (index expected : String)
  | definitionRow (index : String)
  | noAction (index : String)
  deriving DecidableEq

/-- The wording of a fault. -/
def PayloadFault.message : PayloadFault → String
  | .ruleCount stated actual =>
    "header says " ++ Number.decimal stated ++ " rules but payload has " ++ Number.decimal actual
  | .columnCount stated actual =>
    "header says " ++ Number.decimal stated ++ " columns but payload has " ++ Number.decimal actual
  | .ruleIndex position index expected =>
    "rule at position " ++ Number.decimal position ++ " has index '" ++ index ++ "', expected '"
      ++ expected ++ "'"
  | .definitionRow index => "definition row stored as rule " ++ index
  | .noAction index => "rule " ++ index ++ " has no action"

/-- Why bytes are not a snapshot. -/
inductive SnapshotError where
  | badMagic
  | incompatibleVersion (blob : Nat)
  | checksumMismatch
  | lengthMismatch (expected actual : Nat)
  | unreadable
  | invalid (fault : PayloadFault)
  deriving DecidableEq

/-- Why a rule set has no snapshot: its payload has too many bytes. -/
inductive SnapshotTooLarge where
  | tooLarge (size : Nat)
  deriving DecidableEq

/-- The wording of a refusal. -/
def SnapshotTooLarge.message : SnapshotTooLarge → String
  | .tooLarge size => "rule set too large to snapshot: " ++ Number.decimal size ++ " bytes"

namespace Snapshot

/-- The first bytes of a snapshot. -/
def magic : List UInt8 := [0x52, 0x47, 0x52, 0x44]

/-- The version of the format. -/
def formatVersion : Nat := 1

/-- The version of the engine. -/
def engineVersion : Nat := 1

/-- The size of the header. -/
def headerSize : Nat := 32

/-- The part of the digest that the header holds. -/
def checksum (payload : List UInt8) : List UInt8 :=
  (Blake3.digest payload).take 16

theorem length_checksum (payload : List UInt8) : (checksum payload).length = 16 := by
  simp [checksum, Blake3.length_digest]

/-- The header of a payload. -/
def header (payload : List UInt8) : List UInt8 :=
  magic ++ littleEndian 2 formatVersion ++ littleEndian 2 engineVersion ++ littleEndian 4 0
    ++ littleEndian 4 payload.length ++ checksum payload

theorem length_header (payload : List UInt8) : (header payload).length = headerSize := by
  simp [header, magic, headerSize, length_checksum]

/-- A payload behind its header. -/
def frame (payload : List UInt8) : List UInt8 :=
  header payload ++ payload

/-- The snapshot of a rule set. -/
def encode (rs : RuleSet) : Except SnapshotTooLarge (List UInt8) :=
  let payload := (Payload.ofRuleSet rs).encode
  if payload.length < 1 <<< 32 then .ok (frame payload) else .error (.tooLarge payload.length)

/-- Checks a rule at its position. -/
def checkRule (position : Nat) (r : Rule) : Except PayloadFault Unit :=
  let expected := RuleSet.indexAt position
  if r.index ≠ expected then .error (.ruleIndex position r.index expected)
  else if r.isDefinition then .error (.definitionRow expected)
  else if !r.hasAction then .error (.noAction expected)
  else .ok ()

/-- Checks rules, the first of them at a position. -/
def checkRules (position : Nat) : List Rule → Except PayloadFault Unit
  | [] => .ok ()
  | r :: rules => do
    checkRule position r
    checkRules (position + 1) rules

/-- The rule set of a payload, if the counts are right and the rules are numbered and have
actions. -/
def validate (p : Payload) : Except PayloadFault RuleSet := do
  if p.ruleCount ≠ p.ruleSet.rules.length then
    throw (.ruleCount p.ruleCount p.ruleSet.rules.length)
  if p.columnCount ≠ p.ruleSet.columns.size then
    throw (.columnCount p.columnCount p.ruleSet.columns.size)
  checkRules 0 p.ruleSet.rules
  return p.ruleSet

/-- The bytes of a part of the header. -/
def field (bs : List UInt8) (start length : Nat) : List UInt8 :=
  (bs.drop start).take length

/-- The payload of a snapshot, once the header agrees with it. -/
def payload? (bs : List UInt8) : Except SnapshotError (List UInt8) :=
  let version := ofLittleEndian (field bs 4 2)
  let length := ofLittleEndian (field bs 12 4)
  let payload := bs.drop headerSize
  if bs.length < headerSize then .error (.lengthMismatch headerSize bs.length)
  else if field bs 0 4 ≠ magic then .error .badMagic
  else if version ≠ formatVersion then .error (.incompatibleVersion version)
  else if payload.length ≠ length then .error (.lengthMismatch length payload.length)
  else if checksum payload ≠ field bs 16 16 then .error .checksumMismatch
  else .ok payload

/-- The rule set of a snapshot. -/
def decode (bs : List UInt8) : Except SnapshotError RuleSet := do
  let payload ← payload? bs
  match Payload.decoder payload with
  | none => throw .unreadable
  | some (p, _) => (validate p).mapError .invalid

end Snapshot

/-- The wording of a refusal. -/
def SnapshotError.message : SnapshotError → String
  | .badMagic => "not a rule set snapshot: invalid magic bytes"
  | .incompatibleVersion blob =>
    "incompatible format version: blob is v" ++ Number.decimal blob ++ ", engine supports v"
      ++ Number.decimal Snapshot.formatVersion
  | .checksumMismatch => "integrity check failed: BLAKE3 checksum mismatch"
  | .lengthMismatch expected actual =>
    "payload length mismatch: expected " ++ Number.decimal expected ++ " bytes, got "
      ++ Number.decimal actual
  | .unreadable => "failed to decode payload"
  | .invalid fault => "validation failed: " ++ fault.message

end DecisionTable
