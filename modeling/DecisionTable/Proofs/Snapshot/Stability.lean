import DecisionTable.Proofs.Snapshot.RoundTrip

/-!
# Snapshot — Stability

Any bytes that are accepted as a snapshot, also those that are the snapshot of no rule set, give a
rule set that can be saved again: its own snapshot is no longer than the bytes, and gives it back.

* `Snapshot.of_decode`: what is accepted is a numbered rule set, and needs no more bytes.
* `decode_stable`: accepted bytes, decoded, encoded and decoded again.
-/

namespace DecisionTable

namespace Snapshot

/-- **Accepted bytes** give a numbered rule set, and its payload takes no more bytes than stand
behind the header. -/
theorem of_decode {bs : List UInt8} {rs : RuleSet} (h : decode bs = .ok rs) :
    rs.Numbered ∧ headerSize + (Payload.ofRuleSet rs).encode.length ≤ bs.length ∧
      (Payload.ofRuleSet rs).encode.length < 1 <<< 32 := by
  obtain ⟨payload, rest, hpayload, hread, hnumbered⟩ := decode_eq_ok_iff.mp h
  obtain ⟨-, hlength, hlt⟩ := of_payload? hpayload
  have hcovers := Payload.covers_encode hread
  exact ⟨hnumbered, by omega, by omega⟩

end Snapshot

/-- **Every accepted snapshot is stable.**  Whatever the bytes, if they are accepted, then the rule
set that they give is the one of its own rows; it has a snapshot, which is no longer than the bytes;
and this snapshot gives it back. -/
theorem decode_stable {bs : List UInt8} {rs : RuleSet} (h : Snapshot.decode bs = .ok rs) :
    RuleSet.ofRows rs.metadata rs.columns rs.rules = rs ∧
      ∃ again, Snapshot.encode rs = .ok again ∧ again.length ≤ bs.length ∧
        Snapshot.decode again = .ok rs := by
  obtain ⟨hnumbered, hlength, hlt⟩ := Snapshot.of_decode h
  refine ⟨RuleSet.ofRows_of_numbered hnumbered, _, if_pos hlt, ?_, ?_⟩
  · rw [Snapshot.length_frame]
    exact hlength
  · exact Snapshot.decode_frame_of_numbered hlt hnumbered

/-- The payload of a rule set of one rule, with its first count in three bytes where one would do,
and with a byte behind. -/
def Payload.spelledOut : List UInt8 :=
  [251, 1, 0] ++ (Payload.ofRuleSet .single).encode.tail ++ [0]

/-- Bytes that are accepted, though they are the snapshot of no rule set. -/
theorem decode_stable_spelled_out :
    Snapshot.decode (Snapshot.frame Payload.spelledOut) = .ok RuleSet.single ∧
      ∃ again, Snapshot.encode RuleSet.single = .ok again ∧
        again.length ≤ (Snapshot.frame Payload.spelledOut).length ∧
        Snapshot.decode again = .ok RuleSet.single := by
  have hpayload : Snapshot.payload? (Snapshot.frame Payload.spelledOut) = .ok Payload.spelledOut :=
    Snapshot.payload?_frame (by decide)
  have hread : Payload.decoder Payload.spelledOut = some (Payload.ofRuleSet .single, [0]) := rfl
  have hdecode : Snapshot.decode (Snapshot.frame Payload.spelledOut) = .ok RuleSet.single := by
    rw [Snapshot.decode_eq_validate hpayload hread]
    rfl
  exact ⟨hdecode, (decode_stable hdecode).2⟩

end DecisionTable
