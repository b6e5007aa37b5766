import DecisionTable.Proofs.Snapshot.Header
import DecisionTable.Proofs.Snapshot.Reading

/-!
# Snapshot — Round trip

A snapshot gives back the rule set it was taken of, exactly if its rules are numbered from 1 and
have actions.

* `Snapshot.checkRules_eq_ok_iff`, `Snapshot.validate_ofRuleSet`: the check of a payload passes
  exactly the numbered rule sets.
* `Snapshot.decode_eq_ok_iff`: which bytes are accepted; each gives a numbered rule set.
* `decode_encode`: the round trip.
-/

namespace DecisionTable

namespace Snapshot

/-! ### The check of a payload -/

theorem checkRule_eq_ok_iff {position : Nat} {r : Rule} :
    checkRule position r = .ok () ↔ r.NumberedAt position := by
  rw [checkRule, Rule.NumberedAt]
  by_cases hi : r.index = RuleSet.indexAt position
  · simp [hi, RuleSet.isDefinition_of_index hi]
  · simp [hi]

theorem checkRules_eq_ok_iff {position : Nat} {rules : List Rule} :
    checkRules position rules = .ok () ↔
      ∀ (i : Nat) (r : Rule), rules[i]? = some r → r.NumberedAt (position + i) := by
  induction rules generalizing position with
  | nil => simp [checkRules]
  | cons r rules ih =>
      rw [checkRules]
      constructor
      · intro h
        obtain ⟨_, hr, hrest⟩ := exists_ok_of_bind h
        intro i r' hi
        cases i with
        | zero =>
            obtain rfl : r = r' := Option.some.inj hi
            exact checkRule_eq_ok_iff.mp hr
        | succ i =>
            rw [← Nat.succ_add_eq_add_succ]
            exact ih.mp hrest i r' hi
      · intro h
        have hr : checkRule position r = .ok () := checkRule_eq_ok_iff.mpr (h 0 r rfl)
        rw [hr]
        refine ih.mpr fun i r' hi => ?_
        rw [Nat.succ_add_eq_add_succ]
        exact h (i + 1) r' hi

/-- The counts of the payload of a rule set are right. -/
theorem validate_ofRuleSet (rs : RuleSet) :
    validate (Payload.ofRuleSet rs) = (checkRules 0 rs.rules).map fun _ => rs := by
  rw [validate, Payload.ofRuleSet, if_neg (not_not_intro rfl), if_neg (not_not_intro rfl)]
  cases checkRules 0 rs.rules <;> rfl

/-- The check of the rules asks that the rule set be numbered. -/
theorem checkRules_rules_eq_ok_iff {rs : RuleSet} :
    checkRules 0 rs.rules = .ok () ↔ rs.Numbered := by
  rw [checkRules_eq_ok_iff]
  simp only [Nat.zero_add, RuleSet.Numbered]

/-! ### The round trip -/

/-- A rule set has a snapshot exactly if the length of its payload can be stated in the header. -/
theorem encode_eq_ok_iff {rs : RuleSet} {bs : List UInt8} :
    encode rs = .ok bs ↔ (Payload.ofRuleSet rs).encode.length < 1 <<< 32 ∧
      frame (Payload.ofRuleSet rs).encode = bs := by
  constructor
  · intro h
    rw [encode] at h
    split at h
    · next hlt => exact ⟨hlt, Except.ok.inj h⟩
    · cases h
  · rintro ⟨hlt, rfl⟩
    exact if_pos hlt

/-- What is behind the header is read as a payload, and then checked. -/
theorem decode_eq_validate {bs payload rest : List UInt8} {p : Payload}
    (hp : payload? bs = .ok payload) (hd : Payload.decoder payload = some (p, rest)) :
    decode bs = (validate p).mapError .invalid := by
  simp only [decode, hp, bind, Except.bind, hd]

theorem decode_frame {rs : RuleSet} (h : (Payload.ofRuleSet rs).encode.length < 1 <<< 32) :
    decode (frame (Payload.ofRuleSet rs).encode)
      = ((checkRules 0 rs.rules).map fun _ => rs).mapError .invalid := by
  have hfits : Payload.Fits (Payload.ofRuleSet rs).encode := Nat.lt_trans h (by decide)
  have hread := Payload.reads_encode hfits []
  rw [List.append_nil] at hread
  rw [decode_eq_validate (payload?_frame h) hread, validate_ofRuleSet]

theorem decode_frame_of_numbered {rs : RuleSet}
    (h : (Payload.ofRuleSet rs).encode.length < 1 <<< 32) (hn : rs.Numbered) :
    decode (frame (Payload.ofRuleSet rs).encode) = .ok rs := by
  rw [decode_frame h, checkRules_rules_eq_ok_iff.mpr hn]
  rfl

/-! ### What a snapshot gives -/

/-- A payload that passes the check is that of a numbered rule set. -/
theorem of_validate {p : Payload} {rs : RuleSet} (h : validate p = .ok rs) :
    p = Payload.ofRuleSet rs ∧ rs.Numbered := by
  obtain ⟨hrules, h⟩ := ok_of_check h
  obtain ⟨hcolumns, h⟩ := ok_of_check h
  obtain ⟨_, hnumbered, hrs⟩ := exists_ok_of_bind h
  obtain rfl : p.ruleSet = rs := Except.ok.inj hrs
  refine ⟨?_, checkRules_rules_eq_ok_iff.mp hnumbered⟩
  rw [Payload.ofRuleSet, ← Classical.not_not.mp hrules, ← Classical.not_not.mp hcolumns]

/-- **Bytes are accepted** exactly if the header agrees with a payload at whose front a numbered
rule set can be read. -/
theorem decode_eq_ok_iff {bs : List UInt8} {rs : RuleSet} :
    decode bs = .ok rs ↔ ∃ payload rest, payload? bs = .ok payload ∧
      Payload.decoder payload = some (.ofRuleSet rs, rest) ∧ rs.Numbered := by
  constructor
  · intro h
    obtain ⟨payload, hpayload, h⟩ := exists_ok_of_bind h
    split at h
    · cases h
    · next p rest hread =>
      obtain ⟨rfl, hnumbered⟩ := of_validate (ok_of_mapError h)
      exact ⟨payload, rest, hpayload, hread, hnumbered⟩
  · rintro ⟨payload, rest, hpayload, hread, hnumbered⟩
    rw [decode_eq_validate hpayload hread, validate_ofRuleSet,
      checkRules_rules_eq_ok_iff.mpr hnumbered]
    rfl

theorem numbered_of_decode {bs : List UInt8} {rs : RuleSet} (h : decode bs = .ok rs) :
    rs.Numbered := by
  obtain ⟨_, _, -, -, hnumbered⟩ := decode_eq_ok_iff.mp h
  exact hnumbered

end Snapshot

/-- **Round trip.**  A rule set whose payload fits has a snapshot.  If its rules are numbered from 1
and have actions, the snapshot gives it back; otherwise the snapshot is refused by the check of the
payload.  So it gives back every rule set that comes from a table, a draft or a document. -/
theorem decode_encode (rs : RuleSet) (h : (Payload.ofRuleSet rs).encode.length < 1 <<< 32) :
    ∃ bs, Snapshot.encode rs = .ok bs ∧
      (rs.Numbered → Snapshot.decode bs = .ok rs) ∧
      (¬ rs.Numbered → ∃ fault, Snapshot.decode bs = .error (.invalid fault)) ∧
      (rs.Made → Snapshot.decode bs = .ok rs) := by
  have hnumbered : rs.Numbered →
      Snapshot.decode (Snapshot.frame (Payload.ofRuleSet rs).encode) = .ok rs := by
    intro hn
    rw [Snapshot.decode_frame h, Snapshot.checkRules_rules_eq_ok_iff.mpr hn]
    rfl
  refine ⟨_, if_pos h, hnumbered, fun hn => ?_, fun hm => hnumbered hm.numbered⟩
  rw [Snapshot.decode_frame h]
  cases hc : Snapshot.checkRules 0 rs.rules with
  | error fault => exact ⟨fault, rfl⟩
  | ok _ => exact absurd (Snapshot.checkRules_rules_eq_ok_iff.mp hc) hn

/-- A rule set of one rule. -/
def RuleSet.single : RuleSet :=
  ((RuleSet.Draft.ofId "a").rule [] [⟨"d", "y"⟩]).build

/-- Its rule counted from 0. -/
def RuleSet.miscounted : RuleSet :=
  { RuleSet.single with rules := [⟨"0", [], [⟨"d", "y"⟩]⟩] }

theorem decode_encode_single :
    (∃ bs, Snapshot.encode RuleSet.single = .ok bs ∧ Snapshot.decode bs = .ok RuleSet.single) ∧
      ∃ bs fault, Snapshot.encode RuleSet.miscounted = .ok bs ∧
        Snapshot.decode bs = .error (.invalid fault) := by
  have hsingle : (Payload.ofRuleSet RuleSet.single).encode.length < 1 <<< 32 := by decide
  have hmiscounted : (Payload.ofRuleSet RuleSet.miscounted).encode.length < 1 <<< 32 := by decide
  have hnot : ¬ RuleSet.miscounted.Numbered := fun hn => absurd (hn 0 _ rfl).1 (by decide)
  obtain ⟨bs, he, -, -, hmade⟩ := decode_encode RuleSet.single hsingle
  obtain ⟨bs', he', -, hfault, -⟩ := decode_encode RuleSet.miscounted hmiscounted
  obtain ⟨fault, hd⟩ := hfault hnot
  exact ⟨⟨bs, he, hmade (.built _)⟩, bs', fault, he', hd⟩

end DecisionTable
