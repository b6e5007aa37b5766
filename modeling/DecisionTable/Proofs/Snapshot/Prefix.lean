import DecisionTable.Proofs.Snapshot.RoundTrip

/-!
# Snapshot — What is read of a payload

A payload is read from the front, and what stands behind its last part is not looked at.  So a
payload that is accepted stays accepted, as the same rule set, with any bytes behind it, and stops
being accepted once it ends before its last part does.

* `Decoder.TakesPrefix`: what a reader reads, it reads off a first part of the bytes, whatever
  follows this part.  Readers that run one after the other take one part after the other
  (`TakesPrefix.bind`).
* `Payload.takesPrefix_decoder`: the reader of payloads does.
* `Snapshot.decode_frame_eq_ok_iff`: a payload is accepted exactly if a numbered rule set stands at
  its front.
* `decode_of_longer_payload`: the part of an accepted payload that matters.
-/

namespace DecisionTable

/-! ### Decoders one after the other -/

namespace Decoder

variable {α β : Type}

/-- What is read is read off a first part of the bytes, whatever follows this part. -/
def TakesPrefix (d : Decoder α) : Prop :=
  ∀ ⦃bs a rest⦄, d bs = some (a, rest) → ∃ taken, bs = taken ++ rest ∧ d.Reads taken a

namespace TakesPrefix

theorem done (a : α) : (Decoder.done a).TakesPrefix := by
  intro bs a' rest h
  obtain ⟨rfl, rfl⟩ := Prod.mk.inj (Option.some.inj h)
  exact ⟨[], rfl, .done a⟩

theorem bind {d : Decoder α} {next : α → Decoder β} (h : d.TakesPrefix)
    (hn : ∀ a, (next a).TakesPrefix) : (d >>= next).TakesPrefix := by
  intro bs b rest hbind
  obtain ⟨a, between, ha, hb⟩ := exists_of_bind hbind
  obtain ⟨taken, rfl, hreads⟩ := h ha
  obtain ⟨taken', rfl, hreads'⟩ := hn a hb
  exact ⟨taken ++ taken', (List.append_assoc taken taken' rest).symm, hreads.bind hreads'⟩

/-- The last part completes the value. -/
theorem last {d : Decoder α} (h : d.TakesPrefix) (f : α → β) :
    (d >>= fun a => Decoder.done (f a)).TakesPrefix :=
  h.bind fun a => done (f a)

theorem repeated {d : Decoder α} (h : d.TakesPrefix) (n : Nat) : (d.repeated n).TakesPrefix := by
  induction n with
  | zero => exact done []
  | succ n ih => exact h.bind fun a => ih.last (fun as => a :: as)

end TakesPrefix

end Decoder

/-! ### Numbers -/

theorem takesPrefix_takeBytes? (count : Nat) : Decoder.TakesPrefix (takeBytes? count) := by
  intro bs taken rest h
  rw [takeBytes?] at h
  split at h
  · next hle =>
    obtain ⟨rfl, rfl⟩ := Prod.mk.inj (Option.some.inj h)
    refine ⟨bs.take count, (List.take_append_drop count bs).symm, ?_⟩
    have hreads := Payload.reads_takeBytes (bs.take count)
    rwa [List.length_take_of_le hle] at hreads
  · cases h

theorem takesPrefix_fixed? (width : Nat) : Decoder.TakesPrefix (fixed? width) := by
  intro bs n rest h
  obtain ⟨⟨bytes, rest'⟩, hbytes, h⟩ := Option.map_eq_some_iff.mp h
  obtain ⟨rfl, rfl⟩ := Prod.mk.inj h
  obtain ⟨taken, rfl, hreads⟩ := takesPrefix_takeBytes? width hbytes
  refine ⟨taken, rfl, fun rest => ?_⟩
  rw [fixed?, hreads rest]
  rfl

theorem Varint.takesPrefix_decode? (maxWidth : Nat) :
    Decoder.TakesPrefix (Varint.decode? maxWidth) := by
  intro bs n rest h
  cases bs with
  | nil => cases h
  | cons b bs =>
      rw [decode?] at h
      split at h
      · next hb =>
        obtain ⟨rfl, rfl⟩ := Prod.mk.inj (Option.some.inj h)
        exact ⟨[b], rfl, fun rest => if_pos hb⟩
      · next hb =>
        obtain ⟨width, hw, h⟩ := Option.bind_eq_some_iff.mp h
        split at h
        · next hle =>
          obtain ⟨taken, rfl, hreads⟩ := takesPrefix_fixed? width h
          refine ⟨b :: taken, rfl, fun rest => ?_⟩
          rw [List.cons_append, decode?, if_neg hb, hw, Option.bind_some, if_pos hle]
          exact hreads rest
        · cases h

namespace Payload

variable {α : Type}

/-! ### Texts, options, lists and maps -/

theorem takesPrefix_getNat : getNat.TakesPrefix :=
  Varint.takesPrefix_decode? 8

theorem takesPrefix_getText : getText.TakesPrefix := by
  refine takesPrefix_getNat.bind fun length => (takesPrefix_takeBytes? length).bind fun bytes => ?_
  intro bs s rest h
  obtain ⟨text, htext, h⟩ := Option.map_eq_some_iff.mp h
  obtain ⟨rfl, rfl⟩ := Prod.mk.inj h
  exact ⟨[], rfl, fun rest => Option.map_eq_some_iff.mpr ⟨text, htext, rfl⟩⟩

theorem takesPrefix_getOption : getOption.TakesPrefix := by
  intro bs o rest h
  rw [getOption.eq_def] at h
  split at h
  · obtain ⟨rfl, rfl⟩ := Prod.mk.inj (Option.some.inj h)
    exact ⟨[0], rfl, fun _ => rfl⟩
  · obtain ⟨⟨s, rest'⟩, hs, h⟩ := Option.map_eq_some_iff.mp h
    obtain ⟨rfl, rfl⟩ := Prod.mk.inj h
    obtain ⟨taken, rfl, hreads⟩ := takesPrefix_getText hs
    refine ⟨1 :: taken, rfl, fun rest => ?_⟩
    exact Option.map_eq_some_iff.mpr ⟨(s, rest), hreads rest, rfl⟩
  · cases h

theorem takesPrefix_getList {get : Decoder α} (h : get.TakesPrefix) : (getList get).TakesPrefix :=
  takesPrefix_getNat.bind h.repeated

theorem takesPrefix_getMap {get : Decoder α} (h : get.TakesPrefix) : (getMap get).TakesPrefix := by
  refine (takesPrefix_getList ?_).last SortedMap.ofList
  exact takesPrefix_getText.bind fun key => h.last fun value => (key, value)

/-! ### Records -/

theorem takesPrefix_getCombinator : getCombinator.TakesPrefix := by
  refine (Varint.takesPrefix_decode? 4).bind fun n => ?_
  split
  · exact .done Combinator.all
  · exact .done Combinator.any
  · intro bs c rest h
    cases h

theorem takesPrefix_getMetadata : getMetadata.TakesPrefix := by
  refine takesPrefix_getText.bind fun _ => ?_
  refine takesPrefix_getOption.bind fun _ => ?_
  refine takesPrefix_getOption.bind fun _ => ?_
  refine takesPrefix_getCombinator.bind fun _ => ?_
  refine takesPrefix_getOption.bind fun _ => ?_
  exact (takesPrefix_getMap takesPrefix_getText).last _

theorem takesPrefix_getCell : getCell.TakesPrefix :=
  takesPrefix_getText.bind fun _ => takesPrefix_getText.last _

theorem takesPrefix_getRule : getRule.TakesPrefix := by
  refine takesPrefix_getText.bind fun _ => ?_
  refine (takesPrefix_getList takesPrefix_getCell).bind fun _ => ?_
  exact (takesPrefix_getList takesPrefix_getCell).last _

theorem takesPrefix_getColumn : getColumn.TakesPrefix :=
  takesPrefix_getOption.bind fun _ => takesPrefix_getOption.last _

/-- **A payload** is read off a first part of the bytes. -/
theorem takesPrefix_decoder : decoder.TakesPrefix := by
  refine takesPrefix_getNat.bind fun _ => ?_
  refine takesPrefix_getNat.bind fun _ => ?_
  refine takesPrefix_getMetadata.bind fun _ => ?_
  refine (takesPrefix_getList takesPrefix_getRule).bind fun _ => ?_
  exact (takesPrefix_getMap takesPrefix_getColumn).last _

end Payload

/-! ### Accepted payloads -/

namespace Snapshot

/-- **A payload is accepted** behind its own header exactly if its length can be stated there and a
numbered rule set stands at its front. -/
theorem decode_frame_eq_ok_iff {payload : List UInt8} {rs : RuleSet} :
    decode (frame payload) = .ok rs ↔ payload.length < 1 <<< 32 ∧ rs.Numbered ∧
      ∃ part rest, payload = part ++ rest ∧ Payload.decoder.Reads part (.ofRuleSet rs) := by
  have hdrop : (frame payload).drop headerSize = payload := List.drop_left' (length_header payload)
  rw [decode_eq_ok_iff]
  constructor
  · rintro ⟨payload', rest, hpayload, hread, hnumbered⟩
    obtain ⟨heq, -, hlt⟩ := of_payload? hpayload
    obtain rfl : payload' = payload := heq.trans hdrop
    obtain ⟨part, happend, hreads⟩ := Payload.takesPrefix_decoder hread
    exact ⟨hlt, hnumbered, part, rest, happend, hreads⟩
  · rintro ⟨hlt, hnumbered, part, rest, rfl, hreads⟩
    exact ⟨part ++ rest, rest, payload?_frame hlt, hreads rest, hnumbered⟩

/-- Accepted bytes are accepted for their payload alone: under its own header, it gives the same
rule set. -/
theorem decode_frame_drop {bs : List UInt8} {rs : RuleSet} (h : decode bs = .ok rs) :
    decode (frame (bs.drop headerSize)) = .ok rs := by
  obtain ⟨payload, rest, hpayload, hread, hnumbered⟩ := decode_eq_ok_iff.mp h
  obtain ⟨rfl, -, hlt⟩ := of_payload? hpayload
  exact decode_eq_ok_iff.mpr ⟨_, rest, payload?_frame hlt, hread, hnumbered⟩

end Snapshot

/-- **The part of a payload that matters.**  If bytes are accepted, then their payload has a first
part that alone decides: every payload that begins with this part and whose length can be stated is
accepted, and as the same rule set; a payload that ends within it is not accepted.  In particular
the payload may have any bytes behind it. -/
theorem decode_of_longer_payload {bs : List UInt8} {rs : RuleSet}
    (h : Snapshot.decode bs = .ok rs) :
    (∀ s, Snapshot.decode (Snapshot.frame (bs.drop Snapshot.headerSize ++ s)) = .ok rs ↔
        (bs.drop Snapshot.headerSize ++ s).length < 1 <<< 32) ∧
      ∃ part, part <+: bs.drop Snapshot.headerSize ∧
        (∀ s, Snapshot.decode (Snapshot.frame (part ++ s)) = .ok rs ↔
          (part ++ s).length < 1 <<< 32) ∧
        ∀ p, p <+: part → p ≠ part → ∀ rs', Snapshot.decode (Snapshot.frame p) ≠ .ok rs' := by
  obtain ⟨-, hnumbered, part, rest, hpayload, hreads⟩ :=
    Snapshot.decode_frame_eq_ok_iff.mp (Snapshot.decode_frame_drop h)
  have hlonger : ∀ s, Snapshot.decode (Snapshot.frame (part ++ s)) = .ok rs ↔
      (part ++ s).length < 1 <<< 32 := by
    intro s
    rw [Snapshot.decode_frame_eq_ok_iff]
    exact ⟨And.left, fun hlt => ⟨hlt, hnumbered, part, s, rfl, hreads⟩⟩
  refine ⟨fun s => ?_, part, ⟨rest, hpayload.symm⟩, hlonger, ?_⟩
  · rw [hpayload, List.append_assoc]
    exact hlonger (rest ++ s)
  · rintro p ⟨missing, rfl⟩ hne rs' hdecode
    obtain ⟨-, -, part', rest', rfl, hreads'⟩ := Snapshot.decode_frame_eq_ok_iff.mp hdecode
    -- what is missing would be left over by a reader that takes all of `part`
    have hread := hreads []
    rw [List.append_nil, List.append_assoc, hreads'] at hread
    obtain ⟨-, hnil⟩ := Prod.mk.inj (Option.some.inj hread)
    obtain ⟨-, rfl⟩ := List.append_eq_nil_iff.mp hnil
    exact hne (List.append_nil _).symm

theorem decode_of_longer_payload_single :
    Snapshot.decode (Snapshot.frame (Payload.ofRuleSet .single).encode) = .ok RuleSet.single ∧
      Snapshot.decode (Snapshot.frame ((Payload.ofRuleSet .single).encode ++ [0, 1])) =
        .ok RuleSet.single := by
  have hdecode : Snapshot.decode (Snapshot.frame (Payload.ofRuleSet .single).encode) =
      .ok RuleSet.single :=
    Snapshot.decode_frame_of_numbered (by decide) (RuleSet.Made.numbered (.built _))
  have hdrop : (Snapshot.frame (Payload.ofRuleSet .single).encode).drop Snapshot.headerSize =
      (Payload.ofRuleSet .single).encode := List.drop_left' (Snapshot.length_header _)
  obtain ⟨hlonger, -⟩ := decode_of_longer_payload hdecode
  rw [hdrop] at hlonger
  exact ⟨hdecode, (hlonger [0, 1]).mpr (by decide)⟩

/-- A payload with a byte behind its last part: accepted bytes need not be the snapshot of a rule
set. -/
theorem decode_accepts_trailing_byte :
    Snapshot.encode RuleSet.single = .ok (Snapshot.frame (Payload.ofRuleSet .single).encode) ∧
      Snapshot.decode (Snapshot.frame (Payload.ofRuleSet .single).encode) = .ok RuleSet.single ∧
      Snapshot.decode (Snapshot.frame ((Payload.ofRuleSet .single).encode ++ [0])) =
        .ok RuleSet.single := by
  have hlt : (Payload.ofRuleSet RuleSet.single).encode.length < 1 <<< 32 := by decide
  have hnumbered : RuleSet.single.Numbered := (RuleSet.Made.built _).numbered
  have hread : Payload.decoder ((Payload.ofRuleSet RuleSet.single).encode ++ [0]) =
      some (.ofRuleSet .single, [0]) := Payload.reads_encode (Nat.lt_trans hlt (by decide)) [0]
  refine ⟨Snapshot.encode_eq_ok_iff.mpr ⟨hlt, rfl⟩,
    Snapshot.decode_frame_of_numbered hlt hnumbered, ?_⟩
  exact Snapshot.decode_eq_ok_iff.mpr
    ⟨_, [0], Snapshot.payload?_frame (by decide), hread, hnumbered⟩

end DecisionTable
