import DecisionTable.Proofs.Snapshot.RoundTrip

/-!
# Snapshot — Changed headers, missing and additional bytes

What the snapshot of a rule set gives once its header is changed, its end is cut off or bytes are
put behind it.

* `Snapshot.stated_length`: the header states the number of bytes behind it.
* `Snapshot.decode_of_drop_eq`: any header in front of the payload.
* `Snapshot.decode_header_append`: the header in front of more or fewer bytes than it states.
* `Snapshot.decode_of_prefix`: a snapshot that was cut off, within its header or behind it.
* `decode_of_tampered`: all of these changes, with the error that each leads to.
-/

namespace DecisionTable

namespace Snapshot

theorem decode_eq_error {bs : List UInt8} {e : SnapshotError} (h : payload? bs = .error e) :
    decode bs = .error e := by
  rw [decode, h]
  rfl

/-- The header counts only for the payload that is found behind it. -/
theorem decode_congr {bs bs' : List UInt8} (h : payload? bs = payload? bs') :
    decode bs = decode bs' := by
  rw [decode, decode, h]

variable {payload : List UInt8} (h : payload.length < 1 <<< 32)

include h

theorem stated_length : ofLittleEndian (field (frame payload) 12 4) = payload.length := by
  rw [frame, field_header_length, ofLittleEndian_littleEndian h]

/-! ### Changed headers -/

/-- **Any header** in front of the payload: the first of its parts that was changed decides, in the
order of the magic bytes, the format, the length and the digest. -/
theorem decode_of_drop_eq {bs : List UInt8} (hlength : bs.length = (frame payload).length)
    (hdrop : bs.drop headerSize = payload) :
    decode bs =
      if field bs 0 4 ≠ field (frame payload) 0 4 then .error .badMagic
      else if field bs 4 2 ≠ field (frame payload) 4 2 then
        .error (.incompatibleVersion (ofLittleEndian (field bs 4 2)))
      else if field bs 12 4 ≠ field (frame payload) 12 4 then
        .error (.lengthMismatch (ofLittleEndian (field bs 12 4)) payload.length)
      else if field bs 16 16 ≠ field (frame payload) 16 16 then .error .checksumMismatch
      else decode (frame payload) := by
  have hpayload := payload?_of_drop_eq h hlength hdrop
  split_ifs at hpayload ⊢
  · exact decode_eq_error hpayload
  · exact decode_eq_error hpayload
  · exact decode_eq_error hpayload
  · exact decode_eq_error hpayload
  · exact decode_congr (hpayload.trans (payload?_frame h).symm)

/-! ### Missing and additional bytes -/

/-- **The header** in front of more or fewer bytes than it states. -/
theorem decode_header_append {tail : List UInt8} (hne : tail.length ≠ payload.length) :
    decode (header payload ++ tail) = .error (.lengthMismatch payload.length tail.length) := by
  refine decode_eq_error ?_
  rw [payload?_header_append h, if_pos hne]

/-- **A snapshot that was cut off.** -/
theorem decode_of_prefix {bs : List UInt8} (hcut : bs <+: frame payload)
    (hne : bs ≠ frame payload) :
    decode bs = .error (if bs.length < headerSize then .lengthMismatch headerSize bs.length
      else .lengthMismatch payload.length (bs.length - headerSize)) := by
  split
  · next hshort => exact decode_eq_error (payload?_of_short hshort)
  · next hsize =>
    -- the whole header is left, and less than the payload behind it
    have hheader : header payload <+: bs := by
      refine List.prefix_of_prefix_length_le (List.prefix_append _ payload) hcut ?_
      rw [length_header]
      exact Nat.not_lt.mp hsize
    obtain ⟨tail, rfl⟩ := hheader
    have htail : tail.length ≠ payload.length := by
      intro heq
      refine hne (hcut.eq_of_length ?_)
      rw [frame, List.length_append, List.length_append, heq]
    rw [decode_header_append h htail, List.length_append, length_header, Nat.add_sub_cancel_left]

/-- **Bytes behind a snapshot.** -/
theorem decode_frame_append {more : List UInt8} (hmore : more ≠ []) :
    decode (frame payload ++ more) =
      .error (.lengthMismatch payload.length ((frame payload ++ more).length - headerSize)) := by
  have hlength : (payload ++ more).length = (frame payload ++ more).length - headerSize := by
    rw [List.length_append, List.length_append, length_frame]
    omega
  have hne : (payload ++ more).length ≠ payload.length := by
    rw [List.length_append]
    exact Nat.ne_of_gt (Nat.lt_add_of_pos_right (List.length_pos_iff.mpr hmore))
  rw [← hlength, frame, List.append_assoc]
  exact decode_header_append h hne

end Snapshot

/-- **Changes to a snapshot are detected**, with the error that tells which.  Take the snapshot of a
numbered rule set.

If it is changed within the header only, then the first part of the header that was changed decides,
in the order of the magic bytes, the version of the format, the length and the digest; a header that
was changed in no such part still gives the rule set.

If its end is missing, or if bytes are put behind it, then the length is wrong: the one of the
header if not even the header is left, otherwise the one that the header states. -/
theorem decode_of_tampered {rs : RuleSet} {bs : List UInt8} (hn : rs.Numbered)
    (he : Snapshot.encode rs = .ok bs) :
    Snapshot.headerSize + ofLittleEndian (Snapshot.field bs 12 4) = bs.length ∧
      (∀ bs', bs'.length = bs.length →
        bs'.drop Snapshot.headerSize = bs.drop Snapshot.headerSize →
        Snapshot.decode bs' =
          if Snapshot.field bs' 0 4 ≠ Snapshot.field bs 0 4 then .error .badMagic
          else if Snapshot.field bs' 4 2 ≠ Snapshot.field bs 4 2 then
            .error (.incompatibleVersion (ofLittleEndian (Snapshot.field bs' 4 2)))
          else if Snapshot.field bs' 12 4 ≠ Snapshot.field bs 12 4 then
            .error (.lengthMismatch (ofLittleEndian (Snapshot.field bs' 12 4))
              (bs.length - Snapshot.headerSize))
          else if Snapshot.field bs' 16 16 ≠ Snapshot.field bs 16 16 then .error .checksumMismatch
          else .ok rs) ∧
      (∀ bs', bs' <+: bs → bs' ≠ bs →
        Snapshot.decode bs' = .error
          (if bs'.length < Snapshot.headerSize then
            .lengthMismatch Snapshot.headerSize bs'.length
          else .lengthMismatch (ofLittleEndian (Snapshot.field bs 12 4))
            (bs'.length - Snapshot.headerSize))) ∧
      ∀ more, more ≠ [] →
        Snapshot.decode (bs ++ more) = .error
          (.lengthMismatch (ofLittleEndian (Snapshot.field bs 12 4))
            ((bs ++ more).length - Snapshot.headerSize)) := by
  obtain ⟨hlt, rfl⟩ := Snapshot.encode_eq_ok_iff.mp he
  have hlength := Snapshot.length_frame (Payload.ofRuleSet rs).encode
  have hdrop : (Snapshot.frame (Payload.ofRuleSet rs).encode).drop Snapshot.headerSize =
      (Payload.ofRuleSet rs).encode := List.drop_left' (Snapshot.length_header _)
  rw [Snapshot.stated_length hlt]
  refine ⟨hlength.symm, fun bs' hsame hbehind => ?_,
    fun bs' hcut hne => Snapshot.decode_of_prefix hlt hcut hne,
    fun more hmore => Snapshot.decode_frame_append hlt hmore⟩
  rw [Snapshot.decode_of_drop_eq hlt hsame (hbehind.trans hdrop),
    Snapshot.decode_frame_of_numbered hlt hn, hlength, Nat.add_sub_cancel_left]

/-- Another version of the format, a snapshot that ends within its header, and one with a byte
behind it. -/
theorem decode_of_tampered_single :
    Snapshot.encode RuleSet.single = .ok (Snapshot.frame (Payload.ofRuleSet .single).encode) ∧
      Snapshot.decode ((Snapshot.frame (Payload.ofRuleSet .single).encode).set 4 9) =
        .error (.incompatibleVersion 9) ∧
      Snapshot.decode ((Snapshot.frame (Payload.ofRuleSet .single).encode).take 5) =
        .error (.lengthMismatch 32 5) ∧
      Snapshot.decode (Snapshot.frame (Payload.ofRuleSet .single).encode ++ [0]) =
        .error (.lengthMismatch 19 20) := by
  have hsize : (Payload.ofRuleSet RuleSet.single).encode.length = 19 := by decide
  have he : Snapshot.encode RuleSet.single =
      .ok (Snapshot.frame (Payload.ofRuleSet RuleSet.single).encode) :=
    Snapshot.encode_eq_ok_iff.mpr ⟨by rw [hsize]; decide, rfl⟩
  have hlength := Snapshot.length_frame (Payload.ofRuleSet RuleSet.single).encode
  rw [hsize] at hlength
  obtain ⟨hstated, hheader, hcut, hmore⟩ := decode_of_tampered (RuleSet.Made.numbered (.built _)) he
  have hnineteen : ofLittleEndian (Snapshot.field
      (Snapshot.frame (Payload.ofRuleSet RuleSet.single).encode) 12 4) = 19 :=
    Nat.add_left_cancel (hstated.trans hlength)
  refine ⟨he, ?_, ?_, ?_⟩
  · rw [hheader _ List.length_set (List.drop_set_of_lt (by decide)), if_neg (by decide),
      if_pos (by decide)]
    rfl
  · have hne : (Snapshot.frame (Payload.ofRuleSet RuleSet.single).encode).take 5 ≠
        Snapshot.frame (Payload.ofRuleSet RuleSet.single).encode := by
      intro heq
      have hfive := congrArg List.length heq
      rw [List.length_take, hlength] at hfive
      exact absurd hfive (by decide)
    rw [hcut _ (List.take_prefix 5 _) hne]
    rfl
  · rw [hmore [0] (by decide), hnineteen, List.length_append, hlength]
    rfl

end DecisionTable
