import DecisionTable.Proofs.RuleSet.Numbered
import DecisionTable.Proofs.Snapshot.Compact
import DecisionTable.Snapshot.Basic

/-!
# Snapshot — The header

What `Snapshot.payload?` says of bytes, by what stands in front of the payload and behind the
header.

* `ofLittleEndian_inj`: a number of a fixed width has one spelling.
* `Snapshot.of_payload?`: the payload that is found is what stands behind the header, and is below
  the bound of its length.
* `Snapshot.payload?_header_append`: the header of one payload in front of any bytes.
* `Snapshot.payload?_frame`: the header of a payload agrees with it.
* `Snapshot.payload?_of_drop_eq`: any header in front of a payload.
-/

namespace DecisionTable

theorem ofLittleEndian_inj {as bs : List UInt8} (h : as.length = bs.length) :
    ofLittleEndian as = ofLittleEndian bs ↔ as = bs := by
  refine ⟨fun heq => ?_, fun heq => heq ▸ rfl⟩
  induction as generalizing bs with
  | nil => exact (List.length_eq_zero_iff.mp h.symm).symm
  | cons a as ih =>
      cases bs with
      | nil => cases h
      | cons b bs =>
          rw [ofLittleEndian, ofLittleEndian] at heq
          have ha : a.toNat < 256 := a.toNat_lt
          have hb : b.toNat < 256 := b.toNat_lt
          obtain rfl : a = b := UInt8.toNat_inj.mp (by omega)
          rw [ih (Nat.succ.inj h) (by omega)]

namespace Snapshot

/-! ### Fields -/

theorem field_append {as bs : List UInt8} {start length : Nat} (ha : as.length = start)
    (hb : bs.length = length) (cs : List UInt8) : field (as ++ (bs ++ cs)) start length = bs := by
  rw [field, List.drop_left' ha, List.take_left' hb]

theorem length_field {bs : List UInt8} {start length : Nat} (h : start + length ≤ bs.length) :
    (field bs start length).length = length := by
  rw [field, List.length_take_of_le]
  rw [List.length_drop]
  omega

theorem field_header_length (payload tail : List UInt8) :
    field (header payload ++ tail) 12 4 = littleEndian 4 payload.length := by
  have hstart : (magic ++ littleEndian 2 formatVersion ++ littleEndian 2 engineVersion
      ++ littleEndian 4 0).length = 12 := rfl
  have hfield := field_append hstart (length_littleEndian 4 payload.length)
    (checksum payload ++ tail)
  simpa only [header, List.append_assoc] using hfield

theorem field_header_checksum (payload tail : List UInt8) :
    field (header payload ++ tail) 16 16 = checksum payload := by
  have hstart : (magic ++ littleEndian 2 formatVersion ++ littleEndian 2 engineVersion
      ++ littleEndian 4 0 ++ littleEndian 4 payload.length).length = 16 := rfl
  have hfield := field_append hstart (length_checksum payload) tail
  simpa only [header, List.append_assoc] using hfield

theorem length_frame (payload : List UInt8) :
    (frame payload).length = headerSize + payload.length := by
  rw [frame, List.length_append, length_header]

/-! ### Any bytes -/

theorem payload?_of_short {bs : List UInt8} (h : bs.length < headerSize) :
    payload? bs = .error (.lengthMismatch headerSize bs.length) :=
  if_pos h

/-- The header takes its size, and states the length of the payload in four bytes. -/
theorem of_payload? {bs payload : List UInt8} (h : payload? bs = .ok payload) :
    payload = bs.drop headerSize ∧ headerSize + payload.length = bs.length ∧
      payload.length < 1 <<< 32 := by
  obtain ⟨hsize, h⟩ := ok_of_check h
  obtain ⟨-, h⟩ := ok_of_check h
  obtain ⟨-, h⟩ := ok_of_check h
  obtain ⟨hlength, h⟩ := ok_of_check h
  obtain ⟨-, h⟩ := ok_of_check h
  obtain rfl := Except.ok.inj h
  have hle : headerSize ≤ bs.length := Nat.not_lt.mp hsize
  refine ⟨rfl, by rw [List.length_drop, Nat.add_sub_cancel' hle], ?_⟩
  have hlt := ofLittleEndian_lt (field bs 12 4)
  rw [length_field (Nat.le_trans (by decide) hle)] at hlt
  rw [Classical.not_not.mp hlength]
  exact hlt

/-! ### The header of a payload -/

/-- **The header of one payload** in front of any bytes: they have to be as many as the payload has,
and to have its digest. -/
theorem payload?_header_append {payload : List UInt8} (h : payload.length < 1 <<< 32)
    (tail : List UInt8) :
    payload? (header payload ++ tail) =
      if tail.length ≠ payload.length then .error (.lengthMismatch payload.length tail.length)
      else if checksum tail ≠ checksum payload then .error .checksumMismatch
      else .ok tail := by
  have hsize : ¬ (header payload ++ tail).length < headerSize := by
    rw [List.length_append, length_header]
    exact Nat.not_lt.mpr (Nat.le_add_right _ _)
  have hmagic : field (header payload ++ tail) 0 4 = magic := rfl
  have hversion : ofLittleEndian (field (header payload ++ tail) 4 2) = formatVersion := rfl
  have hlength : ofLittleEndian (field (header payload ++ tail) 12 4) = payload.length := by
    rw [field_header_length, ofLittleEndian_littleEndian h]
  have hdrop : (header payload ++ tail).drop headerSize = tail :=
    List.drop_left' (length_header payload)
  rw [payload?, if_neg hsize, if_neg (not_not_intro hmagic), if_neg (not_not_intro hversion),
    hlength, field_header_checksum, hdrop]

/-- **The header of a payload** agrees with it. -/
theorem payload?_frame {payload : List UInt8} (h : payload.length < 1 <<< 32) :
    payload? (frame payload) = .ok payload := by
  rw [frame, payload?_header_append h, if_neg (not_not_intro rfl), if_neg (not_not_intro rfl)]

/-- **Any header** in front of a payload: each part of it that is looked at has to be as in the
header of the payload, and the first that is not decides.  The version of the engine and the flags
are not looked at. -/
theorem payload?_of_drop_eq {payload bs : List UInt8} (h : payload.length < 1 <<< 32)
    (hlength : bs.length = (frame payload).length) (hdrop : bs.drop headerSize = payload) :
    payload? bs =
      if field bs 0 4 ≠ field (frame payload) 0 4 then .error .badMagic
      else if field bs 4 2 ≠ field (frame payload) 4 2 then
        .error (.incompatibleVersion (ofLittleEndian (field bs 4 2)))
      else if field bs 12 4 ≠ field (frame payload) 12 4 then
        .error (.lengthMismatch (ofLittleEndian (field bs 12 4)) payload.length)
      else if field bs 16 16 ≠ field (frame payload) 16 16 then .error .checksumMismatch
      else .ok payload := by
  rw [length_frame] at hlength
  have hle : headerSize ≤ bs.length := hlength ▸ Nat.le_add_right _ _
  have hmagic : field (frame payload) 0 4 = magic := rfl
  have hversion : field (frame payload) 4 2 = littleEndian 2 formatVersion := rfl
  have hchecksum : field (frame payload) 16 16 = checksum payload :=
    field_header_checksum payload payload
  have hfield : field (frame payload) 12 4 = littleEndian 4 payload.length :=
    field_header_length payload payload
  -- the numbers of the header are compared as numbers, which is the same as by their bytes
  have hsameVersion : ofLittleEndian (field bs 4 2) = formatVersion ↔
      field bs 4 2 = littleEndian 2 formatVersion := by
    have hwidth : (field bs 4 2).length = (littleEndian 2 formatVersion).length :=
      length_field (Nat.le_trans (by decide) hle)
    exact ofLittleEndian_inj hwidth
  have hsameLength : payload.length = ofLittleEndian (field bs 12 4) ↔
      field bs 12 4 = littleEndian 4 payload.length := by
    have hwidth : (field bs 12 4).length = (littleEndian 4 payload.length).length := by
      rw [length_field (Nat.le_trans (by decide) hle), length_littleEndian]
    rw [← ofLittleEndian_inj hwidth, ofLittleEndian_littleEndian h, eq_comm]
  rw [payload?, hdrop, if_neg (Nat.not_lt.mpr hle), hmagic, hversion, hfield, hchecksum]
  have hsameChecksum : checksum payload = field bs 16 16 ↔ field bs 16 16 = checksum payload :=
    eq_comm
  simp only [ne_eq, hsameVersion, hsameLength, hsameChecksum]

end Snapshot

end DecisionTable
