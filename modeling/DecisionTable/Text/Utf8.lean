/-!
# Text — Utf8

Texts as bytes: `encode` writes the UTF-8 form, and `decode?` reads exactly what `encode` writes.
-/

namespace DecisionTable.Text.Utf8

/-- The UTF-8 form of a text. -/
def encode (s : String) : List UInt8 :=
  s.toByteArray.data.toList

/-- Reads a UTF-8 form; any other bytes are refused. -/
def decode? (bs : List UInt8) : Option String :=
  String.fromUTF8? ⟨bs.toArray⟩

theorem mk_toArray_encode (s : String) : (⟨(encode s).toArray⟩ : ByteArray) = s.toByteArray := by
  rw [encode, Array.toArray_toList]

theorem decode?_encode (s : String) : decode? (encode s) = some s := by
  rw [decode?, mk_toArray_encode, String.fromUTF8?, dif_pos s.isValidUTF8]
  rfl

theorem eq_encode_of_decode? {bs : List UInt8} {s : String} (h : decode? bs = some s) :
    bs = encode s := by
  unfold decode? String.fromUTF8? at h
  split at h
  · cases h
    rfl
  · cases h

/-- A text has one form in bytes. -/
theorem decode?_eq_some_iff {bs : List UInt8} {s : String} :
    decode? bs = some s ↔ bs = encode s :=
  ⟨eq_encode_of_decode?, fun h => h ▸ decode?_encode s⟩

end DecisionTable.Text.Utf8
