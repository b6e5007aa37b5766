/-!
# Snapshot — Varint

Natural numbers in bytes.  `littleEndian` writes a number in a fixed width; `Varint.encode` writes
a number below 251 as one byte, and a larger one as a tag byte and two, four or eight bytes, least
significant first.  `Varint.decode?` reads a number back and leaves over what follows; it also
accepts a small number that is written wider than needed.
-/

namespace DecisionTable

/-- The bytes of a number in a fixed width, least significant first. -/
def littleEndian : Nat → Nat → List UInt8
  | 0, _ => []
  | width + 1, n => UInt8.ofNat n :: littleEndian width (n / 256)

/-- The number of bytes, least significant first. -/
def ofLittleEndian : List UInt8 → Nat
  | [] => 0
  | b :: bs => b.toNat + 256 * ofLittleEndian bs

@[simp] theorem length_littleEndian (width n : Nat) : (littleEndian width n).length = width := by
  induction width generalizing n with
  | zero => rfl
  | succ width ih => simp [littleEndian, ih]

theorem ofLittleEndian_littleEndian {width n : Nat} (h : n < 1 <<< (8 * width)) :
    ofLittleEndian (littleEndian width n) = n := by
  induction width generalizing n with
  | zero =>
    simp only [Nat.mul_zero, Nat.shiftLeft_zero, Nat.lt_one_iff] at h
    rw [h, littleEndian, ofLittleEndian]
  | succ width ih =>
    have hd : n / 256 < 1 <<< (8 * width) := by
      rw [Nat.mul_succ, Nat.shiftLeft_add, Nat.shiftLeft_eq _ 8] at h
      exact Nat.div_lt_of_lt_mul (by omega)
    simp only [littleEndian, ofLittleEndian, ih hd, UInt8.toNat_ofNat']
    omega

/-- Takes bytes off the front, if there are so many. -/
def takeBytes? (count : Nat) (bs : List UInt8) : Option (List UInt8 × List UInt8) :=
  if count ≤ bs.length then some (bs.take count, bs.drop count) else none

theorem takeBytes?_append (as bs : List UInt8) :
    takeBytes? as.length (as ++ bs) = some (as, bs) := by
  simp [takeBytes?]

/-- Reads a number of a fixed width. -/
def fixed? (width : Nat) (bs : List UInt8) : Option (Nat × List UInt8) :=
  (takeBytes? width bs).map fun p => (ofLittleEndian p.1, p.2)

theorem fixed?_littleEndian {width n : Nat} (h : n < 1 <<< (8 * width)) (bs : List UInt8) :
    fixed? width (littleEndian width n ++ bs) = some (n, bs) := by
  have := takeBytes?_append (littleEndian width n) bs
  rw [length_littleEndian] at this
  simp [fixed?, this, ofLittleEndian_littleEndian h]

namespace Varint

/-- Writes a number below `2^64`. -/
def encode (n : Nat) : List UInt8 :=
  if n < 251 then [UInt8.ofNat n]
  else if n < 1 <<< 16 then 251 :: littleEndian 2 n
  else if n < 1 <<< 32 then 252 :: littleEndian 4 n
  else 253 :: littleEndian 8 n

/-- The width that a tag byte announces. -/
def width? (tag : UInt8) : Option Nat :=
  if tag = 251 then some 2
  else if tag = 252 then some 4
  else if tag = 253 then some 8
  else none

/-- Reads a number of at most `maxWidth` bytes after its tag. -/
def decode? (maxWidth : Nat) : List UInt8 → Option (Nat × List UInt8)
  | [] => none
  | b :: bs =>
    if b < 251 then some (b.toNat, bs)
    else (width? b).bind fun width => if width ≤ maxWidth then fixed? width bs else none

theorem decode?_encode {n : Nat} (h : n < 1 <<< 64) (bs : List UInt8) :
    decode? 8 (encode n ++ bs) = some (n, bs) := by
  unfold encode
  split
  · next h₁ =>
    have hb : UInt8.ofNat n < 251 := by
      rw [UInt8.lt_iff_toNat_lt, UInt8.toNat_ofNat']
      exact Nat.lt_of_le_of_lt (Nat.mod_le _ _) h₁
    simp only [List.singleton_append, decode?, if_pos hb, UInt8.toNat_ofNat']
    rw [Nat.mod_eq_of_lt (Nat.lt_trans h₁ (by decide))]
  · split
    · next h₂ =>
      exact @fixed?_littleEndian 2 n h₂ bs
    · split
      · next h₃ =>
        exact @fixed?_littleEndian 4 n h₃ bs
      · exact @fixed?_littleEndian 8 n h bs

end Varint

end DecisionTable
