import DecisionTable.Blake3.Compression

/-!
# Blake3 — Tree

The hash BLAKE3 of a list of bytes.  The input is cut into chunks of 1024 bytes and these into
blocks of 64; the chunks are the leaves of a binary tree whose left parts hold a power of two of
them, and the digest is taken from its root.
-/

namespace DecisionTable.Blake3

/-- The flag of the first block of a chunk. -/
def chunkStart : UInt32 := 1

/-- The flag of the last block of a chunk. -/
def chunkEnd : UInt32 := 2

/-- The flag of an inner node. -/
def parentFlag : UInt32 := 4

/-- The flag of the root. -/
def rootFlag : UInt32 := 8

/-- Four bytes as a word, least significant first; missing bytes are zero. -/
def word (bs : List UInt8) : UInt32 :=
  bs.reverse.foldl (fun w b => w * 256 + b.toUInt32) 0

/-- Up to 64 bytes as a block. -/
def blockOf (bs : List UInt8) : Block :=
  Vector.ofFn fun i => word ((bs.drop (4 * i.val)).take 4)

/-- The bytes of a word, least significant first. -/
def wordBytes (w : UInt32) : List UInt8 :=
  [w.toUInt8, (w >>> 8).toUInt8, (w >>> 16).toUInt8, (w >>> 24).toUInt8]

/-- The last block of a chunk, after the blocks before it have been compressed. -/
def chunk (counter : Nat) (h : Chaining) (flags : UInt32) (bs : List UInt8) : Node :=
  if bs.length ≤ 64 then
    ⟨h, blockOf bs, counter, bs.length, flags ||| chunkEnd⟩
  else
    let node : Node := ⟨h, blockOf (bs.take 64), counter, 64, flags⟩
    chunk counter (node.compress 0) 0 (bs.drop 64)
termination_by bs.length
decreasing_by simp only [List.length_drop]; omega

/-- The number of chunks in the left part of more than one chunk. -/
def leftChunks (length : Nat) : Nat :=
  1 <<< ((length - 1) / 1024).log2

theorem leftChunks_lt {length : Nat} (h : 1024 < length) : 1024 * leftChunks length < length := by
  have hq : (length - 1) / 1024 ≠ 0 := by omega
  have := Nat.log2_self_le hq
  rw [leftChunks, Nat.one_shiftLeft]
  omega

theorem leftChunks_pos (length : Nat) : 0 < leftChunks length := by
  rw [leftChunks, Nat.one_shiftLeft]
  exact Nat.two_pow_pos _

/-- The top of the tree over some bytes, the first chunk of them having a number. -/
def tree (counter : Nat) (bs : List UInt8) : Node :=
  if h : bs.length ≤ 1024 then
    chunk counter iv chunkStart bs
  else
    have := leftChunks_lt (Nat.lt_of_not_le h)
    have := leftChunks_pos bs.length
    let n := leftChunks bs.length
    let left := (tree counter (bs.take (1024 * n))).compress 0
    let right := (tree (counter + n) (bs.drop (1024 * n))).compress 0
    ⟨iv, left.append right, 0, 64, parentFlag⟩
termination_by bs.length
decreasing_by
  · simp only [List.length_take]
    omega
  · simp only [List.length_drop]
    omega

/-- The digest of 32 bytes. -/
def digest (bs : List UInt8) : List UInt8 :=
  ((tree 0 bs).compress rootFlag).toList.flatMap wordBytes

theorem length_digest (bs : List UInt8) : (digest bs).length = 32 := by
  simp [digest, List.length_flatMap, wordBytes, List.map_const']

end DecisionTable.Blake3
