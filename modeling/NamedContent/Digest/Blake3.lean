import NamedContent.Bytes

/-! # The BLAKE3 digest

The unkeyed BLAKE3 hash with 32 bytes of output. The input is cut into chunks of 1024 bytes, each
chunk into blocks of 64 bytes; the chunks are the leaves of a binary tree whose left subtrees are
the largest complete ones.

* `Digest`: 32 bytes
* `Blake3.compress`: the compression function
* `Blake3.treeNode`: the node over a run of chunks
* `Digest.ofBytes`: the digest of a byte string
-/

namespace NamedContent

/-- A digest of 32 bytes. -/
abbrev Digest := Vector UInt8 32

namespace Blake3

/-- Eight words: a chaining value. -/
abbrev Words8 := Vector UInt32 8

/-- Sixteen words: a message block, or the state of the compression function. -/
abbrev Words16 := Vector UInt32 16

/-- The initial chaining value. -/
def initial : Words8 :=
  #v[0x6A09E667, 0xBB67AE85, 0x3C6EF372, 0xA54FF53A, 0x510E527F, 0x9B05688C, 0x1F83D9AB, 0x5BE0CD19]

/-- Set on the first block of a chunk. -/
def chunkStart : UInt32 := 1

/-- Set on the last block of a chunk. -/
def chunkEnd : UInt32 := 2

/-- Set on a block that joins two subtrees. -/
def parentFlag : UInt32 := 4

/-- Set on the last compression of the whole tree. -/
def rootFlag : UInt32 := 8

/-! ## Compression -/

/-- Rotation to the right. -/
def rotateRight (x : UInt32) (n : UInt32) : UInt32 := (x >>> n) ||| (x <<< (32 - n))

/-- Mixes two message words into four words of the state. -/
def mix (s : Words16) (a b c d : Fin 16) (x y : UInt32) : Words16 :=
  let va := s[a] + s[b] + x
  let vd := rotateRight (s[d] ^^^ va) 16
  let vc := s[c] + vd
  let vb := rotateRight (s[b] ^^^ vc) 12
  let va := va + vb + y
  let vd := rotateRight (vd ^^^ va) 8
  let vc := vc + vd
  let vb := rotateRight (vb ^^^ vc) 7
  (((s.set a va).set b vb).set c vc).set d vd

/-- One round: the four columns, then the four diagonals. -/
def round (s m : Words16) : Words16 :=
  let s := mix s 0 4 8 12 m[0] m[1]
  let s := mix s 1 5 9 13 m[2] m[3]
  let s := mix s 2 6 10 14 m[4] m[5]
  let s := mix s 3 7 11 15 m[6] m[7]
  let s := mix s 0 5 10 15 m[8] m[9]
  let s := mix s 1 6 11 12 m[10] m[11]
  let s := mix s 2 7 8 13 m[12] m[13]
  mix s 3 4 9 14 m[14] m[15]

/-- The order in which the next round takes the message words. -/
def permute (m : Words16) : Words16 :=
  #v[m[2], m[6], m[3], m[10], m[7], m[0], m[4], m[13],
    m[1], m[11], m[12], m[5], m[9], m[14], m[15], m[8]]

/-- The given number of rounds, the message permuted between them. -/
def rounds : Nat → Words16 → Words16 → Words16
  | 0, s, _ => s
  | n + 1, s, m => rounds n (round s m) (permute m)

/-- The compression function: the first eight words are the next chaining value. -/
def compress (cv : Words8) (block : Words16) (counter : UInt64) (blockLength flags : UInt32) :
    Words8 :=
  let s : Words16 :=
    #v[cv[0], cv[1], cv[2], cv[3], cv[4], cv[5], cv[6], cv[7],
      initial[0], initial[1], initial[2], initial[3],
      counter.toUInt32, (counter >>> 32).toUInt32, blockLength, flags]
  let s := rounds 7 s block
  #v[s[0] ^^^ s[8], s[1] ^^^ s[9], s[2] ^^^ s[10], s[3] ^^^ s[11],
    s[4] ^^^ s[12], s[5] ^^^ s[13], s[6] ^^^ s[14], s[7] ^^^ s[15]]

/-! ## Blocks, chunks and the tree -/

/-- The words of a block of at most 64 bytes, filled up with zero bytes. -/
def blockWords (block : Bytes) : Words16 :=
  let bytes := block.toArray
  Vector.ofFn fun i =>
    let byte (k : Nat) : UInt32 := (bytes.getD (4 * i.val + k) 0).toUInt32
    byte 0 ||| byte 1 <<< 8 ||| byte 2 <<< 16 ||| byte 3 <<< 24

/-- A compression that is still to be done: the last one of a chunk or of a parent. -/
structure Node where
  /-- The chaining value that goes in. -/
  cv : Words8
  /-- The message block. -/
  block : Words16
  /-- The position of the chunk, zero for a parent. -/
  counter : UInt64
  /-- The number of bytes in the block. -/
  blockLength : UInt32
  /-- The flags, without that of the root. -/
  flags : UInt32

/-- The chaining value of a node that is not the root. -/
def Node.chain (n : Node) : Words8 :=
  compress n.cv n.block n.counter n.blockLength n.flags

/-- The output of the root node. -/
def Node.digest (n : Node) : Digest :=
  let words := compress n.cv n.block 0 n.blockLength (n.flags ||| rootFlag)
  Vector.ofFn fun i =>
    have : i.val / 4 < 8 := by omega
    (words[i.val / 4] >>> UInt32.ofNat (8 * (i.val % 4))).toUInt8

/-- The last block of a chunk, after chaining the blocks before it. -/
def blocksNode (counter : UInt64) (cv : Words8) (start : UInt32) : List Bytes → Node
  | [] => ⟨cv, blockWords [], counter, 0, start ||| chunkEnd⟩
  | [block] => ⟨cv, blockWords block, counter, UInt32.ofNat block.length, start ||| chunkEnd⟩
  | block :: rest =>
    blocksNode counter (compress cv (blockWords block) counter 64 start) 0 rest

/-- The node of the chunk at a position. -/
def chunkNode (position : Nat) (chunk : Bytes) : Node :=
  blocksNode (UInt64.ofNat position) initial chunkStart (Bytes.chunks 64 chunk)

/-- The node that joins two subtrees. -/
def parentNode (left right : Words8) : Node :=
  ⟨initial, left ++ right, 0, 64, parentFlag⟩

/-- The number of chunks in the left subtree over `n` chunks, the greatest power of two below
`n`. -/
def leftCount (n : Nat) : Nat := Nat.pow 2 (Nat.log2 (n - 1))

/-- There is a chunk on the left. -/
theorem leftCount_pos (n : Nat) : 0 < leftCount n := Nat.two_pow_pos _

/-- There is one on the right too if there are two. -/
theorem leftCount_lt {n : Nat} (h : 2 ≤ n) : leftCount n < n := by
  have hle : leftCount n ≤ n - 1 := Nat.log2_self_le (by omega)
  omega

/-- The node over a run of chunks, the first of them at the given position. -/
def treeNode (position : Nat) (chunks : List Bytes) : Node :=
  if h : 2 ≤ chunks.length then
    let k := leftCount chunks.length
    have := leftCount_lt h
    have := leftCount_pos chunks.length
    parentNode (treeNode position (chunks.take k)).chain
      (treeNode (position + k) (chunks.drop k)).chain
  else chunkNode position chunks.flatten
termination_by chunks.length
decreasing_by all_goals simp only [List.length_take, List.length_drop]; omega

end Blake3

/-- The digest of a byte string. -/
def Digest.ofBytes (bytes : Bytes) : Digest :=
  (Blake3.treeNode 0 (Bytes.chunks 1024 bytes)).digest

end NamedContent
