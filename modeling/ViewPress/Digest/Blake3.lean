/-!
# BLAKE3

The BLAKE3 hash with its default 32 bytes of output. The input is cut into chunks
of 1024 bytes and these into blocks of 64; each chunk is compressed block by block,
and the chunks are joined pairwise into a binary tree whose left side is the
largest power of two of chunks that leaves something for the right.
-/

namespace ViewPress.Digest

/-- A digest of 32 bytes. -/
abbrev Hash := Vector UInt8 32

abbrev Chain := Vector UInt32 8
abbrev Block := Vector UInt32 16

def initialChain : Chain :=
  #v[0x6A09E667, 0xBB67AE85, 0x3C6EF372, 0xA54FF53A,
     0x510E527F, 0x9B05688C, 0x1F83D9AB, 0x5BE0CD19]

def schedule : Vector (Fin 16) 16 :=
  #v[2, 6, 3, 10, 7, 0, 4, 13, 1, 11, 12, 5, 9, 14, 15, 8]

def chunkStart : UInt32 := 1
def chunkEnd : UInt32 := 2
def parentFlag : UInt32 := 4
def rootFlag : UInt32 := 8

def rotateRight (w : UInt32) (n : UInt32) : UInt32 :=
  (w >>> n) ||| (w <<< (32 - n))

/-- Mixes two message words into four words of the state. -/
def mix (v : Block) (a b c d : Fin 16) (x y : UInt32) : Block :=
  let va := v[a] + v[b] + x
  let vd := rotateRight (v[d] ^^^ va) 16
  let vc := v[c] + vd
  let vb := rotateRight (v[b] ^^^ vc) 12
  let va := va + vb + y
  let vd := rotateRight (vd ^^^ va) 8
  let vc := vc + vd
  let vb := rotateRight (vb ^^^ vc) 7
  (((v.set a va).set b vb).set c vc).set d vd

/-- One round: the columns, then the diagonals. -/
def mixRound (v m : Block) : Block :=
  let v := mix v 0 4 8 12 m[0] m[1]
  let v := mix v 1 5 9 13 m[2] m[3]
  let v := mix v 2 6 10 14 m[4] m[5]
  let v := mix v 3 7 11 15 m[6] m[7]
  let v := mix v 0 5 10 15 m[8] m[9]
  let v := mix v 1 6 11 12 m[10] m[11]
  let v := mix v 2 7 8 13 m[12] m[13]
  mix v 3 4 9 14 m[14] m[15]

def permute (m : Block) : Block :=
  schedule.map fun i => m[i]

def rounds : Nat → Block → Block → Block
  | 0, v, _ => v
  | n + 1, v, m => rounds n (mixRound v m) (permute m)

/-- What is compressed to get a chaining value or, at the root, the digest. -/
structure Node where
  chain : Chain
  block : Block
  counter : UInt64
  len : UInt32
  flags : UInt32

/-- The first half of a compressed node. -/
def Node.compress (n : Node) : Chain :=
  let start : Block :=
    n.chain ++ #v[0x6A09E667, 0xBB67AE85, 0x3C6EF372, 0xA54FF53A,
      n.counter.toUInt32, (n.counter >>> 32).toUInt32, n.len, n.flags]
  let v := rounds 7 start n.block
  Vector.ofFn fun i : Fin 8 => v[i.val] ^^^ v[i.val + 8]

/-- The little-endian words of at most 64 bytes, padded with zeros. -/
def blockWords (bytes : List UInt8) : Block :=
  let padded := bytes.toArray
  let byte (i : Nat) : UInt32 := (padded[i]?.getD 0).toUInt32
  Vector.ofFn fun i : Fin 16 =>
    byte (4 * i) ||| (byte (4 * i + 1) <<< 8) ||| (byte (4 * i + 2) <<< 16)
      ||| (byte (4 * i + 3) <<< 24)

/-- The last block of a chunk, with the blocks before it compressed into its
chaining value. -/
def chunkNode (counter : UInt64) (chain : Chain) (flag : UInt32) (bytes : List UInt8) : Node :=
  if 64 < bytes.length then
    let node : Node :=
      { chain, block := blockWords (bytes.take 64), counter, len := 64, flags := flag }
    chunkNode counter node.compress 0 (bytes.drop 64)
  else
    { chain, block := blockWords bytes, counter, len := bytes.length.toUInt32,
      flags := flag ||| chunkEnd }
termination_by bytes.length
decreasing_by simp only [List.length_drop]; omega

/-- The number of bytes on the left side of a tree over more than one chunk. -/
def leftLength (n : Nat) : Nat :=
  1024 <<< ((n - 1) / 1024).log2

theorem leftLength_pos (n : Nat) : 0 < leftLength n := by
  rw [leftLength, Nat.shiftLeft_eq]
  exact Nat.mul_pos (by decide) (Nat.two_pow_pos _)

theorem leftLength_lt {n : Nat} (h : 1024 < n) : leftLength n < n := by
  have hne : (n - 1) / 1024 ≠ 0 := by omega
  have hle := Nat.log2_self_le hne
  have hmul : 1024 * 2 ^ ((n - 1) / 1024).log2 ≤ 1024 * ((n - 1) / 1024) :=
    Nat.mul_le_mul_left 1024 hle
  rw [leftLength, Nat.shiftLeft_eq]
  omega

/-- The root of the tree over `bytes`, whose first chunk has the number
`counter`. -/
def treeNode (counter : Nat) (bytes : List UInt8) : Node :=
  if h : 1024 < bytes.length then
    let n := leftLength bytes.length
    have := leftLength_pos bytes.length
    have := leftLength_lt h
    let left := (treeNode counter (bytes.take n)).compress
    let right := (treeNode (counter + n / 1024) (bytes.drop n)).compress
    { chain := initialChain, block := left ++ right, counter := 0, len := 64,
      flags := parentFlag }
  else chunkNode counter.toUInt64 initialChain chunkStart bytes
termination_by bytes.length
decreasing_by
  · simp only [List.length_take]; omega
  · simp only [List.length_drop]; omega

/-- The BLAKE3 digest of a byte string. -/
def blake3 (bytes : List UInt8) : Hash :=
  let root := treeNode 0 bytes
  let words := { root with flags := root.flags ||| rootFlag, counter := 0 : Node }.compress
  Vector.ofFn fun i : Fin 32 =>
    (words[i.val / 4] >>> (8 * (i.val % 4)).toUInt32).toUInt8

end ViewPress.Digest
