/-
The BLAKE3 checksum of a payload.

The input is cut into chunks of 1024 bytes and each chunk into blocks of 64.  A
chunk chains the compression of its blocks.  Chunks are the leaves of a binary
tree whose left subtrees are complete and as large as they can be, and a parent
compresses the chaining values of its two children.  The root is compressed
under a flag of its own, and its first 32 bytes are the digest.
-/
namespace TypeAtlas
namespace Blake3

abbrev Words (n : Nat) : Type := Vector UInt32 n

/-- The 32 bytes of a digest. -/
abbrev Digest : Type := Vector UInt8 32

def iv : Words 8 :=
  #v[0x6a09e667, 0xbb67ae85, 0x3c6ef372, 0xa54ff53a, 0x510e527f, 0x9b05688c, 0x1f83d9ab,
    0x5be0cd19]

/-- Where each message word of the next round comes from. -/
def schedule : Vector (Fin 16) 16 := #v[2, 6, 3, 10, 7, 0, 4, 13, 1, 11, 12, 5, 9, 14, 15, 8]

def chunkStart : UInt32 := 1
def chunkEnd : UInt32 := 2
def parentFlag : UInt32 := 4
def rootFlag : UInt32 := 8

def rotateRight (x r : UInt32) : UInt32 := (x >>> r) ||| (x <<< (32 - r))

/-- Stirs two message words into four words of the state. -/
def quarter (v : Words 16) (a b c d : Fin 16) (x y : UInt32) : Words 16 :=
  let v := v.set a (v[a] + v[b] + x)
  let v := v.set d (rotateRight (v[d] ^^^ v[a]) 16)
  let v := v.set c (v[c] + v[d])
  let v := v.set b (rotateRight (v[b] ^^^ v[c]) 12)
  let v := v.set a (v[a] + v[b] + y)
  let v := v.set d (rotateRight (v[d] ^^^ v[a]) 8)
  let v := v.set c (v[c] + v[d])
  v.set b (rotateRight (v[b] ^^^ v[c]) 7)

/-- Columns first and then diagonals. -/
def round (v m : Words 16) : Words 16 :=
  let v := quarter v 0 4 8 12 m[0] m[1]
  let v := quarter v 1 5 9 13 m[2] m[3]
  let v := quarter v 2 6 10 14 m[4] m[5]
  let v := quarter v 3 7 11 15 m[6] m[7]
  let v := quarter v 0 5 10 15 m[8] m[9]
  let v := quarter v 1 6 11 12 m[10] m[11]
  let v := quarter v 2 7 8 13 m[12] m[13]
  quarter v 3 4 9 14 m[14] m[15]

def rounds : Nat → Words 16 → Words 16 → Words 16
  | 0, v, _ => v
  | n + 1, v, m => rounds n (round v m) (schedule.map fun i => m[i])

/-- A compression that is still to be made. -/
structure Node where
  chain : Words 8
  block : Words 16
  counter : UInt64
  len : UInt32
  flags : UInt32

namespace Node

/-- Compresses under further flags, keeping the first half of the state. -/
def compress (n : Node) (flags : UInt32) : Words 8 :=
  let start : Words 16 :=
    n.chain ++ #v[iv[0], iv[1], iv[2], iv[3], n.counter.toUInt32, (n.counter >>> 32).toUInt32,
      n.len, n.flags ||| flags]
  let v := rounds 7 start n.block
  Vector.ofFn fun i : Fin 8 => v[i.val] ^^^ v[i.val + 8]

/-- What a parent or the next block takes up. -/
def chaining (n : Node) : Words 8 := n.compress 0

def parent (left right : Node) : Node where
  chain := iv
  block := left.chaining ++ right.chaining
  counter := 0
  len := 64
  flags := parentFlag

end Node

/-- The words of a block, its missing bytes being zero. -/
def wordsOf (bytes : List UInt8) : Words 16 :=
  let bytes := bytes.toArray
  let byte (i : Nat) : UInt32 := (bytes[i]?.getD 0).toUInt32
  Vector.ofFn fun i : Fin 16 =>
    byte (4 * i) ||| (byte (4 * i + 1) <<< 8) ||| (byte (4 * i + 2) <<< 16)
      ||| (byte (4 * i + 3) <<< 24)

/-- Cuts a list into pieces of `n`, the last of them maybe shorter. -/
def pieces (n : Nat) (pos : 0 < n) (xs : List UInt8) : List (List UInt8) :=
  if xs.isEmpty then [] else xs.take n :: pieces n pos (xs.drop n)
termination_by xs.length
decreasing_by
  cases xs with
  | nil => simp at *
  | cons x xs => simp only [List.length_drop, List.length_cons]; omega

/-- Chains the blocks of a chunk.  The last one is left to be compressed. -/
def chunkFrom (counter : UInt64) (chain : Words 8) (start : UInt32) : List (List UInt8) → Node
  | [] => ⟨chain, wordsOf [], counter, 0, start ||| chunkEnd⟩
  | [block] => ⟨chain, wordsOf block, counter, UInt32.ofNat block.length, start ||| chunkEnd⟩
  | block :: blocks =>
    let node : Node := ⟨chain, wordsOf block, counter, 64, start⟩
    chunkFrom counter node.chaining 0 blocks

def chunk (index : Nat) (bytes : List UInt8) : Node :=
  chunkFrom (UInt64.ofNat index) iv chunkStart (pieces 64 (by decide) bytes)

/-- The tree over chunks.  Its left side holds the largest power of two of them
that leaves some for the right. -/
def tree (nodes : List Node) : Node :=
  if h : nodes.length ≤ 1 then
    nodes.headD (chunk 0 [])
  else
    let left := 2 ^ (nodes.length - 1).log2
    have : 0 < left := Nat.two_pow_pos _
    have : left ≤ nodes.length - 1 := Nat.log2_self_le (by omega)
    .parent (tree (nodes.take left)) (tree (nodes.drop left))
termination_by nodes.length
decreasing_by
  · simp only [List.length_take]; omega
  · simp only [List.length_drop]; omega

def hash (bytes : List UInt8) : Digest :=
  let chunks := (pieces 1024 (by decide) bytes).zipIdx.map fun piece => chunk piece.2 piece.1
  let words := (tree chunks).compress rootFlag
  Vector.ofFn fun i : Fin 32 => (words[i.val / 4] >>> (UInt32.ofNat (8 * (i.val % 4)))).toUInt8

end Blake3
end TypeAtlas
