/-
The 32-bit hash of a name: MurmurHash3 over its UTF-8 bytes.

A seed is mixed with each little-endian word of four bytes, then with the last
one to three bytes taken as a word whose missing bytes are zero, then with the
length, and is avalanched at the end.  `mix` hashes one hash under another, so
that a scope and a member give one hash for the pair.
-/
namespace TypeAtlas
namespace Murmur

/-- Left rotation by `r` bits, for `0 < r < 32`. -/
def rotate (x r : UInt32) : UInt32 := (x <<< r) ||| (x >>> (32 - r))

/-- The little-endian word of up to four bytes.  Missing bytes are zero. -/
def word : List UInt8 → UInt32
  | [] => 0
  | b :: bs => b.toUInt32 ||| (word bs <<< 8)

/-- Spreads a word before it meets the state. -/
def scramble (k : UInt32) : UInt32 := rotate (k * 0xcc9e2d51) 15 * 0x1b873593

/-- Takes one whole word into the state. -/
def absorb (h k : UInt32) : UInt32 := rotate (h ^^^ scramble k) 13 * 5 + 0xe6546b64

/-- The final avalanche. -/
def finish (h : UInt32) : UInt32 :=
  let h := (h ^^^ (h >>> 16)) * 0x85ebca6b
  let h := (h ^^^ (h >>> 13)) * 0xc2b2ae35
  h ^^^ (h >>> 16)

/-- The state after all of `data`.  A last partial word is xored in and not
stirred, and no bytes left means nothing is xored. -/
def absorbAll (h : UInt32) : List UInt8 → UInt32
  | a :: b :: c :: d :: rest => absorbAll (absorb h (word [a, b, c, d])) rest
  | [] => h
  | tail => h ^^^ scramble (word tail)

/-- The hash of `data` from a seed.  The length enters modulo 2 ^ 32. -/
def hash (data : List UInt8) (seed : UInt32) : UInt32 :=
  finish (absorbAll seed data ^^^ UInt32.ofNat data.length)

/-- The four bytes of a word, low byte first. -/
def bytes (x : UInt32) : List UInt8 :=
  [x.toUInt8, (x >>> 8).toUInt8, (x >>> 16).toUInt8, (x >>> 24).toUInt8]

end Murmur

def hashTextFrom (seed : UInt32) (text : String) : UInt32 :=
  Murmur.hash text.toByteArray.toList seed

/-- The hash under which a name is recorded and looked up. -/
def hashText (text : String) : UInt32 := hashTextFrom 0 text

/-- Hashes `b` under `a`, as a member within its scope. -/
def mixHashes (a b : UInt32) : UInt32 := Murmur.hash (Murmur.bytes b) a

theorem mixHashes_def (a b : UInt32) : mixHashes a b = Murmur.hash (Murmur.bytes b) a := rfl

end TypeAtlas
