/-
Codecs: an encoder and the decoder of what it writes.

A decoder takes its value off the front of the bytes and hands on the rest, or
stops at the first fault in reading order.  Numbers are little-endian and of
fixed width, a choice is the number of its case in 32 bits, an option is one
byte, and texts and arrays have their length before them in 64 bits.
-/
import TypeAtlas.Codec.Utf8

namespace TypeAtlas

inductive DecodeError where
  /-- The bytes end inside a number, a tag or a length. -/
  | endOfInput
  /-- A text is longer than what is left. -/
  | textTooLong
  | unknownVariant (found count : Nat)
  | invalidOptionTag (found : UInt8)
  | invalidBool (found : UInt8)
  | invalidText (fault : Utf8Fault)
deriving DecidableEq

namespace DecodeError

def message : DecodeError → String
  | endOfInput => "io error: unexpected end of file"
  | textTooLong => "io error: "
  | unknownVariant found count =>
    "invalid value: integer " ++ "`" ++ toString found ++ "`"
      ++ s!", expected variant index 0 <= i < {count}"
  | invalidOptionTag found => s!"tag for enum is not valid, found {found}"
  | invalidBool found => s!"invalid u8 while decoding bool, expected 0 or 1, found {found}"
  | invalidText fault => "string is not valid utf8: " ++ fault.message

end DecodeError

/-- The rest of a decoded input comes second. -/
abbrev Decoder (α : Type) : Type := List UInt8 → Except DecodeError (α × List UInt8)

structure Codec (α : Type) where
  encode : α → List UInt8
  decode : Decoder α

/-- The low `n` bytes of a number, low byte first. -/
def littleEndian : Nat → Nat → List UInt8
  | 0, _ => []
  | n + 1, x => UInt8.ofNat x :: littleEndian n (x / 256)

/-- The number whose bytes these are, low byte first. -/
def ofLittleEndian : List UInt8 → Nat
  | [] => 0
  | b :: bytes => b.toNat + 256 * ofLittleEndian bytes

/-- Takes exactly `n` bytes off the front. -/
def takeBytes? : Nat → List UInt8 → Option (List UInt8 × List UInt8)
  | 0, bytes => some ([], bytes)
  | _ + 1, [] => none
  | n + 1, b :: bytes => (takeBytes? n bytes).map fun taken => (b :: taken.1, taken.2)

namespace Codec

variable {α β : Type}

/-- Sends values through a pair of inverse functions. -/
def imap (c : Codec α) (forth : α → β) (back : β → α) : Codec β where
  encode x := c.encode (back x)
  decode bytes := do
    let (x, rest) ← c.decode bytes
    return (forth x, rest)

def pair (c : Codec α) (d : Codec β) : Codec (α × β) where
  encode x := c.encode x.1 ++ d.encode x.2
  decode bytes := do
    let (x, rest) ← c.decode bytes
    let (y, rest) ← d.decode rest
    return ((x, y), rest)

/-- A value whose format depends on the one before it. -/
def sigma {β : α → Type} (c : Codec α) (d : (x : α) → Codec (β x)) : Codec ((x : α) × β x) where
  encode x := c.encode x.1 ++ (d x.1).encode x.2
  decode bytes := do
    let (x, rest) ← c.decode bytes
    let (y, rest) ← (d x).decode rest
    return (⟨x, y⟩, rest)

def unit : Codec Unit where
  encode _ := []
  decode bytes := .ok ((), bytes)

def nat (n : Nat) : Codec Nat where
  encode := littleEndian n
  decode bytes :=
    match takeBytes? n bytes with
    | some (taken, rest) => .ok (ofLittleEndian taken, rest)
    | none => .error .endOfInput

def u8 : Codec UInt8 := (nat 1).imap .ofNat UInt8.toNat
def u16 : Codec UInt16 := (nat 2).imap .ofNat UInt16.toNat
def u32 : Codec UInt32 := (nat 4).imap .ofNat UInt32.toNat
def u64 : Codec UInt64 := (nat 8).imap .ofNat UInt64.toNat
def i32 : Codec Int32 := u32.imap UInt32.toInt32 Int32.toUInt32

def bool : Codec Bool where
  encode b := [if b then 1 else 0]
  decode bytes := do
    match ← u8.decode bytes with
    | (0, rest) => return (false, rest)
    | (1, rest) => return (true, rest)
    | (found, _) => throw (.invalidBool found)

/-- One of a list of cases, by its place in the list. -/
def choice [BEq α] (cases : List α) : Codec α where
  encode x := littleEndian 4 (cases.idxOf x)
  decode bytes := do
    let (i, rest) ← (nat 4).decode bytes
    match cases[i]? with
    | some x => return (x, rest)
    | none => throw (.unknownVariant i cases.length)

def option (c : Codec α) : Codec (Option α) where
  encode
    | none => [0]
    | some x => 1 :: c.encode x
  decode bytes := do
    match ← u8.decode bytes with
    | (0, rest) => return (none, rest)
    | (1, rest) => do
      let (x, rest) ← c.decode rest
      return (some x, rest)
    | (found, _) => throw (.invalidOptionTag found)

/-- So many values, one after another. -/
def decodeMany (c : Codec α) : Nat → Decoder (List α)
  | 0, bytes => .ok ([], bytes)
  | n + 1, bytes => do
    let (x, rest) ← c.decode bytes
    let (xs, rest) ← decodeMany c n rest
    return (x :: xs, rest)

/-- Values with their number before them. -/
def array (c : Codec α) : Codec (Array α) where
  encode xs := littleEndian 8 xs.size ++ xs.toList.flatMap c.encode
  decode bytes := do
    let (n, rest) ← (nat 8).decode bytes
    let (xs, rest) ← c.decodeMany n rest
    return (xs.toArray, rest)

theorem length_of_decodeMany {c : Codec α} {n : Nat} {bytes rest : List UInt8} {xs : List α}
    (h : c.decodeMany n bytes = .ok (xs, rest)) : xs.length = n := by
  induction n generalizing bytes xs rest with
  | zero => simp only [decodeMany, Except.ok.injEq, Prod.mk.injEq] at h; simp [← h.1]
  | succ n ih =>
    simp only [decodeMany, bind, Except.bind, pure, Except.pure] at h
    split at h
    · simp at h
    · split at h
      · simp at h
      · rename_i hxs
        simp only [Except.ok.injEq, Prod.mk.injEq] at h
        simp [← h.1, ih hxs]

/-- A fixed number of values, without their number. -/
def vector (c : Codec α) (n : Nat) : Codec (Vector α n) where
  encode xs := xs.toList.flatMap c.encode
  decode bytes :=
    match h : c.decodeMany n bytes with
    | .error e => .error e
    | .ok (xs, rest) => .ok (⟨xs.toArray, by simpa using length_of_decodeMany h⟩, rest)

/-- A text in UTF-8, with its length in bytes before it. -/
def text : Codec String where
  encode s := littleEndian 8 s.utf8ByteSize ++ s.toByteArray.toList
  decode bytes := do
    let (n, rest) ← (nat 8).decode bytes
    match takeBytes? n rest with
    | none => throw .textTooLong
    | some (taken, rest) =>
      match String.fromUTF8? taken.toByteArray with
      | some s => return (s, rest)
      | none => throw (.invalidText (.locate taken))

end Codec
end TypeAtlas
