/-
Where bytes stop being UTF-8.

The fault of a byte sequence is the end of its longest valid part, with the
number of bytes there that cannot be continued to a character.  If the sequence
ends inside a character that could still be completed there is no such number.
-/
namespace TypeAtlas

structure Utf8Fault where
  validUpTo : Nat
  invalidBytes : Option Nat
deriving DecidableEq

namespace Utf8Fault

def message (f : Utf8Fault) : String :=
  match f.invalidBytes with
  | some n => s!"invalid utf-8 sequence of {n} bytes from index {f.validUpTo}"
  | none => s!"incomplete utf-8 byte sequence from index {f.validUpTo}"

/-- A range of bytes, both ends included. -/
abbrev ByteRange : Type := UInt8 × UInt8

/-- The bytes that continue a character. -/
def continuation : ByteRange := (0x80, 0xbf)

/-- What has to follow the first byte of a character.  The first of the bytes
that follow is restricted further where a shorter encoding, a surrogate or a
code point past the last would result. -/
def expected? (first : UInt8) : Option (List ByteRange) :=
  if first < 0x80 then some []
  else if first < 0xc2 then none
  else if first < 0xe0 then some [continuation]
  else if first == 0xe0 then some [(0xa0, 0xbf), continuation]
  else if first == 0xed then some [(0x80, 0x9f), continuation]
  else if first < 0xf0 then some [continuation, continuation]
  else if first == 0xf0 then some [(0x90, 0xbf), continuation, continuation]
  else if first < 0xf4 then some [continuation, continuation, continuation]
  else if first == 0xf4 then some [(0x80, 0x8f), continuation, continuation]
  else none

/-- Reads on at `index`, where the character begun at `start` has `seen` bytes
and still needs `pending`. -/
def scan (start seen : Nat) (pending : List ByteRange) (index : Nat) : List UInt8 → Utf8Fault
  | [] => ⟨if pending.isEmpty then index else start, none⟩
  | b :: bytes =>
    match pending with
    | [] =>
      match expected? b with
      | none => ⟨index, some 1⟩
      | some pending => scan index 1 pending (index + 1) bytes
    | (low, high) :: pending =>
      if low ≤ b && b ≤ high then scan start (seen + 1) pending (index + 1) bytes
      else ⟨start, some seen⟩

/-- The fault of bytes that are not UTF-8. -/
def locate (bytes : List UInt8) : Utf8Fault := scan 0 0 [] 0 bytes

end Utf8Fault
end TypeAtlas
