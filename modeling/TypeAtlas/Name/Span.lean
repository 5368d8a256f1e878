/-
Texts and names as spans of a blob.

An image keeps all its texts in two blobs and refers to them by byte span.  A
`NameSpan` is a name as it is stored, a hash with the span of its text, and a
`Name` is what it resolves to.
-/
import TypeAtlas.Name.Murmur

namespace TypeAtlas

/-- A run of bytes in a blob. -/
structure TextSpan where
  start : UInt32
  len : UInt32
deriving DecidableEq, Hashable

namespace TextSpan

def empty : TextSpan := ⟨0, 0⟩

/-- One past the last byte.  The sum does not wrap. -/
def stop (s : TextSpan) : Nat := s.start.toNat + s.len.toNat

def isEmpty (s : TextSpan) : Bool := s.len == 0

/-- The text under a span.  There is none unless both ends lie in the blob and
between two characters. -/
def resolve? (s : TextSpan) (blob : String) : Option String := do
  let first ← blob.pos? ⟨s.start.toNat⟩
  let last ← blob.pos? ⟨s.stop⟩
  return String.extract first last

end TextSpan

/-- A hash with its text, if the text is known. -/
structure Name where
  hash : UInt32
  text : Option String
deriving DecidableEq

namespace Name

/-- The name of a record without one. -/
def empty : Name := ⟨0, none⟩

def ofText (hash : UInt32) (text : String) : Name := ⟨hash, some text⟩

/-- A name is empty when its hash is zero, whatever its text. -/
def isEmpty (n : Name) : Bool := n.hash == 0

/-- The text, or the empty text where none is known. -/
def textOrEmpty (n : Name) : String := n.text.getD ""

end Name

/-- Digits `0` to `9` and `a` to `f`, most significant first, padded with zeros
to at least `width`. -/
def hexPadded (width : Nat) (n : Nat) : String :=
  let digits := Nat.toDigits 16 n
  String.ofList (List.replicate (width - digits.length) '0' ++ digits)

/-- A name shows as its text, and without one as its hash. -/
def Name.render (n : Name) : String :=
  match n.text with
  | some text => text
  | none => "#" ++ hexPadded 8 n.hash.toNat

/-- A name as stored in an image. -/
structure NameSpan where
  hash : UInt32
  text : TextSpan
deriving DecidableEq, Hashable

namespace NameSpan

def empty : NameSpan := ⟨0, .empty⟩

def isEmpty (n : NameSpan) : Bool := n.hash == 0

/-- The name a span stands for.  Hash zero is the empty name, and a text out of
range leaves the hash alone. -/
def resolve (n : NameSpan) (blob : String) : Name :=
  if n.isEmpty then .empty else ⟨n.hash, n.text.resolve? blob⟩

end NameSpan
end TypeAtlas
