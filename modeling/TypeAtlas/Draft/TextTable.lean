/-
Interning: texts kept once each in a growing blob.

A text that is already in the blob is given the span it has.  The blob is thus
the distinct texts one after another, in the order of their first use.
-/
import TypeAtlas.Draft.Fault

namespace TypeAtlas

structure TextTable where
  blob : String := ""
  /-- The span of each text, the latest first. -/
  spans : List (String × TextSpan) := []

namespace TextTable

/-- The span of a text, which is appended to the blob if it is new. -/
def intern (t : TextTable) (what text : String) : Except DraftFault (TextSpan × TextTable) :=
  match t.spans.lookup text with
  | some span => .ok (span, t)
  | none =>
    let start := t.blob.utf8ByteSize
    let len := text.utf8ByteSize
    if start + len < UInt32.size then
      let span : TextSpan := ⟨UInt32.ofNat start, UInt32.ofNat len⟩
      .ok (span, ⟨t.blob ++ text, (text, span) :: t.spans⟩)
    else
      .error (.overflow what)

end TextTable

/-- A name as it is given: a text to be hashed, or a text with its hash. -/
inductive NameInput where
  | text (text : String)
  | hashed (hash : UInt32) (text : String)

namespace NameInput

def hash : NameInput → UInt32
  | text t => hashText t
  | hashed h _ => h

def string : NameInput → String
  | text t => t
  | hashed _ t => t

end NameInput

structure NameTable where
  texts : TextTable := {}
  /-- Every name in use once, in the order of first use. -/
  listed : Array NameSpan := #[]

namespace NameTable

/-- The span of a name.  The empty text under hash zero is the empty name and is
not listed. -/
def intern (t : NameTable) (name : NameInput) : Except DraftFault (NameSpan × NameTable) :=
  if name.hash == 0 && name.string.isEmpty then .ok (.empty, t)
  else do
    let (span, texts) ← t.texts.intern "name bytes" name.string
    let entry : NameSpan := ⟨name.hash, span⟩
    let listed := if t.listed.contains entry then t.listed else t.listed.push entry
    return (entry, ⟨texts, listed⟩)

end NameTable
end TypeAtlas
