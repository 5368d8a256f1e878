/-
Why an image is refused.
-/
import TypeAtlas.Image.Basic

namespace TypeAtlas

/-- An array that has to ascend by name hash. -/
inductive SortedArray where
  | arena (a : Arena)
  | typeIndex
  | names
deriving DecidableEq

def SortedArray.label : SortedArray → String
  | arena a => a.label
  | typeIndex => "type index"
  | names => "names"

inductive ImageFault where
  | unsorted (array : SortedArray) (index : Nat)
  | danglingId (arena : Arena) (raw : UInt32) (count : Nat)
  | listOutOfPool (arena : Arena) (start len : UInt32) (poolSize : Nat)
  | kindMismatch (arena : Arena) (index : Nat) (expected found : Kind)
  | missingParent (kind : Kind) (index : Nat)
  | invalidParent (child : Kind) (index : Nat) (parent : DeclKind)
  | inheritanceCycle (index : Nat)
  | parentCycle (kind : DeclKind) (index : Nat)
  /-- A list holds a record that another record owns. -/
  | foreignMember (owner : DeclId) (arena : Arena) (index : Nat)
  /-- The return field of a function is another's, or one of its parameters. -/
  | foreignReturn (function : Nat)
  | invalidRoot
  | textOutOfBounds (kind : Kind) (span : TextSpan) (blobSize : Nat)
  | profileViolation (kind : Kind) (profile : Profile)
deriving DecidableEq

namespace ImageFault

def label : ImageFault → String
  | unsorted _ _ => "Unsorted"
  | danglingId _ _ _ => "DanglingId"
  | listOutOfPool _ _ _ _ => "ListOutOfBounds"
  | kindMismatch _ _ _ _ => "KindMismatch"
  | missingParent _ _ => "MissingParent"
  | invalidParent _ _ _ => "InvalidParent"
  | inheritanceCycle _ => "InheritanceCycle"
  | parentCycle _ _ => "ParentCycle"
  | foreignMember _ _ _ => "ForeignMember"
  | foreignReturn _ => "ForeignReturn"
  | invalidRoot => "InvalidRoot"
  | textOutOfBounds _ _ _ => "TextOutOfBounds"
  | profileViolation _ _ => "ProfileViolation"

def message : ImageFault → String
  | unsorted array index => array.label ++ s!" not sorted by name hash at index {index}"
  | danglingId arena raw count =>
    "dangling " ++ arena.label ++ s!" id {raw} (arena holds {count})"
  | listOutOfPool arena start len poolSize =>
    arena.label ++ s!" list {start}..+{len} exceeds pool of {poolSize}"
  | kindMismatch arena index expected found =>
    arena.label ++ s!"[{index}] has kind " ++ found.label ++ ", expected " ++ expected.label
  | missingParent kind index => kind.label ++ s!" at index {index} has no parent"
  | invalidParent child index parent =>
    child.label ++ s!" at index {index} is owned by a " ++ parent.label
  | inheritanceCycle index => s!"inheritance cycle through class at index {index}"
  | parentCycle kind index =>
    "parent chain of " ++ kind.label ++ s!" at index {index} does not reach the root namespace"
  | foreignMember owner arena index =>
    owner.kind.label ++ s!" at index {owner.raw} lists " ++ arena.label
      ++ s!"[{index}], which it does not own"
  | foreignReturn function => s!"return value of function {function} is not owned by it"
  | invalidRoot => "root namespace must have no parent and an empty name"
  | textOutOfBounds kind span blobSize =>
    s!"text span {span.start}..+{span.len} of " ++ kind.label
      ++ s!" outside blob of {blobSize} bytes"
  | profileViolation kind profile =>
    kind.label ++ " records present in a " ++ profile.label ++ " image"

end ImageFault
end TypeAtlas
