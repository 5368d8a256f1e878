/-
Breaches of a caller's contract.

An operation that a caller may only use under a condition answers in
`Contract`.  A breach is an outcome of its own and never one of the errors that
describe bad input.  An operation that has both answers in `Attempt`, which
keeps them apart.
-/
import TypeAtlas.Arena

namespace TypeAtlas

inductive Violation where
  /-- An index too large for an id. -/
  | indexTooLarge (index : Nat)
  /-- A record taken for one of another kind. -/
  | kindMismatch (expected found : Kind)
  /-- An id that names no record. -/
  | danglingId (arena : Arena) (raw : UInt32) (count : Nat)
  /-- A list that reaches past its pool. -/
  | listOutOfPool (arena : Arena) (start len : UInt32) (poolSize : Nat)
  /-- A database queried while it holds no image. -/
  | notLoaded
  /-- A block given back to a ledger that cannot have granted it. -/
  | unmatchedFree (bytes : Nat)
  /-- A removal at an index without element. -/
  | removeOutOfRange (index count : Nat)
  /-- An access at an index without element. -/
  | arrayIndex (index count : Nat)
  /-- The same through a view. -/
  | viewIndex (index count : Nat)
  /-- An array of more bytes than an address range can have. -/
  | capacityOverflow
  /-- A sum that is no 64-bit number. -/
  | sumOverflow
deriving DecidableEq

/-- An answer, or the breach that kept it from being given. -/
abbrev Contract (α : Type) : Type := Except Violation α

namespace Violation

def message : Violation → String
  | indexTooLarge index => s!"arena index {index} exceeds u32 range"
  | kindMismatch expected found =>
    "primitive kind mismatch: expected " ++ expected.label ++ ", found " ++ found.label
  | danglingId arena raw count =>
    "dangling " ++ arena.label ++ s!" id {raw} (arena holds {count})"
  | listOutOfPool arena start len poolSize =>
    arena.label ++ s!" list IdList({start}..+{len}) exceeds pool of {poolSize}"
  | notLoaded => "database queried before a successful load"
  | unmatchedFree bytes => s!"free of {bytes} bytes does not match a live block"
  | removeOutOfRange index count =>
    s!"unstable_remove index {index} out of range for array of length {count}"
  | arrayIndex index count => s!"index {index} out of bounds for array of length {count}"
  | viewIndex index count => s!"index {index} out of bounds for view of length {count}"
  | capacityOverflow => "capacity overflow"
  | sumOverflow => "attempt to add with overflow"

end Violation

/-- Why an operation stopped: at a fault, which it reports, or at a breach. -/
inductive Stop (ε : Type) where
  | fault (e : ε)
  | breach (v : Violation)
deriving DecidableEq

/-- The fault in the words of another operation. -/
def Stop.map {ε ε' : Type} (f : ε → ε') : Stop ε → Stop ε'
  | fault e => fault (f e)
  | breach v => breach v

/-- An answer, or why there is none. -/
abbrev Attempt (ε α : Type) : Type := Except (Stop ε) α
end TypeAtlas
