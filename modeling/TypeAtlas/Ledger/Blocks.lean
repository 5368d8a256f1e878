/-
Blocks that a ledger has granted, by number.

A block that is given up is gone, whether or not the ledger can take it back.
It cannot if blocks it never granted have been freed in between.
-/
import TypeAtlas.Ledger.Basic

namespace TypeAtlas

structure BlockTable where
  ledger : Ledger
  /-- The size of every block granted so far, or none if it was given up. -/
  blocks : Array (Option UInt64) := #[]

namespace BlockTable

/-- Answers the number of the block. -/
def alloc (t : BlockTable) (size : UInt64) : Attempt AllocError (Nat × BlockTable) := do
  let ledger ← t.ledger.alloc size
  return (t.blocks.size, ⟨ledger, t.blocks.push (some size)⟩)

/-- Gives up the block of a number, if there still is one. -/
def free? (t : BlockTable) (i : Nat) : Option (Contract Unit × BlockTable) := do
  let size ← t.blocks[i]?.join
  let t := { t with blocks := t.blocks.setIfInBounds i none }
  match t.ledger.free size with
  | .ok ledger => return (.ok (), { t with ledger })
  | .error v => return (.error v, t)

/-- Frees a block of another ledger. -/
def freeForeign (t : BlockTable) (size : UInt64) : Contract BlockTable := do
  return { t with ledger := ← t.ledger.free size }

end BlockTable
end TypeAtlas
