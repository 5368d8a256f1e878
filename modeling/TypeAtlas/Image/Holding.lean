/-
Images charged to an account.

Every array of an image is one block, also when it is empty.  An image is
charged whole or not at all, and what it was charged goes back when it is
dropped.
-/
import TypeAtlas.Image.Basic
import TypeAtlas.Ledger.Basic

namespace TypeAtlas

/-- The size in bytes of one record of an arena. -/
def Arena.recordSize : Arena → Nat
  | types => 28
  | enumConstants => 28
  | enums => 48
  | fields => 56
  | functions => 60
  | templateTypes => 64
  | templates => 32
  | classes => 104
  | namespaces => 72
  | attributes => 36

/-- The arenas in the order of their pools. -/
def Arena.poolOrder : List Arena :=
  [namespaces, types, enumConstants, enums, fields, functions, templateTypes, templates, classes,
    attributes]

/-- The arrays of an image in the order they are charged, each by element size
and element count. -/
def Image.arrays (img : Image) : List (Nat × Nat) :=
  [(12, img.names.size)] ++ Arena.all.map (fun a => (a.recordSize, (img.arena a).size))
    ++ [(8, img.typeIndex.size)] ++ Arena.poolOrder.map fun a => (4, (img.pool a).size)

/-- What an image takes when it is charged. -/
def Image.footprint (img : Image) : Nat :=
  img.arrays.foldr (fun array n => array.1 * array.2 + n) 0

/-- An image with the blocks that were granted for it, none if it is not
charged. -/
structure Holding where
  image : Image
  account : Account := .system
  blocks : List UInt64 := []

namespace Holding

def chargedBytes (h : Holding) : Nat := h.blocks.foldr (fun block n => block.toNat + n) 0

def drop (bank : Bank) (h : Holding) : Bank := bank.releaseAll h.account h.blocks

end Holding

/-- Charges an image to an account, if there is one. -/
def Image.hold (img : Image) (account : Option Account) (bank : Bank) :
    Attempt AllocError Holding × Bank :=
  match account with
  | none => (.ok { image := img }, bank)
  | some account =>
    match bank.allocArrays account img.arrays with
    | (.ok blocks, bank) => (.ok { image := img, account, blocks }, bank)
    | (.error stop, bank) => (.error stop, bank)

end TypeAtlas
