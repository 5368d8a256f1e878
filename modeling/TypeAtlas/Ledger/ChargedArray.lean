/-
Arrays that may be charged to an account.

What an array is charged is fixed when it is made, and stays so however many
elements are removed.  The charge goes back when the array is dropped or turned
into its elements.
-/
import TypeAtlas.Ledger.Basic

namespace TypeAtlas

structure Charge where
  account : Account
  bytes : UInt64
deriving DecidableEq

structure ChargedArray (α : Type) where
  items : Array α
  charge : Option Charge
deriving DecidableEq

namespace ChargedArray

variable {α : Type}

def chargedBytes (a : ChargedArray α) : UInt64 :=
  match a.charge with
  | some c => c.bytes
  | none => 0

/-- An array that nothing is charged for. -/
def uncharged (items : Array α) : ChargedArray α := ⟨items, none⟩

/-- Charges `count` elements, each of `elementSize` bytes. -/
def chargeFor (bank : Bank) (account : Account) (elementSize count : Nat) :
    Attempt AllocError (Charge × Bank) := do
  let bytes ← (arrayBytes elementSize count).mapError .fault
  let bank ← bank.alloc bytes account
  return (⟨account, bytes⟩, bank)

/-- An array of given elements, charged to an account if there is one. -/
def make (bank : Bank) (account : Option Account) (elementSize : Nat) (items : Array α) :
    Attempt AllocError (ChargedArray α × Bank) :=
  match account with
  | none => .ok (uncharged items, bank)
  | some account => do
    let (charge, bank) ← chargeFor bank account elementSize items.size
    return (⟨items, some charge⟩, bank)

/-- An array of `count` equal elements.  The charge comes first, and stays on
the account when the array is then too large to exist. -/
def filled (bank : Bank) (account : Account) (elementSize count : Nat) (fill : α) :
    Attempt AllocError (ChargedArray α) × Bank :=
  match chargeFor bank account elementSize count with
  | .error stop => (.error stop, bank)
  | .ok (charge, bank) =>
    if charge.bytes ≤ maxArrayBytes then
      (.ok ⟨Array.replicate count fill, some charge⟩, bank)
    else
      (.error (.breach .capacityOverflow), bank)

def drop (bank : Bank) (a : ChargedArray α) : Contract Bank :=
  match a.charge with
  | none => .ok bank
  | some c => bank.free c.bytes c.account

/-- Takes out an element and puts the last one in its place. -/
def removeUnstable (a : ChargedArray α) (i : Nat) : Contract (α × ChargedArray α) :=
  if h : i < a.items.size then
    let last := a.items[a.items.size - 1]
    .ok (a.items[i], { a with items := (a.items.set i last).pop })
  else
    .error (.removeOutOfRange i a.items.size)

/-- The element at an index that has to be in range. -/
def index (a : ChargedArray α) (i : Nat) : Contract α :=
  match a.items[i]? with
  | some x => .ok x
  | none => .error (.arrayIndex i a.items.size)

/-- The same through a view of the array. -/
def viewIndex (a : ChargedArray α) (i : Nat) : Contract α :=
  match a.items[i]? with
  | some x => .ok x
  | none => .error (.viewIndex i a.items.size)

/-- Replaces the element at an index that has to be in range. -/
def set (a : ChargedArray α) (i : Nat) (x : α) : Contract (ChargedArray α) :=
  if h : i < a.items.size then .ok { a with items := a.items.set i x }
  else .error (.arrayIndex i a.items.size)

/-- The length, the charge and the elements, spelled out. -/
def render (shown : α → String) (a : ChargedArray α) : String :=
  s!"OwnedArray \x7b len: {a.items.size}, charged_bytes: {a.chargedBytes}, data: ["
    ++ ", ".intercalate (a.items.toList.map shown) ++ "] \x7d"

end ChargedArray
end TypeAtlas
