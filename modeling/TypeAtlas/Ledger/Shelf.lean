/-
A shelf of named arrays over one bank.

Every command that can move a charge is here: making an array, copying it,
removing from it, taking its elements out and dropping it.  A new array takes
its place on the shelf before the one it replaces is dropped, and a refused
command leaves every array as it was.
-/
import TypeAtlas.Ledger.ChargedArray

namespace TypeAtlas

/-- The width of the elements of a shelf. -/
inductive Width where
  | w8
  | w16
  | w32
  | w64
deriving DecidableEq

namespace Width

def bytes : Width → Nat
  | w8 => 1
  | w16 => 2
  | w32 => 4
  | w64 => 8

/-- How many values an element can take. -/
def modulus : Width → Nat
  | w8 => UInt8.size
  | w16 => UInt16.size
  | w32 => UInt32.size
  | w64 => UInt64.size

/-- Keeps the low bits that fit in an element. -/
def cut (w : Width) (n : Nat) : Nat := n % w.modulus

end Width

structure Shelf where
  width : Width
  bank : Bank
  /-- No name occurs twice. -/
  arrays : List (String × ChargedArray Nat) := []

namespace Shelf

inductive Command where
  /-- An array of the values, charged to the account if there is one. -/
  | make (name : String) (values : List Nat) (account : Option Account)
  /-- An array of so many zeros. -/
  | filled (name : String) (count : Nat) (account : Account)
  /-- A charged copy of an array. -/
  | copy (name target : String) (account : Account)
  /-- Turns an array into its elements. -/
  | takeOut (name : String)
  | drop (name : String)
  /-- Removes an element, not keeping the order. -/
  | remove (name : String) (i : Nat)
  | write (name : String) (i value : Nat)

inductive Refusal where
  | missing
  | alloc (e : AllocError)
  | violation (v : Violation)

/-- Why a command that needs a block is refused. -/
def Refusal.ofStop : Stop AllocError → Refusal
  | .fault e => .alloc e
  | .breach v => .violation v

inductive Reply where
  | done
  | element (value : Nat)
  | elements (values : Array Nat)

def find? (s : Shelf) (name : String) : Option (ChargedArray Nat) := s.arrays.lookup name

/-- Takes an array off the shelf without touching its charge. -/
def erase (s : Shelf) (name : String) : Shelf :=
  { s with arrays := s.arrays.filter (·.1 != name) }

def drop (s : Shelf) (name : String) : Contract Shelf :=
  match s.find? name with
  | none => .ok s
  | some old => return { s.erase name with bank := ← old.drop s.bank }

/-- Puts a new array on the shelf, dropping the one it replaces. -/
def put (s : Shelf) (name : String) (a : ChargedArray Nat) : Contract Shelf := do
  let s ← s.drop name
  return { s with arrays := (name, a) :: s.arrays }

def update (s : Shelf) (name : String) (a : ChargedArray Nat) : Shelf :=
  { s with arrays := s.arrays.map fun entry => if entry.1 == name then (name, a) else entry }

/-- Puts up an array that was just made, or leaves the shelf as it was. -/
def place (s : Shelf) (name : String) :
    Attempt AllocError (ChargedArray Nat × Bank) → Except Refusal Reply × Shelf
  | .error stop => (.error (.ofStop stop), s)
  | .ok (a, bank) =>
    match { s with bank }.put name a with
    | .ok s => (.ok .done, s)
    | .error v => (.error (.violation v), s)

def run (s : Shelf) : Command → Except Refusal Reply × Shelf
  | .make name values account =>
    s.place name (ChargedArray.make s.bank account s.width.bytes (values.map s.width.cut).toArray)
  | .filled name count account =>
    let (made, bank) := ChargedArray.filled s.bank account s.width.bytes count 0
    { s with bank }.place name (made.map (·, bank))
  | .copy name target account =>
    match s.find? name with
    | none => (.error .missing, s)
    | some a => s.place target (ChargedArray.make s.bank (some account) s.width.bytes a.items)
  | .takeOut name =>
    match s.find? name with
    | none => (.error .missing, s)
    | some a =>
      match s.drop name with
      | .ok s => (.ok (.elements a.items), s)
      | .error v => (.error (.violation v), s)
  | .drop name =>
    match s.find? name with
    | none => (.error .missing, s)
    | some _ =>
      match s.drop name with
      | .ok s => (.ok .done, s)
      | .error v => (.error (.violation v), s)
  | .remove name i =>
    match s.find? name with
    | none => (.error .missing, s)
    | some a =>
      match a.removeUnstable i with
      | .ok (x, a) => (.ok (.element x), s.update name a)
      | .error v => (.error (.violation v), s)
  | .write name i value =>
    match s.find? name with
    | none => (.error .missing, s)
    | some a =>
      match a.set i (s.width.cut value) with
      | .ok a => (.ok .done, s.update name a)
      | .error v => (.error (.violation v), s)

def clear (s : Shelf) : Contract Shelf :=
  (s.arrays.map (·.1)).foldlM drop s

end Shelf
end TypeAtlas
