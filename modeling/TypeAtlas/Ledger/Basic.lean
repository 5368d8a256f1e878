/-
Ledgers of bytes.

A ledger grants blocks of bytes up to a limit and counts what it has granted.
It moves no memory.  Live bytes are counted in a word, and a block that the limit
admits and the word does not hold is a breach.  A bank is a row of ledgers, and
an account is one of them or the system, which grants everything and counts
nothing.
-/
import TypeAtlas.Violation

namespace TypeAtlas

inductive AllocError where
  /-- The limit does not admit the block. -/
  | exhausted (requested limit live : UInt64)
  /-- The size of an array is no 64-bit number. -/
  | sizeOverflow (count elementSize : Nat)
deriving DecidableEq

namespace AllocError

def label : AllocError → String
  | exhausted _ _ _ => "Exhausted"
  | sizeOverflow _ _ => "SizeOverflow"

def message : AllocError → String
  | exhausted requested limit live =>
    s!"allocator exhausted: requested {requested} bytes with {live} live of {limit} allowed"
  | sizeOverflow count elementSize =>
    s!"allocation size overflow: {count} elements of {elementSize} bytes"

end AllocError

/-- The size in bytes of an array, which has to fit in 64 bits. -/
def arrayBytes (elementSize count : Nat) : Except AllocError UInt64 :=
  if count * elementSize < UInt64.size then
    .ok (UInt64.ofNat (count * elementSize))
  else
    .error (.sizeOverflow count elementSize)

/-- The most bytes that the elements of one array can take. -/
def maxArrayBytes : UInt64 := 0x7fffffffffffffff

/-- Counters of granted bytes and blocks.  One call can take the bytes to the end
of a 64-bit word.  The other counters go up by one with a call, so that no run
gets them there, and are numbers. -/
structure Ledger where
  limit : Option UInt64
  live : UInt64 := 0
  peak : UInt64 := 0
  blocks : Nat := 0
  allocs : Nat := 0
  frees : Nat := 0
deriving DecidableEq

namespace Ledger

/-- Whether a block would take the live bytes over the limit.  The sum tested
stops at the largest word, which as a limit refuses nothing. -/
def refuses (l : Ledger) (size : UInt64) : Bool :=
  match l.limit with
  | none => false
  | some limit => limit.toNat < min (l.live.toNat + size.toNat) (UInt64.size - 1)

/-- Counts a block in. -/
def grant (l : Ledger) (size : UInt64) : Ledger :=
  { l with
    live := l.live + size
    peak := max l.peak (l.live + size)
    blocks := l.blocks + 1
    allocs := l.allocs + 1 }

/-- Grants a block.  One that is not refused has to leave the live bytes a word. -/
def alloc (l : Ledger) (size : UInt64) : Attempt AllocError Ledger :=
  if l.refuses size then .error (.fault (.exhausted size (l.limit.getD 0) l.live))
  else if l.live.toNat + size.toNat < UInt64.size then .ok (l.grant size)
  else .error (.breach .sumOverflow)

/-- Takes back a block that this ledger has granted. -/
def release (l : Ledger) (size : UInt64) : Ledger :=
  { l with live := l.live - size, blocks := l.blocks - 1, frees := l.frees + 1 }

/-- Takes back any block, which has to be among what is live. -/
def free (l : Ledger) (size : UInt64) : Contract Ledger :=
  if 0 < l.blocks ∧ size ≤ l.live then .ok (l.release size)
  else .error (.unmatchedFree size.toNat)

def isBalanced (l : Ledger) : Bool := l.blocks == 0 && l.live == 0

end Ledger

inductive Account where
  | system
  | ledger (i : Nat)
deriving DecidableEq

abbrev Bank : Type := Array Ledger

namespace Bank

def alloc (bank : Bank) (size : UInt64) : Account → Attempt AllocError Bank
  | .system => .ok bank
  | .ledger i =>
    match bank[i]? with
    | none => .ok bank
    | some l => return bank.setIfInBounds i (← l.alloc size)

def release (bank : Bank) (size : UInt64) : Account → Bank
  | .system => bank
  | .ledger i => bank.modify i (·.release size)

def free (bank : Bank) (size : UInt64) : Account → Contract Bank
  | .system => .ok bank
  | .ledger i =>
    match bank[i]? with
    | none => .ok bank
    | some l => return bank.setIfInBounds i (← l.free size)

/-- Grants one block for each array, given by element size and element count.  If
one is not granted, for whatever reason, those before it are taken back. -/
def allocArrays (bank : Bank) (account : Account) :
    List (Nat × Nat) → Attempt AllocError (List UInt64) × Bank
  | [] => (.ok [], bank)
  | (elementSize, count) :: arrays =>
    match arrayBytes elementSize count with
    | .error e => (.error (.fault e), bank)
    | .ok bytes =>
      match bank.alloc bytes account with
      | .error stop => (.error stop, bank)
      | .ok granted =>
        match granted.allocArrays account arrays with
        | (.ok blocks, full) => (.ok (bytes :: blocks), full)
        | (.error stop, rest) => (.error stop, rest.release bytes account)

def releaseAll (bank : Bank) (account : Account) (sizes : List UInt64) : Bank :=
  sizes.foldl (fun bank size => bank.release size account) bank

end Bank
end TypeAtlas
