/-
Binary search by hash.

Every lookup of a database is a search in an array ascending by name hash.  The
search asks its comparison in a monad, because the key of an element may have to
be looked up under a contract of its own.

The search keeps a run of candidates and halves it until one is left, and only
then asks for equality.  Elements that compare less must all come before those
that compare equal, and those before the greater ones.
-/
namespace TypeAtlas
namespace Search

variable {α : Type} {m : Type → Type} [Monad m]

/-- Where a searched element is, or where it would have to be inserted. -/
inductive Hit where
  | found (index : Nat)
  | absent (insertAt : Nat)
deriving DecidableEq

def Hit.index? : Hit → Option Nat
  | found i => some i
  | absent _ => none

/-- The place of a hit in the order, whether the element is there or not. -/
def Hit.place : Hit → Nat
  | found i => i
  | absent i => i

/-- Narrows the run of `size` candidates from `base` on to a single one: the
last that does not compare greater, or the first of the run if all do. -/
def narrow (items : Array α) (cmp : α → m Ordering) (base size : Nat)
    (fits : base + size ≤ items.size) (pos : 0 < size) : m (Fin items.size) :=
  if h : size = 1 then
    pure ⟨base, by omega⟩
  else do
    match ← cmp (items[base + size / 2]) with
    | .gt => narrow items cmp base (size - size / 2) (by omega) (by omega)
    | _ => narrow items cmp (base + size / 2) (size - size / 2) (by omega) (by omega)
termination_by size
decreasing_by all_goals omega

/-- Searches for an element that compares equal. -/
def locate (items : Array α) (cmp : α → m Ordering) : m Hit :=
  if h : items.size = 0 then
    pure (.absent 0)
  else do
    let i ← narrow items cmp 0 items.size (by omega) (by omega)
    match ← cmp items[i] with
    | .eq => pure (.found i)
    | .lt => pure (.absent (i + 1))
    | .gt => pure (.absent i)

/-- The index of an element whose key is `hash`, where the key is looked up. -/
def byKeyM (items : Array α) (key : α → m UInt32) (hash : UInt32) : m (Option Nat) := do
  let hit ← locate items fun x => do return compare (← key x) hash
  return hit.index?

/-- The index of an element that compares equal. -/
def byOrder (items : Array α) (cmp : α → Ordering) : Option Nat :=
  (Id.run (locate items fun x => pure (cmp x))).index?

/-- The index of an element whose key is `hash`. -/
def byKey (items : Array α) (key : α → UInt32) (hash : UInt32) : Option Nat :=
  byOrder items fun x => compare (key x) hash

/-- The index of the first element that fails `p`, where all that fail come
after all that do not. -/
def partitionPointM (items : Array α) (p : α → m Bool) : m Nat := do
  let hit ← locate items fun x => do return if ← p x then .lt else .gt
  return hit.place

/-- The first and one past the last index of the elements whose key is `hash`,
where the key is looked up.  Without such an element both are the index where it
would be inserted. -/
def equalRangeM (items : Array α) (key : α → m UInt32) (hash : UInt32) : m (Nat × Nat) := do
  let first ← partitionPointM items fun x => return decide ((← key x) < hash)
  let count ← partitionPointM (items.extract first) fun x => return (← key x) == hash
  return (first, first + count)

/-- How many elements have the key `hash`, where the key is looked up. -/
def countM (items : Array α) (key : α → m UInt32) (hash : UInt32) : m Nat := do
  let (first, last) ← equalRangeM items key hash
  return last - first

def partitionPoint (items : Array α) (p : α → Bool) : Nat :=
  Id.run (partitionPointM items fun x => pure (p x))

def equalRange (items : Array α) (key : α → UInt32) (hash : UInt32) : Nat × Nat :=
  Id.run (equalRangeM items (fun x => pure (key x)) hash)

def count (items : Array α) (key : α → UInt32) (hash : UInt32) : Nat :=
  Id.run (countM items (fun x => pure (key x)) hash)

/-- The least index whose key is smaller than the one before. -/
def firstDescent : List UInt32 → Option Nat
  | a :: b :: rest => if b < a then some 1 else (firstDescent (b :: rest)).map (· + 1)
  | _ => none

def firstUnsorted (items : Array α) (key : α → UInt32) : Option Nat :=
  firstDescent (items.toList.map key)

def isSorted (items : Array α) (key : α → UInt32) : Bool := (firstUnsorted items key).isNone

end Search
end TypeAtlas
