/-
References between records.

An `Id` is a position in one arena.  A `DeclId` names a declaration of any kind
and a `TypeId` one that is a type; both carry the kind beside the position.  The
root namespace lies in no arena and has the largest position as its own.
-/
import TypeAtlas.Violation

namespace TypeAtlas

structure Id (a : Arena) where
  raw : UInt32
deriving DecidableEq, Hashable

namespace Id

variable {a : Arena}

def index (id : Id a) : Nat := id.raw.toNat

/-- The id of the record at an index below 2 ^ 32. -/
def ofIndex (i : Nat) : Id a := ⟨UInt32.ofNat i⟩

/-- The id of the record at an index, which has to fit. -/
def ofIndexChecked (i : Nat) : Contract (Id a) :=
  if i < UInt32.size then .ok (ofIndex i) else .error (.indexTooLarge i)

/-- The namespace that encloses all others. -/
def root : Id .namespaces := ⟨0xffffffff⟩

def isRoot (id : Id .namespaces) : Bool := id == root

def render (id : Id a) : String := s!"Id({id.raw})"

theorem index_ofIndex {i : Nat} (h : i < UInt32.size) : (ofIndex i : Id a).index = i :=
  UInt32.toNat_ofNat_of_lt' h

theorem eq_of_index_eq {id other : Id a} (h : id.index = other.index) : id = other :=
  congrArg mk (UInt32.toNat_inj.mp h)

@[simp] theorem ofIndex_index (id : Id a) : ofIndex id.index = id :=
  congrArg mk id.raw.ofNat_toNat

end Id

/-- A run of ids in the pool of an arena. -/
structure IdList (a : Arena) where
  start : UInt32
  len : UInt32
deriving DecidableEq

namespace IdList

variable {a : Arena}

def empty : IdList a := ⟨0, 0⟩

/-- One past the last position.  The sum does not wrap. -/
def stop (l : IdList a) : Nat := l.start.toNat + l.len.toNat

def isEmpty (l : IdList a) : Bool := l.len == 0

/-- The ids of a list, if it lies in the pool. -/
def slice? (l : IdList a) (pool : Array (Id a)) : Option (Array (Id a)) :=
  if l.stop ≤ pool.size then some (pool.extract l.start.toNat l.stop) else none

def render (l : IdList a) : String := s!"IdList({l.start}..+{l.len})"

instance : Inhabited (IdList a) := ⟨empty⟩

end IdList

/-- A reference to a declaration of any kind. -/
structure DeclId where
  kind : DeclKind
  raw : UInt32
deriving DecidableEq, Hashable

/-- The declaration an id stands for. -/
def Id.decl {k : DeclKind} (id : Id (.decl k)) : DeclId := ⟨k, id.raw⟩

namespace DeclId

def root : DeclId := Id.root.decl

def isRoot (d : DeclId) : Bool := d == root

def arena (d : DeclId) : Arena := .decl d.kind

def id (d : DeclId) : Id (.decl d.kind) := ⟨d.raw⟩

def index (d : DeclId) : Nat := d.raw.toNat

/-- The id of a declaration of kind `k`, if it is one. -/
def to? (k : DeclKind) (d : DeclId) : Option (Id (.decl k)) :=
  if d.kind = k then some ⟨d.raw⟩ else none

/-- Only a namespace can be the root. -/
theorem decl_ne_root {k : DeclKind} (id : Id (.decl k)) (hk : k ≠ .nameSpace) : id.decl ≠ root := by
  intro h
  exact hk (congrArg kind h)

theorem to?_eq_some_iff {k : DeclKind} {d : DeclId} {id : Id (.decl k)} :
    d.to? k = some id ↔ d = id.decl := by
  obtain ⟨kind, raw⟩ := d
  unfold to?
  constructor
  · intro h
    split at h
    · next hk =>
      obtain rfl := Option.some.inj h
      exact congrArg (mk · raw) hk
    · exact nomatch h
  · intro h
    cases h
    exact if_pos rfl

/-- The id of a declaration that has to be of kind `k`. -/
def expect (k : DeclKind) (d : DeclId) : Contract (Id (.decl k)) :=
  match d.to? k with
  | some id => .ok id
  | none => .error (.kindMismatch (.decl k) (.decl d.kind))

def render (d : DeclId) : String := d.kind.label ++ "(" ++ d.id.render ++ ")"

end DeclId

/-- A reference to a declaration that is a type. -/
structure TypeId where
  kind : TypeKind
  raw : UInt32
deriving DecidableEq, Hashable

namespace TypeId

/-- The same reference, to a declaration. -/
def decl (t : TypeId) : DeclId := ⟨t.kind.toDecl, t.raw⟩

def id (t : TypeId) : Id (.decl t.kind.toDecl) := ⟨t.raw⟩

def to? (k : TypeKind) (t : TypeId) : Option (Id (.decl k.toDecl)) := t.decl.to? k.toDecl

def expect (k : TypeKind) (t : TypeId) : Contract (Id (.decl k.toDecl)) := t.decl.expect k.toDecl

def render (t : TypeId) : String := t.decl.render

end TypeId

/-- The type reference of a declaration, if it is a type. -/
def DeclId.toTypeId? (d : DeclId) : Option TypeId :=
  d.kind.toTypeKind?.map fun k => ⟨k, d.raw⟩

@[simp] theorem TypeId.toTypeId?_decl (t : TypeId) : t.decl.toTypeId? = some t := by
  simp [DeclId.toTypeId?, TypeId.decl]

end TypeAtlas
