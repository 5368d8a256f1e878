/-
Queries.

A `Ref` is an id with the record it names.  Following a reference is done under
contract: on a valid image no reference dangles and no list reaches past its
pool, and on any other image a query may come to one that does.
-/
import TypeAtlas.Image.Basic
import TypeAtlas.Search

namespace TypeAtlas

/-- An id with its record. -/
structure Ref (a : Arena) where
  id : Id a
  record : Record a
deriving DecidableEq

/-- A declaration of any kind with its record. -/
structure DeclRef where
  kind : DeclKind
  ref : Ref (.decl kind)

/-- A type of any kind with its record. -/
structure TypeRef where
  kind : TypeKind
  ref : Ref (.decl kind.toDecl)

/-- Forgets which kind of declaration a record is. -/
def Ref.decl {k : DeclKind} (r : Ref (.decl k)) : DeclRef := ⟨k, r⟩

namespace TypeRef

def id (t : TypeRef) : TypeId := ⟨t.kind, t.ref.id.raw⟩

def header (t : TypeRef) : Header := t.ref.record.header

def size (t : TypeRef) : UInt32 := t.ref.record.size

def decl (t : TypeRef) : DeclRef := ⟨t.kind.toDecl, t.ref⟩

end TypeRef

namespace DeclRef

def id (d : DeclRef) : DeclId := ⟨d.kind, d.ref.id.raw⟩

def header (d : DeclRef) : Header := d.ref.record.header

/-- The record as one of kind `k`, if its arena is that of `k`. -/
def to? (k : DeclKind) (d : DeclRef) : Option (Ref (.decl k)) :=
  if h : d.kind = k then some (h ▸ d.ref) else none

/-- The record as one of kind `k`, which it has to be.  A breach names the kind
that the record states. -/
def expect (k : DeclKind) (d : DeclRef) : Contract (Ref (.decl k)) :=
  match d.to? k with
  | some r => .ok r
  | none => .error (.kindMismatch (.decl k) d.header.kind)

def toTypeRef? : DeclRef → Option TypeRef
  | ⟨.type, r⟩ => some ⟨.type, r⟩
  | ⟨.enum, r⟩ => some ⟨.enum, r⟩
  | ⟨.classType, r⟩ => some ⟨.classType, r⟩
  | ⟨.templateType, r⟩ => some ⟨.templateType, r⟩
  | _ => none

end DeclRef

namespace TypeRef

def to? (k : TypeKind) (t : TypeRef) : Option (Ref (.decl k.toDecl)) := t.decl.to? k.toDecl

def expect (k : TypeKind) (t : TypeRef) : Contract (Ref (.decl k.toDecl)) := t.decl.expect k.toDecl

end TypeRef

/-! ## Attribute values -/

namespace Record

/-- A breach names the kind that the attribute states. -/
def wrongValue {α : Type} (r : Record .attributes) (k : AttributeKind) : Contract α :=
  .error (.kindMismatch (.attr k) r.kind)

def expectFlag (r : Record .attributes) : Contract Unit :=
  match r.body with
  | .flag => .ok ()
  | _ => r.wrongValue .flag

def expectInt (r : Record .attributes) : Contract Int32 :=
  match r.body with
  | .int v => .ok v
  | _ => r.wrongValue .int

def expectFloat (r : Record .attributes) : Contract UInt32 :=
  match r.body with
  | .float bits => .ok bits
  | _ => r.wrongValue .float

def expectName (r : Record .attributes) : Contract NameSpan :=
  match r.body with
  | .name v => .ok v
  | _ => r.wrongValue .name

def expectText (r : Record .attributes) : Contract TextSpan :=
  match r.body with
  | .text v => .ok v
  | _ => r.wrongValue .text

end Record

namespace Image

variable (img : Image) {a : Arena}

/-! ## Following references -/

/-- The record at an id that has to name one. -/
def ref (id : Id a) : Contract (Ref a) :=
  match img.record? id with
  | some record => .ok ⟨id, record⟩
  | none => .error (.danglingId a id.raw (img.arena a).size)

/-- The ids of a list that has to lie in its pool. -/
def ids (l : IdList a) : Contract (Array (Id a)) :=
  match l.slice? (img.pool a) with
  | some ids => .ok ids
  | none => .error (.listOutOfPool a l.start l.len (img.pool a).size)

def resolve (d : DeclId) : Contract DeclRef := do
  return ⟨d.kind, ← img.ref d.id⟩

def resolveType (t : TypeId) : Contract TypeRef := do
  return ⟨t.kind, ← img.ref t.id⟩

def rootRef : Ref .namespaces := ⟨.root, img.root⟩

def nameOf (r : Ref a) : Name := img.resolveName r.record.name

/-- The owner of a record.  Only the root namespace has none. -/
def parentOf (r : Ref a) : Contract (Option DeclRef) := r.record.parent.mapM img.resolve

def members (r : Ref a) (b : Arena) : Contract (Array (Id b)) := img.ids (r.record.members b)

def refs (ids : Array (Id a)) : Contract (List (Ref a)) := ids.toList.mapM img.ref

def hashAt (id : Id a) : Contract UInt32 := return (← img.ref id).record.hash

/-- The element of a list whose name has this hash. -/
def findIn (ids : Array (Id a)) (hash : UInt32) : Contract (Option (Ref a)) := do
  let found ← Search.byKeyM ids img.hashAt hash
  (found.bind (ids[·]?)).mapM img.ref

/-- How many elements of a list have a name of this hash. -/
def countIn (ids : Array (Id a)) (hash : UInt32) : Contract Nat :=
  return (← img.refs ids).countP (·.record.hash == hash)

/-! ## Links -/

def baseOf (c : Ref .classes) : Contract (Option (Ref .classes)) :=
  (ClassBody.base c.record.body).mapM img.ref

def constructorOf (c : Ref .classes) : Contract (Option (Ref .functions)) :=
  (ClassBody.constructor c.record.body).mapM img.ref

def destructorOf (c : Ref .classes) : Contract (Option (Ref .functions)) :=
  (ClassBody.destructor c.record.body).mapM img.ref

def typeOf (f : Ref .fields) : Contract (Option TypeRef) :=
  (FieldBody.type f.record.body).mapM img.resolveType

def returnOf (f : Ref .functions) : Contract (Option (Ref .fields)) :=
  (FunctionBody.returnField f.record.body).mapM img.ref

def argumentsOf (t : Ref .templateTypes) : Contract (List (TypeRef × Bool)) :=
  (TemplateTypeBody.arguments t.record.body).mapM fun arg => do
    return (← img.resolveType arg.1, arg.2)

def templateOf (t : Ref .templateTypes) : Contract (Option (Ref .templates)) := do
  return (← img.parentOf t).bind (·.to? .template)

def textValue (r : Ref .attributes) : Contract (Option String) := do
  return img.text? (← r.record.expectText)

def nameValue (r : Ref .attributes) : Contract Name := do
  return img.resolveName (← r.record.expectName)

/-- Up to `limit` classes from `next` on, each the base of the one before.  The
base of every class answered is looked up. -/
def basesFrom : Nat → Option (Ref .classes) → Contract (List (Ref .classes))
  | 0, _ | _ + 1, none => .ok []
  | limit + 1, some c => do
    let next ← img.baseOf c
    return c :: (← basesFrom limit next)

/-- The first `limit` classes that a class derives from, nearest first. -/
def firstBases (c : Ref .classes) (limit : Nat) : Contract (List (Ref .classes)) := do
  img.basesFrom limit (← img.baseOf c)

/-- The classes that a class derives from, nearest first.  Without a cycle they
are fewer than there are classes. -/
def bases (c : Ref .classes) : Contract (List (Ref .classes)) :=
  img.firstBases c (img.arena .classes).size

/-- Whether `other` is among the classes from `next` on, of which no more than
`limit` are passed. -/
def derivesWithin (other : Id .classes) : Nat → Option (Ref .classes) → Contract Bool
  | 0, _ | _ + 1, none => .ok false
  | limit + 1, some c => do
    let next ← img.baseOf c
    if c.id = other then return true
    derivesWithin other limit next

/-- Whether a class is `other` or derives from it. -/
def derivesFrom (c : Ref .classes) (other : Id .classes) : Contract Bool := do
  if c.id = other then return true
  img.derivesWithin other (img.arena .classes).size (← img.baseOf c)

/-! ## Lookups by hash -/

/-- The name of a hash, empty if it is not in the name table. -/
def getName (hash : UInt32) : Name :=
  if hash == 0 then .empty
  else
    match (Search.byKey img.names (·.hash) hash).bind (img.names[·]?) with
    | some name => img.resolveName name
    | none => .empty

def getNameByText (text : String) : Name := img.getName (hashText text)

/-- The record of an arena whose name has this hash. -/
def find (a : Arena) (hash : UInt32) : Option (Ref a) := do
  let i ← Search.byKey (img.arena a) (·.hash) hash
  let record ← (img.arena a)[i]?
  return ⟨.ofIndex i, record⟩

def typeHashAt (t : TypeId) : Contract UInt32 := return (← img.resolveType t).header.name.hash

/-- The record of any arena of types whose name has this hash. -/
def getType (hash : UInt32) : Contract (Option TypeRef) := do
  let found ← Search.byKeyM img.typeIndex img.typeHashAt hash
  (found.bind (img.typeIndex[·]?)).mapM img.resolveType

/-! Which of several elements of one hash a lookup finds is left open.  These
functions count the elements it may find. -/

def countNames (hash : UInt32) : Nat := Search.count img.names (·.hash) hash

def count (a : Arena) (hash : UInt32) : Nat := Search.count (img.arena a) (·.hash) hash

def countTypes (hash : UInt32) : Contract Nat := Search.countM img.typeIndex img.typeHashAt hash

end Image
end TypeAtlas
