/-
Images: the whole content of a reflection database.

Every arena ascends by name hash.  A member list is a span of a pool, and the
pool of an arena holds ids of that arena.  An image read from outside need not
keep to any of this; `TypeAtlas.Image.Validity` states when it does.
-/
import TypeAtlas.Profile
import TypeAtlas.Record.Members

namespace TypeAtlas

structure Image where
  profile : Profile
  nameBlob : String
  /-- The texts that text attributes hold. -/
  textBlob : String
  /-- Every name in use, ascending by hash. -/
  names : Array NameSpan
  records : PerArena fun a => Array (Record a)
  /-- Every record that is a type, ascending by name hash. -/
  typeIndex : Array TypeId
  pools : PerArena fun a => Array (Id a)
  /-- The namespace that encloses all others.  It lies in no arena. -/
  root : Record .namespaces

namespace Image

def empty (profile : Profile) : Image where
  profile
  nameBlob := ""
  textBlob := ""
  names := #[]
  records := .ofFn fun _ => #[]
  typeIndex := #[]
  pools := .ofFn fun _ => #[]
  root := .root

def arena (img : Image) (a : Arena) : Array (Record a) := img.records.get a

/-- The ids from which the member lists over an arena are cut. -/
def pool (img : Image) (a : Arena) : Array (Id a) := img.pools.get a

/-- How many records there are, the root namespace apart. -/
def recordCount (img : Image) : Nat :=
  Arena.all.foldr (fun a n => (img.arena a).size + n) 0

/-- The record at an id, the root namespace included. -/
def record? (img : Image) : {a : Arena} → Id a → Option (Record a)
  | .namespaces, id => if id.isRoot then some img.root else (img.arena .namespaces)[id.index]?
  | a, id => (img.arena a)[id.index]?

def header? (img : Image) (d : DeclId) : Option Header :=
  (img.record? d.id).map (·.header)

def typeHash? (img : Image) (t : TypeId) : Option UInt32 :=
  (img.header? t.decl).map (·.name.hash)

def resolveName (img : Image) (n : NameSpan) : Name := n.resolve img.nameBlob

def text? (img : Image) (s : TextSpan) : Option String := s.resolve? img.textBlob

end Image

/-- Whether two bit patterns are equal as 32-bit floats: a NaN equals nothing
and the two zeros equal each other. -/
def floatBitsEq (a b : UInt32) : Bool :=
  let magnitude (x : UInt32) := x &&& 0x7fffffff
  let isNaN (x : UInt32) := 0x7f800000 < magnitude x
  !isNaN a && !isNaN b && (a == b || (magnitude a == 0 && magnitude b == 0))

/-- Equality of attribute values, floats being compared as numbers. -/
def AttributeValue.alike : AttributeValue → AttributeValue → Bool
  | float a, float b => floatBitsEq a b
  | a, b => a == b

/-- Equality of attribute records, floats being compared as numbers. -/
def Record.alike (r s : Record .attributes) : Bool :=
  r.header == s.header && AttributeValue.alike r.body s.body

/-- Equality of images, floats being compared as numbers.  An image that holds a
NaN is not alike itself. -/
def Image.alike (img other : Image) : Bool :=
  img.profile == other.profile && img.nameBlob == other.nameBlob
    && img.textBlob == other.textBlob && img.names == other.names
    && (Arena.all.all fun
      | .attributes => (img.arena .attributes).isEqv (other.arena .attributes) Record.alike
      | .decl k => img.arena (.decl k) == other.arena (.decl k))
    && img.typeIndex == other.typeIndex
    && (Arena.all.all fun a => img.pool a == other.pool a)
    && img.root == other.root

end TypeAtlas
