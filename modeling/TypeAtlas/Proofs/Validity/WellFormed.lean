/-
Well-formed images.

`Image.WellFormed` says what holds of an image that can be queried without
checks, record by record and list by list, and not how that is found out.  Two
of its clauses are about the whole graph of references: owners lead to the root
namespace, and no class derives from itself.
-/
import Mathlib.Logic.Relation
import TypeAtlas.Image.Validity

namespace TypeAtlas

/-- The field that stands for the return value, for a function that has one. -/
def Record.returnField? : {a : Arena} → Record a → Option (Id .fields)
  | .functions, r => FunctionBody.returnField r.body
  | _, _ => none

namespace Image

/-- No arena has so many records that one of them has the id of the root
namespace, or of another record. -/
def Addressable (img : Image) : Prop := ∀ a, (img.arena a).size < UInt32.size

/-! ## References -/

/-- An id names a record of its arena.  That of the root namespace does not. -/
def Holds (img : Image) {a : Arena} (id : Id a) : Prop := id.index < (img.arena a).size

/-- A declaration is the root namespace or lies in its arena. -/
def Knows (img : Image) (d : DeclId) : Prop := d = .root ∨ img.Holds d.id

/-- The ids of a list, as far as the pool has them. -/
def listed (img : Image) {b : Arena} (list : IdList b) : List (Id b) :=
  ((img.pool b).extract list.start.toNat list.stop).toList

def hash? (img : Image) {a : Arena} (id : Id a) : Option UInt32 :=
  ((img.arena a)[id.index]?).map (·.hash)

/-- Declarations from which owners lead to the root namespace. -/
inductive Rooted (img : Image) : DeclId → Prop
  | root : Rooted img .root
  | owned {d p : DeclId} : img.parentOf? d = some p → Rooted img p → Rooted img d

/-- A class states another as its base. -/
def Derives (img : Image) (c b : Id .classes) : Prop :=
  ∃ r, (img.arena .classes)[c.index]? = some r ∧ ClassBody.base r.body = some b

/-! ## Records and lists -/

/-- What a record has to state about itself in its arena. -/
structure RecordFits (img : Image) {a : Arena} (r : Record a) : Prop where
  kind : r.kind = r.expectedKind
  owner : ∃ p, r.parent = some p ∧ img.Knows p ∧ r.kind.allowsParent (.decl p.kind)
  name : (r.name.text.resolve? img.nameBlob).isSome

/-- The text that an attribute holds as its value lies in its blob. -/
def ValueFits (img : Image) : AttributeValue → Prop
  | .name value => (value.text.resolve? img.nameBlob).isSome
  | .text value => (value.resolve? img.textBlob).isSome
  | _ => True

/-- A member list lies in its pool, and holds only records that its owner owns,
by ascending hash. -/
structure ListFits (img : Image) (owner : DeclId) {b : Arena} (list : IdList b) : Prop where
  inPool : list.stop ≤ (img.pool b).size
  owned : ∀ id ∈ img.listed list, ∃ m, (img.arena b)[id.index]? = some m ∧ m.parent = some owner
  ascending : ((img.listed list).filterMap img.hash?).Pairwise (· ≤ ·)

/-- What a declaration refers to beside its owner. -/
structure MembersFit (img : Image) (owner : DeclId) (r : Record owner.arena) : Prop where
  links : ∀ d ∈ r.links, img.Holds d.id
  lists : ∀ b ∈ owner.kind.memberArenas, img.ListFits owner (r.members b)
  returned : ∀ id, r.returnField? = some id →
    (∃ field, (img.arena .fields)[id.index]? = some field ∧ field.parent = some owner) ∧
      id ∉ img.listed (r.members .fields)

/-! ## Images -/

/-- Everything that a well-formed image is, chains of base classes left out. -/
structure Regular (img : Image) : Prop where
  /-- A reduced image has no attributes, templates or instances of templates. -/
  profile : img.profile = .reduced → img.arena .attributes = #[] ∧ img.arena .templates = #[] ∧
    img.arena .templateTypes = #[]
  root : img.root.kind = .decl .nameSpace ∧ img.root.parent = none ∧ img.root.hash = 0
  records : ∀ a, ∀ r ∈ img.arena a, img.RecordFits r
  values : ∀ r ∈ img.arena .attributes, img.ValueFits r.body
  sorted : ∀ a, ((img.arena a).toList.map (·.hash)).Pairwise (· ≤ ·)
  members : ∀ k i r, (img.arena (.decl k))[i]? = some r → img.MembersFit ⟨k, .ofNat i⟩ r
  rootMembers : img.MembersFit .root img.root
  rooted : ∀ k i, i < (img.arena (.decl k)).size → img.Rooted ⟨k, .ofNat i⟩
  types : ∀ t ∈ img.typeIndex, img.Holds t.decl.id
  typesSorted : (img.typeIndex.toList.filterMap img.typeHash?).Pairwise (· ≤ ·)
  names : ∀ n ∈ img.names, (n.text.resolve? img.nameBlob).isSome
  namesSorted : (img.names.toList.map (·.hash)).Pairwise (· ≤ ·)

structure WellFormed (img : Image) : Prop extends img.Regular where
  acyclic : ∀ c, ¬ Relation.TransGen img.Derives c c

/-! ## The record at an id -/

theorem ne_root_of_holds {img : Image} (h : img.Addressable) {d : DeclId}
    (hd : img.Holds d.id) : d ≠ .root := by
  intro e
  subst e
  have hlt : (4294967295 : Nat) < (img.arena .namespaces).size := hd
  have hsize := h .namespaces
  simp only [UInt32.size] at hsize
  omega

theorem isRoot_iff {d : DeclId} : d.isRoot = true ↔ d = .root := by
  rw [DeclId.isRoot, beq_iff_eq]

@[simp] theorem record?_root (img : Image) : img.record? Id.root = some img.root := rfl

theorem record?_of_ne_root (img : Image) {k : DeclKind} {id : Id (.decl k)}
    (h : id.decl ≠ .root) : img.record? id = (img.arena (.decl k))[id.index]? := by
  cases k with
  | nameSpace =>
    have hid : id.isRoot = false := by
      rw [Id.isRoot, beq_eq_false_iff_ne]
      exact fun e => h (congrArg Id.decl e)
    show (if id.isRoot then some img.root else (img.arena .namespaces)[id.index]?) = _
    rw [hid]
    rfl
  | _ => rfl

theorem parentOf?_eq_some_iff {img : Image} {d p : DeclId} (hd : d ≠ .root) :
    img.parentOf? d = some p ↔
      ∃ r : Record d.arena, (img.arena d.arena)[d.index]? = some r ∧ r.parent = some p := by
  simp only [parentOf?, header?, img.record?_of_ne_root (show d.id.decl ≠ .root from hd),
    Option.bind_eq_bind, Option.bind_eq_some_iff, Option.map_eq_some_iff]
  constructor
  · rintro ⟨_, ⟨r, hr, hheader⟩, hp⟩
    subst hheader
    exact ⟨r, hr, hp⟩
  · rintro ⟨r, hr, hp⟩
    exact ⟨r.header, ⟨r, hr, rfl⟩, hp⟩

theorem record?_of_holds {img : Image} (h : img.Addressable) {a : Arena} {id : Id a}
    (hid : img.Holds id) : img.record? id = (img.arena a)[id.index]? := by
  cases a with
  | decl k => exact img.record?_of_ne_root (ne_root_of_holds h (d := id.decl) hid)
  | attributes => rfl

/-- The id of a type is never that of the root namespace. -/
theorem type_ne_root (t : TypeId) : t.decl ≠ .root := by
  refine DeclId.decl_ne_root t.id ?_
  cases t.kind <;> decide

theorem getElem?_eq_some_of_holds {img : Image} {a : Arena} {id : Id a} (h : img.Holds id) :
    (img.arena a)[id.index]? = some (img.arena a)[id.index] :=
  Array.getElem?_eq_getElem h

theorem holds_of_getElem? {img : Image} {a : Arena} {id : Id a} {r : Record a}
    (h : (img.arena a)[id.index]? = some r) : img.Holds id :=
  (Array.getElem?_eq_some_iff.mp h).1

end Image
end TypeAtlas
