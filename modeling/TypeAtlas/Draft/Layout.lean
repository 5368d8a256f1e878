/-
From a draft to an image.

Every arena is sorted by name hash, records of equal hash keeping their order,
and all references follow their records.  Member lists come from the owners:
the pool of an arena holds the members of each possible owner in turn, in the
order of the arena, so that every list ascends by hash as well.
-/
import TypeAtlas.Draft.Basic
import TypeAtlas.Image.Holding
import TypeAtlas.Image.Validity

namespace TypeAtlas

/-! ## Renumbering -/

/-- The new position of every record of every arena. -/
abbrev Renumbering : Type := PerArena fun _ => Array Nat

namespace Renumbering

/-- The new id of a record.  The root namespace stays what it is. -/
def apply (t : Renumbering) {k : DeclKind} (id : Id (.decl k)) : Id (.decl k) :=
  if id.decl.isRoot then id
  else
    match (t.get (.decl k))[id.index]? with
    | some i => .ofIndex i
    | none => id

def applyDecl (t : Renumbering) (d : DeclId) : DeclId := (t.apply d.id).decl

/-- Sends every reference of a record to the new position of what it names. -/
def applyRecord (t : Renumbering) {a : Arena} (r : Record a) : Record a :=
  ⟨{ r.header with parent := r.header.parent.map t.applyDecl }, Body.mapLinks t.apply r.body⟩

end Renumbering

namespace Draft

/-- The records of an arena by ascending hash, each with its position in the
draft. -/
def sorted (d : Draft) (a : Arena) : List (Record a × Nat) :=
  (d.arena a).toList.zipIdx.mergeSort fun x y => x.1.hash ≤ y.1.hash

/-- Where the records of an arena go, by their position in the draft. -/
def positions (d : Draft) (a : Arena) : Array Nat :=
  let order := (d.sorted a).map (·.2)
  Array.ofFn fun i : Fin (d.arena a).size => order.idxOf i.val

def renumbering (d : Draft) : Renumbering := .ofFn d.positions

/-- The records of every arena in their new places, with references to match. -/
def renumbered (d : Draft) : PerArena fun a => Array (Record a) :=
  let t := d.renumbering
  .ofFn fun a => ((d.sorted a).map fun entry => t.applyRecord entry.1).toArray

end Draft

/-! ## Member lists -/

/-- The records of an image without member lists. -/
abbrev Records : Type := PerArena fun a => Array (Record a)

namespace Records

/-- Whether a field is the return value of its function. -/
def isReturn (rs : Records) (id : Id .fields) (r : Record .fields) : Bool :=
  match r.parent.bind (·.to? .function) with
  | none => false
  | some f =>
    match rs.functions[f.index]? with
    | none => false
    | some function => FunctionBody.returnField function.body == some id

/-- The owner that lists a record.  A return value has an owner and is not
listed by it. -/
def lister (rs : Records) : {b : Arena} → Id b → Record b → Option DeclId
  | .fields, id, r => if rs.isReturn id r then none else r.parent
  | _, _, r => r.parent

/-- The records of an arena with the owner that lists each. -/
def listers (rs : Records) (b : Arena) : List (Id b × Option DeclId) :=
  (rs.get b).toList.zipIdx.map fun entry =>
    (.ofIndex entry.2, rs.lister (.ofIndex entry.2) entry.1)

/-- Everything that may own records of an arena, in the order of its pool.  The
root namespace comes after the other namespaces. -/
def ownersOf (rs : Records) (b : Arena) : List DeclId :=
  b.owners.flatMap fun k =>
    (List.range (rs.get (.decl k)).size).map (fun i => ⟨k, .ofNat i⟩)
      ++ if k = .nameSpace then [.root] else []

/-- Every owner with the members it lists, in the order of the pool. -/
def memberships (rs : Records) (b : Arena) : List (DeclId × List (Id b)) :=
  let listers := rs.listers b
  (rs.ownersOf b).map fun owner =>
    (owner, (listers.filter fun entry => entry.2 == some owner).map (·.1))

/-- Lays member lists out one after another from a position of the pool on. -/
def spansFrom {b : Arena} (start : Nat) :
    List (DeclId × List (Id b)) → List (DeclId × IdList b)
  | [] => []
  | (owner, ids) :: rest =>
    (owner, ⟨.ofNat start, .ofNat ids.length⟩) :: spansFrom (start + ids.length) rest

def pool (rs : Records) (b : Arena) : Array (Id b) :=
  ((rs.memberships b).flatMap (·.2)).toArray

/-- The member list of every owner over each arena. -/
abbrev Spans : Type := PerArena fun b => List (DeclId × IdList b)

def spans (rs : Records) : Spans := .ofFn fun b => spansFrom 0 (rs.memberships b)

def Spans.of (t : Spans) (owner : DeclId) (b : Arena) : IdList b :=
  ((t.get b).lookup owner).getD .empty

/-! ## Flags -/

/-- The well-known flags among the attributes of an owner. -/
def flagsOf (rs : Records) (owner : DeclId) : FlagBits :=
  rs.attributes.foldl
    (fun flags r => if r.parent == some owner then flags.union r.flagBit else flags) .none

/-- The records of an arena with their member lists and flags. -/
def complete (rs : Records) (t : Spans) : (a : Arena) → Array (Record a)
  | .attributes => rs.attributes
  | .decl k =>
    (rs.get (.decl k)).mapIdx fun i r =>
      let owner : DeclId := ⟨k, .ofNat i⟩
      { r with body := Body.withFlags (rs.flagsOf owner) (Body.withMembers (t.of owner) r.body) }

/-! ## Index of types -/

/-- Every record that is a type with its hash, by kind and position. -/
def types (rs : Records) : List (UInt32 × TypeId) :=
  TypeKind.all.flatMap fun k =>
    (rs.get (.decl k.toDecl)).toList.zipIdx.map fun entry =>
      (entry.1.hash, ⟨k, .ofNat entry.2⟩)

/-- Types of any kind by ascending hash. -/
def typeIndex (rs : Records) : Array TypeId :=
  ((rs.types.mergeSort fun x y => x.1 ≤ y.1).map (·.2)).toArray

end Records

namespace Draft

/-- The names of a draft by ascending hash, those of hash zero left out. -/
def nameIndex (d : Draft) : Array NameSpan :=
  ((d.names.listed.toList.filter fun n => !n.isEmpty).mergeSort
    fun x y => x.hash ≤ y.hash).toArray

/-- The image of a draft, not yet validated. -/
def image (d : Draft) : Image :=
  let rs : Records := d.renumbered
  let spans := rs.spans
  { profile := d.profile
    nameBlob := d.names.texts.blob
    textBlob := d.texts.blob
    names := d.nameIndex
    records := .ofFn (rs.complete spans)
    typeIndex := rs.typeIndex
    pools := .ofFn rs.pool
    root := { Record.root with
      body := Body.withMembers (spans.of .root) (Record.root.body) } }

/-- Makes the image, charges it to an account if there is one, and validates it.
If it is not valid nothing stays charged. -/
def build (d : Draft) (account : Option Account) (bank : Bank) :
    Attempt DraftFault Holding × Bank :=
  match d.image.hold account bank with
  | (.error stop, bank) => (.error (stop.map .alloc), bank)
  | (.ok held, bank) =>
    match held.image.validate with
    | .ok () => (.ok held, bank)
    | .error e => (.error (.fault (.invalid e)), held.drop bank)

def toImage (d : Draft) : Except ImageFault Image := do
  d.image.validate
  return d.image

end Draft
end TypeAtlas
