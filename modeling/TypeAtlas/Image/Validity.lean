/-
Validation.

`Image.validate` accepts the images that can be queried without further checks.
It passes over the profile, the root namespace, every record, every list and
link, the chains of owners and of base classes, the type index and the name
table, in this order, and reports the first fault it meets.

No step can go wrong in another way, since a record is only reached through
`lookup`, which reports an id that names none.
-/
import Std.Data.HashSet
import TypeAtlas.Image.Fault
import TypeAtlas.Search

namespace TypeAtlas
namespace Image

/-- A test that reports `fault` when it fails. -/
def ensure (p : Bool) (fault : ImageFault) : Except ImageFault Unit :=
  if p then .ok () else .error fault

/-- The keys of `array` have to ascend. -/
def ensureSorted (array : SortedArray) (keys : List UInt32) : Except ImageFault Unit :=
  match Search.firstDescent keys with
  | none => .ok ()
  | some index => .error (.unsorted array index)

/-- The record at an id that has to lie in its arena.  The root namespace does
not. -/
def lookup (img : Image) {a : Arena} (id : Id a) : Except ImageFault (Record a) :=
  match (img.arena a)[id.index]? with
  | some r => .ok r
  | none => .error (.danglingId a id.raw (img.arena a).size)

/-! ## Profile and root -/

def checkProfile (img : Image) : Except ImageFault Unit :=
  let present : List (Kind × Bool) :=
    [(.attr .flag, !(img.arena .attributes).isEmpty),
      (.decl .template, !(img.arena .templates).isEmpty),
      (.decl .templateType, !(img.arena .templateTypes).isEmpty)]
  match present.find? fun entry => entry.2 && !img.profile.allows entry.1 with
  | some entry => .error (.profileViolation entry.1 img.profile)
  | none => .ok ()

def checkRoot (img : Image) : Except ImageFault Unit :=
  ensure (img.root.kind == .decl .nameSpace && img.root.parent.isNone && img.root.name.isEmpty)
    .invalidRoot

/-! ## Records -/

def checkText (kind : Kind) (span : TextSpan) (blob : String) : Except ImageFault Unit :=
  ensure (span.resolve? blob).isSome (.textOutOfBounds kind span blob.utf8ByteSize)

def checkName (img : Image) (kind : Kind) (name : NameSpan) : Except ImageFault Unit :=
  checkText kind name.text img.nameBlob

/-- An owner is the root namespace or lies in its arena. -/
def checkOwnerId (img : Image) (d : DeclId) : Except ImageFault Unit :=
  if d.isRoot then .ok () else do
    let _ ← img.lookup d.id

def checkHeader (img : Image) (h : Header) (index : Nat) : Except ImageFault Unit :=
  match h.parent with
  | none => .error (.missingParent h.kind index)
  | some parent => do
    img.checkOwnerId parent
    ensure (h.kind.allowsParent (.decl parent.kind)) (.invalidParent h.kind index parent.kind)
    img.checkName h.kind h.name

/-- The span an attribute holds as its value has to lie in its blob. -/
def checkValue (img : Image) : {a : Arena} → Record a → Except ImageFault Unit
  | .attributes, r =>
    match r.body with
    | .name value => img.checkName (.attr .name) value
    | .text value => checkText (.attr .text) value img.textBlob
    | _ => .ok ()
  | .decl _, _ => .ok ()

def checkRecord (img : Image) {a : Arena} (r : Record a) (index : Nat) :
    Except ImageFault Unit := do
  img.checkValue r
  ensure (r.kind == r.expectedKind) (.kindMismatch a index r.expectedKind r.kind)
  img.checkHeader r.header index

def checkArena (img : Image) (a : Arena) : Except ImageFault Unit := do
  (img.arena a).toList.zipIdx.forM fun entry => img.checkRecord entry.1 entry.2
  ensureSorted (.arena a) ((img.arena a).toList.map (·.hash))

/-! ## Links and member lists -/

def checkLink (img : Image) (d : DeclId) : Except ImageFault Unit := do
  let _ ← img.lookup d.id

/-- The hash of a member that `owner` has to own. -/
def checkMember (img : Image) (owner : DeclId) {b : Arena} (id : Id b) :
    Except ImageFault UInt32 := do
  let member ← img.lookup id
  ensure (member.parent == some owner) (.foreignMember owner b id.index)
  return member.hash

def checkList (img : Image) (owner : DeclId) {b : Arena} (list : IdList b) :
    Except ImageFault Unit :=
  match list.slice? (img.pool b) with
  | none => .error (.listOutOfPool b list.start list.len (img.pool b).size)
  | some ids => do
    let hashes ← ids.toList.mapM (img.checkMember owner)
    ensureSorted (.arena b) hashes

/-- The return field belongs to its function and is not among its parameters. -/
def checkReturn (img : Image) (owner : DeclId) : {a : Arena} → Record a → Except ImageFault Unit
  | .functions, r =>
    match FunctionBody.returnField r.body with
    | none => .ok ()
    | some id => do
      let field ← img.lookup id
      let listed := ((FunctionBody.parameters r.body).slice? (img.pool .fields)).getD #[]
      ensure (field.parent == some owner && !listed.contains id) (.foreignReturn owner.index)
  | _, _ => .ok ()

def checkMembers (img : Image) (owner : DeclId) (r : Record owner.arena) :
    Except ImageFault Unit := do
  r.links.forM img.checkLink
  owner.kind.memberArenas.forM fun b => img.checkList owner (r.members b)
  img.checkReturn owner r

/-- The kinds whose records are passed over for their members, in order.  The
root namespace comes right after the other namespaces. -/
def memberOrder : List DeclKind :=
  [.classType, .enum, .field, .function, .templateType, .template]

def checkMembersOf (img : Image) (k : DeclKind) : Except ImageFault Unit :=
  (img.arena (.decl k)).toList.zipIdx.forM fun entry =>
    img.checkMembers ⟨k, .ofNat entry.2⟩ entry.1

/-! ## Chains of owners -/

def parentOf? (img : Image) (d : DeclId) : Option DeclId := do
  let h ← img.header? d
  h.parent

/-- Follows owners from `next` on until one is known to lie under the root or
more than `limit` have been passed.  Answers where it stopped and what it
passed. -/
def climb (img : Image) (limit : Nat) (rooted : Std.HashSet DeclId) (path : Array DeclId)
    (next : Option DeclId) : Option DeclId × Array DeclId :=
  match next with
  | none => (none, path)
  | some d =>
    if rooted.contains d || limit < path.size then (some d, path)
    else img.climb limit rooted (path.push d) (img.parentOf? d)
termination_by limit + 1 - path.size
decreasing_by
  simp only [Array.size_push]
  have := ‹¬(rooted.contains d || decide (limit < path.size)) = true›
  simp only [Bool.or_eq_true, decide_eq_true_eq, not_or] at this
  omega

/-- Extends the declarations known to lie under the root by one and by all that
own it. -/
def checkChain (img : Image) (limit : Nat) (rooted : Std.HashSet DeclId) (d : DeclId) :
    Except ImageFault (Std.HashSet DeclId) :=
  match img.climb limit rooted #[] (some d) with
  | (some last, path) =>
    if rooted.contains last then .ok (rooted.insertMany path)
    else .error (.parentCycle d.kind d.index)
  | (none, _) => .error (.parentCycle d.kind d.index)

/-- Every declaration, by kind and position. -/
def declarations (img : Image) : List DeclId :=
  DeclKind.all.flatMap fun k =>
    (List.range (img.arena (.decl k)).size).map fun i => ⟨k, .ofNat i⟩

/-- Every chain of owners ends at the root namespace. -/
def checkChains (img : Image) : Except ImageFault Unit := do
  let _ ← img.declarations.foldlM (img.checkChain img.recordCount) (Std.HashSet.ofList [.root])

/-! ## Chains of base classes -/

/-- Follows base classes from `next` on.  Comes back to the class at `index` or
passes more classes than there are only on a cycle. -/
def descend (img : Image) (index steps : Nat) (next : Option (Id .classes)) :
    Except ImageFault Unit :=
  match next with
  | none => .ok ()
  | some base =>
    if base.index = index ∨ (img.arena .classes).size ≤ steps then
      .error (.inheritanceCycle index)
    else do
      let c ← img.lookup base
      img.descend index (steps + 1) (ClassBody.base c.body)
termination_by (img.arena .classes).size - steps
decreasing_by omega

def checkInheritance (img : Image) : Except ImageFault Unit :=
  (img.arena .classes).toList.zipIdx.forM fun entry =>
    img.descend entry.2 0 (ClassBody.base entry.1.body)

/-! ## Type index and name table -/

def checkTypeIndex (img : Image) : Except ImageFault Unit := do
  let hashes ← img.typeIndex.toList.mapM fun t => do
    let r ← img.lookup t.decl.id
    return r.hash
  ensureSorted .typeIndex hashes

def checkNames (img : Image) : Except ImageFault Unit := do
  img.names.toList.forM (img.checkName (.decl .nameSpace))
  ensureSorted .names (img.names.toList.map (·.hash))

/-- Accepts an image that can be queried without further checks. -/
def validate (img : Image) : Except ImageFault Unit := do
  img.checkProfile
  img.checkRoot
  Arena.all.forM img.checkArena
  img.checkMembersOf .nameSpace
  img.checkMembers .root img.root
  memberOrder.forM img.checkMembersOf
  img.checkChains
  img.checkInheritance
  img.checkTypeIndex
  img.checkNames

end Image
end TypeAtlas
