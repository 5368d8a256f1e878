/-
Walks from record to record.

A step looks at something from the place where a walk stands, or moves the walk
to another record.  A step that a record does not have is refused, which is no
breach of contract; only following a reference can be one.
-/
import TypeAtlas.Image.Query

namespace TypeAtlas

/-- Where a walk stands. -/
inductive Place where
  | decl (d : DeclRef)
  | attr (r : Ref .attributes)

def Ref.place : {a : Arena} → Ref a → Place
  | .attributes, r => .attr r
  | .decl _, r => .decl r.decl

namespace Walk

inductive Step where
  /-- Every record of a member list. -/
  | list (list : String)
  /-- To the record at a position of a member list. -/
  | member (list : String) (i : Nat)
  /-- To the record of a member list whose name has this hash. -/
  | find (list : String) (hash : UInt32)
  | parent
  /-- The record as one of a kind, if it is one. -/
  | tryCast (kind : Kind)
  /-- To the record as one of a kind, which it has to be. -/
  | cast (kind : Kind)
  /-- The record as a type of a kind, if it is one. -/
  | tryTypeCast (kind : Kind)
  /-- To the record as a type of a kind, which it has to be if it is a type. -/
  | typeCast (kind : Kind)
  /-- The record as a type, with its owner. -/
  | asType
  | base
  | constructor
  | destructor
  /-- The classes a class derives from, nearest first, up to a number of them. -/
  | bases (limit : Nat)
  | derivesFrom (c : Id .classes)
  /-- Whether a class is the one at an id. -/
  | same (c : Id .classes)
  | fieldType
  | returnField
  | template
  | arguments
  | hasFlags (mask : FlagBits)
  | textValue
  | nameValue
  /-- An attribute itself, for its value to be taken. -/
  | value

/-- What a step sees. -/
inductive Sight where
  | nothing
  | places (places : List Place)
  | place (place : Place)
  | truth (b : Bool)
  | type (t : TypeRef) (parent : Option DeclRef)
  | classes (classes : List (Ref .classes))
  | arguments (arguments : List (TypeRef × Bool))
  | text (text : Option String)
  | name (name : Name)
  | value (r : Record .attributes)

inductive Outcome where
  /-- The walk stays where it is. -/
  | sees (sight : Sight)
  | moves (place : Place)
  /-- There is nowhere to move. -/
  | lost
  /-- So many members have the searched hash. -/
  | ambiguous (count : Nat)

inductive Refusal where
  | noSuchList
  | noSuchCast
  | noFlags
  /-- No step for declarations of this kind. -/
  | notForKind
  | notForAttributes
  | violation (v : Violation)

def Refusal.message : Refusal → String
  | noSuchList => "no such list"
  | noSuchCast => "no such cast"
  | noFlags => "no flags"
  | notForKind => "not for this kind"
  | notForAttributes => "not for attributes"
  | violation v => v.message

def follow {α : Type} (c : Contract α) : Except Refusal α := c.mapError .violation

def Outcome.toPlace : Option Place → Outcome
  | none => lost
  | some place => moves place

def Outcome.toRef {a : Arena} (r : Option (Ref a)) : Outcome := toPlace (r.map Ref.place)

def Sight.ofDecl? : Option DeclRef → Sight
  | none => nothing
  | some d => place (.decl d)

variable (img : Image)

/-- The ids of a member list, by its name. -/
def listed (d : DeclRef) (list : String) : Except Refusal ((b : Arena) × Array (Id b)) :=
  match d.kind.memberLists.lookup list with
  | none => .error .noSuchList
  | some b => return ⟨b, ← follow (img.members d.ref b)⟩

/-- To the one record with a hash among others. -/
def findStep {b : Arena} (ids : Array (Id b)) (hash : UInt32) : Except Refusal Outcome := do
  let count ← follow (img.countIn ids hash)
  if 1 < count then return .ambiguous count
  return .toRef (← follow (img.findIn ids hash))

def tryCast (d : DeclRef) : Kind → Except Refusal Outcome
  | .attr _ => .error .noSuchCast
  | .decl k => .ok (.sees (.ofDecl? ((d.to? k).map Ref.decl)))

def cast (d : DeclRef) : Kind → Except Refusal Outcome
  | .attr _ => .error .noSuchCast
  | .decl k => return .moves (.decl (← follow (d.expect k)).decl)

/-- A kind that a type can be taken for. -/
def castable : Kind → Except Refusal TypeKind
  | .attr _ => .error .noSuchCast
  | .decl k =>
    match k.toTypeKind? with
    | none => .error .noSuchCast
    | some k => .ok k

def tryTypeCast (d : DeclRef) (kind : Kind) : Except Refusal Outcome :=
  match d.toTypeRef? with
  | none => .ok (.sees .nothing)
  | some t => return .sees (.ofDecl? ((t.to? (← castable kind)).map Ref.decl))

def typeCast (d : DeclRef) (kind : Kind) : Except Refusal Outcome :=
  match d.toTypeRef? with
  | none => .ok (.sees .nothing)
  | some t => return .moves (.decl (← follow (t.expect (← castable kind))).decl)

/-- Steps that only some kinds of declarations have. -/
def kindStep : DeclRef → Step → Except Refusal Outcome
  | ⟨.classType, c⟩, .base => return .toRef (← follow (img.baseOf c))
  | ⟨.classType, c⟩, .constructor => return .toRef (← follow (img.constructorOf c))
  | ⟨.classType, c⟩, .destructor => return .toRef (← follow (img.destructorOf c))
  | ⟨.classType, c⟩, .bases limit => return .sees (.classes (← follow (img.firstBases c limit)))
  | ⟨.classType, c⟩, .derivesFrom d => return .sees (.truth (← follow (img.derivesFrom c d)))
  | ⟨.classType, c⟩, .same d => do
    let other ← follow (img.ref d)
    return .sees (.truth (other.id == c.id))
  | ⟨.field, f⟩, .fieldType => do
    let type ← follow (img.typeOf f)
    return .toPlace (type.map fun t => .decl t.decl)
  | ⟨.function, f⟩, .returnField => return .toRef (← follow (img.returnOf f))
  | ⟨.templateType, t⟩, .template => return .toRef (← follow (img.templateOf t))
  | ⟨.templateType, t⟩, .arguments => return .sees (.arguments (← follow (img.argumentsOf t)))
  | _, _ => .error .notForKind

def declStep (d : DeclRef) : Step → Except Refusal Outcome
  | .list list => do
    let ⟨_, ids⟩ ← listed img d list
    return .sees (.places ((← follow (img.refs ids)).map Ref.place))
  | .member list i => do
    let ⟨_, ids⟩ ← listed img d list
    return .toRef (← follow (ids[i]?.mapM img.ref))
  | .find list hash => do
    let ⟨_, ids⟩ ← listed img d list
    findStep img ids hash
  | .parent => return .toPlace ((← follow (img.parentOf d.ref)).map .decl)
  | .tryCast kind => tryCast d kind
  | .cast kind => cast d kind
  | .tryTypeCast kind => tryTypeCast d kind
  | .typeCast kind => typeCast d kind
  | .asType =>
    match d.toTypeRef? with
    | none => .ok (.sees .nothing)
    | some t => return .sees (.type t (← follow (img.parentOf t.ref)))
  | .hasFlags mask =>
    if d.kind.isAttributed then .ok (.sees (.truth (d.ref.record.hasFlags mask)))
    else .error .noFlags
  | s => kindStep img d s

/-- Steps at an attribute, which has no lists. -/
def attributeStep (r : Ref .attributes) : Step → Except Refusal Outcome
  | .list _ | .member _ _ | .find _ _ => .error .noSuchList
  | .parent => return .toPlace ((← follow (img.parentOf r)).map .decl)
  | .textValue => return .sees (.text (← follow (img.textValue r)))
  | .nameValue => return .sees (.name (← follow (img.nameValue r)))
  | .value => .ok (.sees (.value r.record))
  | _ => .error .notForAttributes

/-- The refusal of a step that no record at a place has. -/
def noStep : Place → Refusal
  | .decl _ => .notForKind
  | .attr _ => .notForAttributes

def step : Place → Step → Except Refusal Outcome
  | .decl d, s => declStep img d s
  | .attr r, s => attributeStep img r s

end Walk
end TypeAtlas
