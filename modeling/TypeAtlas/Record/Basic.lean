/-
Records.

A record is a header, which every record has, and a body fixed by its arena.
The header states a kind of its own: a record read from outside may claim a
kind that is not its arena's, and it is for validation to notice.
-/
import TypeAtlas.Id
import TypeAtlas.Record.Flags
import TypeAtlas.Record.Qualifier

namespace TypeAtlas

/-- What every record states about itself. -/
structure Header where
  kind : Kind
  name : NameSpan
  /-- The owner.  Only the root namespace has none. -/
  parent : Option DeclId
deriving DecidableEq

structure TypeBody where
  size : UInt32
deriving DecidableEq

structure EnumConstantBody where
  value : Int32
deriving DecidableEq

structure EnumBody where
  size : UInt32
  constants : IdList .enumConstants := .empty
  attributes : IdList .attributes := .empty
  flags : FlagBits := .none
deriving DecidableEq

/-- A field of a class or a parameter of a function.  For parameters the offset
is their place among them. -/
structure FieldBody where
  type : Option TypeId
  qualifier : Qualifier
  offset : Int32
  /-- The unique id of the function a parameter belongs to, zero otherwise. -/
  functionUid : UInt32 := 0
  attributes : IdList .attributes := .empty
  flags : FlagBits := .none
deriving DecidableEq

structure FunctionBody where
  address : UInt32
  uid : UInt32
  /-- The field that stands for the return value. -/
  returnField : Option (Id .fields) := none
  parameters : IdList .fields := .empty
  attributes : IdList .attributes := .empty
  flags : FlagBits := .none
deriving DecidableEq

/-- How many arguments of a template instance are recorded. -/
def maxTemplateArgs : Nat := 4

/-- An instance of a template.  Each slot has a type, or none, and says whether
the argument is a pointer to it. -/
structure TemplateTypeBody where
  size : UInt32
  types : Vector (Option TypeId) maxTemplateArgs := Vector.replicate _ none
  pointers : Vector Bool maxTemplateArgs := Vector.replicate _ false
deriving DecidableEq

structure TemplateBody where
  instances : IdList .templateTypes := .empty
deriving DecidableEq

structure ClassBody where
  size : UInt32
  base : Option (Id .classes) := none
  constructor : Option (Id .functions) := none
  destructor : Option (Id .functions) := none
  enums : IdList .enums := .empty
  classes : IdList .classes := .empty
  methods : IdList .functions := .empty
  fields : IdList .fields := .empty
  attributes : IdList .attributes := .empty
  templates : IdList .templates := .empty
  flags : FlagBits := .none
deriving DecidableEq

structure NamespaceBody where
  namespaces : IdList .namespaces := .empty
  types : IdList .types := .empty
  enums : IdList .enums := .empty
  classes : IdList .classes := .empty
  functions : IdList .functions := .empty
  templates : IdList .templates := .empty
deriving DecidableEq

/-- The value of an attribute.  A float is kept as its bit pattern. -/
inductive AttributeValue where
  | flag
  | int (value : Int32)
  | float (bits : UInt32)
  | name (value : NameSpan)
  | text (value : TextSpan)
deriving DecidableEq

namespace AttributeValue

def kind : AttributeValue → AttributeKind
  | flag => .flag
  | int _ => .int
  | float _ => .float
  | name _ => .name
  | text _ => .text

end AttributeValue

/-- What the records of an arena hold beside their header. -/
abbrev Body : Arena → Type
  | .types => TypeBody
  | .enumConstants => EnumConstantBody
  | .enums => EnumBody
  | .fields => FieldBody
  | .functions => FunctionBody
  | .templateTypes => TemplateTypeBody
  | .templates => TemplateBody
  | .classes => ClassBody
  | .namespaces => NamespaceBody
  | .attributes => AttributeValue

instance : (a : Arena) → DecidableEq (Body a)
  | .types => inferInstanceAs (DecidableEq TypeBody)
  | .enumConstants => inferInstanceAs (DecidableEq EnumConstantBody)
  | .enums => inferInstanceAs (DecidableEq EnumBody)
  | .fields => inferInstanceAs (DecidableEq FieldBody)
  | .functions => inferInstanceAs (DecidableEq FunctionBody)
  | .templateTypes => inferInstanceAs (DecidableEq TemplateTypeBody)
  | .templates => inferInstanceAs (DecidableEq TemplateBody)
  | .classes => inferInstanceAs (DecidableEq ClassBody)
  | .namespaces => inferInstanceAs (DecidableEq NamespaceBody)
  | .attributes => inferInstanceAs (DecidableEq AttributeValue)

structure Record (a : Arena) where
  header : Header
  body : Body a
deriving DecidableEq

namespace Record

variable {a : Arena}

def kind (r : Record a) : Kind := r.header.kind
def name (r : Record a) : NameSpan := r.header.name
def hash (r : Record a) : UInt32 := r.header.name.hash
def parent (r : Record a) : Option DeclId := r.header.parent

/-- The kind that the records of this arena ought to state. -/
def expectedKind : {a : Arena} → Record a → Kind
  | .decl k, _ => .decl k
  | .attributes, r => .attr (AttributeValue.kind r.body)

/-- The namespace that encloses all others has neither name nor owner. -/
def root : Record .namespaces := ⟨⟨.decl .nameSpace, .empty, none⟩, {}⟩

end Record
end TypeAtlas
