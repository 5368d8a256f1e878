/-
What a record can be.

A record is a declaration of one of nine kinds or an attribute of one of five.
`allowsParent` is the scoping rule: which kind may own which.
-/
namespace TypeAtlas

/-- The value an attribute carries. -/
inductive AttributeKind where
  | flag
  | int
  | float
  | name
  | text
deriving DecidableEq, Hashable

/-- The declarations other records refer to. -/
inductive DeclKind where
  | type
  | enumConstant
  | enum
  | field
  | function
  | templateType
  | template
  | classType
  | nameSpace
deriving DecidableEq, Hashable

/-- The declarations that can be the type of something. -/
inductive TypeKind where
  | type
  | enum
  | classType
  | templateType
deriving DecidableEq, Hashable

inductive Kind where
  | attr (k : AttributeKind)
  | decl (k : DeclKind)
deriving DecidableEq, Hashable

namespace DeclKind

/-- Every kind, in the order of their numbers. -/
def all : List DeclKind :=
  [type, enumConstant, enum, field, function, templateType, template, classType, nameSpace]

theorem mem_all (k : DeclKind) : k ∈ all := by cases k <;> decide

def label : DeclKind → String
  | type => "Type"
  | enumConstant => "EnumConstant"
  | enum => "Enum"
  | field => "Field"
  | function => "Function"
  | templateType => "TemplateType"
  | template => "Template"
  | classType => "Class"
  | nameSpace => "Namespace"

/-- Enums, fields, functions and classes carry attributes. -/
def isAttributed : DeclKind → Bool
  | enum | field | function | classType => true
  | _ => false

/-- Which kinds may own a declaration of this kind. -/
def owners : DeclKind → List DeclKind
  | type | nameSpace => [nameSpace]
  | enum | classType | function | template => [nameSpace, classType]
  | enumConstant => [enum]
  | field => [classType, function]
  | templateType => [template]

/-- The type kind of a declaration, if it is a type. -/
def toTypeKind? : DeclKind → Option TypeKind
  | type => some .type
  | enum => some .enum
  | classType => some .classType
  | templateType => some .templateType
  | _ => none

end DeclKind

namespace TypeKind

/-- Every type kind, in the order of their numbers. -/
def all : List TypeKind := [type, enum, classType, templateType]

theorem mem_all (k : TypeKind) : k ∈ all := by cases k <;> decide

def toDecl : TypeKind → DeclKind
  | type => .type
  | enum => .enum
  | classType => .classType
  | templateType => .templateType

@[simp] theorem toTypeKind?_toDecl (k : TypeKind) : k.toDecl.toTypeKind? = some k := by
  cases k <;> rfl

end TypeKind

namespace AttributeKind

def all : List AttributeKind := [flag, int, float, name, text]

theorem mem_all (k : AttributeKind) : k ∈ all := by cases k <;> decide

def label : AttributeKind → String
  | flag => "FlagAttribute"
  | int => "IntAttribute"
  | float => "FloatAttribute"
  | name => "NameAttribute"
  | text => "TextAttribute"

end AttributeKind

/-- Which kinds may own an attribute. -/
def attributeOwners : List DeclKind := [.enum, .field, .function, .classType]

theorem mem_attributeOwners (k : DeclKind) : k ∈ attributeOwners ↔ k.isAttributed := by
  cases k <;> decide

namespace Kind

/-- Every kind, attributes first, in the order of their numbers. -/
def all : List Kind := AttributeKind.all.map .attr ++ DeclKind.all.map .decl

theorem mem_all (k : Kind) : k ∈ all := by
  rcases k with k | k <;> cases k <;> decide

/-- The number of a kind, which is also its place in the order of kinds. -/
def ordinal (k : Kind) : Nat := all.idxOf k

def label : Kind → String
  | attr k => k.label
  | decl k => k.label

def isAttribute : Kind → Bool
  | attr _ => true
  | decl _ => false

def isType : Kind → Bool
  | attr _ => false
  | decl k => k.toTypeKind?.isSome

/-- The kinds whose records keep a mask of well-known flags. -/
def hasFlags : Kind → Bool
  | attr _ => false
  | decl k => k.isAttributed

/-- Which kinds may own a record of this kind. -/
def owners : Kind → List DeclKind
  | attr _ => attributeOwners
  | decl k => k.owners

/-- Whether a record of the first kind may be owned by one of the second. -/
def allowsParent (child parent : Kind) : Bool :=
  match parent with
  | attr _ => false
  | decl p => child.owners.contains p

end Kind
end TypeAtlas
