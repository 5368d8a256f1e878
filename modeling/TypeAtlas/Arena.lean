/-
Arenas: one array of records for each kind of declaration, and one for all
attributes.

`PerArena F` holds one `F a` for every arena `a`.  Images, drafts and their
pools are all built from it, so that a rule which is the same for every arena
is written once.
-/
import TypeAtlas.Kind

namespace TypeAtlas

inductive Arena where
  | decl (k : DeclKind)
  | attributes
deriving DecidableEq, Hashable

namespace Arena

@[match_pattern] abbrev types : Arena := decl .type
@[match_pattern] abbrev enumConstants : Arena := decl .enumConstant
@[match_pattern] abbrev enums : Arena := decl .enum
@[match_pattern] abbrev fields : Arena := decl .field
@[match_pattern] abbrev functions : Arena := decl .function
@[match_pattern] abbrev templateTypes : Arena := decl .templateType
@[match_pattern] abbrev templates : Arena := decl .template
@[match_pattern] abbrev classes : Arena := decl .classType
@[match_pattern] abbrev namespaces : Arena := decl .nameSpace

/-- Every arena, in the order of an image's arrays. -/
def all : List Arena :=
  [types, enumConstants, enums, fields, functions, templateTypes, templates, classes, namespaces,
    attributes]

theorem mem_all (a : Arena) : a ∈ all := by
  rcases a with k | _
  · cases k <;> decide
  · decide

instance {p : Arena → Prop} [DecidablePred p] : Decidable (∀ a, p a) :=
  decidable_of_iff (∀ a ∈ all, p a) ⟨fun h a => h a a.mem_all, fun h a _ => h a⟩

def label : Arena → String
  | types => "types"
  | enumConstants => "enum_constants"
  | enums => "enums"
  | fields => "fields"
  | functions => "functions"
  | templateTypes => "template_types"
  | templates => "templates"
  | classes => "classes"
  | namespaces => "namespaces"
  | attributes => "attributes"

/-- The kinds whose records may own records of an arena. -/
def owners : Arena → List DeclKind
  | decl k => k.owners
  | attributes => attributeOwners

end Arena

def Kind.arena : Kind → Arena
  | attr _ => .attributes
  | decl k => .decl k

/-- One value for each arena. -/
structure PerArena (F : Arena → Type) where
  types : F .types
  enumConstants : F .enumConstants
  enums : F .enums
  fields : F .fields
  functions : F .functions
  templateTypes : F .templateTypes
  templates : F .templates
  classes : F .classes
  namespaces : F .namespaces
  attributes : F .attributes

namespace PerArena

variable {F G : Arena → Type}

def get (t : PerArena F) : (a : Arena) → F a
  | .types => t.types
  | .enumConstants => t.enumConstants
  | .enums => t.enums
  | .fields => t.fields
  | .functions => t.functions
  | .templateTypes => t.templateTypes
  | .templates => t.templates
  | .classes => t.classes
  | .namespaces => t.namespaces
  | .attributes => t.attributes

def ofFn (f : (a : Arena) → F a) : PerArena F where
  types := f .types
  enumConstants := f .enumConstants
  enums := f .enums
  fields := f .fields
  functions := f .functions
  templateTypes := f .templateTypes
  templates := f .templates
  classes := f .classes
  namespaces := f .namespaces
  attributes := f .attributes

def modify (t : PerArena F) : (a : Arena) → (F a → F a) → PerArena F
  | .types, f => { t with types := f t.types }
  | .enumConstants, f => { t with enumConstants := f t.enumConstants }
  | .enums, f => { t with enums := f t.enums }
  | .fields, f => { t with fields := f t.fields }
  | .functions, f => { t with functions := f t.functions }
  | .templateTypes, f => { t with templateTypes := f t.templateTypes }
  | .templates, f => { t with templates := f t.templates }
  | .classes, f => { t with classes := f t.classes }
  | .namespaces, f => { t with namespaces := f t.namespaces }
  | .attributes, f => { t with attributes := f t.attributes }

@[simp] theorem get_ofFn (f : (a : Arena) → F a) (a : Arena) : (ofFn f).get a = f a := by
  rcases a with k | _
  · cases k <;> rfl
  · rfl

@[simp] theorem ofFn_get (t : PerArena F) : ofFn t.get = t := rfl

theorem ext_get {s t : PerArena F} (h : ∀ a, s.get a = t.get a) : s = t := by
  rw [← ofFn_get s, ← ofFn_get t]
  exact congrArg ofFn (funext h)

/-- A change is one value replaced and the others kept. -/
theorem modify_eq_ofFn (t : PerArena F) (a : Arena) (f : F a → F a) :
    t.modify a f = ofFn fun b => if h : a = b then h ▸ f (t.get a) else t.get b := by
  rcases a with k | _
  · cases k <;> rfl
  · rfl

@[simp] theorem get_modify_self (t : PerArena F) (a : Arena) (f : F a → F a) :
    (t.modify a f).get a = f (t.get a) := by
  simp [modify_eq_ofFn]

theorem get_modify_of_ne (t : PerArena F) {a b : Arena} (h : b ≠ a) (f : F a → F a) :
    (t.modify a f).get b = t.get b := by
  simp [modify_eq_ofFn, h.symm]

instance [∀ a, Inhabited (F a)] : Inhabited (PerArena F) := ⟨ofFn fun _ => default⟩

end PerArena
end TypeAtlas
