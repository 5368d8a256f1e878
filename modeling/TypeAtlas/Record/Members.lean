/-
What a record refers to.

A record has one member list for each arena in `memberArenas` of its kind.  Its
other references are links: the type of a field, the base and the special
functions of a class, the arguments of a template instance and the return field
of a function.
-/
import TypeAtlas.Record.Basic

namespace TypeAtlas

/-- The member lists of a declaration by name, each with the arena it is over. -/
def DeclKind.memberLists : DeclKind → List (String × Arena)
  | enum => [("constants", .enumConstants), ("attributes", .attributes)]
  | field => [("attributes", .attributes)]
  | function => [("parameters", .fields), ("attributes", .attributes)]
  | template => [("instances", .templateTypes)]
  | classType =>
    [("enums", .enums), ("classes", .classes), ("methods", .functions), ("fields", .fields),
      ("attributes", .attributes), ("templates", .templates)]
  | nameSpace =>
    [("namespaces", .namespaces), ("types", .types), ("enums", .enums), ("classes", .classes),
      ("functions", .functions), ("templates", .templates)]
  | type | enumConstant | templateType => []

/-- The arenas a declaration keeps member lists over, in the order of its lists. -/
def DeclKind.memberArenas (k : DeclKind) : List Arena := k.memberLists.map (·.2)

/-- The member list over an arena, empty where a body keeps none. -/
def Body.members : {a : Arena} → Body a → (b : Arena) → IdList b
  | .enums, e, .enumConstants => EnumBody.constants e
  | .enums, e, .attributes => EnumBody.attributes e
  | .fields, f, .attributes => FieldBody.attributes f
  | .functions, f, .fields => FunctionBody.parameters f
  | .functions, f, .attributes => FunctionBody.attributes f
  | .templates, t, .templateTypes => TemplateBody.instances t
  | .classes, c, .enums => ClassBody.enums c
  | .classes, c, .classes => ClassBody.classes c
  | .classes, c, .functions => ClassBody.methods c
  | .classes, c, .fields => ClassBody.fields c
  | .classes, c, .attributes => ClassBody.attributes c
  | .classes, c, .templates => ClassBody.templates c
  | .namespaces, n, .namespaces => NamespaceBody.namespaces n
  | .namespaces, n, .types => NamespaceBody.types n
  | .namespaces, n, .enums => NamespaceBody.enums n
  | .namespaces, n, .classes => NamespaceBody.classes n
  | .namespaces, n, .functions => NamespaceBody.functions n
  | .namespaces, n, .templates => NamespaceBody.templates n
  | _, _, _ => .empty

/-- Replaces every member list. -/
def Body.withMembers (f : (b : Arena) → IdList b) : {a : Arena} → Body a → Body a
  | .enums, e =>
    { (e : EnumBody) with constants := f .enumConstants, attributes := f .attributes }
  | .fields, d => { (d : FieldBody) with attributes := f .attributes }
  | .functions, d =>
    { (d : FunctionBody) with parameters := f .fields, attributes := f .attributes }
  | .templates, t => { (t : TemplateBody) with instances := f .templateTypes }
  | .classes, c =>
    { (c : ClassBody) with
      enums := f .enums, classes := f .classes, methods := f .functions, fields := f .fields,
      attributes := f .attributes, templates := f .templates }
  | .namespaces, n =>
    { (n : NamespaceBody) with
      namespaces := f .namespaces, types := f .types, enums := f .enums, classes := f .classes,
      functions := f .functions, templates := f .templates }
  | .types, b => b
  | .enumConstants, b => b
  | .templateTypes, b => b
  | .attributes, b => b

/-- The mask of well-known flags, none where a body keeps no mask. -/
def Body.flags : {a : Arena} → Body a → FlagBits
  | .enums, e => EnumBody.flags e
  | .fields, d => FieldBody.flags d
  | .functions, d => FunctionBody.flags d
  | .classes, c => ClassBody.flags c
  | _, _ => .none

/-- Replaces the mask of well-known flags. -/
def Body.withFlags (flags : FlagBits) : {a : Arena} → Body a → Body a
  | .enums, e => { (e : EnumBody) with flags }
  | .fields, d => { (d : FieldBody) with flags }
  | .functions, d => { (d : FunctionBody) with flags }
  | .classes, c => { (c : ClassBody) with flags }
  | .types, b => b
  | .enumConstants, b => b
  | .templateTypes, b => b
  | .templates, b => b
  | .namespaces, b => b
  | .attributes, b => b

/-- The bit of a flag attribute, by the hash of its name. -/
def Record.flagBit (r : Record .attributes) : FlagBits :=
  match r.body with
  | .flag => .ofHash r.hash
  | _ => .none

/-- The links of a body that only have to name a record.  The return field of a
function, which also has to belong to it, is not among them. -/
def Body.links : {a : Arena} → Body a → List DeclId
  | .fields, d => (FieldBody.type d).toList.map (·.decl)
  | .templateTypes, t => (TemplateTypeBody.types t).toList.filterMap fun slot => slot.map (·.decl)
  | .classes, c =>
    (ClassBody.base c).toList.map (·.decl) ++ (ClassBody.constructor c).toList.map (·.decl)
      ++ (ClassBody.destructor c).toList.map (·.decl)
  | _, _ => []

theorem FieldBody.mem_links {body : FieldBody} {l : DeclId} :
    l ∈ Body.links (a := .fields) body ↔ ∃ t, body.type = some t ∧ t.decl = l := by
  show l ∈ body.type.toList.map _ ↔ _
  simp

theorem TemplateTypeBody.mem_links {body : TemplateTypeBody} {l : DeclId} :
    l ∈ Body.links (a := .templateTypes) body ↔ ∃ t, some t ∈ body.types ∧ t.decl = l := by
  show l ∈ body.types.toList.filterMap _ ↔ _
  simp only [List.mem_filterMap, Option.map_eq_some_iff, Vector.mem_toList_iff]
  constructor
  · intro h
    obtain ⟨_, hslot, t, rfl, hl⟩ := h
    exact ⟨t, hslot, hl⟩
  · intro h
    obtain ⟨t, hslot, hl⟩ := h
    exact ⟨_, hslot, t, rfl, hl⟩

theorem ClassBody.mem_links {body : ClassBody} {l : DeclId} :
    l ∈ Body.links (a := .classes) body ↔ (∃ b, body.base = some b ∧ b.decl = l) ∨
      (∃ f, body.constructor = some f ∧ f.decl = l) ∨
      ∃ f, body.destructor = some f ∧ f.decl = l := by
  show l ∈ body.base.toList.map _ ++ body.constructor.toList.map _ ++
    body.destructor.toList.map _ ↔ _
  simp

/-- Sends every link through a renaming of ids.  The renaming keeps kinds. -/
def Body.mapLinks (f : {k : DeclKind} → Id (.decl k) → Id (.decl k)) :
    {a : Arena} → Body a → Body a
  | .fields, d =>
    { (d : FieldBody) with type := (FieldBody.type d).map fun t => ⟨t.kind, (f t.id).raw⟩ }
  | .functions, d => { (d : FunctionBody) with returnField := (FunctionBody.returnField d).map f }
  | .templateTypes, t =>
    { (t : TemplateTypeBody) with
      types := (TemplateTypeBody.types t).map fun slot =>
        slot.map fun t => ⟨t.kind, (f t.id).raw⟩ }
  | .classes, c =>
    { (c : ClassBody) with
      base := (ClassBody.base c).map f
      constructor := (ClassBody.constructor c).map f
      destructor := (ClassBody.destructor c).map f }
  | .types, b => b
  | .enumConstants, b => b
  | .enums, b => b
  | .templates, b => b
  | .namespaces, b => b
  | .attributes, b => b

/-- The recorded arguments of a template instance, empty slots left out. -/
def TemplateTypeBody.arguments (t : TemplateTypeBody) : List (TypeId × Bool) :=
  (t.types.toList.zip t.pointers.toList).filterMap fun slot => slot.1.map fun ty => (ty, slot.2)

namespace Record

variable {a : Arena}

def members (r : Record a) (b : Arena) : IdList b := Body.members r.body b

def flags (r : Record a) : FlagBits := Body.flags r.body

/-- Whether every flag of a mask is set. -/
def hasFlags (r : Record a) (mask : FlagBits) : Bool := r.flags.contains mask

def links (r : Record a) : List DeclId := Body.links r.body

/-- The size in bytes of a record that is a type. -/
def size : {k : TypeKind} → Record (.decl k.toDecl) → UInt32
  | .type, r => TypeBody.size r.body
  | .enum, r => EnumBody.size r.body
  | .classType, r => ClassBody.size r.body
  | .templateType, r => TemplateTypeBody.size r.body

end Record
end TypeAtlas
