/-
An image as JSON, part by part.

A reference is an object with the kind as its only key, a list its start and
length, a mask of flags its text, and a float an object with its bit pattern.
-/
import TypeAtlas.Image.Basic
import TypeAtlas.Json

namespace TypeAtlas

namespace Json

def ofNat (n : Nat) : Json := num n

def ofWord (n : UInt32) : Json := ofNat n.toNat

def ofInt (n : Int32) : Json := num n.toInt

def ofOption {α : Type} (f : α → Json) : Option α → Json
  | none => null
  | some x => f x

def ofArray {α : Type} (f : α → Json) (xs : Array α) : Json := arr (xs.toList.map f)

end Json

def TextSpan.toJson (s : TextSpan) : Json :=
  .obj [("start", .ofWord s.start), ("len", .ofWord s.len)]

def NameSpan.toJson (n : NameSpan) : Json :=
  .obj [("hash", .ofWord n.hash), ("text", n.text.toJson)]

def Id.toJson {a : Arena} (id : Id a) : Json := .ofWord id.raw

def IdList.toJson {a : Arena} (l : IdList a) : Json :=
  .obj [("start", .ofWord l.start), ("len", .ofWord l.len)]

def DeclId.toJson (d : DeclId) : Json := .obj [(d.kind.label, .ofWord d.raw)]

def TypeId.toJson (t : TypeId) : Json := t.decl.toJson

def FlagBits.toJson (f : FlagBits) : Json := .str f.render

/-- A float by its bit pattern. -/
def floatToJson (bits : UInt32) : Json := .obj [("bits", .ofWord bits)]

def Operator.label : Operator → String
  | value => "Value"
  | pointer => "Pointer"
  | reference => "Reference"

def Modifier.label : Modifier → String
  | none => "None"
  | value => "Value"
  | pointer => "Pointer"
  | reference => "Reference"

def Qualifier.toJson (q : Qualifier) : Json :=
  .obj [("op", .str q.op.label), ("is_const", .bool q.isConst)]

def Header.toJson (h : Header) : Json :=
  .obj [("kind", .str h.kind.label), ("name", h.name.toJson),
    ("parent", .ofOption DeclId.toJson h.parent)]

namespace Body

def enumFields (e : EnumBody) : List (String × Json) :=
  [("size", .ofWord e.size), ("constants", e.constants.toJson), ("attributes", e.attributes.toJson),
    ("flag_attributes", e.flags.toJson)]

def fieldFields (f : FieldBody) : List (String × Json) :=
  [("ty", .ofOption TypeId.toJson f.type), ("qualifier", f.qualifier.toJson),
    ("offset", .ofInt f.offset), ("parent_unique_id", .ofWord f.functionUid),
    ("attributes", f.attributes.toJson), ("flag_attributes", f.flags.toJson)]

def functionFields (f : FunctionBody) : List (String × Json) :=
  [("address", .ofWord f.address), ("unique_id", .ofWord f.uid),
    ("return_parameter", .ofOption Id.toJson f.returnField), ("parameters", f.parameters.toJson),
    ("attributes", f.attributes.toJson), ("flag_attributes", f.flags.toJson)]

def templateTypeFields (t : TemplateTypeBody) : List (String × Json) :=
  [("size", .ofWord t.size),
    ("parameter_types", .ofArray (.ofOption TypeId.toJson) t.types.toArray),
    ("parameter_ptrs", .ofArray .bool t.pointers.toArray)]

def classFields (c : ClassBody) : List (String × Json) :=
  [("size", .ofWord c.size), ("base_class", .ofOption Id.toJson c.base),
    ("constructor", .ofOption Id.toJson c.constructor),
    ("destructor", .ofOption Id.toJson c.destructor), ("enums", c.enums.toJson),
    ("classes", c.classes.toJson), ("methods", c.methods.toJson), ("fields", c.fields.toJson),
    ("attributes", c.attributes.toJson), ("templates", c.templates.toJson),
    ("flag_attributes", c.flags.toJson)]

def namespaceFields (n : NamespaceBody) : List (String × Json) :=
  [("namespaces", n.namespaces.toJson), ("types", n.types.toJson), ("enums", n.enums.toJson),
    ("classes", n.classes.toJson), ("functions", n.functions.toJson),
    ("templates", n.templates.toJson)]

/-- The fields of a body, which go beside the header. -/
def jsonFields : {a : Arena} → Body a → List (String × Json)
  | .types, t => [("size", .ofWord (TypeBody.size t))]
  | .enumConstants, c => [("value", .ofInt (EnumConstantBody.value c))]
  | .enums, e => enumFields e
  | .fields, f => fieldFields f
  | .functions, f => functionFields f
  | .templateTypes, t => templateTypeFields t
  | .templates, t => [("instances", (TemplateBody.instances t).toJson)]
  | .classes, c => classFields c
  | .namespaces, n => namespaceFields n
  | .attributes, v =>
    match v with
    | .flag => []
    | .int value => [("value", .ofInt value)]
    | .float bits => [("value", floatToJson bits)]
    | .name value => [("value", value.toJson)]
    | .text value => [("value", value.toJson)]

end Body

def AttributeKind.caseLabel : AttributeKind → String
  | flag => "Flag"
  | int => "Int"
  | float => "Float"
  | name => "Name"
  | text => "Text"

/-- A record is an object of its header and body.  An attribute is that under
the kind of its value. -/
def Record.toJson : {a : Arena} → Record a → Json
  | .attributes, r =>
    .obj [((AttributeValue.kind r.body).caseLabel,
      .obj (("header", r.header.toJson) :: Body.jsonFields r.body))]
  | .decl _, r => .obj (("header", r.header.toJson) :: Body.jsonFields r.body)

def Image.toJson (img : Image) : Json :=
  .obj ([("profile", .str img.profile.label), ("name_blob", .str img.nameBlob),
      ("text_blob", .str img.textBlob), ("names", .ofArray NameSpan.toJson img.names)]
    ++ Arena.all.map (fun a => (a.label, .ofArray Record.toJson (img.arena a)))
    ++ [("type_index", .ofArray TypeId.toJson img.typeIndex),
      ("pools", .obj (Arena.all.map fun a => (a.label, .ofArray Id.toJson (img.pool a)))),
      ("root", img.root.toJson)])

end TypeAtlas
