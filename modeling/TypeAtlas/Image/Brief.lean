/-
Records in brief, as JSON.

The brief form of a record states its kind, its position, its name and the
values that are its own, and leaves lists and references out.
-/
import TypeAtlas.Image.Json
import TypeAtlas.Image.Query

namespace TypeAtlas

def Name.toJson (n : Name) : Json :=
  .obj [("hash", .ofWord n.hash), ("text", .ofOption .str n.text), ("shown", .str n.render)]

/-- A reference as a pair of kind and position. -/
def DeclId.pair (d : DeclId) : Json := .arr [.str d.kind.label, .ofWord d.raw]

namespace Image

variable (img : Image)

def attributeBrief (r : Record .attributes) : Json :=
  match r.body with
  | .flag => .obj [("flag_bit", .ofWord r.flagBit.bits)]
  | .int v => .ofInt v
  | .float bits => floatToJson bits
  | .name v => (img.resolveName v).toJson
  | .text v => .ofOption .str (img.text? v)

def values : {a : Arena} → Ref a → Json
  | .types, r => .ofWord (TypeBody.size r.record.body)
  | .enumConstants, r => .ofInt (EnumConstantBody.value r.record.body)
  | .enums, r => .arr [.ofWord (EnumBody.size r.record.body), .ofWord r.record.flags.bits]
  | .fields, r =>
    let f : FieldBody := r.record.body
    let (modifier, isConst) := Modifier.ofQualifier f.qualifier
    .arr [.ofInt f.offset, .ofWord f.functionUid, .str modifier.label, .bool isConst,
      .ofWord f.flags.bits]
  | .functions, r =>
    let f : FunctionBody := r.record.body
    .arr [.ofWord f.address, .ofWord f.uid, .ofWord f.flags.bits]
  | .templateTypes, r =>
    let t : TemplateTypeBody := r.record.body
    .arr [.ofWord t.size, .ofNat t.arguments.length]
  | .templates, _ => .null
  | .classes, r => .arr [.ofWord (ClassBody.size r.record.body), .ofWord r.record.flags.bits]
  | .namespaces, r => .bool r.id.isRoot
  | .attributes, r => img.attributeBrief r.record

def brief {a : Arena} (r : Ref a) : Json :=
  .obj [("kind", .str r.record.kind.label), ("id", .ofWord r.id.raw),
    ("name", (img.nameOf r).toJson), ("value", img.values r)]

def typeBrief (t : TypeRef) : Json :=
  .obj [("kind", .str t.header.kind.label), ("id", t.id.decl.pair),
    ("name", (img.nameOf t.ref).toJson), ("size", .ofWord t.size)]

end Image
end TypeAtlas
