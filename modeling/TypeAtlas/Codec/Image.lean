/-
The format of an image: every part in order, nothing between them.

A record is its header and then its body.  An attribute states the kind of its
value before its header, so that the value can be told after it.
-/
import TypeAtlas.Codec.Basic
import TypeAtlas.Image.Basic

namespace TypeAtlas

namespace TextSpan

def codec : Codec TextSpan :=
  (Codec.u32.pair .u32).imap (fun x => ⟨x.1, x.2⟩) fun s => (s.start, s.len)

end TextSpan

namespace NameSpan

def codec : Codec NameSpan :=
  (Codec.u32.pair TextSpan.codec).imap (fun x => ⟨x.1, x.2⟩) fun n => (n.hash, n.text)

end NameSpan

namespace Id

def codec {a : Arena} : Codec (Id a) := Codec.u32.imap (⟨·⟩) (·.raw)

end Id

namespace IdList

def codec {a : Arena} : Codec (IdList a) :=
  (Codec.u32.pair .u32).imap (fun x => ⟨x.1, x.2⟩) fun l => (l.start, l.len)

end IdList

namespace DeclId

def codec : Codec DeclId :=
  ((Codec.choice DeclKind.all).pair .u32).imap (fun x => ⟨x.1, x.2⟩) fun d => (d.kind, d.raw)

end DeclId

namespace TypeId

def codec : Codec TypeId :=
  ((Codec.choice TypeKind.all).pair .u32).imap (fun x => ⟨x.1, x.2⟩) fun t => (t.kind, t.raw)

end TypeId

namespace FlagBits

def codec : Codec FlagBits := Codec.u32.imap (⟨·⟩) (·.bits)

end FlagBits

namespace Qualifier

def codec : Codec Qualifier :=
  ((Codec.choice Operator.all).pair .bool).imap (fun x => ⟨x.1, x.2⟩) fun q => (q.op, q.isConst)

end Qualifier

namespace Header

def codec : Codec Header :=
  ((Codec.choice Kind.all).pair (NameSpan.codec.pair (Codec.option DeclId.codec))).imap
    (fun x => ⟨x.1, x.2.1, x.2.2⟩) fun h => (h.kind, h.name, h.parent)

end Header

namespace Body

def typeCodec : Codec TypeBody := Codec.u32.imap (⟨·⟩) (·.size)

def enumConstantCodec : Codec EnumConstantBody := Codec.i32.imap (⟨·⟩) (·.value)

def enumCodec : Codec EnumBody :=
  (Codec.u32.pair (IdList.codec.pair (IdList.codec.pair FlagBits.codec))).imap
    (fun x => ⟨x.1, x.2.1, x.2.2.1, x.2.2.2⟩)
    fun e => (e.size, e.constants, e.attributes, e.flags)

def fieldCodec : Codec FieldBody :=
  ((Codec.option TypeId.codec).pair (Qualifier.codec.pair (Codec.i32.pair (Codec.u32.pair
    (IdList.codec.pair FlagBits.codec))))).imap
    (fun x => ⟨x.1, x.2.1, x.2.2.1, x.2.2.2.1, x.2.2.2.2.1, x.2.2.2.2.2⟩)
    fun f => (f.type, f.qualifier, f.offset, f.functionUid, f.attributes, f.flags)

def functionCodec : Codec FunctionBody :=
  (Codec.u32.pair (Codec.u32.pair ((Codec.option Id.codec).pair (IdList.codec.pair
    (IdList.codec.pair FlagBits.codec))))).imap
    (fun x => ⟨x.1, x.2.1, x.2.2.1, x.2.2.2.1, x.2.2.2.2.1, x.2.2.2.2.2⟩)
    fun f => (f.address, f.uid, f.returnField, f.parameters, f.attributes, f.flags)

def templateTypeCodec : Codec TemplateTypeBody :=
  (Codec.u32.pair (((Codec.option TypeId.codec).vector maxTemplateArgs).pair
    (Codec.bool.vector maxTemplateArgs))).imap
    (fun x => ⟨x.1, x.2.1, x.2.2⟩) fun t => (t.size, t.types, t.pointers)

def templateCodec : Codec TemplateBody := IdList.codec.imap (⟨·⟩) (·.instances)

def classCodec : Codec ClassBody :=
  (Codec.u32.pair ((Codec.option Id.codec).pair ((Codec.option Id.codec).pair
    ((Codec.option Id.codec).pair (IdList.codec.pair (IdList.codec.pair (IdList.codec.pair
    (IdList.codec.pair (IdList.codec.pair (IdList.codec.pair FlagBits.codec)))))))))).imap
    (fun (size, base, constructor, destructor, enums, classes, methods, fields, attributes,
        templates, flags) =>
      ⟨size, base, constructor, destructor, enums, classes, methods, fields, attributes,
        templates, flags⟩)
    fun c => (c.size, c.base, c.constructor, c.destructor, c.enums, c.classes, c.methods,
      c.fields, c.attributes, c.templates, c.flags)

def namespaceCodec : Codec NamespaceBody :=
  (IdList.codec.pair (IdList.codec.pair (IdList.codec.pair (IdList.codec.pair
    (IdList.codec.pair IdList.codec))))).imap
    (fun x => ⟨x.1, x.2.1, x.2.2.1, x.2.2.2.1, x.2.2.2.2.1, x.2.2.2.2.2⟩)
    fun n => (n.namespaces, n.types, n.enums, n.classes, n.functions, n.templates)

def codec : (k : DeclKind) → Codec (Body (.decl k))
  | .type => typeCodec
  | .enumConstant => enumConstantCodec
  | .enum => enumCodec
  | .field => fieldCodec
  | .function => functionCodec
  | .templateType => templateTypeCodec
  | .template => templateCodec
  | .classType => classCodec
  | .nameSpace => namespaceCodec

end Body

namespace AttributeKind

/-- What an attribute of a kind holds. -/
abbrev Payload : AttributeKind → Type
  | flag => Unit
  | int => Int32
  | float => UInt32
  | name => NameSpan
  | text => TextSpan

def payloadCodec : (k : AttributeKind) → Codec k.Payload
  | flag => .unit
  | int => .i32
  | float => .u32
  | name => NameSpan.codec
  | text => TextSpan.codec

end AttributeKind

namespace AttributeValue

def payload : (v : AttributeValue) → v.kind.Payload
  | flag => ()
  | int v => v
  | float bits => bits
  | name v => v
  | text v => v

def ofPayload : (k : AttributeKind) → k.Payload → AttributeValue
  | .flag, _ => flag
  | .int, v => int v
  | .float, bits => float bits
  | .name, v => name v
  | .text, v => text v

end AttributeValue

namespace Record

def attributeCodec : Codec (Record .attributes) :=
  ((Codec.choice AttributeKind.all).sigma fun k => Header.codec.pair k.payloadCodec).imap
    (fun x => ⟨x.2.1, AttributeValue.ofPayload x.1 x.2.2⟩)
    fun r => ⟨AttributeValue.kind r.body, r.header, AttributeValue.payload r.body⟩

def codec : (a : Arena) → Codec (Record a)
  | .decl k =>
    (Header.codec.pair (Body.codec k)).imap (fun x => ⟨x.1, x.2⟩) fun r => (r.header, r.body)
  | .attributes => attributeCodec

end Record

namespace Image

def recordsCodec : Codec (PerArena fun a => Array (Record a)) :=
  let each (a : Arena) : Codec (Array (Record a)) := .array (Record.codec a)
  ((each .types).pair ((each .enumConstants).pair ((each .enums).pair ((each .fields).pair
    ((each .functions).pair ((each .templateTypes).pair ((each .templates).pair
    ((each .classes).pair ((each .namespaces).pair (each .attributes)))))))))).imap
    (fun (types, enumConstants, enums, fields, functions, templateTypes, templates, classes,
        namespaces, attributes) =>
      { types, enumConstants, enums, fields, functions, templateTypes, templates, classes,
        namespaces, attributes })
    fun t => (t.types, t.enumConstants, t.enums, t.fields, t.functions, t.templateTypes,
      t.templates, t.classes, t.namespaces, t.attributes)

/-- Pools come in another order than arenas, namespaces first and templates and
classes after their instances. -/
def poolsCodec : Codec (PerArena fun a => Array (Id a)) :=
  let each (a : Arena) : Codec (Array (Id a)) := .array Id.codec
  ((each .namespaces).pair ((each .types).pair ((each .enumConstants).pair ((each .enums).pair
    ((each .fields).pair ((each .functions).pair ((each .templateTypes).pair
    ((each .templates).pair ((each .classes).pair (each .attributes)))))))))).imap
    (fun (namespaces, types, enumConstants, enums, fields, functions, templateTypes, templates,
        classes, attributes) =>
      { types, enumConstants, enums, fields, functions, templateTypes, templates, classes,
        namespaces, attributes })
    fun t => (t.namespaces, t.types, t.enumConstants, t.enums, t.fields, t.functions,
      t.templateTypes, t.templates, t.classes, t.attributes)

def codec : Codec Image :=
  ((Codec.choice Profile.all).pair (Codec.text.pair (Codec.text.pair
    ((Codec.array NameSpan.codec).pair (recordsCodec.pair ((Codec.array TypeId.codec).pair
    (poolsCodec.pair (Record.codec .namespaces)))))))).imap
    (fun (profile, nameBlob, textBlob, names, records, typeIndex, pools, root) =>
      { profile, nameBlob, textBlob, names, records, typeIndex, pools, root })
    fun img => (img.profile, img.nameBlob, img.textBlob, img.names, img.records, img.typeIndex,
      img.pools, img.root)

def encode (img : Image) : List UInt8 := codec.encode img

/-- Reads an image off the front of a payload.  What follows it is ignored. -/
def decode (payload : List UInt8) : Except DecodeError Image := do
  let (img, _) ← codec.decode payload
  return img

end Image
end TypeAtlas
