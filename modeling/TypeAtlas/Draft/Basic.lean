/-
Drafts: images in the making.

A draft takes declarations one at a time.  Each is checked against what is
already there, so owners and links always name earlier records, and gets the
next position of its arena.
-/
import TypeAtlas.Draft.TextTable

namespace TypeAtlas

structure Draft where
  profile : Profile
  names : NameTable := {}
  texts : TextTable := {}
  records : PerArena fun a => Array (Record a) := .ofFn fun _ => #[]

namespace Draft

def arena (d : Draft) (a : Arena) : Array (Record a) := d.records.get a

/-! ## Checks -/

def checkProfile (d : Draft) (kind : Kind) : Except DraftFault Unit :=
  if d.profile.allows kind then .ok () else .error (.profileViolation kind d.profile)

/-- An id is that of the root namespace or of a record already there. -/
def checkId (d : Draft) (id : DeclId) : Except DraftFault Unit :=
  if id.isRoot || id.index < (d.arena id.arena).size then .ok () else .error (.unknownId id)

def checkParent (d : Draft) (child : Kind) (parent : DeclId) : Except DraftFault Unit := do
  d.checkId parent
  if child.allowsParent (.decl parent.kind) then .ok ()
  else .error (.invalidParent child parent.kind)

/-! ## Additions -/

def internName (d : Draft) (name : NameInput) : Except DraftFault (NameSpan × Draft) := do
  let (span, names) ← d.names.intern name
  return (span, { d with names })

def push (d : Draft) {a : Arena} (r : Record a) : Id a × Draft :=
  (.ofIndex (d.arena a).size, { d with records := d.records.modify a (·.push r) })

/-- Interns the name of a declaration and appends its record. -/
def pushDecl (d : Draft) (k : DeclKind) (name : NameInput) (parent : DeclId)
    (body : Body (.decl k)) : Except DraftFault (Id (.decl k) × Draft) := do
  let (span, d) ← d.internName name
  return d.push ⟨⟨.decl k, span, some parent⟩, body⟩

/-- Adds a declaration that has to meet nothing but the scoping rule. -/
def addDecl (d : Draft) (k : DeclKind) (name : NameInput) (parent : DeclId)
    (body : Body (.decl k)) : Except DraftFault (Id (.decl k) × Draft) := do
  d.checkParent (.decl k) parent
  d.pushDecl k name parent body

def addNamespace (d : Draft) (name : NameInput) (parent : DeclId) :
    Except DraftFault (Id .namespaces × Draft) :=
  d.addDecl .nameSpace name parent ({} : NamespaceBody)

def addType (d : Draft) (name : NameInput) (parent : DeclId) (size : UInt32) :
    Except DraftFault (Id .types × Draft) :=
  d.addDecl .type name parent ({ size } : TypeBody)

def addEnum (d : Draft) (name : NameInput) (parent : DeclId) (size : UInt32) :
    Except DraftFault (Id .enums × Draft) :=
  d.addDecl .enum name parent ({ size } : EnumBody)

def addEnumConstant (d : Draft) (name : NameInput) (parent : DeclId) (value : Int32) :
    Except DraftFault (Id .enumConstants × Draft) :=
  d.addDecl .enumConstant name parent ({ value } : EnumConstantBody)

def addClass (d : Draft) (name : NameInput) (parent : DeclId) (size : UInt32) :
    Except DraftFault (Id .classes × Draft) :=
  d.addDecl .classType name parent ({ size } : ClassBody)

def addFunction (d : Draft) (name : NameInput) (parent : DeclId) (address uid : UInt32) :
    Except DraftFault (Id .functions × Draft) :=
  d.addDecl .function name parent ({ address, uid } : FunctionBody)

/-- The unique id that a field takes over from the function it belongs to. -/
def functionUid (d : Draft) (parent : DeclId) : UInt32 :=
  match (parent.to? .function).bind fun f => (d.arena .functions)[f.index]? with
  | some r => FunctionBody.uid r.body
  | none => 0

/-- Adds a field of a class or a parameter of a function. -/
def addField (d : Draft) (name : NameInput) (parent : DeclId) (type : Option TypeId)
    (qualifier : Qualifier) (offset : Int32) : Except DraftFault (Id .fields × Draft) := do
  d.checkParent (.decl .field) parent
  type.forM fun t => d.checkId t.decl
  let functionUid := d.functionUid parent
  d.pushDecl .field name parent ({ type, qualifier, offset, functionUid } : FieldBody)

def addParameter (d : Draft) (name : NameInput) (function : Id .functions)
    (type : Option TypeId) (qualifier : Qualifier) (place : Int32) :
    Except DraftFault (Id .fields × Draft) :=
  d.addField name function.decl type qualifier place

def addTemplate (d : Draft) (name : NameInput) (parent : DeclId) :
    Except DraftFault (Id .templates × Draft) := do
  d.checkProfile (.decl .template)
  d.addDecl .template name parent ({} : TemplateBody)

/-- Adds an instance of a template.  The number of arguments is checked before
any of them is. -/
def addTemplateType (d : Draft) (name : NameInput) (template : Id .templates) (size : UInt32)
    (arguments : List (TypeId × Bool)) : Except DraftFault (Id .templateTypes × Draft) := do
  d.checkProfile (.decl .templateType)
  d.checkParent (.decl .templateType) template.decl
  if maxTemplateArgs < arguments.length then
    throw (.tooManyTemplateArgs name.string arguments.length)
  arguments.forM fun arg => d.checkId arg.1.decl
  let slot (i : Fin maxTemplateArgs) : Option (TypeId × Bool) := arguments[i.val]?
  let types := Vector.ofFn fun i => (slot i).map (·.1)
  let pointers := Vector.ofFn fun i => ((slot i).map (·.2)).getD false
  d.pushDecl .templateType name template.decl ({ size, types, pointers } : TemplateTypeBody)

/-! ## Attributes -/

/-- The value of an attribute before its texts are interned. -/
inductive ValueInput where
  | flag
  | int (value : Int32)
  | float (bits : UInt32)
  | name (value : NameInput)
  | text (value : String)

def ValueInput.kind : ValueInput → AttributeKind
  | flag => .flag
  | int _ => .int
  | float _ => .float
  | name _ => .name
  | text _ => .text

def internValue (d : Draft) : ValueInput → Except DraftFault (AttributeValue × Draft)
  | .flag => .ok (.flag, d)
  | .int value => .ok (.int value, d)
  | .float bits => .ok (.float bits, d)
  | .name value => do
    let (span, d) ← d.internName value
    return (.name span, d)
  | .text value => do
    let (span, texts) ← d.texts.intern "attribute text bytes" value
    return (.text span, { d with texts })

/-- Checks the owner of an attribute and interns its name. -/
def nameAttribute (d : Draft) (kind : AttributeKind) (name : NameInput) (owner : DeclId) :
    Except DraftFault (NameSpan × Draft) := do
  d.checkProfile (.attr kind)
  d.checkParent (.attr kind) owner
  d.internName name

def addAttribute (d : Draft) (name : NameInput) (owner : DeclId) (value : ValueInput) :
    Except DraftFault (Id .attributes × Draft) := do
  let (span, d) ← d.nameAttribute value.kind name owner
  let (body, d) ← d.internValue value
  return d.push (a := .attributes) ⟨⟨.attr value.kind, span, some owner⟩, body⟩

/-! ## Changes -/

/-- Changes the body of a class, which has to be there. -/
def changeClass (d : Draft) (c : Id .classes) (f : ClassBody → ClassBody) :
    Except DraftFault Draft :=
  if c.index < (d.arena .classes).size then
    let change (r : Record .classes) : Record .classes := { r with body := f r.body }
    .ok { d with records := d.records.modify .classes (·.modify c.index change) }
  else .error (.unknownId c.decl)

def setBase (d : Draft) (c base : Id .classes) : Except DraftFault Draft := do
  d.checkId base.decl
  d.changeClass c ({ · with base := some base })

def setConstructor (d : Draft) (c : Id .classes) (function : Id .functions) :
    Except DraftFault Draft := do
  d.checkId function.decl
  d.changeClass c ({ · with constructor := some function })

def setDestructor (d : Draft) (c : Id .classes) (function : Id .functions) :
    Except DraftFault Draft := do
  d.checkId function.decl
  d.changeClass c ({ · with destructor := some function })

/-- Gives a function its return value, once.  The value is a field named
`return` at offset -1. -/
def setReturn (d : Draft) (function : Id .functions) (type : TypeId) (qualifier : Qualifier) :
    Except DraftFault (Id .fields × Draft) :=
  match (d.arena .functions)[function.index]? with
  | none => .error (.unknownId function.decl)
  | some r =>
    if (FunctionBody.returnField r.body).isSome then .error (.returnAlreadySet function.raw)
    else do
      let (field, d) ← d.addField (.text "return") function.decl (some type) qualifier (-1)
      let change (r : Record .functions) : Record .functions :=
        { r with body := { (r.body : FunctionBody) with returnField := some field } }
      let records := d.records.modify .functions (·.modify function.index change)
      return (field, { d with records })

end Draft
end TypeAtlas
