/-
Images with their texts written out.

Where a text stands in a blob depends on what was interned before it.  A spelled record has
the text in place of the span.  Laying records out looks at neither: it does the same to
`Records.plain`, in which every span is empty, as to the records themselves.
-/
import TypeAtlas.Proofs.Layout.Renumber

namespace TypeAtlas

/-! ## Spelling -/

/-- The value of an attribute with its texts written out. -/
inductive SpelledValue where
  | flag
  | int (value : Int32)
  | float (bits : UInt32)
  | name (value : Name)
  | text (value : Option String)

abbrev SpelledBody : Arena → Type
  | .attributes => SpelledValue
  | .decl k => Body (.decl k)

/-- A record with its texts written out. -/
structure SpelledRecord (a : Arena) where
  kind : Kind
  name : Name
  parent : Option DeclId
  body : SpelledBody a

/-- An image with its texts written out, its name table apart. -/
structure SpelledImage where
  profile : Profile
  records : PerArena fun a => Array (SpelledRecord a)
  typeIndex : Array TypeId
  pools : PerArena fun a => Array (Id a)
  root : SpelledRecord .namespaces

namespace Image

variable (img : Image) {a : Arena}

def spellName (n : NameSpan) : Name := ⟨n.hash, n.text.resolve? img.nameBlob⟩

def spellValue : AttributeValue → SpelledValue
  | .flag => .flag
  | .int value => .int value
  | .float bits => .float bits
  | .name value => .name (img.spellName value)
  | .text value => .text (img.text? value)

def spellBody : {a : Arena} → Body a → SpelledBody a
  | .attributes, value => img.spellValue value
  | .decl _, body => body

def spell (r : Record a) : SpelledRecord a :=
  ⟨r.kind, img.spellName r.name, r.parent, img.spellBody r.body⟩

def spelled : SpelledImage where
  profile := img.profile
  records := .ofFn fun a => (img.arena a).map img.spell
  typeIndex := img.typeIndex
  pools := img.pools
  root := img.spell img.root

variable {img} in
theorem spell_congr {img' : Image} {k : DeclKind} {r r' : Record (.decl k)}
    (hkind : r'.kind = r.kind) (hname : img'.spellName r'.name = img.spellName r.name)
    (hparent : r'.parent = r.parent) (hbody : r'.body = r.body) : img'.spell r' = img.spell r := by
  show SpelledRecord.mk (a := .decl k) r'.kind (img'.spellName r'.name) r'.parent r'.body =
    SpelledRecord.mk (a := .decl k) r.kind (img.spellName r.name) r.parent r.body
  rw [hkind, hname, hparent, hbody]

/-- The name table with its texts written out. -/
def spelledNames : List Name := img.names.toList.map img.spellName

end Image

/-! ## Records without texts -/

/-- The value without its texts. -/
def SpelledValue.plain : SpelledValue → AttributeValue
  | flag => .flag
  | int value => .int value
  | float bits => .float bits
  | name value => .name ⟨value.hash, .empty⟩
  | text _ => .text .empty

def SpelledBody.plain : {a : Arena} → SpelledBody a → Body a
  | .attributes, value => SpelledValue.plain value
  | .decl _, body => body

def SpelledRecord.plain {a : Arena} (r : SpelledRecord a) : Record a :=
  ⟨⟨r.kind, ⟨r.name.hash, .empty⟩, r.parent⟩, SpelledBody.plain r.body⟩

namespace AttributeValue

/-- The value with all spans empty. -/
def plain : AttributeValue → AttributeValue
  | name value => .name { value with text := .empty }
  | text _ => .text .empty
  | value => value

end AttributeValue

namespace Body

def plain : {a : Arena} → Body a → Body a
  | .attributes, value => AttributeValue.plain value
  | .decl _, body => body

end Body

namespace Record

variable {a : Arena}

/-- The record with all spans empty. -/
def plain (r : Record a) : Record a :=
  ⟨{ r.header with name := { r.name with text := .empty } }, r.body.plain⟩

@[simp] theorem hash_plain (r : Record a) : r.plain.hash = r.hash := rfl

@[simp] theorem parent_plain (r : Record a) : r.plain.parent = r.parent := rfl

@[simp] theorem flagBit_plain (r : Record .attributes) : r.plain.flagBit = r.flagBit := by
  obtain ⟨header, body⟩ := r
  cases body <;> rfl

/-- A record without texts can be read off the spelled one. -/
theorem plain_spell (img : Image) (r : Record a) : (img.spell r).plain = r.plain := by
  cases a with
  | decl k => rfl
  | attributes =>
    obtain ⟨header, body⟩ := r
    cases body <;> rfl

end Record

namespace Records

variable (rs : Records) {a b : Arena}

def plain : Records := .ofFn fun a => (rs.get a).map Record.plain

@[simp] theorem get_plain (a : Arena) : rs.plain.get a = (rs.get a).map Record.plain :=
  PerArena.get_ofFn _ a

theorem get_plain_eq (img : Image) (a : Arena) :
    rs.plain.get a = ((rs.get a).map img.spell).map SpelledRecord.plain := by
  rw [get_plain, Array.map_map]
  exact congrArg (Array.map · _) (funext fun r => (Record.plain_spell img r).symm)

theorem isReturn_plain (id : Id .fields) (r : Record .fields) :
    rs.plain.isReturn id r.plain = rs.isReturn id r := by
  have hfunctions : rs.plain.functions = rs.functions.map Record.plain := rfl
  rw [isReturn, isReturn, Record.parent_plain]
  cases r.parent.bind (·.to? .function) with
  | none => rfl
  | some f =>
    dsimp only
    rw [hfunctions, Array.getElem?_map]
    cases rs.functions[f.index]? <;> rfl

theorem lister_plain (id : Id b) (r : Record b) : rs.plain.lister id r.plain = rs.lister id r := by
  cases b with
  | attributes => rfl
  | decl k =>
    cases k with
    | field =>
      show (if rs.plain.isReturn id r.plain then none else r.parent) = _
      rw [isReturn_plain]
      rfl
    | _ => rfl

theorem listers_plain (b : Arena) : rs.plain.listers b = rs.listers b := by
  rw [listers, listers, get_plain, Array.toList_map, List.zipIdx_map, List.map_map]
  refine congrArg (List.map · _) (funext fun entry => ?_)
  exact congrArg (Prod.mk _) (rs.lister_plain _ entry.1)

theorem ownersOf_plain (b : Arena) : rs.plain.ownersOf b = rs.ownersOf b := by
  rw [ownersOf, ownersOf]
  refine congrArg (List.flatMap · _) (funext fun k => ?_)
  rw [get_plain, Array.size_map]

theorem memberships_plain (b : Arena) : rs.plain.memberships b = rs.memberships b := by
  rw [memberships, memberships, listers_plain, ownersOf_plain]

theorem pool_plain (b : Arena) : rs.plain.pool b = rs.pool b := by
  rw [pool, pool, memberships_plain]

theorem spans_plain : rs.plain.spans = rs.spans := by
  rw [spans, spans]
  exact congrArg PerArena.ofFn (funext fun b => by rw [memberships_plain])

theorem flagsOf_plain (owner : DeclId) : rs.plain.flagsOf owner = rs.flagsOf owner := by
  have hattributes : rs.plain.attributes = rs.attributes.map Record.plain := rfl
  rw [flagsOf, flagsOf, hattributes, Array.foldl_map]
  simp only [Record.parent_plain, Record.flagBit_plain]

theorem types_plain : rs.plain.types = rs.types := by
  rw [types, types]
  refine congrArg (List.flatMap · _) (funext fun k => ?_)
  rw [get_plain, Array.toList_map, List.zipIdx_map, List.map_map]
  rfl

theorem typeIndex_plain : rs.plain.typeIndex = rs.typeIndex := by
  rw [typeIndex, typeIndex, types_plain]

/-- Records that are spelled alike stay so when they are given their lists and flags. -/
theorem spell_finish {img img' : Image} {rs rs' : Records} (hplain : rs'.plain = rs.plain)
    {r r' : Record a} (h : img'.spell r' = img.spell r) (j : Nat) :
    img'.spell (rs'.finish rs'.spans j r') = img.spell (rs.finish rs.spans j r) := by
  cases a with
  | attributes => exact h
  | decl k =>
    obtain ⟨hkind, hname, hparent, hbody⟩ := SpelledRecord.mk.inj h
    have hspans : rs'.spans = rs.spans := by rw [← spans_plain rs', hplain, spans_plain]
    have hflags (owner : DeclId) : rs'.flagsOf owner = rs.flagsOf owner := by
      rw [← flagsOf_plain rs', hplain, flagsOf_plain]
    have hbody : r'.body = r.body := hbody
    refine Image.spell_congr hkind hname hparent ?_
    rw [finish, finish, hflags, hspans, hbody]

end Records
end TypeAtlas
