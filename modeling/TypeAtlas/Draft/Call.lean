/-
Sequences of calls on a draft.

`Draft.run` makes calls one after another.  A refused call answers its fault, and
the next one is made on what it left.
-/
import TypeAtlas.Draft.Basic

namespace TypeAtlas
namespace Draft

inductive Call where
  | addNamespace (name : NameInput) (parent : DeclId)
  | addType (name : NameInput) (parent : DeclId) (size : UInt32)
  | addEnum (name : NameInput) (parent : DeclId) (size : UInt32)
  | addEnumConstant (name : NameInput) (parent : DeclId) (value : Int32)
  | addClass (name : NameInput) (parent : DeclId) (size : UInt32)
  | addField (name : NameInput) (parent : DeclId) (type : Option TypeId) (qualifier : Qualifier)
      (offset : Int32)
  | addParameter (name : NameInput) (function : Id .functions) (type : Option TypeId)
      (qualifier : Qualifier) (place : Int32)
  | addFunction (name : NameInput) (parent : DeclId) (address uid : UInt32)
  | addTemplate (name : NameInput) (parent : DeclId)
  | addTemplateType (name : NameInput) (template : Id .templates) (size : UInt32)
      (arguments : List (TypeId × Bool))
  | addAttribute (name : NameInput) (owner : DeclId) (value : ValueInput)
  | setBase (c base : Id .classes)
  | setConstructor (c : Id .classes) (function : Id .functions)
  | setDestructor (c : Id .classes) (function : Id .functions)
  | setReturn (function : Id .functions) (type : TypeId) (qualifier : Qualifier)
  | internName (name : NameInput)

inductive Reply where
  | done
  /-- The position of the record that was added. -/
  | added (position : UInt32)
  | name (span : NameSpan)
deriving DecidableEq

def Reply.ofAdded {a : Arena} (x : Id a × Draft) : Reply × Draft := (.added x.1.raw, x.2)

def call (d : Draft) : Call → Except DraftFault (Reply × Draft)
  | .addNamespace name parent => (d.addNamespace name parent).map Reply.ofAdded
  | .addType name parent size => (d.addType name parent size).map Reply.ofAdded
  | .addEnum name parent size => (d.addEnum name parent size).map Reply.ofAdded
  | .addEnumConstant name parent value => (d.addEnumConstant name parent value).map Reply.ofAdded
  | .addClass name parent size => (d.addClass name parent size).map Reply.ofAdded
  | .addField name parent type qualifier offset =>
    (d.addField name parent type qualifier offset).map Reply.ofAdded
  | .addParameter name function type qualifier place =>
    (d.addParameter name function type qualifier place).map Reply.ofAdded
  | .addFunction name parent address uid =>
    (d.addFunction name parent address uid).map Reply.ofAdded
  | .addTemplate name parent => (d.addTemplate name parent).map Reply.ofAdded
  | .addTemplateType name template size arguments =>
    (d.addTemplateType name template size arguments).map Reply.ofAdded
  | .addAttribute name owner value => (d.addAttribute name owner value).map Reply.ofAdded
  | .setBase c base => (d.setBase c base).map (.done, ·)
  | .setConstructor c function => (d.setConstructor c function).map (.done, ·)
  | .setDestructor c function => (d.setDestructor c function).map (.done, ·)
  | .setReturn function type qualifier => (d.setReturn function type qualifier).map Reply.ofAdded
  | .internName name => (d.internName name).map fun x => (.name x.1, x.2)

/-- What a refused call leaves: the draft as it was.  Only where the value of an
attribute is too large, its name has been interned before and stays. -/
def refused (d : Draft) : Call → Draft
  | .addAttribute name owner value =>
    match d.nameAttribute value.kind name owner with
    | .ok (_, d) => d
    | .error _ => d
  | _ => d

def step (d : Draft) (c : Call) : Except DraftFault Reply × Draft :=
  match d.call c with
  | .ok (reply, d) => (.ok reply, d)
  | .error e => (.error e, d.refused c)

def run (d : Draft) : List Call → List (Except DraftFault Reply) × Draft
  | [] => ([], d)
  | c :: cs =>
    let (reply, d) := d.step c
    let (replies, d) := d.run cs
    (reply :: replies, d)

end Draft
end TypeAtlas
