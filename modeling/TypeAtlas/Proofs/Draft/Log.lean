/-
What the calls on a draft have said.

A log holds the accepted calls with their replies.  It tells by itself what was
added to each arena and under which number, and which base, constructor,
destructor and return value every declaration was given last.  No draft occurs in
it, so that a draft and its image can be compared with it.
-/
import TypeAtlas.Draft.Call

namespace TypeAtlas
namespace Draft

/-! ## Additions -/

/-- What is given for a record beside its name and its owner.  References are
numbers that earlier calls have answered. -/
abbrev Content : Arena → Type
  | .decl k => Body (.decl k)
  | .attributes => ValueInput

structure Entry (a : Arena) where
  name : NameInput
  parent : DeclId
  content : Content a

def Call.entry : Call → (a : Arena) → Option (Entry a)
  | .addNamespace name parent, .namespaces => some ⟨name, parent, ({} : NamespaceBody)⟩
  | .addType name parent size, .types => some ⟨name, parent, ({ size } : TypeBody)⟩
  | .addEnum name parent size, .enums => some ⟨name, parent, ({ size } : EnumBody)⟩
  | .addEnumConstant name parent value, .enumConstants =>
    some ⟨name, parent, ({ value } : EnumConstantBody)⟩
  | .addClass name parent size, .classes => some ⟨name, parent, ({ size } : ClassBody)⟩
  | .addField name parent type qualifier offset, .fields =>
    some ⟨name, parent, ({ type, qualifier, offset } : FieldBody)⟩
  | .addParameter name function type qualifier place, .fields =>
    some ⟨name, function.decl, ({ type, qualifier, offset := place } : FieldBody)⟩
  | .addFunction name parent address uid, .functions =>
    some ⟨name, parent, ({ address, uid } : FunctionBody)⟩
  | .addTemplate name parent, .templates => some ⟨name, parent, ({} : TemplateBody)⟩
  | .addTemplateType name template size arguments, .templateTypes =>
    let types := Vector.ofFn fun i => (arguments[i.val]?).map (·.1)
    let pointers := Vector.ofFn fun i => ((arguments[i.val]?).map (·.2)).getD false
    some ⟨name, template.decl, ({ size, types, pointers } : TemplateTypeBody)⟩
  | .addAttribute name owner value, .attributes => some ⟨name, owner, value⟩
  | .setReturn function type qualifier, .fields =>
    some ⟨.text "return", function.decl, ({ type := some type, qualifier, offset := -1 } : FieldBody)⟩
  | _, _ => none

def Call.arena? : Call → Option Arena
  | .addNamespace .. => some .namespaces
  | .addType .. => some .types
  | .addEnum .. => some .enums
  | .addEnumConstant .. => some .enumConstants
  | .addClass .. => some .classes
  | .addField .. | .addParameter .. | .setReturn .. => some .fields
  | .addFunction .. => some .functions
  | .addTemplate .. => some .templates
  | .addTemplateType .. => some .templateTypes
  | .addAttribute .. => some .attributes
  | .setBase .. | .setConstructor .. | .setDestructor .. | .internName .. => none

theorem Call.entry_eq_none {c : Call} {a : Arena} (h : c.arena? ≠ some a) : c.entry a = none := by
  cases a with
  | attributes => cases c <;> first | rfl | exact absurd rfl h
  | decl k => cases k <;> cases c <;> first | rfl | exact absurd rfl h

/-- A call adds to one arena only. -/
theorem Call.entry_eq_none_of_ne {c : Call} {a b : Arena} {e : Entry a} (h : c.entry a = some e)
    (hb : b ≠ a) : c.entry b = none := by
  refine entry_eq_none fun hb' => ?_
  have ha : c.arena? = some a := by
    apply Decidable.byContradiction
    intro hne
    rw [entry_eq_none hne] at h
    cases h
  rw [ha] at hb'
  exact hb (Option.some.inj hb').symm

def Call.target? : Call → Option DeclId
  | .setBase c _ | .setConstructor c _ | .setDestructor c _ => some c.decl
  | .setReturn function _ _ => some function.decl
  | _ => none

abbrev Log : Type := List (Call × Reply)

namespace Log

def of (calls : List Call) (replies : List (Except DraftFault Reply)) : Log :=
  (calls.zip replies).filterMap fun entry => entry.2.toOption.map fun reply => (entry.1, reply)

/-- What was added to an arena, each with the number that was answered for it. -/
def added (log : Log) (a : Arena) : List (UInt32 × Entry a) :=
  log.filterMap fun entry =>
    match entry.2, entry.1.entry a with
    | .added number, some e => some (number, e)
    | _, _ => none

/-! ## Changes -/

/-- The last answer that a log gives to a question. -/
def last {α : Type} (log : Log) (question : Call × Reply → Option α) : Option α :=
  log.reverse.findSome? question

def givesBase (c : Id .classes) : Call × Reply → Option (Id .classes)
  | (.setBase c' base, _) => if c' = c then some base else none
  | _ => none

def givesConstructor (c : Id .classes) : Call × Reply → Option (Id .functions)
  | (.setConstructor c' function, _) => if c' = c then some function else none
  | _ => none

def givesDestructor (c : Id .classes) : Call × Reply → Option (Id .functions)
  | (.setDestructor c' function, _) => if c' = c then some function else none
  | _ => none

/-- A return value is the field that is answered for it. -/
def givesReturn (function : Id .functions) : Call × Reply → Option (Id .fields)
  | (.setReturn function' _ _, .added number) => if function' = function then some ⟨number⟩ else none
  | _ => none

def baseOf (log : Log) (c : Id .classes) : Option (Id .classes) := log.last (givesBase c)

def constructorOf (log : Log) (c : Id .classes) : Option (Id .functions) :=
  log.last (givesConstructor c)

def destructorOf (log : Log) (c : Id .classes) : Option (Id .functions) :=
  log.last (givesDestructor c)

def returnOf (log : Log) (function : Id .functions) : Option (Id .fields) :=
  log.last (givesReturn function)

/-- The unique id given for the function that owns a field, zero for any other
owner. -/
def uidOf (log : Log) (owner : DeclId) : UInt32 :=
  match (owner.to? .function).bind fun f => (log.added .functions)[f.index]? with
  | some (_, e) => FunctionBody.uid e.content
  | none => 0

/-- The body of a declaration as the log leaves it. -/
def body (log : Log) : {k : DeclKind} → Id (.decl k) → Entry (.decl k) → Body (.decl k)
  | .classType, id, e =>
    { (e.content : ClassBody) with
      base := log.baseOf id, constructor := log.constructorOf id,
      destructor := log.destructorOf id }
  | .function, id, e => { (e.content : FunctionBody) with returnField := log.returnOf id }
  | .field, _, e => { (e.content : FieldBody) with functionUid := log.uidOf e.parent }
  | .type, _, e => e.content
  | .enumConstant, _, e => e.content
  | .enum, _, e => e.content
  | .templateType, _, e => e.content
  | .template, _, e => e.content
  | .nameSpace, _, e => e.content

/-- A class was given another as its base. -/
def Derives (log : Log) (c b : Id .classes) : Prop := log.baseOf c = some b

/-! ## Calls that change something else -/

variable {log : Log} {entry : Call × Reply}

theorem givesBase_eq_none {c : Id .classes} (h : entry.1.target? ≠ some c.decl) :
    givesBase c entry = none := by
  obtain ⟨call, reply⟩ := entry
  cases call with
  | setBase c' base => exact if_neg fun e => h (congrArg (fun id : Id .classes => some id.decl) e)
  | _ => rfl

theorem givesConstructor_eq_none {c : Id .classes} (h : entry.1.target? ≠ some c.decl) :
    givesConstructor c entry = none := by
  obtain ⟨call, reply⟩ := entry
  cases call with
  | setConstructor c' function =>
    exact if_neg fun e => h (congrArg (fun id : Id .classes => some id.decl) e)
  | _ => rfl

theorem givesDestructor_eq_none {c : Id .classes} (h : entry.1.target? ≠ some c.decl) :
    givesDestructor c entry = none := by
  obtain ⟨call, reply⟩ := entry
  cases call with
  | setDestructor c' function =>
    exact if_neg fun e => h (congrArg (fun id : Id .classes => some id.decl) e)
  | _ => rfl

theorem givesReturn_eq_none {f : Id .functions} (h : entry.1.target? ≠ some f.decl) :
    givesReturn f entry = none := by
  obtain ⟨call, reply⟩ := entry
  cases call with
  | setReturn f' type qualifier =>
    cases reply with
    | added number => exact if_neg fun e => h (congrArg (fun id : Id .functions => some id.decl) e)
    | _ => rfl
  | _ => rfl

/-! ## One more call -/

theorem last_concat {α : Type} (question : Call × Reply → Option α) :
    last (log ++ [entry]) question = (question entry).or (log.last question) := by
  unfold last
  rw [List.reverse_append, List.reverse_singleton, List.singleton_append, List.findSome?_cons]
  cases question entry <;> rfl

theorem last_eq_none {α : Type} {question : Call × Reply → Option α}
    (h : ∀ entry ∈ log, question entry = none) : log.last question = none :=
  List.findSome?_eq_none_iff.mpr fun entry hentry => h entry (List.mem_reverse.mp hentry)

theorem body_concat {k : DeclKind} {id : Id (.decl k)} {e : Entry (.decl k)}
    (htarget : entry.1.target? ≠ some id.decl)
    (huid : uidOf (log ++ [entry]) e.parent = log.uidOf e.parent) :
    body (log ++ [entry]) id e = log.body id e := by
  unfold body
  cases k with
  | classType =>
    simp only [baseOf, constructorOf, destructorOf, last_concat, givesBase_eq_none htarget,
      givesConstructor_eq_none htarget, givesDestructor_eq_none htarget, Option.none_or]
  | function => simp only [returnOf, last_concat, givesReturn_eq_none htarget, Option.none_or]
  | field => simp only [huid]
  | _ => rfl

theorem body_setBase {c base : Id .classes} {reply : Reply} (e : Entry .classes) :
    body (log ++ [(.setBase c base, reply)]) c e =
      ({ (log.body c e : ClassBody) with base := some base } : ClassBody) := by
  simp [body, baseOf, constructorOf, destructorOf, last_concat, givesBase, givesConstructor,
    givesDestructor]

theorem body_setConstructor {c : Id .classes} {f : Id .functions} {reply : Reply}
    (e : Entry .classes) : body (log ++ [(.setConstructor c f, reply)]) c e =
      ({ (log.body c e : ClassBody) with constructor := some f } : ClassBody) := by
  simp [body, baseOf, constructorOf, destructorOf, last_concat, givesBase, givesConstructor,
    givesDestructor]

theorem body_setDestructor {c : Id .classes} {f : Id .functions} {reply : Reply}
    (e : Entry .classes) : body (log ++ [(.setDestructor c f, reply)]) c e =
      ({ (log.body c e : ClassBody) with destructor := some f } : ClassBody) := by
  simp [body, baseOf, constructorOf, destructorOf, last_concat, givesBase, givesConstructor,
    givesDestructor]

theorem body_setReturn {f : Id .functions} {type : TypeId} {qualifier : Qualifier}
    {number : UInt32} (e : Entry .functions) :
    body (log ++ [(.setReturn f type qualifier, .added number)]) f e =
      ({ (log.body f e : FunctionBody) with returnField := some ⟨number⟩ } : FunctionBody) := by
  simp [body, returnOf, last_concat, givesReturn]

theorem added_concat_of_entry {a : Arena} {c : Call} {number : UInt32} {e : Entry a}
    (h : c.entry a = some e) :
    added (log ++ [(c, .added number)]) a = log.added a ++ [(number, e)] := by
  unfold added
  rw [List.filterMap_append]
  simp [h]

theorem added_concat_of_none {a : Arena} {c : Call} (h : c.entry a = none) (reply : Reply) :
    added (log ++ [(c, reply)]) a = log.added a := by
  unfold added
  rw [List.filterMap_append]
  cases reply <;> simp [h]

theorem exists_added_concat (a : Arena) :
    ∃ more, added (log ++ [entry]) a = log.added a ++ more := by
  unfold added
  rw [List.filterMap_append]
  exact ⟨_, rfl⟩

theorem uidOf_concat {owner : DeclId}
    (h : ∀ f, owner.to? .function = some f → f.index < (log.added .functions).length) :
    uidOf (log ++ [entry]) owner = log.uidOf owner := by
  obtain ⟨more, hmore⟩ := @exists_added_concat log entry .functions
  unfold uidOf
  cases hf : owner.to? .function with
  | none => rfl
  | some f =>
    rw [Option.bind_some, Option.bind_some, hmore, List.getElem?_append_left (h f hf)]

end Log
end Draft
end TypeAtlas
