/-
Draft calls in place.

A call is given as a function that answers with a whole draft or with none, so it cannot
say what a refusal leaves behind.  Here each call is a program that changes one draft step
by step, and `Draft.on_perform` says that it ends as the function does: every step that
may refuse comes before the first that changes anything.
-/
import TypeAtlas.Proofs.Draft.Names

namespace TypeAtlas
namespace Draft

open Check (bind_eq_ok_iff map_eq_ok_iff bind_eq_error bind_eq_error_of_ok)

/-- A program that changes a draft in place.  What was changed before a refusal stays. -/
abbrev Program (α : Type) : Type := ExceptT DraftFault (StateM Draft) α

namespace Program

variable {α β : Type} {d d' : Draft} {a : α} {e : DraftFault}

/-- Runs a program on a draft. -/
def on (x : Program α) (d : Draft) : Except DraftFault α × Draft := x.run.run d

/-- Looks at the draft and answers, or refuses, by what is there. -/
def look (f : Draft → Except DraftFault α) : Program α := ExceptT.mk do return f (← get)

/-- Changes the draft without a look at whether it should. -/
def change (f : Draft → α × Draft) : Program α := modifyGet f

theorem on_bind_ok {x : Program α} (f : α → Program β) (h : x.on d = (.ok a, d')) :
    (x >>= f).on d = (f a).on d' := by
  rw [on] at h ⊢
  rw [ExceptT.run_bind, StateT.run_bind, h]
  rfl

theorem on_bind_error {x : Program α} (f : α → Program β) (h : x.on d = (.error e, d')) :
    (x >>= f).on d = (.error e, d') := by
  rw [on] at h ⊢
  rw [ExceptT.run_bind, StateT.run_bind, h]
  rfl

theorem on_change (f : Draft → α × Draft) : (change f).on d = (.ok (f d).1, (f d).2) := rfl

theorem on_look_ok {f : Draft → Except DraftFault α} (g : α → Program β) (h : f d = .ok a) :
    (look f >>= g).on d = (g a).on d :=
  on_bind_ok g (congrArg (·, d) h)

theorem on_look_error {f : Draft → Except DraftFault α} (g : α → Program β) (h : f d = .error e) :
    (look f >>= g).on d = (.error e, d) :=
  on_bind_error g (congrArg (·, d) h)

/-- A program answers what a function answers, and what it refuses leaves no trace. -/
structure Atomic (x : Program α) (f : Draft → Except DraftFault (α × Draft)) : Prop where
  ok {d d' : Draft} {a : α} : f d = .ok (a, d') → x.on d = (.ok a, d')
  error {d : Draft} {e : DraftFault} : f d = .error e → x.on d = (.error e, d)

theorem atomic_pure (a : α) : Atomic (pure a) fun d => .ok (a, d) where
  ok h := by
    obtain ⟨rfl, rfl⟩ := Prod.mk.inj (Except.ok.inj h)
    rfl
  error h := by cases h

theorem atomic_change (f : Draft → α × Draft) : Atomic (change f) fun d => .ok (f d) where
  ok {d d' a} h := by
    have h : f d = (a, d') := Except.ok.inj h
    rw [on_change, h]
  error h := by cases h

theorem Atomic.congr {x : Program α} {f g : Draft → Except DraftFault (α × Draft)}
    (h : x.Atomic f) (heq : ∀ d, f d = g d) : x.Atomic g :=
  funext heq ▸ h

/-- A check in front of an atomic program. -/
theorem Atomic.look_bind {check : Draft → Except DraftFault α} {x : α → Program β}
    {f : α → Draft → Except DraftFault (β × Draft)} (h : ∀ a, (x a).Atomic (f a)) :
    (look check >>= x).Atomic fun d => check d >>= fun a => f a d where
  ok hok := by
    obtain ⟨a, hcheck, hf⟩ := bind_eq_ok_iff.mp hok
    rw [on_look_ok _ hcheck]
    exact (h a).ok hf
  error {d e} herror := by
    cases hcheck : check d with
    | ok a =>
      rw [hcheck] at herror
      rw [on_look_ok _ hcheck]
      exact (h a).error herror
    | error e' =>
      rw [hcheck] at herror
      obtain rfl := Except.error.inj herror
      exact on_look_error _ hcheck

/-- A change after an atomic program. -/
theorem Atomic.bind_change {x : Program α} {f : Draft → Except DraftFault (α × Draft)}
    {g : α → Draft → β × Draft} (h : x.Atomic f) :
    (x >>= fun a => change (g a)).Atomic fun d => (f d).map fun r => g r.1 r.2 where
  ok {d d' b} hok := by
    obtain ⟨⟨a, d₁⟩, hf, hg⟩ := map_eq_ok_iff.mp hok
    rw [on_bind_ok _ (h.ok hf)]
    rw [on_change, hg]
  error {d e} herror := by
    cases hf : f d with
    | ok r =>
      rw [hf] at herror
      cases herror
    | error e' =>
      rw [hf] at herror
      obtain rfl := Except.error.inj herror
      exact on_bind_error _ (h.error hf)

theorem Atomic.bind_pure {x : Program α} {f : Draft → Except DraftFault (α × Draft)}
    (h : x.Atomic f) (g : α → β) :
    (x >>= fun a => pure (g a)).Atomic fun d => (f d).map fun r => (g r.1, r.2) :=
  h.bind_change (g := fun a d => (g a, d))

end Program

open Program (look change)

/-! ## Calls in place -/

/-- Interns a text in a table of the draft.  There has to be room before the blob is touched. -/
def internTextIn (table : Draft → TextTable) (put : Draft → TextTable → Draft)
    (what text : String) : Program TextSpan := do
  let t ← look fun d => .ok (table d)
  match t.spans.lookup text with
  | some span => return span
  | none =>
    let span : TextSpan := ⟨.ofNat t.blob.utf8ByteSize, .ofNat text.utf8ByteSize⟩
    look fun _ =>
      if t.blob.utf8ByteSize + text.utf8ByteSize < UInt32.size then .ok ()
      else .error (.overflow what)
    change fun d => ((), put d { table d with blob := (table d).blob ++ text })
    change fun d => (span, put d { table d with spans := (text, span) :: (table d).spans })

def internNameIn (name : NameInput) : Program NameSpan :=
  if name.hash == 0 && name.string.isEmpty then return .empty
  else do
    let span ← internTextIn (·.names.texts)
      (fun d texts => { d with names := { d.names with texts } }) "name bytes" name.string
    let entry : NameSpan := ⟨name.hash, span⟩
    change fun d =>
      let listed :=
        if d.names.listed.contains entry then d.names.listed else d.names.listed.push entry
      (entry, { d with names := { d.names with listed } })

def internValueIn : ValueInput → Program AttributeValue
  | .flag => return .flag
  | .int value => return .int value
  | .float bits => return .float bits
  | .name value => return .name (← internNameIn value)
  | .text value => return .text (← internTextIn (·.texts) (fun d texts => { d with texts })
      "attribute text bytes" value)

/-- Interns the name of a declaration and appends its record. -/
def declareIn (k : DeclKind) (name : NameInput) (parent : DeclId) (body : Draft → Body (.decl k)) :
    Program (Id (.decl k)) := do
  let span ← internNameIn name
  change fun d => d.push ⟨⟨.decl k, span, some parent⟩, body d⟩

def addDeclIn (k : DeclKind) (name : NameInput) (parent : DeclId) (body : Body (.decl k)) :
    Program (Id (.decl k)) := do
  look (·.checkParent (.decl k) parent)
  declareIn k name parent fun _ => body

def addFieldIn (name : NameInput) (parent : DeclId) (type : Option TypeId) (qualifier : Qualifier)
    (offset : Int32) : Program (Id .fields) := do
  look (·.checkParent (.decl .field) parent)
  look fun d => type.forM fun t => d.checkId t.decl
  declareIn .field name parent fun d =>
    ({ type, qualifier, offset, functionUid := d.functionUid parent } : FieldBody)

def addTemplateTypeIn (name : NameInput) (template : Id .templates) (size : UInt32)
    (arguments : List (TypeId × Bool)) : Program (Id .templateTypes) := do
  look (·.checkProfile (.decl .templateType))
  look (·.checkParent (.decl .templateType) template.decl)
  look fun _ =>
    if maxTemplateArgs < arguments.length then
      .error (.tooManyTemplateArgs name.string arguments.length)
    else .ok ()
  look fun d => arguments.forM fun arg => d.checkId arg.1.decl
  let slot (i : Fin maxTemplateArgs) : Option (TypeId × Bool) := arguments[i.val]?
  let types := Vector.ofFn fun i => (slot i).map (·.1)
  let pointers := Vector.ofFn fun i => ((slot i).map (·.2)).getD false
  declareIn .templateType name template.decl fun _ => ({ size, types, pointers } : TemplateTypeBody)

def nameAttributeIn (kind : AttributeKind) (name : NameInput) (owner : DeclId) :
    Program NameSpan := do
  look (·.checkProfile (.attr kind))
  look (·.checkParent (.attr kind) owner)
  internNameIn name

def addAttributeIn (name : NameInput) (owner : DeclId) (value : ValueInput) :
    Program (Id .attributes) := do
  let span ← nameAttributeIn value.kind name owner
  let body ← internValueIn value
  change fun d => d.push (a := .attributes) ⟨⟨.attr value.kind, span, some owner⟩, body⟩

/-- Changes the body of a class that links to a declaration from then on. -/
def changeClassIn (c : Id .classes) (link : DeclId) (f : ClassBody → ClassBody) :
    Program Reply := do
  look (·.checkId link)
  look fun d =>
    if c.index < (d.arena .classes).size then .ok () else .error (.unknownId c.decl)
  change fun d => (.done, d.changed c f)

def setReturnIn (function : Id .functions) (type : TypeId) (qualifier : Qualifier) :
    Program (Id .fields) := do
  look (·.checkId function.decl)
  look fun d =>
    if (((d.arena .functions)[function.index]?).bind Record.returnField?).isSome then
      .error (.returnAlreadySet function.raw)
    else .ok ()
  let field ← addFieldIn (.text "return") function.decl (some type) qualifier (-1)
  change fun d =>
    (field, d.changed function fun body : FunctionBody => { body with returnField := some field })

/-- Makes a call in place, one step after another. -/
def perform : Call → Program Reply
  | .addNamespace name parent =>
    return .added (← addDeclIn .nameSpace name parent ({} : NamespaceBody)).raw
  | .addType name parent size =>
    return .added (← addDeclIn .type name parent ({ size } : TypeBody)).raw
  | .addEnum name parent size =>
    return .added (← addDeclIn .enum name parent ({ size } : EnumBody)).raw
  | .addEnumConstant name parent value =>
    return .added (← addDeclIn .enumConstant name parent ({ value } : EnumConstantBody)).raw
  | .addClass name parent size =>
    return .added (← addDeclIn .classType name parent ({ size } : ClassBody)).raw
  | .addField name parent type qualifier offset =>
    return .added (← addFieldIn name parent type qualifier offset).raw
  | .addParameter name function type qualifier place =>
    return .added (← addFieldIn name function.decl type qualifier place).raw
  | .addFunction name parent address uid =>
    return .added (← addDeclIn .function name parent ({ address, uid } : FunctionBody)).raw
  | .addTemplate name parent => do
    look (·.checkProfile (.decl .template))
    return .added (← addDeclIn .template name parent ({} : TemplateBody)).raw
  | .addTemplateType name template size arguments =>
    return .added (← addTemplateTypeIn name template size arguments).raw
  | .addAttribute name owner value => return .added (← addAttributeIn name owner value).raw
  | .setBase c base => changeClassIn c base.decl ({ · with base := some base })
  | .setConstructor c function =>
    changeClassIn c function.decl ({ · with constructor := some function })
  | .setDestructor c function =>
    changeClassIn c function.decl ({ · with destructor := some function })
  | .setReturn function type qualifier => return .added (← setReturnIn function type qualifier).raw
  | .internName name => return .name (← internNameIn name)

/-! ## Each call as a whole -/

open Program (Atomic atomic_pure atomic_change on_look_ok on_look_error on_bind_ok on_bind_error
  on_change)

theorem atomic_internTextIn (table : Draft → TextTable) (put : Draft → TextTable → Draft)
    (hself : ∀ d, put d (table d) = d) (htable : ∀ d t, table (put d t) = t)
    (hput : ∀ d t t', put (put d t) t' = put d t') (what text : String) :
    (internTextIn table put what text).Atomic fun d =>
      ((table d).intern what text).map fun r => (r.1, put d r.2) := by
  have hon (d : Draft) : (internTextIn table put what text).on d =
      match (table d).intern what text with
      | .ok r => (.ok r.1, put d r.2)
      | .error e => (.error e, d) := by
    rw [internTextIn, on_look_ok (a := table d) _ rfl, TextTable.intern]
    cases hlookup : (table d).spans.lookup text with
    | some span => exact congrArg (Except.ok span, ·) (hself d).symm
    | none =>
      dsimp only
      by_cases hfits : (table d).blob.utf8ByteSize + text.utf8ByteSize < UInt32.size
      · rw [on_look_ok (a := ()) _ (if_pos hfits), if_pos hfits, on_bind_ok _ (on_change _)]
        show (Except.ok _, put (put d _) { table (put d _) with spans := _ }) = _
        rw [htable, hput]
      · rw [on_look_error _ (if_neg hfits), if_neg hfits]
  constructor
  · intro d d' span h
    obtain ⟨⟨_, t⟩, hintern, heq⟩ := map_eq_ok_iff.mp h
    obtain ⟨rfl, rfl⟩ := Prod.mk.inj heq
    rw [hon, hintern]
  · intro d e h
    cases hintern : (table d).intern what text with
    | ok r =>
      rw [hintern] at h
      cases h
    | error e' =>
      rw [hintern] at h
      obtain rfl := Except.error.inj h
      rw [hon, hintern]

theorem atomic_internNameIn (name : NameInput) :
    (internNameIn name).Atomic (·.internName name) := by
  by_cases hempty : (name.hash == 0 && name.string.isEmpty) = true
  · rw [internNameIn, if_pos hempty]
    refine (atomic_pure _).congr fun d => ?_
    rw [internName, NameTable.intern, if_pos hempty]
    rfl
  · rw [internNameIn, if_neg hempty]
    have htexts := atomic_internTextIn (·.names.texts)
      (fun d texts => { d with names := { d.names with texts } }) (fun _ => rfl) (fun _ _ => rfl)
      (fun _ _ _ => rfl) "name bytes" name.string
    refine htexts.bind_change.congr fun d => ?_
    rw [internName, NameTable.intern, if_neg hempty]
    cases d.names.texts.intern "name bytes" name.string <;> rfl

theorem atomic_internValueIn (value : ValueInput) :
    (internValueIn value).Atomic (·.internValue value) := by
  cases value with
  | name name =>
    refine ((atomic_internNameIn name).bind_pure _).congr fun d => ?_
    show _ = (d.internName name >>= fun r => pure (AttributeValue.name r.1, r.2))
    cases d.internName name <;> rfl
  | text text =>
    have htexts := atomic_internTextIn (·.texts) (fun d texts => { d with texts })
      (fun _ => rfl) (fun _ _ => rfl) (fun _ _ _ => rfl) "attribute text bytes" text
    refine (htexts.bind_pure _).congr fun d => ?_
    rw [internValue]
    cases d.texts.intern "attribute text bytes" text <;> rfl
  | _ => exact atomic_pure _

theorem atomic_declareIn {k : DeclKind} {body : Draft → Body (.decl k)}
    (hbody : ∀ d names, body { d with names } = body d) (name : NameInput) (parent : DeclId) :
    (declareIn k name parent body).Atomic fun d => d.pushDecl k name parent (body d) := by
  refine (atomic_internNameIn name).bind_change.congr fun d => ?_
  rw [pushDecl, internName]
  cases d.names.intern name with
  | error e => rfl
  | ok r =>
    show Except.ok (push _ _) = Except.ok (push _ _)
    rw [hbody]

theorem atomic_addDeclIn (k : DeclKind) (name : NameInput) (parent : DeclId)
    (body : Body (.decl k)) :
    (addDeclIn k name parent body).Atomic (·.addDecl k name parent body) :=
  Atomic.look_bind fun _ => atomic_declareIn (fun _ _ => rfl) name parent

theorem atomic_addFieldIn (name : NameInput) (parent : DeclId) (type : Option TypeId)
    (qualifier : Qualifier) (offset : Int32) :
    (addFieldIn name parent type qualifier offset).Atomic
      (·.addField name parent type qualifier offset) :=
  Atomic.look_bind fun _ => Atomic.look_bind fun _ => atomic_declareIn (fun _ _ => rfl) name parent

theorem atomic_addTemplateTypeIn (name : NameInput) (template : Id .templates) (size : UInt32)
    (arguments : List (TypeId × Bool)) :
    (addTemplateTypeIn name template size arguments).Atomic
      (·.addTemplateType name template size arguments) := by
  refine (Atomic.look_bind fun _ => Atomic.look_bind fun _ => Atomic.look_bind fun _ =>
    Atomic.look_bind fun _ =>
      atomic_declareIn (fun _ _ => rfl) name template.decl).congr fun d => ?_
  rw [addTemplateType]
  by_cases hcount : maxTemplateArgs < arguments.length
  · rw [if_pos hcount, if_pos hcount]
    rfl
  · rw [if_neg hcount, if_neg hcount]
    rfl

theorem atomic_changeClassIn (c : Id .classes) (link : DeclId) (f : ClassBody → ClassBody) :
    (changeClassIn c link f).Atomic fun d =>
      (d.checkId link >>= fun _ => d.changeClass c f).map (.done, ·) := by
  refine (Atomic.look_bind fun _ => Atomic.look_bind fun _ => atomic_change _).congr fun d => ?_
  rw [changeClass]
  cases d.checkId link with
  | error e => rfl
  | ok _ =>
    by_cases hc : c.index < (d.arena .classes).size
    · rw [if_pos hc, if_pos hc]
      rfl
    · rw [if_neg hc, if_neg hc]
      rfl

theorem checkId_eq_error {d : Draft} {id : DeclId} (hroot : id ≠ .root)
    (h : (d.arena id.arena).size ≤ id.index) : d.checkId id = .error (.unknownId id) := by
  refine if_neg fun hknown => ?_
  rcases checkId_eq_ok_iff.mp (if_pos hknown) with hid | hid
  · exact hroot hid
  · exact absurd hid (Nat.not_lt.mpr h)

theorem atomic_setReturnIn (function : Id .functions) (type : TypeId) (qualifier : Qualifier) :
    (setReturnIn function type qualifier).Atomic (·.setReturn function type qualifier) := by
  have hfield := atomic_addFieldIn (.text "return") function.decl (some type) qualifier (-1)
  refine (Atomic.look_bind fun _ => Atomic.look_bind fun _ =>
    hfield.bind_change).congr fun d => ?_
  rw [setReturn]
  cases hfunction : (d.arena .functions)[function.index]? with
  | none =>
    have hunknown : d.checkId function.decl = .error (.unknownId function.decl) :=
      checkId_eq_error (DeclId.decl_ne_root function (by decide))
        (Array.getElem?_eq_none_iff.mp hfunction)
    rw [hunknown]
    rfl
  | some r =>
    have hknown : d.checkId function.decl = .ok () :=
      checkId_eq_ok_iff.mpr (.inr (Array.getElem?_eq_some_iff.mp hfunction).1)
    rw [hknown, Option.bind_some]
    by_cases hset : r.returnField?.isSome
    · rw [if_pos hset]
      exact (if_pos hset).symm
    · rw [if_neg hset]
      refine Eq.trans ?_ (if_neg hset).symm
      cases d.addField (.text "return") function.decl (some type) qualifier (-1) <;> rfl

/-- Where no value is interned after a name, a call is atomic. -/
theorem atomic_perform {c : Call} (hc : c.arena? ≠ some .attributes) :
    (perform c).Atomic (·.call c) := by
  cases c with
  | addAttribute => exact absurd rfl hc
  | addTemplate name parent =>
    refine (Atomic.look_bind fun _ => (atomic_addDeclIn _ _ _ _).bind_pure _).congr fun d => ?_
    rw [call, addTemplate]
    cases d.checkProfile (.decl .template) <;> rfl
  | setBase c base => exact atomic_changeClassIn c base.decl _
  | setConstructor c function => exact atomic_changeClassIn c function.decl _
  | setDestructor c function => exact atomic_changeClassIn c function.decl _
  | setReturn function type qualifier =>
    exact (atomic_setReturnIn function type qualifier).bind_pure _
  | internName name => exact (atomic_internNameIn name).bind_pure _
  | addField name parent type qualifier offset =>
    exact (atomic_addFieldIn name parent type qualifier offset).bind_pure _
  | addParameter name function type qualifier place =>
    exact (atomic_addFieldIn name function.decl type qualifier place).bind_pure _
  | addTemplateType name template size arguments =>
    exact (atomic_addTemplateTypeIn name template size arguments).bind_pure _
  | _ => exact (atomic_addDeclIn _ _ _ _).bind_pure _

theorem atomic_nameAttributeIn (kind : AttributeKind) (name : NameInput) (owner : DeclId) :
    (nameAttributeIn kind name owner).Atomic (·.nameAttribute kind name owner) :=
  Atomic.look_bind fun _ => Atomic.look_bind fun _ => atomic_internNameIn name

/-- The one call that interns twice.  Its name stays where its value finds no room. -/
theorem on_addAttribute (name : NameInput) (owner : DeclId) (value : ValueInput) (d : Draft) :
    (perform (.addAttribute name owner value)).on d = d.step (.addAttribute name owner value) := by
  have hname := atomic_nameAttributeIn value.kind name owner
  have hvalue := atomic_internValueIn value
  rw [step]
  cases hnamed : d.nameAttribute value.kind name owner with
  | error e =>
    have hcall : d.call (.addAttribute name owner value) = .error e :=
      congrArg (Except.map Reply.ofAdded) (bind_eq_error hnamed)
    rw [hcall, refused, hnamed]
    exact on_bind_error _ (on_bind_error _ (hname.error hnamed))
  | ok named =>
    obtain ⟨span, d₁⟩ := named
    cases hinterned : d₁.internValue value with
    | error e =>
      have hcall : d.call (.addAttribute name owner value) = .error e :=
        congrArg (Except.map Reply.ofAdded) (bind_eq_error_of_ok hnamed (bind_eq_error hinterned))
      rw [hcall, refused, hnamed]
      exact on_bind_error _ ((on_bind_ok _ (hname.ok hnamed)).trans
        (on_bind_error _ (hvalue.error hinterned)))
    | ok interned =>
      obtain ⟨body, d₂⟩ := interned
      let r : Record .attributes := ⟨⟨.attr value.kind, span, some owner⟩, body⟩
      have hadded : d.addAttribute name owner value = .ok (d₂.push r) :=
        bind_eq_ok_iff.mpr ⟨_, hnamed, bind_eq_ok_iff.mpr ⟨_, hinterned, rfl⟩⟩
      have hcall : d.call (.addAttribute name owner value) =
          .ok (.added (d₂.push r).1.raw, (d₂.push r).2) :=
        congrArg (Except.map Reply.ofAdded) hadded
      rw [hcall]
      exact on_bind_ok _ ((on_bind_ok _ (hname.ok hnamed)).trans
        (on_bind_ok _ (hvalue.ok hinterned)))

/-- Changing a draft in place as a call goes along comes to what the call is said to do. -/
theorem on_perform (c : Call) (d : Draft) : (perform c).on d = d.step c := by
  by_cases hc : c.arena? = some .attributes
  · obtain ⟨name, owner, value, rfl⟩ : ∃ name owner value, c = .addAttribute name owner value := by
      cases c <;> first | exact ⟨_, _, _, rfl⟩ | cases hc
    exact on_addAttribute name owner value d
  · rw [step]
    have hatomic := atomic_perform hc
    cases hcall : d.call c with
    | ok answer => exact hatomic.ok hcall
    | error e =>
      have hleft : d.refused c = d := by
        cases c with
        | addAttribute => exact absurd rfl hc
        | _ => rfl
      rw [hleft]
      exact hatomic.error hcall

end Draft
end TypeAtlas
