/-
What an accepted call does.

A call interns a name, adds a record, changes the body of a class, or adds a
return value to a function.  `Effect` says all there is to know of each: what was
checked, what the new record is, and which body has changed.  Invariants are
proved from it and never from the calls themselves.
-/
import TypeAtlas.Proofs.Draft.Intern
import TypeAtlas.Proofs.Draft.Log

namespace TypeAtlas
namespace Draft

open Check (bind_eq_ok_iff map_eq_ok_iff then_eq_ok_iff forM_eq_ok_iff)

variable {d d' : Draft}

/-! ## Checks -/

theorem checkId_eq_ok_iff {e : DeclId} : d.checkId e = .ok () ↔ d.raw.Knows e := by
  have hknows : d.raw.Knows e ↔
      (e.isRoot || decide (e.index < (d.arena e.arena).size)) = true := by
    rw [Bool.or_eq_true, decide_eq_true_eq, Image.isRoot_iff]
    rfl
  unfold checkId
  rw [hknows]
  split <;> simp_all

theorem checkParent_eq_ok_iff {child : Kind} {parent : DeclId} :
    d.checkParent child parent = .ok () ↔
      d.raw.Knows parent ∧ child.allowsParent (.decl parent.kind) = true := by
  unfold checkParent
  rw [then_eq_ok_iff, checkId_eq_ok_iff]
  split <;> simp_all

theorem checkProfile_eq_ok_iff {kind : Kind} :
    d.checkProfile kind = .ok () ↔ d.profile.allows kind = true := by
  unfold checkProfile
  split <;> simp_all

/-- A type is never the root namespace, so one that is known is there. -/
theorem holds_of_checkId_type {t : TypeId} (h : d.checkId t.decl = .ok ()) :
    d.raw.Holds t.decl.id :=
  (checkId_eq_ok_iff.mp h).resolve_left (Image.type_ne_root t)

theorem holds_of_checkId {k : DeclKind} {id : Id (.decl k)} (hk : k ≠ .nameSpace)
    (h : d.checkId id.decl = .ok ()) : d.raw.Holds id :=
  (checkId_eq_ok_iff.mp h).resolve_left (DeclId.decl_ne_root id hk)

/-- Templates and their instances apart, every profile allows declarations. -/
theorem allows_decl (p : Profile) {k : DeclKind} (hk : k ≠ .template) (hk' : k ≠ .templateType) :
    p.allows (.decl k) = true := by
  cases p <;> cases k <;> first | rfl | contradiction

theorem exists_of_ofAdded {a : Arena} {x : Except DraftFault (Id a × Draft)} {reply : Reply}
    (h : x.map Reply.ofAdded = .ok (reply, d')) :
    ∃ id, x = .ok (id, d') ∧ .added id.raw = reply := by
  obtain ⟨⟨id, _⟩, hx, heq⟩ := map_eq_ok_iff.mp h
  obtain ⟨rfl, rfl⟩ := Prod.mk.inj heq
  exact ⟨id, hx, rfl⟩

theorem done_of_map {x : Except DraftFault Draft} {reply : Reply}
    (h : x.map (Reply.done, ·) = .ok (reply, d')) : x = .ok d' ∧ .done = reply := by
  obtain ⟨_, hx, heq⟩ := map_eq_ok_iff.mp h
  obtain ⟨rfl, rfl⟩ := Prod.mk.inj heq
  exact ⟨hx, rfl⟩

/-! ## Pushing and changing -/

/-- The body of a declaration is replaced.  Its header stays. -/
def changed (d : Draft) {k : DeclKind} (id : Id (.decl k)) (f : Body (.decl k) → Body (.decl k)) :
    Draft :=
  { d with
    records := d.records.modify (.decl k)
      (·.modify id.index fun r : Record (.decl k) => { r with body := f r.body }) }

theorem push_arena_self {a : Arena} (r : Record a) :
    (d.push r).2.arena a = (d.arena a).push r :=
  PerArena.get_modify_self _ _ _

theorem push_arena_of_ne {a b : Arena} (h : b ≠ a) (r : Record a) :
    (d.push r).2.arena b = d.arena b :=
  PerArena.get_modify_of_ne _ h _

theorem changed_arena_of_ne {k : DeclKind} {id : Id (.decl k)}
    {f : Body (.decl k) → Body (.decl k)} {b : Arena} (h : b ≠ .decl k) :
    (d.changed id f).arena b = d.arena b :=
  PerArena.get_modify_of_ne _ h _

theorem changed_getElem? {k : DeclKind} {id : Id (.decl k)}
    {f : Body (.decl k) → Body (.decl k)} (i : Nat) :
    ((d.changed id f).arena (.decl k))[i]? =
      ((d.arena (.decl k))[i]?).map fun r =>
        if id.index = i then { r with body := f r.body } else r := by
  have harena : (d.changed id f).arena (.decl k) =
      (d.arena (.decl k)).modify id.index fun r => { r with body := f r.body } :=
    PerArena.get_modify_self _ _ _
  rw [harena, Array.getElem?_modify]
  by_cases h : id.index = i
  · simp only [if_pos h]
  · simp only [if_neg h]
    exact Option.map_id'.symm

theorem push_getElem? {a b : Arena} {r : Record a} {s : Record b} {i : Nat}
    (hs : (d.arena b)[i]? = some s) : ((d.push r).2.arena b)[i]? = some s := by
  by_cases hb : b = a
  · subst hb
    have hi := (Array.getElem?_eq_some_iff.mp hs).1
    rw [push_arena_self, Array.getElem?_push, if_neg (Nat.ne_of_lt hi)]
    exact hs
  · rw [push_arena_of_ne hb]
    exact hs

theorem grows_push {a : Arena} (d : Draft) (r : Record a) : d.Grows (d.push r).2 where
  nameBlob := ⟨"", by simp [push]⟩
  textBlob := ⟨"", by simp [push]⟩
  headers _ _ s hs := ⟨s, push_getElem? hs, rfl⟩

theorem grows_changed {k : DeclKind} (d : Draft) (id : Id (.decl k))
    (f : Body (.decl k) → Body (.decl k)) : d.Grows (d.changed id f) where
  nameBlob := ⟨"", by simp [changed]⟩
  textBlob := ⟨"", by simp [changed]⟩
  headers b i s hs := by
    by_cases hb : b = .decl k
    · subst hb
      refine ⟨_, by rw [changed_getElem?, hs]; rfl, ?_⟩
      dsimp only
      split <;> rfl
    · exact ⟨s, by rw [changed_arena_of_ne hb]; exact hs, rfl⟩

/-! ## Effects -/

/-- The body that an entry is given.  A field takes over the unique id of the
function it belongs to. -/
def Entry.filled (d : Draft) : {k : DeclKind} → Entry (.decl k) → Body (.decl k)
  | .field, e => { (e.content : FieldBody) with functionUid := d.functionUid e.parent }
  | .type, e => e.content
  | .enumConstant, e => e.content
  | .enum, e => e.content
  | .function, e => e.content
  | .templateType, e => e.content
  | .template, e => e.content
  | .classType, e => e.content
  | .nameSpace, e => e.content

def Entry.Fills (d d₁ : Draft) : {a : Arena} → Entry a → Record a → Prop
  | .attributes, e, r => ValueInput.StoredAs d₁.raw e.content r.body
  | .decl _, e, r => r.body = e.filled d

/-- The texts of an entry have been interned, its name first. -/
def Entry.Interned (d d₁ : Draft) : {a : Arena} → Entry a → Record a → Prop
  | .attributes, e, r => ∃ d₀, d.internName e.name = .ok (r.name, d₀) ∧
    d₀.internValue e.content = .ok (r.body, d₁)
  | .decl _, e, r => d.internName e.name = .ok (r.name, d₁)

/-- A record that can be pushed for an entry, once its texts are interned. -/
structure Takes (d d₁ : Draft) {a : Arena} (e : Entry a) (r : Record a) : Prop where
  interns : d.Interns d₁
  kind : r.kind = r.expectedKind
  name : e.name.StoredAs d₁.names.texts.blob r.name
  parent : r.parent = some e.parent
  owner : d.raw.Knows e.parent
  allowsOwner : r.kind.allowsParent (.decl e.parent.kind) = true
  allowed : d.profile.allows r.kind = true
  links : ∀ l ∈ r.links, d.raw.Holds l.id
  returnField : r.returnField? = none
  fills : e.Fills d d₁ r
  interned : e.Interned d d₁ r

inductive Effect (d : Draft) : Call → Reply → Draft → Prop
  | interned {name : NameInput} {n : NameSpan} {d₁ : Draft} (h : d.Interns d₁)
      (hintern : d.internName name = .ok (n, d₁)) :
    Effect d (.internName name) (.name n) d₁
  | added {c : Call} {a : Arena} {e : Entry a} {d₁ : Draft} {r : Record a}
      (hentry : c.entry a = some e) (htarget : c.target? = none) (h : d.Takes d₁ e r) :
    Effect d c (.added (.ofNat (d.arena a).size)) (d₁.push r).2
  | base {c base : Id .classes} (hc : d.raw.Holds c) (hbase : d.raw.Holds base) :
    Effect d (.setBase c base) .done
      (d.changed c fun body : ClassBody => { body with base := some base })
  | constructor {c : Id .classes} {function : Id .functions} (hc : d.raw.Holds c)
      (hfunction : d.raw.Holds function) :
    Effect d (.setConstructor c function) .done
      (d.changed c fun body : ClassBody => { body with constructor := some function })
  | destructor {c : Id .classes} {function : Id .functions} (hc : d.raw.Holds c)
      (hfunction : d.raw.Holds function) :
    Effect d (.setDestructor c function) .done
      (d.changed c fun body : ClassBody => { body with destructor := some function })
  | returned {function : Id .functions} {type : TypeId} {qualifier : Qualifier} {f : Record .functions}
      {e : Entry .fields} {d₁ : Draft} {r : Record .fields}
      (hfunction : (d.arena .functions)[function.index]? = some f)
      (hunset : f.returnField? = none)
      (hentry : (Call.setReturn function type qualifier).entry .fields = some e)
      (h : d.Takes d₁ e r) :
    Effect d (.setReturn function type qualifier) (.added (.ofNat (d.arena .fields).size))
      ((d₁.push r).2.changed function fun body : FunctionBody =>
        { body with returnField := some (.ofIndex (d.arena .fields).size) })

/-! ## Every call -/

theorem takes_of_pushDecl (hd : d.TextsSound) {k : DeclKind} {e : Entry (.decl k)}
    {id : Id (.decl k)} (howner : d.raw.Knows e.parent)
    (hallows : (Kind.decl k).allowsParent (.decl e.parent.kind) = true)
    (hallowed : d.profile.allows (.decl k) = true)
    (hlinks : ∀ l ∈ Body.links (e.filled d), d.raw.Holds l.id)
    (hreturn : ∀ header, (⟨header, e.filled d⟩ : Record (.decl k)).returnField? = none)
    (h : d.pushDecl k e.name e.parent (e.filled d) = .ok (id, d')) :
    id = .ofIndex (d.arena (.decl k)).size ∧ ∃ d₁ r, d.Takes d₁ e r ∧ d' = (d₁.push r).2 := by
  obtain ⟨⟨span, d₁⟩, hintern, h⟩ := bind_eq_ok_iff.mp h
  obtain ⟨rfl, rfl⟩ := Prod.mk.inj (Except.ok.inj h)
  obtain ⟨hinterns, hname⟩ := internName_spec hd hintern
  refine ⟨?_, d₁, _, ?_, rfl⟩
  · exact congrArg Id.ofIndex (congrArg Array.size (hinterns.arena_eq _))
  · exact ⟨hinterns, rfl, hname, rfl, howner, hallows, hallowed, hlinks, hreturn _, rfl, hintern⟩

theorem effect_of_addDecl (hd : d.TextsSound) {c : Call} {k : DeclKind} {e : Entry (.decl k)}
    {reply : Reply} (hentry : c.entry (.decl k) = some e) (htarget : c.target? = none)
    (hallowed : d.profile.allows (.decl k) = true) (hlinks : Body.links (e.filled d) = [])
    (hreturn : ∀ header, (⟨header, e.filled d⟩ : Record (.decl k)).returnField? = none)
    (h : (d.addDecl k e.name e.parent (e.filled d)).map Reply.ofAdded = .ok (reply, d')) :
    Effect d c reply d' := by
  obtain ⟨id, hadd, rfl⟩ := exists_of_ofAdded h
  obtain ⟨hparent, hpush⟩ := then_eq_ok_iff.mp hadd
  obtain ⟨howner, hallows⟩ := checkParent_eq_ok_iff.mp hparent
  have hnone : ∀ l ∈ Body.links (e.filled d), d.raw.Holds l.id := by
    rw [hlinks]
    exact fun _ hl => absurd hl List.not_mem_nil
  obtain ⟨rfl, d₁, r, htakes, rfl⟩ :=
    takes_of_pushDecl hd howner hallows hallowed hnone hreturn hpush
  exact .added hentry htarget htakes

theorem takes_of_addField (hd : d.TextsSound) {name : NameInput} {parent : DeclId}
    {type : Option TypeId} {qualifier : Qualifier} {offset : Int32} {id : Id .fields}
    (h : d.addField name parent type qualifier offset = .ok (id, d')) :
    let e : Entry .fields := ⟨name, parent, ({ type, qualifier, offset } : FieldBody)⟩
    id = .ofIndex (d.arena .fields).size ∧ ∃ d₁ r, d.Takes d₁ e r ∧ d' = (d₁.push r).2 := by
  intro e
  obtain ⟨hparent, h⟩ := then_eq_ok_iff.mp h
  obtain ⟨htype, hpush⟩ := then_eq_ok_iff.mp h
  obtain ⟨howner, hallows⟩ := checkParent_eq_ok_iff.mp hparent
  have hallowed := allows_decl d.profile (k := .field) (by decide) (by decide)
  have hlinks : ∀ l ∈ Body.links (e.filled d), d.raw.Holds l.id := by
    intro l hl
    obtain ⟨t, rfl, rfl⟩ := FieldBody.mem_links.mp hl
    exact holds_of_checkId_type htype
  exact takes_of_pushDecl hd howner hallows hallowed hlinks (fun _ => rfl) hpush

theorem effect_of_addTemplateType (hd : d.TextsSound) {name : NameInput}
    {template : Id .templates} {size : UInt32} {arguments : List (TypeId × Bool)}
    {id : Id .templateTypes} (h : d.addTemplateType name template size arguments = .ok (id, d')) :
    Effect d (.addTemplateType name template size arguments) (.added id.raw) d' := by
  obtain ⟨hprofile, h⟩ := then_eq_ok_iff.mp h
  obtain ⟨hparent, h⟩ := then_eq_ok_iff.mp h
  obtain ⟨howner, hallows⟩ := checkParent_eq_ok_iff.mp hparent
  by_cases hcount : maxTemplateArgs < arguments.length
  · rw [if_pos hcount] at h
    cases h
  · rw [if_neg hcount] at h
    obtain ⟨harguments, hpush⟩ := then_eq_ok_iff.mp h
    let e : Entry .templateTypes := ⟨name, template.decl, ({
      size
      types := Vector.ofFn fun i => (arguments[i.val]?).map (·.1)
      pointers := Vector.ofFn fun i => ((arguments[i.val]?).map (·.2)).getD false } :
      TemplateTypeBody)⟩
    have hlinks : ∀ l ∈ Body.links (e.filled d), d.raw.Holds l.id := by
      intro l hl
      obtain ⟨t, ht, rfl⟩ := TemplateTypeBody.mem_links.mp hl
      obtain ⟨i, hi⟩ := Vector.mem_ofFn.mp ht
      obtain ⟨arg, harg, rfl⟩ := Option.map_eq_some_iff.mp hi
      exact holds_of_checkId_type (forM_eq_ok_iff.mp harguments arg (List.mem_of_getElem? harg))
    obtain ⟨rfl, d₁, r, htakes, rfl⟩ := takes_of_pushDecl hd howner hallows
      (checkProfile_eq_ok_iff.mp hprofile) hlinks (fun _ => rfl) hpush
    exact .added rfl rfl htakes

theorem effect_of_addAttribute (hd : d.TextsSound) {name : NameInput} {owner : DeclId}
    {value : ValueInput} {id : Id .attributes} (h : d.addAttribute name owner value = .ok (id, d')) :
    Effect d (.addAttribute name owner value) (.added id.raw) d' := by
  obtain ⟨⟨span, d₁⟩, hnamed, h⟩ := bind_eq_ok_iff.mp h
  obtain ⟨⟨body, d₂⟩, hvalue, h⟩ := bind_eq_ok_iff.mp h
  obtain ⟨rfl, rfl⟩ := Prod.mk.inj (Except.ok.inj h)
  obtain ⟨hprofile, hnamed⟩ := then_eq_ok_iff.mp hnamed
  obtain ⟨hparent, hname⟩ := then_eq_ok_iff.mp hnamed
  obtain ⟨howner, hallows⟩ := checkParent_eq_ok_iff.mp hparent
  obtain ⟨hinterns₁, hstored⟩ := internName_spec hd hname
  obtain ⟨hinterns₂, hbody⟩ := internValue_spec hinterns₁.toTextsSound hvalue
  have hinterns := hinterns₁.trans hinterns₂
  have htakes : d.Takes d₂ (⟨name, owner, value⟩ : Entry .attributes)
      ⟨⟨.attr value.kind, span, some owner⟩, body⟩ := by
    refine ⟨hinterns, ?_, ⟨hstored.1, hinterns₂.grows.resolve_name hstored.2⟩, rfl, howner, hallows,
      checkProfile_eq_ok_iff.mp hprofile, fun _ hl => absurd hl List.not_mem_nil, rfl, hbody,
      d₁, hname, hvalue⟩
    exact congrArg Kind.attr (ValueInput.kind_of_storedAs hbody).symm
  have hsize : (d₂.arena .attributes).size = (d.arena .attributes).size :=
    congrArg Array.size (hinterns.arena_eq _)
  rw [hsize]
  exact .added rfl rfl htakes

theorem changeClass_eq_ok_iff {c : Id .classes} {f : ClassBody → ClassBody} :
    d.changeClass c f = .ok d' ↔ d.raw.Holds c ∧ d.changed c f = d' := by
  unfold changeClass
  show _ ↔ c.index < (d.arena .classes).size ∧ _
  by_cases hc : c.index < (d.arena .classes).size
  · rw [if_pos hc]
    exact ⟨fun h => ⟨hc, Except.ok.inj h⟩, fun h => congrArg Except.ok h.2⟩
  · rw [if_neg hc]
    simp [hc]

theorem effect_of_setReturn (hd : d.TextsSound) {function : Id .functions} {type : TypeId}
    {qualifier : Qualifier} {id : Id .fields}
    (h : d.setReturn function type qualifier = .ok (id, d')) :
    Effect d (.setReturn function type qualifier) (.added id.raw) d' := by
  unfold setReturn at h
  cases hfunction : (d.arena .functions)[function.index]? with
  | none =>
    rw [hfunction] at h
    cases h
  | some f =>
    rw [hfunction] at h
    dsimp only at h
    by_cases hset : (FunctionBody.returnField f.body).isSome
    · rw [if_pos hset] at h
      cases h
    · rw [if_neg hset] at h
      obtain ⟨⟨field, d₁⟩, hadd, h⟩ := bind_eq_ok_iff.mp h
      obtain ⟨rfl, rfl⟩ := Prod.mk.inj (Except.ok.inj h)
      obtain ⟨rfl, d₂, r, htakes, rfl⟩ := takes_of_addField hd hadd
      exact .returned hfunction (Option.not_isSome_iff_eq_none.mp hset) rfl htakes

theorem effect_of_call (hd : d.TextsSound) {c : Call} {reply : Reply}
    (h : d.call c = .ok (reply, d')) : Effect d c reply d' := by
  cases c with
  | addNamespace name parent =>
    exact effect_of_addDecl hd (k := .nameSpace)
      (e := ⟨name, parent, ({} : NamespaceBody)⟩) rfl rfl
      (allows_decl _ (by decide) (by decide)) rfl (fun _ => rfl) h
  | addType name parent size =>
    exact effect_of_addDecl hd (k := .type)
      (e := ⟨name, parent, ({ size } : TypeBody)⟩) rfl rfl
      (allows_decl _ (by decide) (by decide)) rfl (fun _ => rfl) h
  | addEnum name parent size =>
    exact effect_of_addDecl hd (k := .enum)
      (e := ⟨name, parent, ({ size } : EnumBody)⟩) rfl rfl
      (allows_decl _ (by decide) (by decide)) rfl (fun _ => rfl) h
  | addEnumConstant name parent value =>
    exact effect_of_addDecl hd (k := .enumConstant)
      (e := ⟨name, parent, ({ value } : EnumConstantBody)⟩) rfl rfl
      (allows_decl _ (by decide) (by decide)) rfl (fun _ => rfl) h
  | addClass name parent size =>
    exact effect_of_addDecl hd (k := .classType)
      (e := ⟨name, parent, ({ size } : ClassBody)⟩) rfl rfl
      (allows_decl _ (by decide) (by decide)) rfl (fun _ => rfl) h
  | addFunction name parent address uid =>
    exact effect_of_addDecl hd (k := .function)
      (e := ⟨name, parent, ({ address, uid } : FunctionBody)⟩) rfl rfl
      (allows_decl _ (by decide) (by decide)) rfl (fun _ => rfl) h
  | addTemplate name parent =>
    obtain ⟨⟨id, d₁⟩, hadd, heq⟩ := map_eq_ok_iff.mp h
    obtain ⟨hprofile, hadd⟩ := then_eq_ok_iff.mp hadd
    exact effect_of_addDecl hd (k := .template)
      (e := ⟨name, parent, ({} : TemplateBody)⟩) rfl rfl
      (checkProfile_eq_ok_iff.mp hprofile) rfl (fun _ => rfl) (map_eq_ok_iff.mpr ⟨_, hadd, heq⟩)
  | addField name parent type qualifier offset =>
    obtain ⟨id, hadd, rfl⟩ := exists_of_ofAdded h
    obtain ⟨rfl, d₁, r, htakes, rfl⟩ := takes_of_addField hd hadd
    exact .added rfl rfl htakes
  | addParameter name function type qualifier place =>
    obtain ⟨id, hadd, rfl⟩ := exists_of_ofAdded h
    obtain ⟨rfl, d₁, r, htakes, rfl⟩ := takes_of_addField hd hadd
    exact .added rfl rfl htakes
  | addTemplateType name template size arguments =>
    obtain ⟨id, hadd, rfl⟩ := exists_of_ofAdded h
    exact effect_of_addTemplateType hd hadd
  | addAttribute name owner value =>
    obtain ⟨id, hadd, rfl⟩ := exists_of_ofAdded h
    exact effect_of_addAttribute hd hadd
  | setBase c base =>
    obtain ⟨hset, rfl⟩ := done_of_map h
    obtain ⟨hbase, hset⟩ := then_eq_ok_iff.mp hset
    obtain ⟨hc, rfl⟩ := changeClass_eq_ok_iff.mp hset
    exact .base hc (holds_of_checkId (by decide) hbase)
  | setConstructor c function =>
    obtain ⟨hset, rfl⟩ := done_of_map h
    obtain ⟨hfunction, hset⟩ := then_eq_ok_iff.mp hset
    obtain ⟨hc, rfl⟩ := changeClass_eq_ok_iff.mp hset
    exact .constructor hc (holds_of_checkId (by decide) hfunction)
  | setDestructor c function =>
    obtain ⟨hset, rfl⟩ := done_of_map h
    obtain ⟨hfunction, hset⟩ := then_eq_ok_iff.mp hset
    obtain ⟨hc, rfl⟩ := changeClass_eq_ok_iff.mp hset
    exact .destructor hc (holds_of_checkId (by decide) hfunction)
  | setReturn function type qualifier =>
    obtain ⟨id, hset, rfl⟩ := exists_of_ofAdded h
    exact effect_of_setReturn hd hset
  | internName name =>
    obtain ⟨⟨n, _⟩, hintern, heq⟩ := map_eq_ok_iff.mp h
    obtain ⟨rfl, rfl⟩ := Prod.mk.inj heq
    exact .interned (internName_spec hd hintern).1 hintern

theorem interns_refused (hd : d.TextsSound) (c : Call) : d.Interns (d.refused c) := by
  cases c with
  | addAttribute name owner value =>
    unfold refused
    dsimp only
    cases h : d.nameAttribute value.kind name owner with
    | error e => exact .refl hd
    | ok named =>
      obtain ⟨_, h⟩ := then_eq_ok_iff.mp h
      obtain ⟨_, hname⟩ := then_eq_ok_iff.mp h
      exact (internName_spec hd hname).1
  | _ => exact .refl hd

end Draft
end TypeAtlas
