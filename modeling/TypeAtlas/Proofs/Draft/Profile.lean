/-
What the profile of a draft decides.

Only calls that add an attribute, a template or an instance of a template ask for the
profile, and they ask for it before anything else.  All others do the same on a draft of
another profile, so a run on a reduced draft is the run of the calls that are left once
those are taken out.
-/
import TypeAtlas.Proofs.Draft.Run

namespace TypeAtlas
namespace Draft

open Check (bind_eq_error)

variable {d d' : Draft} {p : Profile}

/-- The draft under another profile. -/
def under (d : Draft) (p : Profile) : Draft := { d with profile := p }

namespace Call

/-- The kind that a call asks the profile for, if it does. -/
def restricted? : Call → Option Kind
  | addTemplate _ _ => some (.decl .template)
  | addTemplateType _ _ _ _ => some (.decl .templateType)
  | addAttribute _ _ value => some (.attr value.kind)
  | _ => none

/-- The calls that do not ask for the profile. -/
def unrestricted (calls : List Call) : List Call := calls.filter fun c => c.restricted?.isNone

variable {c : Call} {kind : Kind}

theorem reduced_not_allows (h : c.restricted? = some kind) :
    Profile.reduced.allows kind = false := by
  cases c <;> cases h <;> rfl

end Call

/-! ## Calls that ask for the profile -/

/-- A call for a kind that is not allowed is refused, whatever else is wrong with it. -/
theorem step_of_not_allows {c : Call} {kind : Kind} (hc : c.restricted? = some kind)
    (hkind : d.profile.allows kind = false) :
    d.step c = (.error (.profileViolation kind d.profile), d) := by
  have hprofile : d.checkProfile kind = .error (.profileViolation kind d.profile) := by
    rw [checkProfile, hkind]
    rfl
  cases c with
  | addTemplate name parent =>
    obtain rfl := Option.some.inj hc
    rw [step, call, addTemplate, bind_eq_error hprofile]
    rfl
  | addTemplateType name template size arguments =>
    obtain rfl := Option.some.inj hc
    rw [step, call, addTemplateType, bind_eq_error hprofile]
    rfl
  | addAttribute name owner value =>
    obtain rfl := Option.some.inj hc
    have hname : d.nameAttribute value.kind name owner = .error (.profileViolation _ d.profile) :=
      bind_eq_error hprofile
    rw [step, call, addAttribute, bind_eq_error hname]
    dsimp only [Except.map, refused]
    rw [hname]
  | _ => cases hc

/-! ## All other calls -/

/-- The draft of an answer under another profile. -/
def answerUnder {α : Type} (p : Profile) (x : Except DraftFault (α × Draft)) :
    Except DraftFault (α × Draft) := x.map fun answer => (answer.1, answer.2.under p)

theorem internName_under (name : NameInput) :
    (d.under p).internName name = answerUnder p (d.internName name) := by
  have hnames : (d.under p).names = d.names := rfl
  rw [internName, internName, hnames]
  cases d.names.intern name <;> rfl

theorem pushDecl_under (k : DeclKind) (name : NameInput) (parent : DeclId) (body : Body (.decl k)) :
    (d.under p).pushDecl k name parent body = answerUnder p (d.pushDecl k name parent body) := by
  rw [pushDecl, pushDecl, internName_under]
  cases d.internName name <;> rfl

theorem addDecl_under (k : DeclKind) (name : NameInput) (parent : DeclId) (body : Body (.decl k)) :
    (d.under p).addDecl k name parent body = answerUnder p (d.addDecl k name parent body) := by
  have hparent : (d.under p).checkParent (.decl k) parent = d.checkParent (.decl k) parent := rfl
  rw [addDecl, addDecl, hparent, pushDecl_under]
  cases d.checkParent (.decl k) parent <;> rfl

theorem addField_under (name : NameInput) (parent : DeclId) (type : Option TypeId)
    (qualifier : Qualifier) (offset : Int32) :
    (d.under p).addField name parent type qualifier offset =
      answerUnder p (d.addField name parent type qualifier offset) := by
  have hparent : (d.under p).checkParent (.decl .field) parent =
      d.checkParent (.decl .field) parent := rfl
  have htype : (type.forM fun t => (d.under p).checkId t.decl) =
      type.forM fun t => d.checkId t.decl := rfl
  have huid : (d.under p).functionUid parent = d.functionUid parent := rfl
  rw [addField, addField, hparent, htype]
  cases d.checkParent (.decl .field) parent with
  | error e => rfl
  | ok _ =>
    cases type.forM fun t => d.checkId t.decl with
    | error e => rfl
    | ok _ =>
      dsimp only [bind, Except.bind]
      rw [pushDecl_under, huid]

theorem changeClass_under (c : Id .classes) (f : ClassBody → ClassBody) :
    (d.under p).changeClass c f = (d.changeClass c f).map (·.under p) := by
  have harena : (d.under p).arena .classes = d.arena .classes := rfl
  rw [changeClass, changeClass, harena]
  split <;> rfl

/-- A change of a class once an id has been checked. -/
theorem change_under (id : DeclId) (c : Id .classes) (f : ClassBody → ClassBody) :
    (do (d.under p).checkId id; (d.under p).changeClass c f) =
      (do d.checkId id; d.changeClass c f : Except DraftFault Draft).map (·.under p) := by
  have hid : (d.under p).checkId id = d.checkId id := rfl
  rw [hid, changeClass_under]
  cases d.checkId id <;> rfl

theorem setReturn_under (function : Id .functions) (type : TypeId) (qualifier : Qualifier) :
    (d.under p).setReturn function type qualifier =
      answerUnder p (d.setReturn function type qualifier) := by
  have harena : (d.under p).arena .functions = d.arena .functions := rfl
  rw [setReturn, setReturn, harena]
  cases (d.arena .functions)[function.index]? with
  | none => rfl
  | some r =>
    dsimp only
    split
    · rfl
    · rw [addField_under]
      cases d.addField (.text "return") function.decl (some type) qualifier (-1) <;> rfl

/-- An addition answers the position of its record. -/
theorem ofAdded_under {a : Arena} {x y : Except DraftFault (Id a × Draft)}
    (h : x = answerUnder p y) :
    x.map Reply.ofAdded = answerUnder p (y.map Reply.ofAdded) := by
  rw [h]
  cases y <;> rfl

theorem done_under {x y : Except DraftFault Draft} (h : x = y.map (·.under p)) :
    x.map (Reply.done, ·) = answerUnder p (y.map (Reply.done, ·)) := by
  rw [h]
  cases y <;> rfl

theorem call_under {c : Call} (hc : c.restricted? = none) :
    (d.under p).call c = answerUnder p (d.call c) := by
  cases c with
  | addNamespace name parent => exact ofAdded_under (addDecl_under _ _ _ _)
  | addType name parent size => exact ofAdded_under (addDecl_under _ _ _ _)
  | addEnum name parent size => exact ofAdded_under (addDecl_under _ _ _ _)
  | addEnumConstant name parent value => exact ofAdded_under (addDecl_under _ _ _ _)
  | addClass name parent size => exact ofAdded_under (addDecl_under _ _ _ _)
  | addFunction name parent address uid => exact ofAdded_under (addDecl_under _ _ _ _)
  | addField name parent type qualifier offset => exact ofAdded_under (addField_under _ _ _ _ _)
  | addParameter name function type qualifier place =>
    exact ofAdded_under (addField_under _ _ _ _ _)
  | setReturn function type qualifier => exact ofAdded_under (setReturn_under _ _ _)
  | setBase c base => exact done_under (change_under _ _ _)
  | setConstructor c function => exact done_under (change_under _ _ _)
  | setDestructor c function => exact done_under (change_under _ _ _)
  | internName name =>
    rw [call, call, internName_under]
    cases d.internName name <;> rfl
  | addTemplate => cases hc
  | addTemplateType => cases hc
  | addAttribute => cases hc

theorem step_under {c : Call} (hc : c.restricted? = none) :
    (d.under p).step c = ((d.step c).1, (d.step c).2.under p) := by
  have hrefused : (d.under p).refused c = (d.refused c).under p := by
    cases c <;> first | rfl | cases hc
  rw [step, step, call_under hc]
  cases d.call c with
  | ok answer => rfl
  | error e => exact congrArg (Prod.mk _) hrefused

/-! ## Runs -/

theorem length_run (d : Draft) (calls : List Call) : (d.run calls).1.length = calls.length := by
  induction calls generalizing d with
  | nil => rfl
  | cons c calls ih => exact congrArg (· + 1) (ih _)

/-- A run on a reduced draft adds neither attributes nor templates nor their instances. -/
theorem FitsProfile.run (hd : d.TextsSound) (h : d.FitsProfile) (calls : List Call) :
    (d.run calls).2.FitsProfile := by
  induction calls generalizing d with
  | nil => exact h
  | cons c calls ih =>
    cases hcall : d.call c with
    | error e =>
      have hinterns := interns_refused hd c
      rw [run_cons_error hcall]
      exact ih hinterns.toTextsSound (h.interned hinterns)
    | ok answer =>
      obtain ⟨reply, d'⟩ := answer
      have heffect := effect_of_call hd hcall
      rw [run_cons_ok hcall]
      exact ih (heffect.textsSound hd) (heffect.fitsProfile h)

/-- A reduced draft stays reduced. -/
theorem exists_step_reduced (d : Draft) (c : Call) :
    ∃ d' : Draft, ((d.under .reduced).step c).2 = d'.under .reduced := by
  cases hc : c.restricted? with
  | some kind =>
    rw [step_of_not_allows hc (Call.reduced_not_allows hc)]
    exact ⟨d, rfl⟩
  | none =>
    rw [step_under hc]
    exact ⟨_, rfl⟩

theorem reply_of_restricted (d : Draft) (calls : List Call)
    {entry : Call × Except DraftFault Reply}
    (hentry : entry ∈ calls.zip ((d.under .reduced).run calls).1) {kind : Kind}
    (hc : entry.1.restricted? = some kind) :
    entry.2 = .error (.profileViolation kind .reduced) := by
  induction calls generalizing d with
  | nil => cases hentry
  | cons c calls ih =>
    obtain ⟨d', hd'⟩ := exists_step_reduced d c
    have hrun : ((d.under .reduced).run (c :: calls)).1 =
        ((d.under .reduced).step c).1 :: ((d'.under .reduced).run calls).1 := by
      rw [← hd']
      rfl
    rw [hrun, List.zip_cons_cons, List.mem_cons] at hentry
    rcases hentry with rfl | hentry
    · exact congrArg Prod.fst (step_of_not_allows hc (Call.reduced_not_allows hc))
    · exact ih d' hentry

/-- Replies to the calls that do not ask for the profile. -/
def unrestrictedReplies (calls : List Call) (replies : List (Except DraftFault Reply)) :
    List (Call × Except DraftFault Reply) :=
  (calls.zip replies).filter fun entry => entry.1.restricted?.isNone

theorem run_reduced (d : Draft) (calls : List Call) :
    ((d.under .reduced).run calls).2 = (d.run (Call.unrestricted calls)).2.under .reduced ∧
    unrestrictedReplies calls ((d.under .reduced).run calls).1 =
      (Call.unrestricted calls).zip (d.run (Call.unrestricted calls)).1 := by
  induction calls generalizing d with
  | nil => exact ⟨rfl, rfl⟩
  | cons c calls ih =>
    cases hc : c.restricted? with
    | some kind =>
      have hstep := step_of_not_allows (d := d.under .reduced) hc (Call.reduced_not_allows hc)
      have hrest : Call.unrestricted (c :: calls) = Call.unrestricted calls := by
        rw [Call.unrestricted, List.filter_cons_of_neg (by simp [hc])]
        rfl
      rw [hrest, run, hstep]
      refine ⟨(ih d).1, ?_⟩
      rw [← (ih d).2, unrestrictedReplies, List.zip_cons_cons,
        List.filter_cons_of_neg (by simp [hc])]
      rfl
    | none =>
      have hrest : Call.unrestricted (c :: calls) = c :: Call.unrestricted calls :=
        List.filter_cons_of_pos (by simp [hc])
      rw [hrest, run, run, step_under hc]
      refine ⟨(ih _).1, ?_⟩
      rw [List.zip_cons_cons, ← (ih _).2, unrestrictedReplies, List.zip_cons_cons,
        List.filter_cons_of_pos (by simp [hc])]
      rfl

end Draft
end TypeAtlas
