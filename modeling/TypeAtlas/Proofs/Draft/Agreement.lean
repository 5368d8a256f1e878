/-
A draft is what its log says.

`Agrees` compares a draft with the log of the calls that made it: every arena
holds the records that were added to it, in order, and the body of each is the one
that was given with the changes that came after.  Each call keeps the two together.
-/
import TypeAtlas.Proofs.Draft.Step

namespace TypeAtlas
namespace Draft

variable {d d' d₁ : Draft} {log : Log} {c : Call} {reply : Reply} {a : Arena}

/-! ## What a log says of a record -/

def Log.Describes (log : Log) (img : Image) : {a : Arena} → Nat → Entry a → Record a → Prop
  | .attributes, _, e, r => ValueInput.StoredAs img e.content r.body
  | .decl _, i, e, r => r.body = log.body (.ofIndex i) e

structure Recorded (d : Draft) (log : Log) (i : Nat) (e : Entry a) (r : Record a) : Prop where
  name : e.name.StoredAs d.names.texts.blob r.name
  parent : r.parent = some e.parent
  body : log.Describes d.raw i e r

structure Agrees (d : Draft) (log : Log) : Prop where
  numbers : ∀ a, (log.added a).map (·.1) = (List.range (d.arena a).size).map .ofNat
  records : ∀ (a : Arena) (i : Nat) (entry : UInt32 × Entry a), (log.added a)[i]? = some entry →
    ∃ r : Record a, (d.arena a)[i]? = some r ∧ d.Recorded log i entry.2 r
  targets : ∀ entry ∈ log, ∀ t, entry.1.target? = some t → d.raw.Holds t.id

theorem Agrees.length_added (h : d.Agrees log) (a : Arena) :
    (log.added a).length = (d.arena a).size := by
  have hlength := congrArg List.length (h.numbers a)
  rwa [List.length_map, List.length_map, List.length_range] at hlength

/-! ## One more call -/

theorem Grows.nameStoredAs (h : d.Grows d') {name : NameInput} {n : NameSpan}
    (hn : name.StoredAs d.names.texts.blob n) : name.StoredAs d'.names.texts.blob n :=
  ⟨hn.1, h.resolve_name hn.2⟩

theorem Grows.valueStoredAs (h : d.Grows d') {value : ValueInput} {v : AttributeValue}
    (hv : value.StoredAs d.raw v) : value.StoredAs d'.raw v := by
  cases value <;> cases v <;> first | exact hv | exact h.nameStoredAs hv | exact h.resolve_text hv

/-- The owner of a record that is a function has been added to the log. -/
theorem Agrees.function_lt (h : d.Agrees log) {owner : DeclId} (howner : d.raw.Knows owner)
    (f : Id .functions) (hf : owner.to? .function = some f) :
    f.index < (log.added .functions).length := by
  obtain rfl := DeclId.to?_eq_some_iff.mp hf
  rw [h.length_added]
  exact howner.resolve_left (DeclId.decl_ne_root f (by decide))

theorem Recorded.grows {i : Nat} {e : Entry a} {r : Record a} (h : d.Recorded log i e r)
    (hgrows : d.Grows d') : d'.Recorded log i e r := by
  refine ⟨hgrows.nameStoredAs h.name, h.parent, ?_⟩
  cases a with
  | attributes => exact hgrows.valueStoredAs h.body
  | decl k => exact h.body

/-- What the log says of a record holds until a call changes the declaration. -/
theorem Agrees.recorded_concat (h : d.Agrees log) (hd : d.Sound) {i : Nat} {e : Entry a}
    {r : Record a} (hr : (d.arena a)[i]? = some r) (hrecorded : d.Recorded log i e r)
    (htarget : ∀ k, a = .decl k → c.target? ≠ some ⟨k, .ofNat i⟩) :
    d.Recorded (log ++ [(c, reply)]) i e r := by
  refine ⟨hrecorded.name, hrecorded.parent, ?_⟩
  cases a with
  | attributes => exact hrecorded.body
  | decl k =>
    have howner : d.raw.Knows e.parent := by
      obtain ⟨p, hp, hknown, _⟩ := (hd.records _ r (Array.mem_of_getElem? hr)).owner
      rw [hrecorded.parent] at hp
      exact Option.some.inj hp ▸ hknown
    have hbody : r.body = log.body (.ofIndex i) e := hrecorded.body
    have hsame : Log.body (log ++ [(c, reply)]) (.ofIndex i) e = log.body (.ofIndex i) e :=
      Log.body_concat (htarget k rfl) (Log.uidOf_concat (h.function_lt howner))
    exact hbody.trans hsame.symm

theorem Recorded.changed {k : DeclKind} {id : Id (.decl k)} {e : Entry (.decl k)}
    {r : Record (.decl k)} (h : d.Recorded log id.index e r) {f : Body (.decl k) → Body (.decl k)}
    (hf : Log.body (log ++ [(c, reply)]) id e = f (log.body id e)) :
    d.Recorded (log ++ [(c, reply)]) id.index e { r with body := f r.body } := by
  have hbody : r.body = log.body (.ofIndex id.index) e := h.body
  refine ⟨h.name, h.parent, ?_⟩
  show f r.body = Log.body (log ++ [(c, reply)]) (.ofIndex id.index) e
  rw [hbody, Id.ofIndex_index, hf]

/-! ## A new record -/

/-- A class is added without links, and a function without return value. -/
theorem Call.entry_class {e : Entry .classes} (h : c.entry .classes = some e) :
    ({ (e.content : ClassBody) with base := none, constructor := none, destructor := none } :
      ClassBody) = e.content := by
  cases c with
  | addClass name parent size =>
    obtain rfl := Option.some.inj h
    rfl
  | _ => cases h

theorem Call.entry_function {e : Entry .functions} (h : c.entry .functions = some e) :
    ({ (e.content : FunctionBody) with returnField := none } : FunctionBody) = e.content := by
  cases c with
  | addFunction name parent address uid =>
    obtain rfl := Option.some.inj h
    rfl
  | _ => cases h

theorem Agrees.functionUid_eq (h : d.Agrees log) (owner : DeclId) :
    d.functionUid owner = log.uidOf owner := by
  unfold functionUid Log.uidOf
  cases hf : owner.to? .function with
  | none => rfl
  | some f =>
    rw [Option.bind_some, Option.bind_some]
    cases hadded : (log.added .functions)[f.index]? with
    | none =>
      have hlength := List.getElem?_eq_none_iff.mp hadded
      rw [h.length_added] at hlength
      rw [Array.getElem?_eq_none hlength]
    | some entry =>
      obtain ⟨r, hr, hrecorded⟩ := h.records _ _ _ hadded
      have hbody : r.body = log.body (.ofIndex f.index) entry.2 := hrecorded.body
      have huid : FunctionBody.uid r.body = FunctionBody.uid entry.2.content := by
        rw [hbody]
        rfl
      rw [hr]
      exact huid

theorem Agrees.target_ne (h : d.Agrees log) (reply : Reply) {k : DeclKind}
    (hsize : (d.arena (.decl k)).size < UInt32.size)
    (htarget : c.target? ≠ some (Id.ofIndex (d.arena (.decl k)).size : Id (.decl k)).decl) :
    ∀ entry ∈ log ++ [(c, reply)],
      entry.1.target? ≠ some (Id.ofIndex (d.arena (.decl k)).size : Id (.decl k)).decl := by
  intro entry hentry heq
  rcases List.mem_append.mp hentry with hentry | hentry
  · have hholds := h.targets entry hentry _ heq
    have hindex : (Id.ofIndex (d.arena (.decl k)).size : Id (.decl k)).index <
        (d.arena (.decl k)).size := hholds
    rw [Id.index_ofIndex hsize] at hindex
    exact Nat.lt_irrefl _ hindex
  · obtain rfl := List.mem_singleton.mp hentry
    exact htarget heq

theorem Agrees.body_new (h : d.Agrees log) {k : DeclKind} {e : Entry (.decl k)}
    (hsize : (d.arena (.decl k)).size < UInt32.size) (hentry : c.entry (.decl k) = some e)
    (htarget : c.target? ≠ some (Id.ofIndex (d.arena (.decl k)).size : Id (.decl k)).decl)
    (howner : d.raw.Knows e.parent) :
    Log.body (log ++ [(c, reply)]) (.ofIndex (d.arena (.decl k)).size) e = e.filled d := by
  have hne := h.target_ne reply hsize htarget
  unfold Log.body Entry.filled
  cases k with
  | classType =>
    simp only [Log.baseOf, Log.constructorOf, Log.destructorOf,
      Log.last_eq_none fun entry hentry => Log.givesBase_eq_none (hne entry hentry),
      Log.last_eq_none fun entry hentry => Log.givesConstructor_eq_none (hne entry hentry),
      Log.last_eq_none fun entry hentry => Log.givesDestructor_eq_none (hne entry hentry)]
    exact c.entry_class hentry
  | function =>
    simp only [Log.returnOf,
      Log.last_eq_none fun entry hentry => Log.givesReturn_eq_none (hne entry hentry)]
    exact c.entry_function hentry
  | field =>
    have huid : Log.uidOf (log ++ [(c, reply)]) e.parent = d.functionUid e.parent := by
      rw [Log.uidOf_concat (h.function_lt howner), h.functionUid_eq]
    simp only [huid]
  | _ => rfl

theorem Agrees.numbers_push (h : d.Agrees log) {e : Entry a} {r : Record a} (ht : d.Takes d₁ e r)
    (hentry : c.entry a = some e) (b : Arena) :
    (Log.added (log ++ [(c, .added (.ofNat (d.arena a).size))]) b).map (·.1) =
      (List.range ((d₁.push r).2.arena b).size).map .ofNat := by
  by_cases hb : b = a
  · subst hb
    rw [Log.added_concat_of_entry hentry, List.map_append, h.numbers, push_arena_self,
      Array.size_push, ht.interns.arena_eq, List.range_succ, List.map_append]
    rfl
  · rw [Log.added_concat_of_none (c.entry_eq_none_of_ne hentry hb), h.numbers,
      push_arena_of_ne hb, ht.interns.arena_eq]

theorem Agrees.recorded_new (h : d.Agrees log) {e : Entry a} {r : Record a} (ht : d.Takes d₁ e r)
    (hentry : c.entry a = some e) (hnum : (d₁.push r).2.Numbered)
    (htarget : ∀ k, a = .decl k → c.target? ≠ some ⟨k, .ofNat (d.arena a).size⟩) :
    (d₁.push r).2.Recorded (log ++ [(c, reply)]) (d.arena a).size e r := by
  refine ⟨ht.name, ht.parent, ?_⟩
  cases a with
  | attributes => exact (grows_push d₁ r).valueStoredAs ht.fills
  | decl k =>
    have hsize := hnum (.decl k)
    rw [push_arena_self, Array.size_push, ht.interns.arena_eq] at hsize
    have hbody : r.body = e.filled d := ht.fills
    exact hbody.trans (h.body_new (by omega) hentry (htarget k rfl) ht.owner).symm

/-- After a push every record is as the log says, the one that the call changes
apart. -/
theorem Agrees.records_push (h : d.Agrees log) (hd : d.Sound) {e : Entry a} {r : Record a}
    (ht : d.Takes d₁ e r) (hentry : c.entry a = some e) (hnum : (d₁.push r).2.Numbered)
    (htarget : ∀ k, a = .decl k → c.target? ≠ some ⟨k, .ofNat (d.arena a).size⟩) {b : Arena} {i : Nat}
    {entry : UInt32 × Entry b}
    (hadded : (Log.added (log ++ [(c, .added (.ofNat (d.arena a).size))]) b)[i]? = some entry)
    (hb : ∀ k, b = .decl k → c.target? ≠ some ⟨k, .ofNat i⟩) :
    ∃ s : Record b, ((d₁.push r).2.arena b)[i]? = some s ∧
      (d₁.push r).2.Recorded (log ++ [(c, .added (.ofNat (d.arena a).size))]) i entry.2 s := by
  have hold (hadded : (log.added b)[i]? = some entry) : ∃ s : Record b,
      ((d₁.push r).2.arena b)[i]? = some s ∧
        (d₁.push r).2.Recorded (log ++ [(c, .added (.ofNat (d.arena a).size))]) i entry.2 s := by
    obtain ⟨s, hs, hrecorded⟩ := h.records b i entry hadded
    refine ⟨s, push_getElem? ?_, (h.recorded_concat hd hs hrecorded hb).grows ht.grows⟩
    rw [ht.interns.arena_eq]
    exact hs
  by_cases hba : b = a
  · subst hba
    rw [Log.added_concat_of_entry hentry] at hadded
    by_cases hi : i < (log.added b).length
    · rw [List.getElem?_append_left hi] at hadded
      exact hold hadded
    · obtain rfl : i = (d.arena b).size := by
        have hlt := (List.getElem?_eq_some_iff.mp hadded).1
        rw [List.length_append, List.length_singleton] at hlt
        rw [← h.length_added]
        omega
      rw [← h.length_added, List.getElem?_concat_length] at hadded
      obtain rfl := Option.some.inj hadded
      exact ⟨r, push_getElem?_size ht, h.recorded_new ht hentry hnum htarget⟩
  · rw [Log.added_concat_of_none (c.entry_eq_none_of_ne hentry hba)] at hadded
    exact hold hadded

/-! ## A changed body -/

/-- A change that brings one record in line with the log leaves the others as they
are. -/
theorem records_changed {k : DeclKind} {id : Id (.decl k)} {f : Body (.decl k) → Body (.decl k)}
    (hsize : (log.added (.decl k)).length ≤ UInt32.size) (htarget : c.target? = some id.decl)
    (hothers : ∀ (a : Arena) (i : Nat) (entry : UInt32 × Entry a), (log.added a)[i]? = some entry →
      (∀ k, a = .decl k → c.target? ≠ some ⟨k, .ofNat i⟩) →
        ∃ r : Record a, (d.arena a)[i]? = some r ∧ d.Recorded log i entry.2 r)
    (hself : ∀ entry, (log.added (.decl k))[id.index]? = some entry →
      ∃ r : Record (.decl k), (d.arena (.decl k))[id.index]? = some r ∧
        d.Recorded log id.index entry.2 { r with body := f r.body })
    (a : Arena) (i : Nat) (entry : UInt32 × Entry a) (hentry : (log.added a)[i]? = some entry) :
    ∃ r : Record a, ((d.changed id f).arena a)[i]? = some r ∧
      (d.changed id f).Recorded log i entry.2 r := by
  have hgrows := grows_changed d id f
  by_cases ha : a = .decl k
  · subst ha
    rw [changed_getElem?]
    by_cases hi : id.index = i
    · subst hi
      obtain ⟨r, hr, hrecorded⟩ := hself entry hentry
      refine ⟨{ r with body := f r.body }, ?_, hrecorded.grows hgrows⟩
      rw [hr, Option.map_some, if_pos rfl]
    · have hne : ∀ j, Arena.decl k = .decl j → c.target? ≠ some ⟨j, .ofNat i⟩ := by
        intro j _ heq
        have hraw := congrArg DeclId.index (Option.some.inj (htarget.symm.trans heq))
        have hlt := (List.getElem?_eq_some_iff.mp hentry).1
        exact hi (hraw.trans (UInt32.toNat_ofNat_of_lt' (by omega)))
      obtain ⟨r, hr, hrecorded⟩ := hothers _ i entry hentry hne
      refine ⟨r, ?_, hrecorded.grows hgrows⟩
      rw [hr, Option.map_some, if_neg hi]
  · have hne : ∀ j, a = .decl j → c.target? ≠ some ⟨j, .ofNat i⟩ := by
      intro j hj heq
      have hkind := congrArg DeclId.kind (Option.some.inj (htarget.symm.trans heq))
      exact ha (hj.trans (congrArg Arena.decl hkind.symm))
    obtain ⟨r, hr, hrecorded⟩ := hothers a i entry hentry hne
    refine ⟨r, ?_, hrecorded.grows hgrows⟩
    rw [changed_arena_of_ne ha]
    exact hr

/-! ## Every call -/

theorem Agrees.targets_concat (h : d.Agrees log) (hgrows : d.Grows d')
    (htarget : ∀ t, c.target? = some t → d.raw.Holds t.id) :
    ∀ entry ∈ log ++ [(c, reply)], ∀ t, entry.1.target? = some t → d'.raw.Holds t.id := by
  intro entry hentry t ht
  rcases List.mem_append.mp hentry with hentry | hentry
  · exact hgrows.holds (h.targets entry hentry t ht)
  · obtain rfl := List.mem_singleton.mp hentry
    exact hgrows.holds (htarget t ht)

theorem Agrees.changed_class (h : d.Agrees log) (hd : d.Sound) (hnum : d.Numbered)
    {id : Id .classes} {f : ClassBody → ClassBody} (harena : c.arena? = none)
    (htarget : c.target? = some id.decl) (hid : d.raw.Holds id)
    (hf : ∀ e, Log.body (log ++ [(c, reply)]) id e = f (log.body id e)) :
    (d.changed id f).Agrees (log ++ [(c, reply)]) := by
  have hadded (a : Arena) : Log.added (log ++ [(c, reply)]) a = log.added a := by
    refine Log.added_concat_of_none (c.entry_eq_none ?_) reply
    rw [harena]
    exact (Option.some_ne_none a).symm
  constructor
  case numbers =>
    intro a
    rw [hadded, h.numbers, size_changed]
  case records =>
    refine records_changed ?_ htarget ?_ ?_
    · rw [hadded, h.length_added]
      exact hnum _
    · intro a i entry hentry hne
      rw [hadded] at hentry
      obtain ⟨r, hr, hrecorded⟩ := h.records a i entry hentry
      exact ⟨r, hr, h.recorded_concat hd hr hrecorded hne⟩
    · intro entry hentry
      rw [hadded] at hentry
      obtain ⟨r, hr, hrecorded⟩ := h.records _ _ entry hentry
      exact ⟨r, hr, hrecorded.changed (hf entry.2)⟩
  case targets =>
    refine h.targets_concat (grows_changed d id f) fun t ht => ?_
    obtain rfl := Option.some.inj (htarget.symm.trans ht)
    exact hid

theorem Agrees.returned (h : d.Agrees log) (hd : d.Sound) {function : Id .functions}
    {type : TypeId} {qualifier : Qualifier} {f : Record .functions} {e : Entry .fields}
    {r : Record .fields} (hfunction : (d.arena .functions)[function.index]? = some f)
    (hentry : (Call.setReturn function type qualifier).entry .fields = some e)
    (ht : d.Takes d₁ e r) (hnum : (d₁.push r).2.Numbered) :
    ((d₁.push r).2.changed function fun body : FunctionBody =>
        { body with returnField := some (.ofIndex (d.arena .fields).size) }).Agrees
      (log ++ [(.setReturn function type qualifier, .added (.ofNat (d.arena .fields).size))]) := by
  have hnone : ∀ k, Arena.fields = .decl k → (Call.setReturn function type qualifier).target? ≠
      some ⟨k, .ofNat (d.arena .fields).size⟩ := by
    intro k hk heq
    have hkind := congrArg DeclId.kind (Option.some.inj heq)
    rw [← Arena.decl.inj hk] at hkind
    cases hkind
  constructor
  case numbers =>
    intro a
    rw [size_changed, h.numbers_push ht hentry]
  case records =>
    have hfunctions : (Log.added (log ++ [(.setReturn function type qualifier,
        .added (.ofNat (d.arena .fields).size))]) .functions) = log.added .functions :=
      Log.added_concat_of_none (Call.entry_eq_none_of_ne (b := .functions) hentry (by decide)) _
    refine records_changed ?_ rfl (fun b i entry => h.records_push hd ht hentry hnum hnone) ?_
    · rw [hfunctions, h.length_added]
      exact ht.grows.numbered hnum .functions
    · intro entry hadded
      rw [hfunctions] at hadded
      obtain ⟨s, hs, hrecorded⟩ := h.records _ _ entry hadded
      have hbody := @Log.body_setReturn log function type qualifier (.ofNat (d.arena .fields).size)
        entry.2
      have hchanged := (hrecorded.grows ht.grows).changed (f := fun body : FunctionBody =>
        { body with returnField := some (.ofIndex (d.arena .fields).size) }) hbody
      refine ⟨s, push_getElem? ?_, hchanged⟩
      rw [ht.interns.arena_eq]
      exact hs
  case targets =>
    refine h.targets_concat (ht.grows.trans (grows_changed _ _ _)) fun t htarget => ?_
    obtain rfl := Option.some.inj htarget
    exact (Array.getElem?_eq_some_iff.mp hfunction).1

/-- Interning alone adds nothing to the log. -/
theorem Agrees.interned (h : d.Agrees log) (hi : d.Interns d') : d'.Agrees log where
  numbers a := by
    rw [h.numbers, hi.arena_eq]
  records a i entry hentry := by
    obtain ⟨r, hr, hrecorded⟩ := h.records a i entry hentry
    rw [hi.arena_eq]
    exact ⟨r, hr, hrecorded.grows hi.grows⟩
  targets entry hentry t ht := hi.grows.holds (h.targets entry hentry t ht)

theorem Effect.agrees (h : Effect d c reply d') (hd : d.Sound) (ha : d.Agrees log)
    (hnum : d'.Numbered) : d'.Agrees (log ++ [(c, reply)]) := by
  cases h with
  | @interned name n _ h =>
    have hadded (a : Arena) :
        Log.added (log ++ [(Call.internName name, .name n)]) a = log.added a := by
      have hentry : (Call.internName name).entry a = none :=
        Call.entry_eq_none (Option.some_ne_none a).symm
      exact Log.added_concat_of_none hentry _
    have hnone (t : DeclId) : (Call.internName name).target? ≠ some t :=
      (Option.some_ne_none t).symm
    have ha := ha.interned h
    constructor
    case numbers =>
      intro a
      rw [hadded, ha.numbers]
    case records =>
      intro a i entry hentry
      rw [hadded] at hentry
      obtain ⟨r, hr, hrecorded⟩ := ha.records a i entry hentry
      exact ⟨r, hr, ha.recorded_concat (hd.interned h) hr hrecorded fun _ _ => hnone _⟩
    case targets => exact ha.targets_concat (.refl d') fun t ht => absurd ht (hnone t)
  | added hentry htarget h =>
    have hnone (t : DeclId) : c.target? ≠ some t := by
      rw [htarget]
      exact (Option.some_ne_none t).symm
    constructor
    case numbers => exact ha.numbers_push h hentry
    case records =>
      intro a i entry hadded
      exact ha.records_push hd h hentry hnum (fun _ _ => hnone _) hadded fun _ _ => hnone _
    case targets => exact ha.targets_concat h.grows fun t ht => absurd ht (hnone t)
  | base hc _ =>
    exact ha.changed_class hd ((grows_changed _ _ _).numbered hnum) rfl rfl hc Log.body_setBase
  | constructor hc _ =>
    exact ha.changed_class hd ((grows_changed _ _ _).numbered hnum) rfl rfl hc
      Log.body_setConstructor
  | destructor hc _ =>
    exact ha.changed_class hd ((grows_changed _ _ _).numbered hnum) rfl rfl hc
      Log.body_setDestructor
  | returned hfunction _ hentry h =>
    exact ha.returned hd hfunction hentry h ((grows_changed _ _ _).numbered hnum)

end Draft
end TypeAtlas
