/-
Every call keeps a draft sound.

A new record refers to what was there before it, and a change gives a declaration
links that are there.  What was sound before stays so because drafts only grow.
-/
import TypeAtlas.Proofs.Draft.Effect

namespace TypeAtlas
namespace Draft

variable {d d₁ d' : Draft} {a : Arena}

/-! ## A new record -/

theorem Takes.grows {e : Entry a} {r : Record a} (h : d.Takes d₁ e r) : d.Grows (d₁.push r).2 :=
  h.interns.grows.trans (grows_push d₁ r)

/-- Old records keep a property of records if it survives growth. -/
theorem forall_push {P : (b : Arena) → Record b → Prop} {e : Entry a} {r : Record a}
    (h : d.Takes d₁ e r) (hold : ∀ b, ∀ s ∈ d.arena b, P b s) (hnew : P a r) :
    ∀ b, ∀ s ∈ (d₁.push r).2.arena b, P b s := by
  intro b s hs
  by_cases hb : b = a
  · subst hb
    rw [push_arena_self, Array.mem_push, h.interns.arena_eq] at hs
    rcases hs with hs | rfl
    · exact hold b s hs
    · exact hnew
  · rw [push_arena_of_ne hb, h.interns.arena_eq] at hs
    exact hold b s hs

theorem push_getElem?_size {e : Entry a} {r : Record a} (h : d.Takes d₁ e r) :
    ((d₁.push r).2.arena a)[(d.arena a).size]? = some r := by
  rw [push_arena_self, h.interns.arena_eq, Array.getElem?_push_size]

theorem getElem?_push_cases {e : Entry a} {r : Record a} (h : d.Takes d₁ e r) {i : Nat}
    {s : Record a} (hs : ((d₁.push r).2.arena a)[i]? = some s) :
    (d.arena a)[i]? = some s ∨ i = (d.arena a).size ∧ s = r := by
  rw [push_arena_self, h.interns.arena_eq, Array.getElem?_push] at hs
  by_cases hi : i = (d.arena a).size
  · rw [if_pos hi] at hs
    exact Or.inr ⟨hi, (Option.some.inj hs).symm⟩
  · rw [if_neg hi] at hs
    exact Or.inl hs

/-- A reduced draft takes neither attributes nor templates nor their instances. -/
theorem Takes.arena_ne {e : Entry a} {r : Record a} (h : d.Takes d₁ e r)
    (hp : d.profile = .reduced) : a ≠ .attributes ∧ a ≠ .templates ∧ a ≠ .templateTypes := by
  have hallowed := h.allowed
  rw [hp, h.kind] at hallowed
  refine ⟨?_, ?_, ?_⟩ <;> intro ha <;> subst ha <;> cases hallowed

theorem FitsProfile.push (h : d.FitsProfile) {e : Entry a} {r : Record a} (ht : d.Takes d₁ e r) :
    (d₁.push r).2.FitsProfile := by
  intro hp
  have hp : d.profile = .reduced := ht.interns.profile.symm.trans hp
  obtain ⟨hattributes, htemplates, hinstances⟩ := h hp
  obtain ⟨hne, hne', hne''⟩ := ht.arena_ne hp
  rw [push_arena_of_ne hne.symm, push_arena_of_ne hne'.symm, push_arena_of_ne hne''.symm,
    ht.interns.arena_eq, ht.interns.arena_eq, ht.interns.arena_eq]
  exact ⟨hattributes, htemplates, hinstances⟩

theorem valueFits_of_storedAs {img : Image} {value : ValueInput} {v : AttributeValue}
    (h : value.StoredAs img v) : img.ValueFits v := by
  cases value <;> cases v <;> first | trivial | exact h.elim | skip
  · exact Option.isSome_iff_exists.mpr ⟨_, h.2⟩
  · exact Option.isSome_iff_exists.mpr ⟨_, h⟩

theorem Sound.rooted_of_knows (h : d.Sound) {e : DeclId} (he : d.raw.Knows e) :
    d.raw.Rooted e := by
  rcases he with rfl | he
  · exact .root
  · have hrooted := h.rooted e.kind e.index he
    have heq : (⟨e.kind, .ofNat e.index⟩ : DeclId) = e :=
      congrArg (DeclId.mk e.kind) e.raw.ofNat_toNat
    rwa [heq] at hrooted

/-- A declaration that is pushed lies under its owner. -/
theorem parentOf?_push {k : DeclKind} {e : Entry (.decl k)} {r : Record (.decl k)}
    (h : d.Takes d₁ e r) (hsize : (d.arena (.decl k)).size < UInt32.size)
    (hroot : (⟨k, .ofNat (d.arena (.decl k)).size⟩ : DeclId) ≠ .root) :
    (d₁.push r).2.raw.parentOf? ⟨k, .ofNat (d.arena (.decl k)).size⟩ = some e.parent := by
  refine (Image.parentOf?_eq_some_iff hroot).mpr ⟨r, ?_, h.parent⟩
  show ((d₁.push r).2.arena (.decl k))[(UInt32.ofNat (d.arena (.decl k)).size).toNat]? = some r
  rw [UInt32.toNat_ofNat_of_lt' hsize]
  exact push_getElem?_size h

theorem Sound.push (h : d.Sound) {e : Entry a} {r : Record a} (ht : d.Takes d₁ e r)
    (hnum : (d₁.push r).2.Numbered) : (d₁.push r).2.Sound := by
  have hgrows := ht.grows
  have htexts := ht.interns.toTextsSound
  constructor
  case toTextsSound => exact ⟨htexts.nameTexts, htexts.attributeTexts, htexts.names⟩
  case profile => exact FitsProfile.push h.profile ht
  case records =>
    have hnew : (d₁.push r).2.raw.RecordFits r :=
      ⟨ht.kind, ⟨e.parent, ht.parent, hgrows.knows ht.owner, ht.allowsOwner⟩,
        Option.isSome_iff_exists.mpr ⟨_, ht.name.2⟩⟩
    exact forall_push ht (fun b s hs => hgrows.recordFits (h.records b s hs)) hnew
  case values =>
    intro s hs
    by_cases ha : a = .attributes
    · subst ha
      rw [push_arena_self, Array.mem_push, ht.interns.arena_eq] at hs
      rcases hs with hs | rfl
      · exact hgrows.valueFits (h.values s hs)
      · exact (grows_push d₁ s).valueFits (valueFits_of_storedAs ht.fills)
    · rw [push_arena_of_ne (Ne.symm ha), ht.interns.arena_eq] at hs
      exact hgrows.valueFits (h.values s hs)
  case links =>
    exact forall_push ht (fun b s hs l hl => hgrows.holds (h.links b s hs l hl))
      fun l hl => hgrows.holds (ht.links l hl)
  case returned =>
    intro i s hs id hid
    have hold : (d.arena .functions)[i]? = some s := by
      by_cases ha : a = .functions
      · subst ha
        rcases getElem?_push_cases ht hs with hold | ⟨_, rfl⟩
        · exact hold
        · rw [ht.returnField] at hid
          cases hid
      · rwa [push_arena_of_ne (Ne.symm ha), ht.interns.arena_eq] at hs
    exact hgrows.owned (h.returned i s hold id hid)
  case rooted =>
    intro k i hi
    by_cases hlt : i < (d.arena (.decl k)).size
    · exact hgrows.rooted (h.rooted k i hlt)
    · have ha : a = .decl k := by
        apply Decidable.byContradiction
        intro ha
        rw [push_arena_of_ne (Ne.symm ha), ht.interns.arena_eq] at hi
        exact hlt hi
      subst ha
      have hsize := hnum (.decl k)
      rw [push_arena_self, Array.size_push, ht.interns.arena_eq] at hi hsize
      obtain rfl : i = (d.arena (.decl k)).size := by omega
      by_cases hroot : (⟨k, .ofNat (d.arena (.decl k)).size⟩ : DeclId) = .root
      · rw [hroot]
        exact .root
      · have hparent := parentOf?_push ht (by omega) hroot
        exact .owned hparent (hgrows.rooted (h.rooted_of_knows ht.owner))

/-! ## A changed body -/

section changed

variable {k : DeclKind} {id : Id (.decl k)} {f : Body (.decl k) → Body (.decl k)}

theorem getElem?_changed_cases {i : Nat} {s : Record (.decl k)}
    (hs : ((d.changed id f).arena (.decl k))[i]? = some s) :
    (d.arena (.decl k))[i]? = some s ∨ id.index = i ∧
      ∃ r : Record (.decl k), (d.arena (.decl k))[id.index]? = some r ∧
        s = { r with body := f r.body } := by
  rw [changed_getElem?] at hs
  obtain ⟨r, hr, rfl⟩ := Option.map_eq_some_iff.mp hs
  by_cases hi : id.index = i
  · rw [if_pos hi]
    subst hi
    exact Or.inr ⟨rfl, r, hr, rfl⟩
  · rw [if_neg hi]
    exact Or.inl hr

theorem forall_changed {P : (b : Arena) → Record b → Prop} (hold : ∀ b, ∀ s ∈ d.arena b, P b s)
    (hnew : ∀ r : Record (.decl k), (d.arena (.decl k))[id.index]? = some r →
      P (.decl k) { r with body := f r.body }) :
    ∀ b, ∀ s ∈ (d.changed id f).arena b, P b s := by
  intro b s hs
  by_cases hb : b = .decl k
  · subst hb
    obtain ⟨i, hi⟩ := Array.mem_iff_getElem?.mp hs
    rcases getElem?_changed_cases hi with hi | ⟨_, r, hr, rfl⟩
    · exact hold _ s (Array.mem_of_getElem? hi)
    · exact hnew r hr
  · rw [changed_arena_of_ne hb] at hs
    exact hold b s hs

theorem size_changed (b : Arena) : ((d.changed id f).arena b).size = (d.arena b).size := by
  by_cases hb : b = .decl k
  · subst hb
    have harena : (d.changed id f).arena (.decl k) =
        (d.arena (.decl k)).modify id.index fun r => { r with body := f r.body } :=
      PerArena.get_modify_self _ _ _
    rw [harena, Array.size_modify]
  · rw [changed_arena_of_ne hb]

theorem FitsProfile.changed (h : d.FitsProfile) : (d.changed id f).FitsProfile := by
  intro hp
  obtain ⟨hattributes, htemplates, hinstances⟩ := h hp
  refine ⟨?_, ?_, ?_⟩ <;> apply Array.eq_empty_of_size_eq_zero <;> rw [size_changed]
  · rw [hattributes]
    rfl
  · rw [htemplates]
    rfl
  · rw [hinstances]
    rfl

theorem Sound.changed (h : d.Sound)
    (hlinks : ∀ r, (d.arena (.decl k))[id.index]? = some r →
      ∀ l ∈ Body.links (f r.body), d.raw.Holds l.id)
    (hreturned : ∀ r : Record (.decl k), (d.arena (.decl k))[id.index]? = some r →
      ∀ field, ({ r with body := f r.body } : Record (.decl k)).returnField? = some field →
        ∃ s : Record .fields, (d.arena .fields)[field.index]? = some s ∧
          s.parent = some id.decl) : (d.changed id f).Sound := by
  have hgrows := grows_changed d id f
  constructor
  case toTextsSound => exact ⟨h.nameTexts, h.attributeTexts, h.names⟩
  case profile => exact FitsProfile.changed h.profile
  case records =>
    refine forall_changed (fun b s hs => hgrows.recordFits (h.records b s hs)) fun r hr => ?_
    have hfits := hgrows.recordFits (h.records _ r (Array.mem_of_getElem? hr))
    exact ⟨hfits.kind, hfits.owner, hfits.name⟩
  case values =>
    intro s hs
    have harena : (d.changed id f).arena .attributes = d.arena .attributes :=
      changed_arena_of_ne (by simp)
    rw [harena] at hs
    exact hgrows.valueFits (h.values s hs)
  case links =>
    exact forall_changed (fun b s hs l hl => hgrows.holds (h.links b s hs l hl))
      fun r hr l hl => hgrows.holds (hlinks r hr l hl)
  case returned =>
    intro i s hs field hfield
    apply hgrows.owned
    by_cases hk : k = .function
    · subst hk
      rcases getElem?_changed_cases hs with hs | ⟨rfl, r, hr, rfl⟩
      · exact h.returned i s hs field hfield
      · obtain ⟨t, ht, hparent⟩ := hreturned r hr field hfield
        refine ⟨t, ht, hparent.trans ?_⟩
        exact congrArg (fun raw => some (DeclId.mk .function raw)) id.raw.ofNat_toNat.symm
    · rw [changed_arena_of_ne fun e => hk (Arena.decl.inj e).symm] at hs
      exact h.returned i s hs field hfield
  case rooted =>
    intro j i hi
    rw [size_changed] at hi
    exact hgrows.rooted (h.rooted j i hi)

end changed

/-- A class that is given one link more. -/
theorem Sound.changed_class (h : d.Sound) {c : Id .classes} {f : ClassBody → ClassBody} {e : DeclId}
    (he : d.raw.Holds e.id)
    (hf : ∀ body l, l ∈ Body.links (a := .classes) (f body) →
      l = e ∨ l ∈ Body.links (a := .classes) body) :
    (d.changed c f).Sound := by
  apply Sound.changed h
  · intro r hr l hl
    rcases hf r.body l hl with rfl | hl
    · exact he
    · exact h.links .classes r (Array.mem_of_getElem? hr) l hl
  · intro _ _ _ hreturn
    cases hreturn

/-! ## Every call -/

variable {c : Call} {reply : Reply}

theorem Effect.grows (h : Effect d c reply d') : d.Grows d' := by
  cases h with
  | interned h => exact h.grows
  | added _ _ h => exact h.grows
  | base => exact grows_changed _ _ _
  | constructor => exact grows_changed _ _ _
  | destructor => exact grows_changed _ _ _
  | returned _ _ _ h => exact h.grows.trans (grows_changed _ _ _)

theorem Effect.textsSound (hd : d.TextsSound) (h : Effect d c reply d') : d'.TextsSound := by
  cases h with
  | interned h => exact h.toTextsSound
  | added _ _ h =>
    have htexts := h.interns.toTextsSound
    exact ⟨htexts.nameTexts, htexts.attributeTexts, htexts.names⟩
  | base => exact ⟨hd.nameTexts, hd.attributeTexts, hd.names⟩
  | constructor => exact ⟨hd.nameTexts, hd.attributeTexts, hd.names⟩
  | destructor => exact ⟨hd.nameTexts, hd.attributeTexts, hd.names⟩
  | returned _ _ _ h =>
    have htexts := h.interns.toTextsSound
    exact ⟨htexts.nameTexts, htexts.attributeTexts, htexts.names⟩

theorem FitsProfile.interned (h : d.FitsProfile) (hi : d.Interns d') : d'.FitsProfile := by
  intro hp
  rw [hi.arena_eq, hi.arena_eq, hi.arena_eq]
  exact h (hi.profile.symm.trans hp)

theorem Effect.fitsProfile (hd : d.FitsProfile) (h : Effect d c reply d') : d'.FitsProfile := by
  cases h with
  | interned h => exact hd.interned h
  | added _ _ h => exact hd.push h
  | base => exact hd.changed
  | constructor => exact hd.changed
  | destructor => exact hd.changed
  | returned _ _ _ h => exact (hd.push h).changed

theorem Sound.interned (h : d.Sound) (hi : d.Interns d') : d'.Sound := by
  have hgrows := hi.grows
  constructor
  case toTextsSound => exact hi.toTextsSound
  case profile => exact FitsProfile.interned h.profile hi
  case records =>
    intro b s hs
    rw [hi.arena_eq] at hs
    exact hgrows.recordFits (h.records b s hs)
  case values =>
    intro s hs
    rw [hi.arena_eq] at hs
    exact hgrows.valueFits (h.values s hs)
  case links =>
    intro b s hs l hl
    rw [hi.arena_eq] at hs
    exact hgrows.holds (h.links b s hs l hl)
  case returned =>
    intro i s hs id hid
    rw [hi.arena_eq] at hs ⊢
    exact h.returned i s hs id hid
  case rooted =>
    intro k i hlt
    rw [hi.arena_eq] at hlt
    exact hgrows.rooted (h.rooted k i hlt)

theorem Effect.sound (h : Effect d c reply d') (hd : d.Sound) (hnum : d'.Numbered) : d'.Sound := by
  cases h with
  | interned h => exact hd.interned h
  | added _ _ h => exact hd.push h hnum
  | @base c base _ hbase =>
    refine hd.changed_class (e := base.decl) hbase fun body l hl => ?_
    rw [ClassBody.mem_links] at hl ⊢
    rcases hl with ⟨_, hb, rfl⟩ | hl
    · exact Or.inl (congrArg Id.decl (Option.some.inj hb).symm)
    · exact Or.inr (Or.inr hl)
  | @constructor c function _ hfunction =>
    refine hd.changed_class (e := function.decl) hfunction fun body l hl => ?_
    rw [ClassBody.mem_links] at hl ⊢
    rcases hl with hl | ⟨_, hf, rfl⟩ | hl
    · exact Or.inr (Or.inl hl)
    · exact Or.inl (congrArg Id.decl (Option.some.inj hf).symm)
    · exact Or.inr (Or.inr (Or.inr hl))
  | @destructor c function _ hfunction =>
    refine hd.changed_class (e := function.decl) hfunction fun body l hl => ?_
    rw [ClassBody.mem_links] at hl ⊢
    rcases hl with hl | hl | ⟨_, hf, rfl⟩
    · exact Or.inr (Or.inl hl)
    · exact Or.inr (Or.inr (Or.inl hl))
    · exact Or.inl (congrArg Id.decl (Option.some.inj hf).symm)
  | @returned function type qualifier f e d₁ r hfunction _ hentry h =>
    have hgrows := grows_changed (d₁.push r).2 function fun body : FunctionBody =>
      { body with returnField := some (.ofIndex (d.arena .fields).size) }
    have hnum := hgrows.numbered hnum
    have hpushed := hd.push h hnum
    refine hpushed.changed (fun _ _ l hl => absurd hl List.not_mem_nil) fun _ _ field hfield => ?_
    -- The field that has just been pushed is the return value.
    have hsize := hnum .fields
    rw [push_arena_self, Array.size_push, h.interns.arena_eq] at hsize
    have hfield : Id.ofIndex (d.arena .fields).size = field := Option.some.inj hfield
    have hparent : e.parent = function.decl := congrArg Entry.parent (Option.some.inj hentry).symm
    refine ⟨r, ?_, h.parent.trans (congrArg some hparent)⟩
    rw [← hfield, Id.index_ofIndex (by omega)]
    exact push_getElem?_size h

end Draft
end TypeAtlas
