/-
Downcasts.

A reference to a declaration of any kind keeps the kind of its arena beside the
record, and a downcast goes by that.  The kind that the record itself states
only shows in a breach.  Attributes of all kinds share an arena, and what one is
taken for goes by its value.
-/
import TypeAtlas.Image.Query

namespace TypeAtlas

/-! ## Declarations -/

theorem TypeKind.toDecl_injective {j k : TypeKind} (h : j.toDecl = k.toDecl) : j = k := by
  have hsome := congrArg DeclKind.toTypeKind? h
  rw [toTypeKind?_toDecl, toTypeKind?_toDecl] at hsome
  exact Option.some.inj hsome

theorem DeclId.casts_same (d : DeclId) : d.to? d.kind = some d.id ∧ d.expect d.kind = .ok d.id := by
  have hsame : d.to? d.kind = some d.id := if_pos rfl
  exact ⟨hsame, by rw [expect, hsame]⟩

theorem DeclId.casts_other {d : DeclId} {k : DeclKind} (h : k ≠ d.kind) :
    d.to? k = none ∧ d.expect k = .error (.kindMismatch (.decl k) (.decl d.kind)) := by
  have hnone : d.to? k = none := if_neg h.symm
  exact ⟨hnone, by rw [expect, hnone]⟩

theorem TypeId.decl_of_toTypeId? {d : DeclId} {t : TypeId} (h : d.toTypeId? = some t) :
    t.decl = d := by
  obtain ⟨k, raw⟩ := d
  cases k <;> cases h <;> rfl

/-- The id of a type can be taken for one of its kind, and for one of no other kind. -/
structure TypeId.Casts (t : TypeId) : Prop where
  same : t.to? t.kind = some t.id ∧ t.expect t.kind = .ok t.id
  other : ∀ k ≠ t.kind, t.to? k = none ∧
    t.expect k = .error (.kindMismatch (.decl k.toDecl) (.decl t.kind.toDecl))

theorem TypeId.casts (t : TypeId) : t.Casts where
  same := t.decl.casts_same
  other _ hk := DeclId.casts_other fun e => hk (TypeKind.toDecl_injective e)

/-- An id can be taken for one of its kind, and for one of no other kind, and for that of a type
exactly if its kind is one of a type. -/
structure DeclId.Casts (d : DeclId) : Prop where
  same : d.to? d.kind = some d.id ∧ d.expect d.kind = .ok d.id
  other : ∀ k ≠ d.kind,
    d.to? k = none ∧ d.expect k = .error (.kindMismatch (.decl k) (.decl d.kind))
  isType : d.toTypeId?.isSome = d.kind.toTypeKind?.isSome
  types : ∀ t ∈ d.toTypeId?, t.decl = d ∧ t.Casts

theorem DeclId.casts (d : DeclId) : d.Casts where
  same := d.casts_same
  other _ hk := casts_other hk
  isType := Option.isSome_map
  types t ht := ⟨TypeId.decl_of_toTypeId? ht, t.casts⟩

theorem DeclRef.to?_eq_some_iff {d : DeclRef} {k : DeclKind} {r : Ref (.decl k)} :
    d.to? k = some r ↔ d = r.decl := by
  obtain ⟨j, s⟩ := d
  rw [to?]
  by_cases h : j = k
  · subst h
    rw [dif_pos rfl]
    constructor
    · intro hs
      exact congrArg Ref.decl (Option.some.inj hs)
    · intro hd
      cases hd
      rfl
  · rw [dif_neg h]
    constructor
    · intro hs
      cases hs
    · intro hd
      exact absurd (show j = k from congrArg DeclRef.kind hd) h

theorem DeclRef.to?_self (d : DeclRef) : d.to? d.kind = some d.ref :=
  to?_eq_some_iff.mpr rfl

theorem DeclRef.to?_of_ne {d : DeclRef} {k : DeclKind} (h : k ≠ d.kind) : d.to? k = none := by
  rw [to?]
  exact dif_neg (Ne.symm h)

theorem TypeRef.decl_of_toTypeRef? {d : DeclRef} {t : TypeRef} (h : d.toTypeRef? = some t) :
    t.decl = d := by
  obtain ⟨k, r⟩ := d
  cases k <;> simp only [DeclRef.toTypeRef?, Option.some.injEq, reduceCtorEq] at h <;>
    exact h ▸ rfl

/-- A record can be taken for one of its kind, and for one of no other kind. -/
structure DeclRef.Casts (d : DeclRef) : Prop where
  ids : d.id.Casts
  same : d.to? d.kind = some d.ref ∧ d.expect d.kind = .ok d.ref
  other : ∀ k ≠ d.kind,
    d.to? k = none ∧ d.expect k = .error (.kindMismatch (.decl k) (.decl d.kind))
  isType : d.toTypeRef?.isSome = d.kind.toTypeKind?.isSome
  typeSame : ∀ t ∈ d.toTypeRef?, t.to? t.kind = some t.ref ∧ t.expect t.kind = .ok t.ref
  typeOther : ∀ t ∈ d.toTypeRef?, ∀ k ≠ t.kind,
    t.to? k = none ∧ t.expect k = .error (.kindMismatch (.decl k.toDecl) (.decl d.kind))

/-- The kind a record states is the one a breach names. -/
theorem DeclRef.casts_of_kind {d : DeclRef} (h : d.header.kind = .decl d.kind) : d.Casts := by
  have hsame : d.to? d.kind = some d.ref ∧ d.expect d.kind = .ok d.ref := by
    refine ⟨d.to?_self, ?_⟩
    rw [expect, d.to?_self]
  have hother : ∀ k ≠ d.kind,
      d.to? k = none ∧ d.expect k = .error (.kindMismatch (.decl k) (.decl d.kind)) := by
    intro k hk
    refine ⟨to?_of_ne hk, ?_⟩
    rw [expect, to?_of_ne hk, h]
  refine ⟨d.id.casts, hsame, hother, ?_, fun t ht => ?_, fun t ht k hk => ?_⟩
  · obtain ⟨k, r⟩ := d
    cases k <;> rfl
  · obtain rfl := TypeRef.decl_of_toTypeRef? ht
    exact hsame
  · obtain rfl := TypeRef.decl_of_toTypeRef? ht
    exact hother k.toDecl fun e => hk (TypeKind.toDecl_injective e)

/-! ## Attributes -/

namespace Record

/-- A cast that answers the value of the attributes of one kind, and breaks the contract on
those of any other kind, naming both. -/
structure CastsTo {α : Type} (r : Record .attributes) (k : AttributeKind)
    (value : α → AttributeValue) (cast : Contract α) : Prop where
  same : AttributeValue.kind r.body = k → ∃ v, r.body = value v ∧ cast = .ok v
  other : AttributeValue.kind r.body ≠ k →
    cast = .error (.kindMismatch (.attr k) (.attr (AttributeValue.kind r.body)))

/-- An attribute can be taken for one of its kind, and for one of no other kind. -/
structure Casts (r : Record .attributes) : Prop where
  flag : r.CastsTo .flag (fun _ => .flag) r.expectFlag
  int : r.CastsTo .int .int r.expectInt
  float : r.CastsTo .float .float r.expectFloat
  name : r.CastsTo .name .name r.expectName
  text : r.CastsTo .text .text r.expectText

variable {r : Record .attributes}

theorem castsTo_same {α : Type} {k : AttributeKind} {value : α → AttributeValue} {cast : Contract α}
    {v : α} (hbody : r.body = value v) (hcast : cast = .ok v)
    (hkind : AttributeValue.kind r.body = k) : r.CastsTo k value cast where
  same _ := ⟨v, hbody, hcast⟩
  other hne := absurd hkind hne

theorem castsTo_other {α : Type} {k : AttributeKind} {value : α → AttributeValue}
    (h : r.kind = r.expectedKind) (hne : AttributeValue.kind r.body ≠ k) :
    r.CastsTo k value (r.wrongValue k) where
  same heq := absurd heq hne
  other _ := by
    rw [wrongValue, h]
    rfl

/-- Of the casts of an attribute one meets its kind. -/
theorem casts_of_kind (h : r.kind = r.expectedKind) : r.Casts := by
  obtain ⟨header, body⟩ := r
  cases body <;> constructor <;> first
    | exact castsTo_same rfl rfl rfl
    | exact castsTo_other h (by simp [AttributeValue.kind])

end Record

end TypeAtlas
