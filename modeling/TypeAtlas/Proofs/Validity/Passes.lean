/-
What each pass over an image accepts.

One lemma for each check of `TypeAtlas.Image.Validity` that looks at records one
by one: it accepts exactly when the clause of `WellFormed` holds that it is for.
The two passes over chains of references have modules of their own.
-/
import TypeAtlas.Proofs.Check
import TypeAtlas.Proofs.Validity.WellFormed

namespace TypeAtlas
namespace Image

open Check

variable {img : Image}

/-! ## Lookups -/

theorem lookup_eq_ok_iff {a : Arena} {id : Id a} {r : Record a} :
    img.lookup id = .ok r ↔ (img.arena a)[id.index]? = some r := by
  rw [lookup]
  cases h : (img.arena a)[id.index]? <;> simp

theorem holds_iff_lookup {a : Arena} {id : Id a} :
    img.Holds id ↔ ∃ r, img.lookup id = .ok r := by
  simp only [lookup_eq_ok_iff]
  constructor
  · intro h
    exact ⟨_, getElem?_eq_some_of_holds h⟩
  · rintro ⟨_, h⟩
    exact holds_of_getElem? h

theorem checkLink_eq_ok_iff {d : DeclId} : img.checkLink d = .ok () ↔ img.Holds d.id := by
  rw [checkLink, discard_eq_ok_iff, holds_iff_lookup]

theorem checkOwnerId_eq_ok_iff {d : DeclId} : img.checkOwnerId d = .ok () ↔ img.Knows d := by
  rw [checkOwnerId, Knows]
  by_cases h : d.isRoot = true
  · rw [if_pos h]
    exact ⟨fun _ => Or.inl (isRoot_iff.mp h), fun _ => rfl⟩
  · rw [if_neg h, discard_eq_ok_iff, holds_iff_lookup]
    refine ⟨Or.inr, fun hd => hd.resolve_left fun e => h (isRoot_iff.mpr e)⟩

/-! ## Profile and root -/

theorem checkProfile_eq_ok_iff :
    img.checkProfile = .ok () ↔ (img.profile = .reduced → img.arena .attributes = #[] ∧
      img.arena .templates = #[] ∧ img.arena .templateTypes = #[]) := by
  rw [checkProfile]
  cases img.profile with
  | full => simp [Profile.allows]
  | reduced =>
    simp only [Profile.allows, forall_const, ← Array.isEmpty_iff]
    cases (img.arena .attributes).isEmpty <;> cases (img.arena .templates).isEmpty <;>
      cases (img.arena .templateTypes).isEmpty <;> simp

theorem checkRoot_eq_ok_iff :
    img.checkRoot = .ok () ↔
      img.root.kind = .decl .nameSpace ∧ img.root.parent = none ∧ img.root.hash = 0 := by
  rw [checkRoot, ensure_eq_ok_iff, Bool.and_eq_true, Bool.and_eq_true, beq_iff_eq,
    Option.isNone_iff_eq_none, NameSpan.isEmpty, beq_iff_eq, and_assoc]
  rfl

/-! ## Records -/

theorem checkName_eq_ok_iff {kind : Kind} {n : NameSpan} :
    img.checkName kind n = .ok () ↔ (n.text.resolve? img.nameBlob).isSome := by
  rw [checkName, checkText, ensure_eq_ok_iff]

theorem checkHeader_eq_ok_iff {h : Header} {i : Nat} :
    img.checkHeader h i = .ok () ↔
      (∃ p, h.parent = some p ∧ img.Knows p ∧ h.kind.allowsParent (.decl p.kind)) ∧
        (h.name.text.resolve? img.nameBlob).isSome := by
  rw [checkHeader]
  cases hp : h.parent with
  | none => simp
  | some p =>
    simp only [then_eq_ok_iff, checkOwnerId_eq_ok_iff, ensure_eq_ok_iff, checkName_eq_ok_iff,
      Option.some.injEq, exists_eq_left', and_assoc]

theorem checkValue_attribute_eq_ok_iff {r : Record .attributes} :
    img.checkValue r = .ok () ↔ img.ValueFits r.body := by
  obtain ⟨header, value⟩ := r
  cases value with
  | name value => exact checkName_eq_ok_iff
  | text value => exact ensure_eq_ok_iff
  | _ => exact ⟨fun _ => trivial, fun _ => rfl⟩

theorem checkRecord_eq_ok_iff {a : Arena} {r : Record a} {i : Nat} :
    img.checkRecord r i = .ok () ↔ img.checkValue r = .ok () ∧ img.RecordFits r := by
  simp only [checkRecord, then_eq_ok_iff, ensure_eq_ok_iff, beq_iff_eq, checkHeader_eq_ok_iff]
  constructor
  · rintro ⟨hv, hk, ho, hn⟩
    exact ⟨hv, hk, ho, hn⟩
  · rintro ⟨hv, hk, ho, hn⟩
    exact ⟨hv, hk, ho, hn⟩

theorem forM_zipIdx_eq_ok_iff {α : Type} {xs : Array α} {f : α × Nat → Except ImageFault Unit} :
    xs.toList.zipIdx.forM f = .ok () ↔ ∀ i x, xs[i]? = some x → f (x, i) = .ok () := by
  rw [forM_eq_ok_iff]
  constructor
  · intro h i x hx
    exact h (x, i) (List.mem_zipIdx_iff_getElem?.mpr (by simpa using hx))
  · rintro h ⟨x, i⟩ hx
    exact h i x (by simpa using List.mem_zipIdx_iff_getElem?.mp hx)

theorem checkArena_eq_ok_iff {a : Arena} :
    img.checkArena a = .ok () ↔
      (∀ r ∈ img.arena a, img.checkValue r = .ok () ∧ img.RecordFits r) ∧
        ((img.arena a).toList.map (·.hash)).Pairwise (· ≤ ·) := by
  simp only [checkArena, then_eq_ok_iff, forM_zipIdx_eq_ok_iff, ensureSorted_eq_ok_iff,
    checkRecord_eq_ok_iff]
  refine and_congr_left fun _ => ⟨fun h r hr => ?_, fun h i r hr => h r (Array.mem_of_getElem? hr)⟩
  obtain ⟨i, hi⟩ := Array.getElem?_of_mem hr
  exact h i r hi

/-- All arenas pass exactly when all records fit, the values of attributes do and
every arena ascends. -/
theorem checkArenas_eq_ok_iff :
    Arena.all.forM img.checkArena = .ok () ↔
      (∀ a, ∀ r ∈ img.arena a, img.RecordFits r) ∧
        (∀ r ∈ img.arena .attributes, img.ValueFits r.body) ∧
          ∀ a, ((img.arena a).toList.map (·.hash)).Pairwise (· ≤ ·) := by
  simp only [forM_eq_ok_iff, checkArena_eq_ok_iff]
  constructor
  · intro h
    refine ⟨fun a r hr => ((h a a.mem_all).1 r hr).2, fun r hr => ?_, fun a => (h a a.mem_all).2⟩
    exact checkValue_attribute_eq_ok_iff.mp ((h _ Arena.attributes.mem_all).1 r hr).1
  · rintro ⟨hr, hv, hs⟩ a _
    refine ⟨fun r hmem => ⟨?_, hr a r hmem⟩, hs a⟩
    cases a with
    | decl k => rfl
    | attributes => exact checkValue_attribute_eq_ok_iff.mpr (hv r hmem)

/-! ## Links and member lists -/

theorem slice?_eq_some_iff {b : Arena} {list : IdList b} {ids : Array (Id b)} :
    list.slice? (img.pool b) = some ids ↔
      list.stop ≤ (img.pool b).size ∧ ids.toList = img.listed list := by
  rw [IdList.slice?, listed]
  by_cases h : list.stop ≤ (img.pool b).size
  · rw [if_pos h]
    simp only [Option.some.injEq, h, true_and, ← Array.toList_inj]
    exact eq_comm
  · rw [if_neg h]
    simp [h]

def Owned (img : Image) (owner : DeclId) {b : Arena} (id : Id b) : Prop :=
  ∃ m, (img.arena b)[id.index]? = some m ∧ m.parent = some owner

theorem isSome_hash? {a : Arena} {id : Id a} (h : img.Holds id) : (img.hash? id).isSome := by
  rw [hash?, getElem?_eq_some_of_holds h]
  rfl

theorem checkMember_eq_ok_iff {owner : DeclId} {b : Arena} {id : Id b} {hash : UInt32} :
    img.checkMember owner id = .ok hash ↔ img.Owned owner id ∧ img.hash? id = some hash := by
  rw [checkMember, bind_eq_ok_iff]
  simp only [then_eq_ok_iff, lookup_eq_ok_iff, ensure_eq_ok_iff, beq_iff_eq, hash?]
  constructor
  · rintro ⟨m, hm, hp, hh⟩
    rw [hm]
    exact ⟨⟨m, hm, hp⟩, congrArg some (Except.ok.inj hh)⟩
  · rintro ⟨⟨m, hm, hp⟩, hh⟩
    rw [hm] at hh
    exact ⟨m, hm, hp, congrArg Except.ok (Option.some.inj hh)⟩

theorem checkList_eq_ok_iff {owner : DeclId} {b : Arena} {list : IdList b} :
    img.checkList owner list = .ok () ↔ img.ListFits owner list := by
  rw [checkList]
  split
  case h_1 hs =>
    refine ⟨fun h => by simp at h, fun h => ?_⟩
    rw [IdList.slice?, if_pos h.inPool] at hs
    simp at hs
  case h_2 ids hs =>
    obtain ⟨hpool, hids⟩ := slice?_eq_some_iff.mp hs
    have hmembers {hashes : List UInt32} :
        (img.listed list).mapM (img.checkMember owner) = .ok hashes ↔
          (∀ id ∈ img.listed list, img.Owned owner id) ∧
            hashes = (img.listed list).filterMap img.hash? := by
      refine mapM_eq_ok_iff_filterMap (fun _ _ => checkMember_eq_ok_iff) fun id hid => ?_
      obtain ⟨m, hm, _⟩ := hid
      exact isSome_hash? (holds_of_getElem? hm)
    simp only [bind_eq_ok_iff, ensureSorted_eq_ok_iff, hids, hmembers]
    constructor
    · rintro ⟨_, ⟨hm, hh⟩, ha⟩
      subst hh
      exact ⟨hpool, hm, ha⟩
    · rintro ⟨_, hm, ha⟩
      exact ⟨_, ⟨hm, rfl⟩, ha⟩

/-- Of a list in its pool exactly the listed ids are compared with the return
field. -/
theorem contains_slice? {b : Arena} {list : IdList b} (h : list.stop ≤ (img.pool b).size)
    (id : Id b) :
    ((list.slice? (img.pool b)).getD #[]).contains id = true ↔ id ∈ img.listed list := by
  rw [IdList.slice?, if_pos h, Option.getD_some, Array.contains_iff_mem, ← Array.mem_toList_iff,
    listed]

/-- The return field is checked after the list of parameters. -/
theorem checkReturn_eq_ok_iff {owner : DeclId} {r : Record .functions}
    (h : (r.members .fields).stop ≤ (img.pool .fields).size) :
    img.checkReturn owner r = .ok () ↔
      ∀ id, r.returnField? = some id →
        (∃ field, (img.arena .fields)[id.index]? = some field ∧ field.parent = some owner) ∧
          id ∉ img.listed (r.members .fields) := by
  unfold checkReturn Record.returnField?
  dsimp only
  cases FunctionBody.returnField r.body with
  | none =>
    refine ⟨fun _ _ hid => ?_, fun _ => rfl⟩
    cases hid
  | some id =>
    have hlisted := contains_slice? h id
    simp only [bind_eq_ok_iff, lookup_eq_ok_iff, ensure_eq_ok_iff, Bool.and_eq_true, beq_iff_eq,
      Bool.not_eq_true', ← Bool.not_eq_true]
    constructor
    · rintro ⟨m, hm, hp, hl⟩ _ hid
      obtain rfl := Option.some.inj hid
      exact ⟨⟨m, hm, hp⟩, fun h => hl (hlisted.mpr h)⟩
    · intro h
      obtain ⟨⟨m, hm, hp⟩, hl⟩ := h id rfl
      exact ⟨m, hm, hp, fun h => hl (hlisted.mp h)⟩

theorem checkMembers_eq_ok_iff {owner : DeclId} {r : Record owner.arena} :
    img.checkMembers owner r = .ok () ↔ img.MembersFit owner r := by
  have hreturn (hlists : ∀ b ∈ owner.kind.memberArenas, img.ListFits owner (r.members b)) :
      img.checkReturn owner r = .ok () ↔ ∀ id, r.returnField? = some id →
        (∃ field, (img.arena .fields)[id.index]? = some field ∧ field.parent = some owner) ∧
          id ∉ img.listed (r.members .fields) := by
    obtain ⟨k, raw⟩ := owner
    cases k with
    | function =>
      have hmem : Arena.fields ∈ DeclKind.function.memberArenas := by decide
      exact checkReturn_eq_ok_iff (hlists .fields hmem).inPool
    | _ =>
      refine ⟨fun _ id hid => ?_, fun _ => rfl⟩
      have hid : none = some id := hid
      cases hid
  simp only [checkMembers, then_eq_ok_iff, forM_eq_ok_iff, checkLink_eq_ok_iff,
    checkList_eq_ok_iff]
  constructor
  · rintro ⟨hlinks, hlists, hret⟩
    exact ⟨hlinks, hlists, (hreturn hlists).mp hret⟩
  · rintro ⟨hlinks, hlists, hret⟩
    exact ⟨hlinks, hlists, (hreturn hlists).mpr hret⟩

theorem checkMembersOf_eq_ok_iff {k : DeclKind} :
    img.checkMembersOf k = .ok () ↔
      ∀ i r, (img.arena (.decl k))[i]? = some r → img.MembersFit ⟨k, .ofNat i⟩ r := by
  rw [checkMembersOf, forM_zipIdx_eq_ok_iff]
  exact forall₂_congr fun _ _ => imp_congr_right fun _ => checkMembers_eq_ok_iff

/-! ## Type index and name table -/

theorem typeHash?_eq (t : TypeId) : img.typeHash? t = img.hash? t.decl.id := by
  have hrecord := img.record?_of_ne_root (show t.decl.id.decl ≠ .root from type_ne_root t)
  rw [typeHash?, header?, hrecord, hash?, Option.map_map]
  rfl

theorem checkTypeIndex_eq_ok_iff :
    img.checkTypeIndex = .ok () ↔ (∀ t ∈ img.typeIndex, img.Holds t.decl.id) ∧
      (img.typeIndex.toList.filterMap img.typeHash?).Pairwise (· ≤ ·) := by
  have hhash (t : TypeId) (hash : UInt32) :
      (do let r ← img.lookup t.decl.id; return r.hash : Except ImageFault UInt32) = .ok hash ↔
        img.Holds t.decl.id ∧ img.typeHash? t = some hash := by
    rw [bind_eq_ok_iff, typeHash?_eq, hash?]
    simp only [lookup_eq_ok_iff]
    constructor
    · rintro ⟨r, hr, hh⟩
      rw [hr]
      exact ⟨holds_of_getElem? hr, congrArg some (Except.ok.inj hh)⟩
    · rintro ⟨hd, hh⟩
      rw [getElem?_eq_some_of_holds hd] at hh
      exact ⟨_, getElem?_eq_some_of_holds hd, congrArg Except.ok (Option.some.inj hh)⟩
  have hsome (t : TypeId) (ht : img.Holds t.decl.id) : (img.typeHash? t).isSome := by
    rw [typeHash?_eq]
    exact isSome_hash? ht
  rw [checkTypeIndex, bind_eq_ok_iff]
  constructor
  · rintro ⟨hashes, hm, ha⟩
    obtain ⟨hin, rfl⟩ := (mapM_eq_ok_iff_filterMap hhash hsome).mp hm
    exact ⟨fun t ht => hin t (Array.mem_toList_iff.mpr ht), ensureSorted_eq_ok_iff.mp ha⟩
  · rintro ⟨hin, ha⟩
    have hm := (mapM_eq_ok_iff_filterMap hhash hsome).mpr
      ⟨fun t ht => hin t (Array.mem_toList_iff.mp ht), rfl⟩
    exact ⟨_, hm, ensureSorted_eq_ok_iff.mpr ha⟩

theorem checkNames_eq_ok_iff :
    img.checkNames = .ok () ↔ (∀ n ∈ img.names, (n.text.resolve? img.nameBlob).isSome) ∧
      (img.names.toList.map (·.hash)).Pairwise (· ≤ ·) := by
  simp only [checkNames, then_eq_ok_iff, forM_eq_ok_iff, checkName_eq_ok_iff,
    ensureSorted_eq_ok_iff, Array.mem_toList_iff]

end Image
end TypeAtlas
