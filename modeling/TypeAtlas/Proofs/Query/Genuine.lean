/-
Queries at a genuine record.

A reference is genuine when it pairs an id with the record of that id.  On a
valid image every query at a genuine reference is answered, and answers only
genuine ones.
-/
import TypeAtlas.Proofs.Search
import TypeAtlas.Proofs.Validity.Acceptance

namespace TypeAtlas
namespace Image

open Check

variable {img : Image} {a : Arena}

/-- An image that validation accepts. -/
structure Safe (img : Image) : Prop where
  addressable : img.Addressable
  wellFormed : img.WellFormed

theorem safe_of_validate (haddr : img.Addressable) (h : img.validate = .ok ()) : img.Safe :=
  ⟨haddr, (validate_eq_ok_iff haddr).mp h⟩

/-- An id with the record it names. -/
def Genuine (img : Image) (r : Ref a) : Prop := img.ref r.id = .ok r

/-- The namespace that encloses all others. -/
def IsRoot (img : Image) : {a : Arena} → Ref a → Prop
  | .namespaces, r => r = img.rootRef
  | _, _ => False

theorem ref_eq_ok_iff {id : Id a} {r : Ref a} :
    img.ref id = .ok r ↔ r.id = id ∧ img.record? id = some r.record := by
  rw [ref]
  cases img.record? id with
  | none => simp
  | some record =>
    constructor
    · intro h
      have h := Except.ok.inj h
      subst h
      exact ⟨rfl, rfl⟩
    · rintro ⟨hid, hrecord⟩
      subst hid
      rw [Option.some.inj hrecord]

theorem genuine_of_ref {id : Id a} {r : Ref a} (h : img.ref id = .ok r) : img.Genuine r := by
  rw [Genuine, (ref_eq_ok_iff.mp h).1]
  exact h

theorem genuine_root (img : Image) : img.Genuine img.rootRef := rfl

theorem genuine_attribute_iff {m : Ref .attributes} :
    img.Genuine m ↔ (img.arena .attributes)[m.id.index]? = some m.record :=
  ref_eq_ok_iff.trans (and_iff_right rfl)

/-- A genuine record is the root namespace or lies in its arena. -/
theorem Genuine.root_or_get {r : Ref a} (h : img.Genuine r) :
    img.IsRoot r ∨ (img.arena a)[r.id.index]? = some r.record := by
  have hrecord := (ref_eq_ok_iff.mp h).2
  cases a with
  | attributes => exact Or.inr hrecord
  | decl k =>
    by_cases hroot : r.id.decl = .root
    · obtain ⟨⟨raw⟩, record⟩ := r
      obtain ⟨hk, hraw⟩ := DeclId.mk.inj hroot
      subst hk hraw
      exact Or.inl (congrArg (Ref.mk _) (Option.some.inj hrecord).symm)
    · rw [record?_of_ne_root img hroot] at hrecord
      exact Or.inr hrecord

theorem genuine_of_holds (haddr : img.Addressable) {id : Id a} (h : img.Holds id) :
    ∃ r, img.ref id = .ok r ∧ r.id = id ∧ (img.arena a)[id.index]? = some r.record := by
  have hget := getElem?_eq_some_of_holds h
  refine ⟨⟨id, _⟩, ref_eq_ok_iff.mpr ⟨rfl, ?_⟩, rfl, hget⟩
  rw [record?_of_holds haddr h]
  exact hget

theorem Genuine.getElem? (haddr : img.Addressable) {r : Ref a} (h : img.Genuine r)
    (hheld : img.Holds r.id) : (img.arena a)[r.id.index]? = some r.record := by
  rw [← record?_of_holds haddr hheld]
  exact (ref_eq_ok_iff.mp h).2

/-- A record of an arena is genuine. -/
theorem genuine_of_getElem? (haddr : img.Addressable) {r : Ref a}
    (h : (img.arena a)[r.id.index]? = some r.record) : img.Genuine r :=
  ref_eq_ok_iff.mpr ⟨rfl, (record?_of_holds haddr (holds_of_getElem? h)).trans h⟩

/-- What holds of the root namespace and of every record of an arena holds of
every genuine record. -/
theorem Genuine.elim {r : Ref a} (h : img.Genuine r) {motive : {a : Arena} → Ref a → Prop}
    (root : motive img.rootRef)
    (get : ∀ {a : Arena} {r : Ref a}, (img.arena a)[r.id.index]? = some r.record → motive r) :
    motive r := by
  rcases h.root_or_get with hroot | hget
  · cases a with
    | attributes => exact hroot.elim
    | decl k =>
      cases k with
      | nameSpace =>
        have heq : r = img.rootRef := hroot
        exact heq ▸ root
      | _ => exact hroot.elim
  · exact get hget

/-! ## Kind and name -/

theorem Genuine.kind (hsafe : img.Safe) {r : Ref a} (h : img.Genuine r) :
    r.record.kind = r.record.expectedKind :=
  h.elim (motive := fun r => r.record.kind = r.record.expectedKind) hsafe.wellFormed.root.1
    fun hget => (hsafe.wellFormed.records _ _ (Array.mem_of_getElem? hget)).kind

theorem resolveName_text {n : NameSpan} (h : (n.text.resolve? img.nameBlob).isSome)
    (hhash : (img.resolveName n).hash ≠ 0) : (img.resolveName n).text.isSome := by
  rw [resolveName, NameSpan.resolve] at hhash ⊢
  by_cases hempty : n.isEmpty = true
  · rw [if_pos hempty] at hhash
    exact absurd rfl hhash
  · rw [if_neg hempty]
    exact h

theorem Genuine.named (hsafe : img.Safe) {r : Ref a} (h : img.Genuine r) :
    (img.nameOf r).hash ≠ 0 → (img.nameOf r).text.isSome := by
  refine h.elim (motive := fun r => (img.nameOf r).hash ≠ 0 → (img.nameOf r).text.isSome) ?_ ?_
  · intro hhash
    have hempty : img.nameOf img.rootRef = .empty := by
      have hzero : img.root.name.isEmpty = true := beq_iff_eq.mpr hsafe.wellFormed.root.2.2
      rw [nameOf, resolveName, NameSpan.resolve]
      exact if_pos hzero
    rw [hempty] at hhash
    exact absurd rfl hhash
  · intro _ r hget
    exact resolveName_text (hsafe.wellFormed.records _ _ (Array.mem_of_getElem? hget)).name

/-! ## Owner -/

theorem resolve_of_knows {p : DeclId} (hp : img.Knows p) :
    ∃ d, img.resolve p = .ok d ∧ d.id = p ∧ img.Genuine d.ref := by
  obtain ⟨r, hr, _⟩ := ref_of_knows hp
  refine ⟨⟨p.kind, ⟨p.id, r⟩⟩, ?_, rfl, genuine_of_ref hr⟩
  rw [resolve, hr]
  rfl

theorem resolve_of_genuine {k : DeclKind} {r : Ref (.decl k)} (h : img.Genuine r) :
    img.resolve r.id.decl = .ok r.decl := by
  have href : img.ref r.id.decl.id = .ok r := h
  rw [resolve, href]
  rfl

/-- Only the root namespace has no owner, and an owner may own what it owns. -/
theorem Genuine.parent (hsafe : img.Safe) {r : Ref a} (h : img.Genuine r) :
    (img.IsRoot r ∧ img.parentOf r = .ok none) ∨
      ¬ img.IsRoot r ∧ ∃ d, img.parentOf r = .ok (some d) ∧ img.Genuine d.ref ∧
        r.record.parent = some d.id ∧ r.record.kind.allowsParent (.decl d.kind) := by
  by_cases hroot : img.IsRoot r
  · refine Or.inl ⟨hroot, ?_⟩
    cases a with
    | attributes => exact hroot.elim
    | decl k =>
      cases k with
      | nameSpace =>
        have heq : r = img.rootRef := hroot
        have hparent : r.record.parent = none := by
          rw [heq]
          exact hsafe.wellFormed.root.2.1
        rw [parentOf, hparent]
        rfl
      | _ => exact hroot.elim
  · have hget := h.root_or_get.resolve_left hroot
    obtain ⟨p, hp, hknown, hallowed⟩ :=
      (hsafe.wellFormed.records _ _ (Array.mem_of_getElem? hget)).owner
    obtain ⟨d, hd, hid, hgenuine⟩ := resolve_of_knows hknown
    subst hid
    refine Or.inr ⟨hroot, d, ?_, hgenuine, hp, hallowed⟩
    rw [parentOf, hp]
    show (img.resolve d.id >>= fun x => pure (some x)) = _
    rw [hd]
    rfl

/-- A record that states a genuine one as its owner has it as its owner. -/
theorem parentOf_of_owned {k : DeclKind} {r : Ref (.decl k)} (h : img.Genuine r) {m : Ref a}
    (hm : m.record.parent = some r.id.decl) : img.parentOf m = .ok (some r.decl) := by
  rw [parentOf, hm]
  show (img.resolve r.id.decl >>= fun x => pure (some x)) = _
  rw [resolve_of_genuine h]
  rfl

/-! ## Links and member lists -/

theorem Genuine.membersFit (hsafe : img.Safe) {k : DeclKind} {r : Ref (.decl k)}
    (h : img.Genuine r) : img.MembersFit r.id.decl r.record := by
  by_cases hroot : img.IsRoot r
  · cases k with
    | nameSpace =>
      have heq : r = img.rootRef := hroot
      rw [heq]
      exact hsafe.wellFormed.rootMembers
    | _ => exact hroot.elim
  · have hmembers := hsafe.wellFormed.members k _ _ (h.root_or_get.resolve_left hroot)
    have hraw : UInt32.ofNat r.id.index = r.id.raw := r.id.raw.ofNat_toNat
    rw [hraw] at hmembers
    exact hmembers

theorem members_of_not_mem {k : DeclKind} (r : Record (.decl k)) {b : Arena}
    (h : b ∉ k.memberArenas) : r.members b = .empty := by
  cases b with
  | attributes => cases k <;> first | rfl | exact absurd (by decide) h
  | decl j => cases k <;> cases j <;> first | rfl | exact absurd (by decide) h

theorem Genuine.listFits (hsafe : img.Safe) {k : DeclKind} {r : Ref (.decl k)}
    (h : img.Genuine r) (b : Arena) : img.ListFits r.id.decl (r.record.members b) := by
  by_cases hb : b ∈ k.memberArenas
  · exact (h.membersFit hsafe).lists b hb
  · rw [members_of_not_mem r.record hb]
    exact listFits_empty _ _

/-- The records of a list are the genuine ones with an id in it. -/
theorem mem_refs_iff {a : Arena} {ids : Array (Id a)} {rs : List (Ref a)}
    (h : img.refs ids = .ok rs) {m : Ref a} : m ∈ rs ↔ m.id ∈ ids ∧ img.Genuine m := by
  rw [Check.mem_mapM_iff h]
  constructor
  · rintro ⟨id, hid, hm⟩
    exact ⟨(ref_eq_ok_iff.mp hm).1 ▸ Array.mem_toList_iff.mp hid, genuine_of_ref hm⟩
  · rintro ⟨hid, hm⟩
    exact ⟨m.id, Array.mem_toList_iff.mpr hid, hm⟩

theorem resolveType_eq_ok_iff {id : TypeId} {t : TypeRef} :
    img.resolveType id = .ok t ↔ t.id = id ∧ img.Genuine t.ref := by
  constructor
  · intro h
    obtain ⟨r, hr, heq⟩ := bind_eq_ok_iff.mp h
    obtain rfl := Except.ok.inj heq
    have hid : r.id = id.id := (ref_eq_ok_iff.mp hr).1
    exact ⟨congrArg (TypeId.mk id.kind) (congrArg Id.raw hid), genuine_of_ref hr⟩
  · rintro ⟨rfl, h⟩
    exact bind_eq_ok_iff.mpr ⟨t.ref, h, rfl⟩

/-- The types of the index are the genuine ones with an id in it. -/
theorem mem_types_iff {ts : List TypeRef}
    (h : img.typeIndex.toList.mapM img.resolveType = .ok ts) {t : TypeRef} :
    t ∈ ts ↔ t.id ∈ img.typeIndex ∧ img.Genuine t.ref := by
  rw [Check.mem_mapM_iff h]
  constructor
  · rintro ⟨id, hid, ht⟩
    obtain ⟨rfl, hgenuine⟩ := resolveType_eq_ok_iff.mp ht
    exact ⟨Array.mem_toList_iff.mp hid, hgenuine⟩
  · rintro ⟨hid, hgenuine⟩
    exact ⟨t.id, Array.mem_toList_iff.mpr hid, resolveType_eq_ok_iff.mpr ⟨rfl, hgenuine⟩⟩

theorem refs_of_holds (haddr : img.Addressable) {ids : Array (Id a)}
    (h : ∀ id ∈ ids, img.Holds id) :
    ∃ rs, img.refs ids = .ok rs ∧ ∀ m ∈ rs, m.id ∈ ids ∧ img.Genuine m := by
  have hanswer : ∀ id ∈ ids.toList, ∃ r, img.ref id = .ok r := by
    intro id hid
    obtain ⟨r, hr, _⟩ := genuine_of_holds haddr (h id (Array.mem_toList_iff.mp hid))
    exact ⟨r, hr⟩
  obtain ⟨rs, hrs⟩ := exists_mapM_eq_ok hanswer
  exact ⟨rs, hrs, fun m hm => (mem_refs_iff hrs).mp hm⟩

theorem refs_getElem? {ids : Array (Id a)} {rs : List (Ref a)} (h : img.refs ids = .ok rs)
    (i : Nat) : ids[i]?.mapM img.ref = .ok rs[i]? := by
  rw [← Array.getElem?_toList]
  exact mapM_getElem? h i

theorem findIn_of_holds (haddr : img.Addressable) {ids : Array (Id a)}
    (h : ∀ id ∈ ids, img.Holds id) {rs : List (Ref a)} (hrs : img.refs ids = .ok rs)
    (hash : UInt32) : ∃ found, img.findIn ids hash = .ok found ∧ ∀ m ∈ found, m ∈ rs := by
  have hkey : ∀ id ∈ ids, img.hashAt id = .ok ((img.hash? id).getD 0) := by
    intro id hid
    obtain ⟨r, hr, _, hget⟩ := genuine_of_holds haddr (h id hid)
    rw [hashAt, hr, hash?, hget]
    rfl
  rw [findIn, Search.byKeyM_eq_ok hkey hash]
  cases hfound : Search.byKey ids (fun id => (img.hash? id).getD 0) hash with
  | none =>
    refine ⟨none, rfl, fun _ hm => ?_⟩
    cases hm
  | some i =>
    refine ⟨rs[i]?, refs_getElem? hrs i, fun m hm => ?_⟩
    exact List.mem_of_getElem? hm

theorem ids_eq_ok_iff {b : Arena} {l : IdList b} {ids : Array (Id b)} :
    img.ids l = .ok ids ↔ l.stop ≤ (img.pool b).size ∧ ids.toList = img.listed l := by
  rw [← slice?_eq_some_iff, Image.ids]
  cases l.slice? (img.pool b) <;> simp

/-- The members of a genuine declaration, all of which have it as their owner. -/
theorem Genuine.members (hsafe : img.Safe) {k : DeclKind} {r : Ref (.decl k)}
    (h : img.Genuine r) (b : Arena) :
    ∃ ids, img.members r b = .ok ids ∧
      ∀ id ∈ ids, img.Holds id ∧ ∀ m, img.ref id = .ok m → m.record.parent = some r.id.decl := by
  have hfits := h.listFits hsafe b
  obtain ⟨ids, hslice⟩ : ∃ ids, (r.record.members b).slice? (img.pool b) = some ids :=
    ⟨_, if_pos hfits.inPool⟩
  have hids := ids_eq_ok_iff.mpr (slice?_eq_some_iff.mp hslice)
  refine ⟨ids, hids, fun id hid => ?_⟩
  have hlisted : id ∈ img.listed (r.record.members b) :=
    (ids_eq_ok_iff.mp hids).2 ▸ Array.mem_toList_iff.mpr hid
  obtain ⟨m, hm, hparent⟩ := hfits.owned id hlisted
  have hholds := holds_of_getElem? hm
  refine ⟨hholds, fun m' hm' => ?_⟩
  have hrecord := (ref_eq_ok_iff.mp hm').2
  rw [record?_of_holds hsafe.addressable hholds, hm] at hrecord
  rw [← Option.some.inj hrecord]
  exact hparent

/-- A list of a genuine declaration has the records with an id in it. -/
theorem Genuine.exists_refs (hsafe : img.Safe) {k : DeclKind} {r : Ref (.decl k)}
    (h : img.Genuine r) (b : Arena) :
    ∃ ids ms, img.members r b = .ok ids ∧ img.refs ids = .ok ms ∧
      ∀ m, m ∈ ms ↔ m.id ∈ img.listed (r.record.members b) ∧ img.Genuine m := by
  obtain ⟨ids, hids, hheld⟩ := h.members hsafe b
  obtain ⟨ms, hms, _⟩ := refs_of_holds hsafe.addressable fun id hid => (hheld id hid).1
  refine ⟨ids, ms, hids, hms, fun m => ?_⟩
  rw [mem_refs_iff hms, ← (ids_eq_ok_iff.mp hids).2, Array.mem_toList_iff]

end Image
end TypeAtlas
