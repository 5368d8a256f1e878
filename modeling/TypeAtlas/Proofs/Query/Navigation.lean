/-
Navigation over a valid image.

`Image.Sound` is what a caller may rely on at a record: every query is answered,
and the answers fit together.  It holds at every record that navigation comes
to.
-/
import TypeAtlas.Proofs.Build.Outcome
import TypeAtlas.Proofs.Query.Chains
import TypeAtlas.Proofs.Query.Reach

namespace TypeAtlas

/-- A property of declarations, which says nothing of attributes. -/
def Ref.OnDecl (P : DeclRef → Prop) : {a : Arena} → Ref a → Prop
  | .decl _, r => P r.decl
  | .attributes, _ => True

namespace Image

open Check

variable {img : Image} {a : Arena}

/-! ## What can be relied on -/

/-- A member list of a declaration is answered as a whole, by position and by
hash, and every member has the declaration as its owner. -/
structure ListSound (img : Image) (d : DeclRef) {b : Arena} (ids : Array (Id b))
    (rs : List (Ref b)) : Prop where
  members : img.members d.ref b = .ok ids
  all : img.refs ids = .ok rs
  get : ∀ i : Nat, ids[i]?.mapM img.ref = .ok rs[i]?
  find : ∀ hash, ∃ m, img.findIn ids hash = .ok m ∧ ∀ r ∈ m, r ∈ rs
  owner : ∀ m ∈ rs, img.parentOf m = .ok (some d)

/-- The chain of base classes ends, and no walk over it is cut short. -/
structure BasesSound (img : Image) (c : Ref .classes) (next : Option (Ref .classes))
    (bs : List (Ref .classes)) : Prop where
  base : img.baseOf c = .ok next
  chain : img.BaseChain next bs
  first : ∀ limit, img.firstBases c limit = .ok (bs.take limit)
  bases : img.bases c = .ok bs
  derives : ∀ other, img.derivesFrom c other = .ok (decide (other ∈ (c :: bs).map (·.id)))

/-- The chain of owners ends, and no walk over it is cut short. -/
structure ScopesSound (img : Image) (d : DeclRef) (next : Option DeclRef) (ds : List DeclRef) :
    Prop where
  parent : img.parentOf d.ref = .ok next
  chain : img.OwnerChain next ds
  scopes : img.scopesOf d = .ok ds
  qualified : img.qualifiedName d =
    .ok ("::".intercalate ((d :: ds).reverse.map fun e => (img.nameOf e.ref).textOrEmpty))

/-- What only declarations answer. -/
structure DeclSound (img : Image) (d : DeclRef) : Prop where
  casts : d.Casts
  lists : ∀ b, ∃ (ids : Array (Id b)) (rs : List (Ref b)), img.ListSound d ids rs
  scopes : ∃ next ds, img.ScopesSound d next ds

/-- What records of one kind answer beside their lists and their owner. -/
def KindSound (img : Image) : {a : Arena} → Ref a → Prop
  | .classes, c =>
    (∃ next bs, img.BasesSound c next bs) ∧ (∃ f, img.constructorOf c = .ok f) ∧
      ∃ f, img.destructorOf c = .ok f
  | .fields, f => ∃ t, img.typeOf f = .ok t
  | .functions, f => ∃ v, img.returnOf f = .ok v ∧ ∀ r ∈ v, img.parentOf r = .ok (some f.decl)
  | .templateTypes, t =>
    (∃ args, img.argumentsOf t = .ok args) ∧ ∃ template, img.templateOf t = .ok (some template)
  | .attributes, r => r.record.Casts ∧
    match r.record.body with
    | .name _ => ∃ n, img.nameValue r = .ok n ∧ (n.hash ≠ 0 → n.text.isSome)
    | .text _ => ∃ text, img.textValue r = .ok (some text)
    | _ => True
  | _, _ => True

/-- What can be relied on at a record. -/
structure Sound (img : Image) {a : Arena} (r : Ref a) : Prop where
  record : img.ref r.id = .ok r
  kind : r.record.kind = r.record.expectedKind
  name : (img.nameOf r).hash ≠ 0 → (img.nameOf r).text.isSome
  parent : ∃ p, img.parentOf r = .ok p ∧ (p = none ↔ img.IsRoot r)
  own : img.KindSound r
  decl : r.OnDecl img.DeclSound

/-! ## Links -/

theorem mapM_ref_of_holds (haddr : img.Addressable) {o : Option (Id a)}
    (h : ∀ id ∈ o, img.Holds id) : ∃ r, o.mapM img.ref = .ok r := by
  cases o with
  | none => exact ⟨none, rfl⟩
  | some id =>
    obtain ⟨r, hr, _⟩ := genuine_of_holds haddr (h id rfl)
    exact ⟨some r, bind_eq_ok_iff.mpr ⟨r, hr, rfl⟩⟩

theorem resolveType_of_holds (haddr : img.Addressable) {t : TypeId} (h : img.Holds t.decl.id) :
    ∃ r, img.resolveType t = .ok r := by
  obtain ⟨r, hr, _⟩ := genuine_of_holds haddr h
  exact ⟨⟨t.kind, r⟩, bind_eq_ok_iff.mpr ⟨r, hr, rfl⟩⟩

theorem mapM_resolveType_of_holds (haddr : img.Addressable) {o : Option TypeId}
    (h : ∀ t ∈ o, img.Holds t.decl.id) : ∃ r, o.mapM img.resolveType = .ok r := by
  cases o with
  | none => exact ⟨none, rfl⟩
  | some t =>
    obtain ⟨r, hr⟩ := resolveType_of_holds haddr (h t rfl)
    exact ⟨some r, bind_eq_ok_iff.mpr ⟨r, hr, rfl⟩⟩

/-- No type is the root namespace, so the size of its arena does not matter. -/
theorem resolveType_of_getElem? {t : TypeId} {r : Record t.decl.arena}
    (h : (img.arena t.decl.arena)[t.decl.id.index]? = some r) :
    img.resolveType t = .ok ⟨t.kind, t.id, r⟩ := by
  have hrecord : img.record? t.id = some r := by
    obtain ⟨k, raw⟩ := t
    cases k <;> exact h
  rw [resolveType, ref, hrecord]
  rfl

/-- The type index is searched without a breach where every type in it is held. -/
theorem getType_of_holds (hholds : ∀ t ∈ img.typeIndex, img.Holds t.decl.id) (hash : UInt32) :
    ∃ t, img.getType hash = .ok t := by
  have hresolve (t : TypeId) (ht : t ∈ img.typeIndex) : ∃ r, img.resolveType t = .ok r ∧
      r.header.name.hash = (img.hash? t.decl.id).getD 0 := by
    have hget := getElem?_eq_some_of_holds (hholds t ht)
    refine ⟨_, resolveType_of_getElem? hget, ?_⟩
    rw [hash?, hget]
    rfl
  have hkey : ∀ t ∈ img.typeIndex, img.typeHashAt t = .ok ((img.hash? t.decl.id).getD 0) := by
    intro t ht
    obtain ⟨r, hr, hhash⟩ := hresolve t ht
    rw [typeHashAt, hr]
    exact congrArg Except.ok hhash
  rw [getType, Search.byKeyM_eq_ok hkey hash]
  show ∃ t, (Option.bind _ (img.typeIndex[·]?)).mapM img.resolveType = .ok t
  cases hfound : (Search.byKey img.typeIndex (fun t => (img.hash? t.decl.id).getD 0) hash).bind
      (img.typeIndex[·]?) with
  | none => exact ⟨none, rfl⟩
  | some t =>
    obtain ⟨i, _, hi⟩ := Option.bind_eq_some_iff.mp hfound
    obtain ⟨r, hr, _⟩ := hresolve t (Array.mem_of_getElem? hi)
    exact ⟨some r, bind_eq_ok_iff.mpr ⟨r, hr, rfl⟩⟩

theorem mem_links_of_argument {t : Record .templateTypes} {arg : TypeId × Bool}
    (h : arg ∈ TemplateTypeBody.arguments t.body) : arg.1.decl ∈ t.links := by
  obtain ⟨⟨slot, pointer⟩, hslot, harg⟩ := List.mem_filterMap.mp h
  obtain ⟨ty, hty, rfl⟩ := Option.map_eq_some_iff.mp harg
  obtain rfl : slot = some ty := hty
  exact TemplateTypeBody.mem_links.mpr ⟨ty, Vector.mem_toList_iff.mp (List.of_mem_zip hslot).1, rfl⟩

section sound

variable (hsafe : img.Safe)

include hsafe

theorem Genuine.basesSound {c : Ref .classes} (h : img.Genuine c) :
    ∃ next bs, img.BasesSound c next bs := by
  obtain ⟨next, bs, hbase, hchain, hlen⟩ := h.baseChain hsafe
  have hfirst : ∀ limit, img.firstBases c limit = .ok (bs.take limit) := by
    intro limit
    rw [firstBases, hbase]
    exact hchain.basesFrom limit
  refine ⟨next, bs, hbase, hchain, hfirst, ?_, fun other => ?_⟩
  · rw [bases, hfirst, List.take_of_length_le hlen]
  · rw [derivesFrom]
    by_cases hc : c.id = other
    · simp only [hc, if_true, List.map_cons, List.mem_cons, true_or, decide_true]
      rfl
    · rw [if_neg hc, hbase]
      show img.derivesWithin other _ next = _
      rw [hchain.derivesWithin other hlen, List.map_cons]
      simp [Ne.symm hc]

theorem Genuine.scopesSound {d : DeclRef} (h : img.Genuine d.ref) :
    ∃ next ds, img.ScopesSound d next ds := by
  obtain ⟨next, ds, hnext, hchain, hlen⟩ := h.ownerChain hsafe
  have hscopes := OwnerChain.scopesOf hnext hchain hlen
  refine ⟨next, ds, hnext, hchain, hscopes, ?_⟩
  rw [qualifiedName, hscopes]
  rfl

theorem Genuine.listSound {d : DeclRef} (h : img.Genuine d.ref) (b : Arena) :
    ∃ (ids : Array (Id b)) (rs : List (Ref b)), img.ListSound d ids rs := by
  obtain ⟨ids, hids, hmembers⟩ := h.members hsafe b
  have hholds : ∀ id ∈ ids, img.Holds id := fun id hid => (hmembers id hid).1
  obtain ⟨rs, hrs, _⟩ := refs_of_holds hsafe.addressable hholds
  refine ⟨ids, rs, hids, hrs, refs_getElem? hrs,
    findIn_of_holds hsafe.addressable hholds hrs, fun m hm => ?_⟩
  obtain ⟨id, hid, hm⟩ := exists_of_mem_mapM hrs hm
  exact parentOf_of_owned h ((hmembers id (Array.mem_toList_iff.mp hid)).2 m hm)

theorem Genuine.declSound {d : DeclRef} (h : img.Genuine d.ref) : img.DeclSound d :=
  ⟨DeclRef.casts_of_kind (h.kind hsafe), h.listSound hsafe, h.scopesSound hsafe⟩

theorem Genuine.classSound {c : Ref .classes} (h : img.Genuine c) : img.KindSound c := by
  have hlinks := (h.membersFit hsafe).links
  refine ⟨h.basesSound hsafe, mapM_ref_of_holds hsafe.addressable fun f hf => ?_,
    mapM_ref_of_holds hsafe.addressable fun f hf => ?_⟩
  · exact hlinks f.decl (ClassBody.mem_links.mpr (.inr (.inl ⟨f, hf, rfl⟩)))
  · exact hlinks f.decl (ClassBody.mem_links.mpr (.inr (.inr ⟨f, hf, rfl⟩)))

theorem Genuine.functionSound {f : Ref .functions} (h : img.Genuine f) : img.KindSound f := by
  have hreturned := (h.membersFit hsafe).returned
  show ∃ v, (FunctionBody.returnField f.record.body).mapM img.ref = .ok v ∧ _
  cases hv : FunctionBody.returnField f.record.body with
  | none =>
    refine ⟨none, rfl, fun _ hr => ?_⟩
    cases hr
  | some id =>
    obtain ⟨⟨field, hfield, hparent⟩, _⟩ := hreturned id hv
    have href := ref_of_lookup hsafe.addressable (lookup_eq_ok_iff.mpr hfield)
    refine ⟨some ⟨id, field⟩, bind_eq_ok_iff.mpr ⟨_, href, rfl⟩, fun r hr => ?_⟩
    obtain rfl := Option.some.inj hr
    exact parentOf_of_owned h hparent

theorem Genuine.templateTypeSound {t : Ref .templateTypes} (h : img.Genuine t) :
    img.KindSound t := by
  have hlinks := (h.membersFit hsafe).links
  constructor
  · refine exists_mapM_eq_ok fun arg harg => ?_
    obtain ⟨r, hr⟩ := resolveType_of_holds hsafe.addressable (hlinks _ (mem_links_of_argument harg))
    exact ⟨(r, arg.2), bind_eq_ok_iff.mpr ⟨r, hr, rfl⟩⟩
  · rcases h.parent hsafe with ⟨hroot, _⟩ | ⟨_, d, hd, _, _, hallowed⟩
    · exact hroot.elim
    · rw [h.kind hsafe] at hallowed
      have hkind : d.kind = .template := by
        simpa [Record.expectedKind, Kind.allowsParent, Kind.owners, DeclKind.owners] using hallowed
      obtain ⟨k, r⟩ := d
      obtain rfl : k = .template := hkind
      refine ⟨r, ?_⟩
      rw [templateOf, hd]
      exact congrArg Except.ok (DeclRef.to?_self ⟨.template, r⟩)

theorem Genuine.attributeSound {r : Ref .attributes} (h : img.Genuine r) : img.KindSound r := by
  have hget := h.root_or_get.resolve_left id
  have hfits := hsafe.wellFormed.values _ (Array.mem_of_getElem? hget)
  refine ⟨Record.casts_of_kind (h.kind hsafe), ?_⟩
  cases hbody : r.record.body with
  | name n =>
    rw [hbody] at hfits
    refine ⟨img.resolveName n, ?_, resolveName_text hfits⟩
    rw [nameValue, Record.expectName, hbody]
    rfl
  | text s =>
    rw [hbody] at hfits
    obtain ⟨text, htext⟩ := Option.isSome_iff_exists.mp hfits
    refine ⟨text, ?_⟩
    rw [textValue, Record.expectText, hbody]
    exact congrArg Except.ok htext
  | _ => trivial

theorem Genuine.kindSound {r : Ref a} (h : img.Genuine r) : img.KindSound r := by
  cases a with
  | attributes => exact h.attributeSound hsafe
  | decl k =>
    cases k with
    | classType => exact h.classSound hsafe
    | field =>
      exact mapM_resolveType_of_holds hsafe.addressable fun t ht =>
        (h.membersFit hsafe).links _ (FieldBody.mem_links.mpr ⟨t, ht, rfl⟩)
    | function => exact h.functionSound hsafe
    | templateType => exact h.templateTypeSound hsafe
    | _ => trivial

/-- Whatever is genuine can be relied on. -/
theorem Genuine.sound {r : Ref a} (h : img.Genuine r) : img.Sound r where
  record := h
  kind := h.kind hsafe
  name := h.named hsafe
  parent := by
    rcases h.parent hsafe with ⟨hroot, hnone⟩ | ⟨hroot, d, hd, _⟩
    · exact ⟨none, hnone, fun _ => hroot, fun _ => rfl⟩
    · exact ⟨some d, hd, fun h => absurd h (Option.some_ne_none d), fun h => absurd h hroot⟩
  own := h.kindSound hsafe
  decl := by
    cases a with
    | attributes => trivial
    | decl k => exact Genuine.declSound hsafe h

/-! ## Lookups by hash -/

theorem getType_answers (hash : UInt32) : ∃ t, img.getType hash = .ok t :=
  getType_of_holds hsafe.wellFormed.types hash

theorem getName_text (hash : UInt32) :
    (img.getName hash).hash ≠ 0 → (img.getName hash).text.isSome := by
  rw [getName]
  by_cases hzero : (hash == 0) = true
  · rw [if_pos hzero]
    exact fun h => absurd rfl h
  · rw [if_neg hzero]
    cases hfound : (Search.byKey img.names (·.hash) hash).bind (img.names[·]?) with
    | none => exact fun h => absurd rfl h
    | some n =>
      obtain ⟨i, _, hi⟩ := Option.bind_eq_some_iff.mp hfound
      exact resolveName_text (hsafe.wellFormed.names n (Array.mem_of_getElem? hi))

end sound

/-- On an image that validation accepts every lookup is answered, and every record
that navigation comes to can be relied on. -/
theorem navigation_sound (img : Image) (haddr : img.Addressable) (hvalid : img.validate = .ok ()) :
    (∀ hash, (∃ t, img.getType hash = .ok t) ∧
      ((img.getName hash).hash ≠ 0 → (img.getName hash).text.isSome)) ∧
    (∀ (a : Arena) (id : Id a), img.Holds id → ∃ r, img.ref id = .ok r) ∧
      ∀ (a : Arena) (r : Ref a), img.Reached r → img.Sound r := by
  have hsafe : img.Safe := ⟨haddr, (validate_eq_ok_iff haddr).mp hvalid⟩
  refine ⟨fun hash => ⟨getType_answers hsafe hash, getName_text hsafe hash⟩, ?_, ?_⟩
  · intro a id hid
    obtain ⟨r, hr, _⟩ := genuine_of_holds haddr hid
    exact ⟨r, hr⟩
  · exact fun a r hr => (hr.genuine haddr).sound hsafe

theorem navigation_sound_shapes :
    (Draft.made .full Draft.shapes).image.Addressable ∧
      (Draft.made .full Draft.shapes).image.validate = .ok () ∧
      (∃ c : Ref .classes, c.id = ⟨1⟩ ∧ (Draft.made .full Draft.shapes).image.Sound c) ∧
      ∃ r : Ref .attributes, r.id = ⟨2⟩ ∧ (Draft.made .full Draft.shapes).image.Sound r := by
  have haddr := Draft.addressable_shapes
  have hvalid := Draft.validate_shapes
  obtain ⟨_, hids, hsound⟩ := navigation_sound _ haddr hvalid
  have hclass : (Draft.made .full Draft.shapes).image.Holds (⟨1⟩ : Id .classes) := by
    rw [Holds, Draft.size_image]
    decide +kernel
  have hattribute : (Draft.made .full Draft.shapes).image.Holds (⟨2⟩ : Id .attributes) := by
    rw [Holds, Draft.size_image]
    decide +kernel
  obtain ⟨c, hc⟩ := hids .classes ⟨1⟩ hclass
  obtain ⟨r, hr⟩ := hids .attributes ⟨2⟩ hattribute
  exact ⟨haddr, hvalid, ⟨c, (ref_eq_ok_iff.mp hc).1, hsound .classes c (.id hclass hc)⟩,
    ⟨r, (ref_eq_ok_iff.mp hr).1, hsound .attributes r (.id hattribute hr)⟩⟩

end Image
end TypeAtlas
