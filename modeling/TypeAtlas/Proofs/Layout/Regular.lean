/-
The image of a sound draft is regular.

Clause by clause: headers and links were sound before they were renamed, lists
hold what their owner owns, and the type index and the name table are sorted.
-/
import TypeAtlas.Proofs.Layout.Image

namespace TypeAtlas

/-! ## Type index -/

namespace Records

theorem mem_types {rs : Records} {hash : UInt32} {t : TypeId} (h : (hash, t) ∈ rs.types) :
    ∃ (i : Nat) (r : Record (.decl t.kind.toDecl)),
      (rs.get (.decl t.kind.toDecl))[i]? = some r ∧ t.raw = .ofNat i ∧ r.hash = hash := by
  obtain ⟨k, _, hk⟩ := List.mem_flatMap.mp h
  obtain ⟨⟨r, i⟩, hentry, heq⟩ := List.mem_map.mp hk
  obtain ⟨hhash, ht⟩ := Prod.mk.inj heq
  subst ht
  refine ⟨i, r, ?_, rfl, hhash⟩
  simpa using List.mem_zipIdx_iff_getElem?.mp hentry

end Records

namespace Draft

open Relation (TransGen)

variable {d : Draft}

theorem typeHash?_image (haddr : d.raw.Addressable) {hash : UInt32} {t : TypeId}
    (h : (hash, t) ∈ Records.types d.renumbered) :
    d.image.Holds t.decl.id ∧ d.image.typeHash? t = some hash := by
  obtain ⟨i, r, hr, hraw, hhash⟩ := Records.mem_types h
  have hi := (Array.getElem?_eq_some_iff.mp hr).1
  have hindex : t.decl.id.index = i := by
    show t.raw.toNat = i
    rw [hraw, UInt32.toNat_ofNat_of_lt' (Nat.lt_trans hi (sizes_renumbered haddr _))]
  have hget : (d.image.arena (.decl t.decl.kind))[t.decl.id.index]? =
      some (Records.finish d.renumbered (Records.spans d.renumbered) i r) := by
    rw [hindex]
    show (d.image.arena (.decl t.kind.toDecl))[i]? = _
    rw [image_getElem?, hr]
    rfl
  refine ⟨Image.holds_of_getElem? hget, ?_⟩
  rw [Image.typeHash?_eq, Image.hash?, hget]
  have hheader := Records.header_finish d.renumbered (Records.spans d.renumbered) i r
  exact congrArg some ((congrArg (fun h : Header => h.name.hash) hheader).trans hhash)

theorem mem_typeIndex {t : TypeId} (h : t ∈ d.image.typeIndex) :
    ∃ hash, (hash, t) ∈ Records.types d.renumbered := by
  have hmem : t ∈ ((Records.types d.renumbered).mergeSort fun x y => x.1 ≤ y.1).map (·.2) := by
    simpa [image, Records.typeIndex] using h
  obtain ⟨⟨hash, _⟩, hentry, rfl⟩ := List.mem_map.mp hmem
  exact ⟨hash, List.mem_mergeSort.mp hentry⟩

theorem typeIndex_sorted (haddr : d.raw.Addressable) :
    (d.image.typeIndex.toList.filterMap d.image.typeHash?).Pairwise (· ≤ ·) := by
  show (List.filterMap _ (List.map _ _)).Pairwise _
  rw [List.filterMap_map]
  have hhash : ∀ entry ∈ (Records.types d.renumbered).mergeSort fun x y => x.1 ≤ y.1,
      (d.image.typeHash? ∘ Prod.snd) entry = some entry.1 := by
    intro entry hentry
    exact (typeHash?_image haddr (List.mem_mergeSort.mp hentry)).2
  rw [List.filterMap_congr hhash, List.filterMap_eq_map', List.pairwise_map]
  exact mergeSort_key_pairwise _

/-! ## Name table -/

theorem mem_nameIndex {n : NameSpan} (h : n ∈ d.image.names) : n ∈ d.names.listed := by
  have hmem : n ∈ (d.names.listed.toList.filter fun n => !n.isEmpty).mergeSort
      fun x y => x.hash ≤ y.hash := by
    simpa [image, nameIndex] using h
  exact Array.mem_toList_iff.mp (List.mem_filter.mp (List.mem_mergeSort.mp hmem)).1

theorem nameIndex_sorted (d : Draft) : (d.image.names.toList.map (·.hash)).Pairwise (· ≤ ·) := by
  rw [List.pairwise_map]
  exact mergeSort_key_pairwise _

/-! ## Records -/

theorem recordFits_laidOut (haddr : d.raw.Addressable) {a : Arena} {r : Record a}
    (h : d.raw.RecordFits r) (j : Nat) : d.image.RecordFits (d.laidOut j r) := by
  obtain ⟨p, hp, hknown, hallows⟩ := h.owner
  refine ⟨?_, ⟨d.renumbering.applyDecl p, ?_, knows_applyDecl haddr hknown, ?_⟩, ?_⟩
  · rw [kind_laidOut, expectedKind_laidOut]
    exact h.kind
  · rw [parent_laidOut, hp]
    rfl
  · rw [kind_laidOut]
    exact hallows
  · rw [name_laidOut]
    exact h.name

theorem valueFits_image {value : AttributeValue} (h : d.raw.ValueFits value) :
    d.image.ValueFits value := by
  cases value with
  | name span => exact h
  | text span => exact h
  | _ => trivial

theorem membersFit_laidOut (h : d.Sound) (haddr : d.raw.Addressable) {k : DeclKind} {i : Nat}
    {r : Record (.decl k)} (hr : (d.arena (.decl k))[i]? = some r) :
    d.image.MembersFit ⟨k, .ofNat (d.place (.decl k) i)⟩ (d.laidOut (d.place (.decl k) i) r) := by
  have hplace := (Array.getElem?_eq_some_iff.mp (image_getElem?_place hr)).1
  have hmembers {b : Arena} (hb : b ∈ k.memberArenas) :
      (d.laidOut (d.place (.decl k) i) r).members b =
        (Records.spans d.renumbered).of ⟨k, .ofNat (d.place (.decl k) i)⟩ b :=
    Records.members_finish _ _ _ _ hb
  have hlinks : ∀ e ∈ (d.laidOut (d.place (.decl k) i) r).links, d.image.Holds e.id := by
    intro e he
    rw [links_laidOut] at he
    obtain ⟨e', he', rfl⟩ := List.mem_map.mp he
    exact holds_apply haddr (h.links _ r (Array.mem_of_getElem? hr) e' he')
  have hlists : ∀ b ∈ k.memberArenas, d.image.ListFits ⟨k, .ofNat (d.place (.decl k) i)⟩
      ((d.laidOut (d.place (.decl k) i) r).members b) := by
    intro b hb
    rw [hmembers hb]
    exact listFits_spans haddr (mem_ownersOf_image haddr hplace hb)
  refine ⟨hlinks, hlists, fun id hid => ?_⟩
  cases k with
  | function =>
    have hid : (d.laidOut (d.place .functions i) r).returnField? = some id := hid
    rw [returnField?_laidOut] at hid
    obtain ⟨id', hid', rfl⟩ := Option.map_eq_some_iff.mp hid
    have hfields : Arena.fields ∈ DeclKind.function.memberArenas := by decide
    have hspan := (Records.span_of_owner _ (sizes_renumbered haddr)
      (mem_ownersOf_image haddr hplace hfields)).2
    show _ ∧ _ ∉ d.image.listed ((d.laidOut (d.place .functions i) r).members .fields)
    rw [hmembers hfields, listed_image, hspan]
    exact returned_laidOut h haddr hr hid'
  | _ => cases hid

theorem membersFit_root (haddr : d.raw.Addressable) : d.image.MembersFit .root d.image.root := by
  have hreturn (id : Id .fields) : d.image.root.returnField? ≠ some id :=
    (Option.some_ne_none id).symm
  refine ⟨fun e he => absurd he List.not_mem_nil, fun b hb => ?_,
    fun id hid => absurd hid (hreturn id)⟩
  have hmembers : d.image.root.members b = (Records.spans d.renumbered).of .root b :=
    Body.members_withMembers _ Record.root.body hb
  have hlist : d.image.ListFits .root (d.image.root.members b) := by
    rw [hmembers]
    refine listFits_spans haddr (Records.mem_ownersOf _ ?_ (Or.inl rfl))
    exact Records.owners_of_memberArenas hb
  exact hlist

/-! ## The whole -/

theorem Sound.regular (h : d.Sound) (haddr : d.raw.Addressable) : d.image.Regular where
  profile hp := by
    obtain ⟨hattributes, htemplates, hinstances⟩ := h.profile hp
    refine ⟨?_, ?_, ?_⟩ <;> apply Array.eq_empty_of_size_eq_zero <;> rw [size_image]
    · rw [hattributes]
      rfl
    · rw [htemplates]
      rfl
    · rw [hinstances]
      rfl
  root := ⟨rfl, rfl, rfl⟩
  records a s hs := by
    obtain ⟨j, hj⟩ := Array.mem_iff_getElem?.mp hs
    obtain ⟨i, r, hr, _, rfl⟩ := exists_of_image hj
    exact recordFits_laidOut haddr (h.records a r (Array.mem_of_getElem? hr)) j
  values s hs := by
    obtain ⟨j, hj⟩ := Array.mem_iff_getElem?.mp hs
    obtain ⟨i, r, hr, _, rfl⟩ := exists_of_image hj
    exact valueFits_image (h.values r (Array.mem_of_getElem? hr))
  sorted := d.sorted_image
  members k j s hs := by
    obtain ⟨i, r, hr, rfl, rfl⟩ := exists_of_image hs
    exact membersFit_laidOut h haddr hr
  rootMembers := membersFit_root haddr
  rooted k j hj := by
    rw [size_image] at hj
    obtain ⟨i, hi, rfl⟩ := exists_place hj
    rw [← applyDecl_ofNat haddr hi]
    exact rooted_applyDecl haddr (h.rooted k i hi)
  types t ht := by
    obtain ⟨hash, hentry⟩ := mem_typeIndex ht
    exact (typeHash?_image haddr hentry).1
  typesSorted := typeIndex_sorted haddr
  names n hn := h.names n (mem_nameIndex hn)
  namesSorted := d.nameIndex_sorted

/-! ## Chains of base classes -/

theorem base_laidOut (j : Nat) (r : Record .classes) :
    ClassBody.base (d.laidOut j r).body =
      (ClassBody.base r.body).map fun id => d.renumbering.apply id := rfl

theorem derives_apply (haddr : d.raw.Addressable) {c b : Id .classes} (h : d.raw.Derives c b) :
    d.image.Derives (d.renumbering.apply c) (d.renumbering.apply b) := by
  obtain ⟨r, hr, hb⟩ := h
  refine ⟨_, image_getElem?_apply haddr hr, ?_⟩
  rw [base_laidOut, hb]
  rfl

theorem exists_of_derives_image (haddr : d.raw.Addressable) {c : Id .classes} {b' : Id .classes}
    (hc : d.raw.Holds c) (h : d.image.Derives (d.renumbering.apply c) b') :
    ∃ b, d.raw.Derives c b ∧ d.renumbering.apply b = b' := by
  obtain ⟨s, hs, hb⟩ := h
  have hr : (d.arena .classes)[c.index]? = some (d.arena .classes)[c.index] :=
    Array.getElem?_eq_getElem hc
  rw [image_getElem?_apply haddr hr] at hs
  obtain rfl := Option.some.inj hs
  rw [base_laidOut] at hb
  obtain ⟨b, hb, happly⟩ := Option.map_eq_some_iff.mp hb
  exact ⟨b, ⟨_, hr, hb⟩, happly⟩

/-- The classes of an arena that ascends keep the bases they were given. -/
theorem derives_image_iff (h : d.Sound) (haddr : d.raw.Addressable)
    (hascending : ((d.arena .classes).toList.map (·.hash)).Pairwise (· ≤ ·)) {c b : Id .classes} :
    d.image.Derives c b ↔ d.raw.Derives c b := by
  have happly : ∀ id : Id .classes, d.raw.Holds id → d.renumbering.apply id = id := by
    intro id hid
    rw [← id.ofIndex_index, apply_ofIndex haddr hid, place_of_ascending hascending hid]
  constructor
  · intro himage
    have hc : d.raw.Holds c := by
      obtain ⟨s, hs, _⟩ := himage
      exact holds_image_iff.mp (Image.holds_of_getElem? hs)
    rw [← happly c hc] at himage
    obtain ⟨b', hraw, rfl⟩ := exists_of_derives_image haddr hc himage
    rwa [happly b' (h.basesHold c b' hraw)]
  · intro hraw
    have hc : d.raw.Holds c := by
      obtain ⟨r, hr, _⟩ := hraw
      exact Image.holds_of_getElem? hr
    have himage := derives_apply haddr hraw
    rwa [happly c hc, happly b (h.basesHold c b hraw)] at himage

theorem exists_of_transGen_image (h : d.Sound) (haddr : d.raw.Addressable) {c : Id .classes}
    {b' : Id .classes} (hc : d.raw.Holds c)
    (hreach : TransGen d.image.Derives (d.renumbering.apply c) b') :
    ∃ b, TransGen d.raw.Derives c b ∧ d.raw.Holds b ∧ d.renumbering.apply b = b' := by
  induction hreach with
  | single hstep =>
    obtain ⟨b, hb, rfl⟩ := exists_of_derives_image haddr hc hstep
    exact ⟨b, .single hb, h.basesHold c b hb, rfl⟩
  | tail _ hstep ih =>
    obtain ⟨e, hreach, he, rfl⟩ := ih
    obtain ⟨b, hb, rfl⟩ := exists_of_derives_image haddr he hstep
    exact ⟨b, hreach.tail hb, h.basesHold e b hb, rfl⟩

/-- Renaming closes no chain of base classes and opens none. -/
theorem acyclic_image_iff (h : d.Sound) (haddr : d.raw.Addressable) :
    (∀ c, ¬ TransGen d.image.Derives c c) ↔ ∀ c, ¬ TransGen d.raw.Derives c c := by
  constructor
  · intro hacyclic c hcycle
    exact hacyclic _ (hcycle.lift (fun id => d.renumbering.apply id) fun _ _ => derives_apply haddr)
  · intro hacyclic c' hcycle
    obtain ⟨_, hstep, _⟩ := TransGen.head'_iff.mp hcycle
    obtain ⟨s, hs, _⟩ := hstep
    obtain ⟨i, r, hr, hplace, _⟩ := exists_of_image hs
    have hi := (Array.getElem?_eq_some_iff.mp hr).1
    have happly : d.renumbering.apply (Id.ofIndex i : Id .classes) = c' := by
      rw [apply_ofIndex haddr hi, hplace, Id.ofIndex_index]
    have hc := holds_ofIndex haddr hi
    rw [← happly] at hcycle
    obtain ⟨b, hreach, hb, heq⟩ := exists_of_transGen_image h haddr hc hcycle
    obtain rfl := apply_injective haddr hb hc heq
    exact hacyclic _ hreach

end Draft
end TypeAtlas
