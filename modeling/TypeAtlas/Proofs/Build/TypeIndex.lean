/-
The type index of a built image.

The index is built from four arenas and then keeps ids only, so that a lookup reads
every key again through the id.  `Image.IndexesTypes` says that each type stands in it
once and in which order, and `Log.TypeAnswer` what a lookup by hash answers of the types
that were added.
-/
import TypeAtlas.Proofs.Build.Membership
import TypeAtlas.Proofs.Query.Lookup

namespace TypeAtlas

/-! ## Order of types -/

/-- The place of a kind among types of equal hash. -/
def TypeKind.rank : TypeKind → Nat
  | type => 0
  | enum => 1
  | classType => 2
  | templateType => 3

/-- By kind, and by position in one arena. -/
def TypeId.Precedes (s t : TypeId) : Prop :=
  s.kind.rank < t.kind.rank ∨ s.kind = t.kind ∧ s.id.index < t.id.index

namespace Image

/-- By hash, and by kind and position where hashes are equal. -/
def TypeBefore (img : Image) (s t : TypeId) : Prop :=
  ∃ x y, img.typeHash? s = some x ∧ img.typeHash? t = some y ∧ (x < y ∨ x = y ∧ s.Precedes t)

/-- The type index lists every type once, and in order. -/
structure IndexesTypes (img : Image) : Prop where
  held : ∀ t ∈ img.typeIndex, img.Holds t.decl.id
  once : ∀ t : TypeId, img.Holds t.decl.id → img.typeIndex.toList.count t = 1
  ordered : img.typeIndex.toList.Pairwise img.TypeBefore

variable {img : Image}

theorem TypeBefore.ne {s t : TypeId} (h : img.TypeBefore s t) : s ≠ t := by
  rintro rfl
  obtain ⟨x, y, hx, hy, hlt | ⟨_, hrank | ⟨_, hindex⟩⟩⟩ := h
  · obtain rfl := Option.some.inj (hx.symm.trans hy)
    exact UInt32.lt_irrefl x hlt
  · exact Nat.lt_irrefl _ hrank
  · exact Nat.lt_irrefl _ hindex

theorem IndexesTypes.mem_of_holds (h : img.IndexesTypes) {t : TypeId}
    (hheld : img.Holds t.decl.id) : t ∈ img.typeIndex := by
  have hcount := h.once t hheld
  exact Array.mem_toList_iff.mp (List.count_pos_iff.mp (hcount ▸ Nat.one_pos))

/-- What stands in the type index is looked up in the arena of its kind. -/
theorem IndexesTypes.mem_refs_iff (h : img.IndexesTypes) (haddr : img.Addressable)
    {ts : List TypeRef} (hts : img.typeIndex.toList.mapM img.resolveType = .ok ts)
    {t : TypeRef} :
    t ∈ ts ↔ (img.arena (.decl t.kind.toDecl))[t.ref.id.index]? = some t.ref.record := by
  rw [mem_types_iff hts]
  constructor
  · rintro ⟨hid, hgenuine⟩
    exact hgenuine.getElem? haddr (h.held t.id hid)
  · intro hget
    have hheld : img.Holds t.ref.id := holds_of_getElem? hget
    exact ⟨h.mem_of_holds hheld, genuine_of_getElem? haddr hget⟩

end Image

namespace Records

variable {rs : Records}

theorem mem_types_of_getElem? {k : TypeKind} {i : Nat} {r : Record (.decl k.toDecl)}
    (h : (rs.get (.decl k.toDecl))[i]? = some r) : (r.hash, ⟨k, .ofNat i⟩) ∈ rs.types := by
  refine List.mem_flatMap.mpr ⟨k, TypeKind.mem_all k, List.mem_map.mpr ⟨(r, i), ?_, rfl⟩⟩
  rw [List.mem_zipIdx_iff_getElem?, Array.getElem?_toList]
  exact h

theorem types_pairwise (hsizes : ∀ a, (rs.get a).size < UInt32.size) :
    rs.types.Pairwise fun x y => x.2.Precedes y.2 := by
  rw [types, List.pairwise_flatMap]
  constructor
  · intro k _
    have hpositions : (rs.get (.decl k.toDecl)).toList.zipIdx.Pairwise fun x y => x.2 < y.2 := by
      apply List.pairwise_map.mp
      rw [List.zipIdx_map_snd]
      exact List.pairwise_lt_range'
    have hindex {entry : Record (.decl k.toDecl) × Nat}
        (hentry : entry ∈ (rs.get (.decl k.toDecl)).toList.zipIdx) :
        (TypeId.mk k (.ofNat entry.2)).id.index = entry.2 := by
      rw [List.mem_zipIdx_iff_getElem?, Array.getElem?_toList] at hentry
      have hlt := Nat.lt_trans (Array.getElem?_eq_some_iff.mp hentry).1 (hsizes _)
      exact UInt32.toNat_ofNat_of_lt' hlt
    rw [List.pairwise_map]
    refine hpositions.imp_of_mem fun hx hy hlt => .inr ⟨rfl, ?_⟩
    rw [hindex hx, hindex hy]
    exact hlt
  · have hranks : TypeKind.all.Pairwise fun j k => j.rank < k.rank := by decide
    refine hranks.imp fun hlt x hx y hy => ?_
    obtain ⟨_, _, rfl⟩ := List.mem_map.mp hx
    obtain ⟨_, _, rfl⟩ := List.mem_map.mp hy
    exact .inl hlt

end Records

namespace Draft

variable {d : Draft}

theorem typeIndex_pairwise (haddr : d.raw.Addressable) :
    d.image.typeIndex.toList.Pairwise d.image.TypeBefore := by
  show (List.map _ _).Pairwise _
  rw [List.pairwise_map]
  refine (mergeSort_key_stable (Records.types_pairwise (sizes_renumbered haddr))).imp_of_mem ?_
  intro x y hx hy hbefore
  exact ⟨x.1, y.1, (typeHash?_image haddr (List.mem_mergeSort.mp hx)).2,
    (typeHash?_image haddr (List.mem_mergeSort.mp hy)).2, hbefore⟩

theorem mem_typeIndex_of_holds {t : TypeId} (h : d.image.Holds t.decl.id) :
    t ∈ d.image.typeIndex := by
  obtain ⟨k, raw⟩ := t
  have hi : raw.toNat < (d.renumbered.get (.decl k.toDecl)).size := by
    rw [size_renumbered, ← size_image]
    exact h
  have htype := Records.mem_types_of_getElem? (k := k) (Array.getElem?_eq_getElem hi)
  rw [UInt32.ofNat_toNat] at htype
  rw [← Array.mem_toList_iff]
  exact List.mem_map.mpr ⟨_, List.mem_mergeSort.mpr htype, rfl⟩

theorem indexesTypes_image (haddr : d.raw.Addressable) : d.image.IndexesTypes where
  held t ht := by
    obtain ⟨_, htype⟩ := mem_typeIndex ht
    exact (typeHash?_image haddr htype).1
  once t ht := by
    have hmem := Array.mem_toList_iff.mpr (mem_typeIndex_of_holds ht)
    exact List.count_eq_one_of_mem ((typeIndex_pairwise haddr).imp fun h => h.ne) hmem
  ordered := typeIndex_pairwise haddr

/-! ## Lookups of types -/

namespace Log

variable (log : Log)

/-- What the lookup of a hash answers of the types that were added. -/
structure TypeAnswer (place : log.Placement) (img : Image) (hash : UInt32)
    (found : Option TypeRef) : Prop where
  answer : img.getType hash = .ok found
  isSome_iff : found.isSome ↔
    ∃ k : TypeKind, ∃ e ∈ log.added (.decl k.toDecl), e.2.name.hash = hash
  added : ∀ t ∈ found, ∃ i : Fin (log.added (.decl t.kind.toDecl)).length,
    ((log.added (.decl t.kind.toDecl)).get i).2.name.hash = hash ∧
      t.ref.id = .ofIndex (place (.decl t.kind.toDecl) i).val ∧
      (img.arena (.decl t.kind.toDecl))[(place (.decl t.kind.toDecl) i).val]? = some t.ref.record
  /-- A type that is found in its own arena is found among all types. -/
  kinds : ∀ k : TypeKind, (img.find (.decl k.toDecl) hash).isSome → found.isSome
  others : (∀ a, ∀ e ∈ log.added a, e.2.name.hash = hash → ∀ k : TypeKind, a ≠ .decl k.toDecl) →
    found = none

variable {log} {place : log.Placement} {img : Image}

/-- Hashes of an arena are those of what was added to it. -/
theorem RenumberedIn.exists_added (h : log.RenumberedIn place img) {a : Arena} {j : Nat}
    {r : Record a} (hr : (img.arena a)[j]? = some r) :
    ∃ i : Fin (log.added a).length, (place a i).val = j ∧
      ((log.added a).get i).2.name.hash = r.hash := by
  have hj : j < (log.added a).length := by
    rw [← h.sizes]
    exact (Array.getElem?_eq_some_iff.mp hr).1
  obtain ⟨i, hi⟩ := (place a).surjective ⟨j, hj⟩
  have hplace : (place a i).val = j := congrArg Fin.val hi
  obtain ⟨s, hs, hrestates⟩ := h.records a i
  rw [hplace, hr] at hs
  obtain rfl := Option.some.inj hs
  exact ⟨i, hplace, hrestates.name.1.symm⟩

theorem RenumberedIn.exists_record_iff (h : log.RenumberedIn place img) {a : Arena} {hash : UInt32} :
    (∃ r ∈ img.arena a, r.hash = hash) ↔ ∃ e ∈ log.added a, e.2.name.hash = hash := by
  constructor
  · rintro ⟨r, hr, rfl⟩
    obtain ⟨j, hj⟩ := Array.getElem?_of_mem hr
    obtain ⟨i, _, hhash⟩ := h.exists_added hj
    exact ⟨_, List.getElem_mem i.isLt, hhash⟩
  · rintro ⟨e, he, rfl⟩
    obtain ⟨i, hi, rfl⟩ := List.mem_iff_getElem.mp he
    obtain ⟨r, hr, hrestates⟩ := h.records a ⟨i, hi⟩
    exact ⟨r, Array.mem_of_getElem? hr, hrestates.name.1⟩

end Log

variable {log : Log} {place : log.Placement} {img : Image}

theorem Log.RenumberedIn.typeAnswer (h : log.RenumberedIn place img) (haddr : img.Addressable)
    (hregular : img.Regular) (hindex : img.IndexesTypes) (hash : UInt32) :
    ∃ found, log.TypeAnswer place img hash found := by
  obtain ⟨ts, found, hts, hanswer, hfinds⟩ :=
    Image.getType_finds haddr hregular.types hregular.typesSorted hash
  have hrefs (t : TypeRef) := hindex.mem_refs_iff haddr hts (t := t)
  have hsome : found.isSome ↔
      ∃ k : TypeKind, ∃ e ∈ log.added (.decl k.toDecl), e.2.name.hash = hash := by
    simp only [hfinds.isSome_iff, ← h.exists_record_iff]
    constructor
    · rintro ⟨t, ht, hhash⟩
      exact ⟨t.kind, t.ref.record, Array.mem_of_getElem? ((hrefs t).mp ht), hhash⟩
    · rintro ⟨k, r, hr, hhash⟩
      obtain ⟨i, hi⟩ := Array.getElem?_of_mem hr
      have hlt := Nat.lt_trans (Array.getElem?_eq_some_iff.mp hi).1 (haddr _)
      refine ⟨⟨k, ⟨.ofIndex i, r⟩⟩, (hrefs _).mpr ?_, hhash⟩
      show (img.arena (.decl k.toDecl))[(Id.ofIndex i : Id (.decl k.toDecl)).index]? = some r
      rw [Id.index_ofIndex hlt]
      exact hi
  refine ⟨found, hanswer, hsome, fun t ht => ?_, fun k hk => ?_, fun hothers => ?_⟩
  · obtain ⟨hmem, hhash⟩ := hfinds.found t ht
    have hget := (hrefs t).mp hmem
    obtain ⟨i, hplace, hadded⟩ := h.exists_added hget
    refine ⟨i, hadded.trans hhash, ?_, ?_⟩
    · rw [hplace, Id.ofIndex_index]
    · rw [hplace]
      exact hget
  · obtain ⟨r, hget, hhash⟩ :=
      (Image.isSome_find_iff haddr (hregular.sorted (.decl k.toDecl))).mp hk
    exact hsome.mpr ⟨k, h.exists_record_iff.mp ⟨_, Array.mem_of_getElem? hget, hhash⟩⟩
  · rw [← Option.not_isSome_iff_eq_none, hsome]
    rintro ⟨k, e, he, hhash⟩
    exact hothers _ e he hhash k rfl

/-- Whatever was done to a draft, in the image that is built from it the type index lists
every type, enum, class and instance of a template, and a lookup in it answers one of those
that were added with the hash.  An arena has fewer records than there are words, the
largest of which is the root namespace. -/
theorem build_indexes_types (p : Profile) (calls : List Call) (account : Option Account)
    (bank : Bank) {held : Holding} (hcounts : ∀ a, ((made p calls).arena a).size < UInt32.size)
    (hbuilt : ((made p calls).build account bank).1 = .ok held) :
    held.image.IndexesTypes ∧ ∃ place : (logOf p calls).Placement,
      (logOf p calls).RenumberedIn place held.image ∧
      ∀ hash, ∃ found, (logOf p calls).TypeAnswer place held.image hash found := by
  have hnum := numbered_of_addressable hcounts
  have hsound := sound_made hnum
  have hrenumbered := (agrees_made hnum).renumberedIn_image hsound
  have hindexes := indexesTypes_image (d := made p calls) hcounts
  rw [image_of_build hbuilt]
  exact ⟨hindexes, _, hrenumbered,
    hrenumbered.typeAnswer (addressable_image hcounts) (hsound.regular hcounts) hindexes⟩

theorem build_indexes_types_shapes :
    ∃ held, ((made .full shapes).build none {}).1 = .ok held ∧ held.image.IndexesTypes ∧
      (∃ t, held.image.getType (hashText "Color") = .ok (some t)) ∧
      held.image.getType (hashText "area") = .ok none := by
  have hbuilt := build_none_ok {} validate_shapes
  obtain ⟨hindexes, place, _, hanswers⟩ :=
    build_indexes_types .full shapes none {} counts_shapes hbuilt
  refine ⟨_, hbuilt, hindexes, ?_, ?_⟩
  · obtain ⟨found, hcolor⟩ := hanswers (hashText "Color")
    have hadded : ∃ e ∈ (logOf .full shapes).added (.decl TypeKind.enum.toDecl),
        e.2.name.hash = hashText "Color" := by decide +kernel
    obtain ⟨t, rfl⟩ := Option.isSome_iff_exists.mp (hcolor.isSome_iff.mpr ⟨.enum, hadded⟩)
    exact ⟨t, hcolor.answer⟩
  · obtain ⟨found, harea⟩ := hanswers (hashText "area")
    have hnone : ∀ k : TypeKind, ∀ e ∈ (logOf .full shapes).added (.decl k.toDecl),
        e.2.name.hash ≠ hashText "area" := by
      intro k
      cases k <;> decide +kernel
    rw [harea.answer, harea.others]
    rintro _ e he hhash k rfl
    exact hnone k e he hhash

end Draft
end TypeAtlas
