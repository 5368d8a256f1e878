/-
The image of a draft.

What holds of a draft holds of its image, with every reference sent to its new
place.  Together with the member lists this makes the image regular: only a chain
of base classes can keep it from being well-formed.
-/
import TypeAtlas.Proofs.Layout.Lists
import TypeAtlas.Proofs.Layout.Renumber
import TypeAtlas.Proofs.Validity.Acceptance

namespace TypeAtlas
namespace Draft

open Image (Addressable)

variable {d : Draft} {a : Arena}

/-! ## Records -/

theorem image_getElem? (d : Draft) (a : Arena) (j : Nat) :
    (d.image.arena a)[j]? =
      ((d.renumbered.get a)[j]?).map (Records.finish d.renumbered (Records.spans d.renumbered) j) := by
  have harena : d.image.arena a = Records.complete d.renumbered (Records.spans d.renumbered) a :=
    PerArena.get_ofFn _ a
  rw [harena]
  exact Records.complete_getElem? _ _ a j

theorem size_image (d : Draft) (a : Arena) : (d.image.arena a).size = (d.arena a).size := by
  rw [← size_renumbered]
  apply Nat.le_antisymm
  · apply Nat.le_of_not_lt
    intro h
    have hsome := Array.getElem?_eq_getElem h
    rw [image_getElem?, Array.getElem?_eq_none (Nat.le_refl _)] at hsome
    cases hsome
  · apply Nat.le_of_not_lt
    intro h
    have hnone : (d.image.arena a)[(d.image.arena a).size]? = none :=
      Array.getElem?_eq_none (Nat.le_refl _)
    rw [image_getElem?, Array.getElem?_eq_getElem h] at hnone
    cases hnone

theorem addressable_image (haddr : d.raw.Addressable) : d.image.Addressable := by
  intro a
  rw [size_image]
  exact haddr a

theorem holds_image_iff {id : Id a} : d.image.Holds id ↔ d.raw.Holds id := by
  rw [Image.Holds, size_image]
  rfl

/-- A record with its references renamed, its lists and its flags. -/
def laidOut (d : Draft) (j : Nat) (r : Record a) : Record a :=
  Records.finish d.renumbered (Records.spans d.renumbered) j (d.renumbering.applyRecord r)

theorem image_getElem?_place {i : Nat} {r : Record a} (h : (d.arena a)[i]? = some r) :
    (d.image.arena a)[d.place a i]? = some (d.laidOut (d.place a i) r) := by
  rw [image_getElem?, renumbered_getElem?_place h]
  rfl

theorem exists_of_image {j : Nat} {s : Record a} (h : (d.image.arena a)[j]? = some s) :
    ∃ i r, (d.arena a)[i]? = some r ∧ d.place a i = j ∧ s = d.laidOut j r := by
  rw [image_getElem?] at h
  obtain ⟨s', hs', rfl⟩ := Option.map_eq_some_iff.mp h
  obtain ⟨i, r, hr, hplace, rfl⟩ := exists_of_renumbered hs'
  exact ⟨i, r, hr, hplace, rfl⟩

theorem header_laidOut (j : Nat) (r : Record a) :
    (d.laidOut j r).header = { r.header with parent := r.parent.map d.renumbering.applyDecl } :=
  Records.header_finish _ _ _ _

theorem kind_laidOut (j : Nat) (r : Record a) : (d.laidOut j r).kind = r.kind := by
  rw [Record.kind, header_laidOut]
  rfl

theorem name_laidOut (j : Nat) (r : Record a) : (d.laidOut j r).name = r.name := by
  rw [Record.name, header_laidOut]
  rfl

theorem parent_laidOut (j : Nat) (r : Record a) :
    (d.laidOut j r).parent = r.parent.map d.renumbering.applyDecl := by
  rw [Record.parent, header_laidOut]

theorem expectedKind_laidOut (j : Nat) (r : Record a) :
    (d.laidOut j r).expectedKind = r.expectedKind :=
  (Records.expectedKind_finish _ _ _ _).trans (Renumbering.expectedKind_applyRecord _ _)

theorem links_laidOut (j : Nat) (r : Record a) :
    (d.laidOut j r).links = r.links.map d.renumbering.applyDecl :=
  (Records.links_finish _ _ _ _).trans (Renumbering.links_applyRecord _ _)

theorem returnField?_laidOut (j : Nat) (r : Record a) :
    (d.laidOut j r).returnField? = r.returnField?.map d.renumbering.apply :=
  (Records.returnField?_finish _ _ _ _).trans (Renumbering.returnField?_applyRecord _ _)

/-! ## References -/

theorem index_apply_of_holds (haddr : d.raw.Addressable) {k : DeclKind} {id : Id (.decl k)}
    (h : d.raw.Holds id) : (d.renumbering.apply id).index = d.place (.decl k) id.index :=
  index_apply (numbered_of_addressable haddr) (Image.ne_root_of_holds haddr (d := id.decl) h) h

theorem holds_apply (haddr : d.raw.Addressable) {k : DeclKind} {id : Id (.decl k)}
    (h : d.raw.Holds id) : d.image.Holds (d.renumbering.apply id) := by
  rw [holds_image_iff]
  show (d.renumbering.apply id).index < (d.arena (.decl k)).size
  rw [index_apply_of_holds haddr h]
  exact place_lt h

theorem knows_applyDecl (haddr : d.raw.Addressable) {e : DeclId} (h : d.raw.Knows e) :
    d.image.Knows (d.renumbering.applyDecl e) := by
  rcases h with rfl | h
  · exact Or.inl rfl
  · exact Or.inr (holds_apply haddr h)

/-- The record at a renamed id is the one that the id named, laid out. -/
theorem image_getElem?_apply (haddr : d.raw.Addressable) {k : DeclKind} {id : Id (.decl k)}
    {r : Record (.decl k)} (h : (d.arena (.decl k))[id.index]? = some r) :
    (d.image.arena (.decl k))[(d.renumbering.apply id).index]? =
      some (d.laidOut (d.place (.decl k) id.index) r) := by
  rw [index_apply_of_holds haddr (Array.getElem?_eq_some_iff.mp h).1]
  exact image_getElem?_place h

theorem holds_ofIndex (haddr : d.raw.Addressable) {i : Nat} (h : i < (d.arena a).size) :
    d.raw.Holds (Id.ofIndex i : Id a) := by
  rw [Image.Holds, Id.index_ofIndex (Nat.lt_trans h (haddr _))]
  exact h

theorem apply_ofIndex (haddr : d.raw.Addressable) {k : DeclKind} {i : Nat}
    (h : i < (d.arena (.decl k)).size) :
    d.renumbering.apply (Id.ofIndex i : Id (.decl k)) = .ofIndex (d.place (.decl k) i) := by
  have hholds := holds_ofIndex haddr h
  have hroot : (Id.ofIndex i : Id (.decl k)).decl ≠ .root :=
    Image.ne_root_of_holds haddr (d := ⟨k, .ofNat i⟩) hholds
  have happly := apply_of_holds hroot hholds
  rwa [Id.index_ofIndex (Nat.lt_trans h (haddr _))] at happly

theorem applyDecl_ofNat (haddr : d.raw.Addressable) {k : DeclKind} {i : Nat}
    (h : i < (d.arena (.decl k)).size) :
    d.renumbering.applyDecl ⟨k, .ofNat i⟩ = ⟨k, .ofNat (d.place (.decl k) i)⟩ :=
  congrArg Id.decl (apply_ofIndex haddr h)

theorem parentOf?_applyDecl (haddr : d.raw.Addressable) {e p : DeclId}
    (h : d.raw.parentOf? e = some p) :
    d.image.parentOf? (d.renumbering.applyDecl e) = some (d.renumbering.applyDecl p) := by
  have hroot : e ≠ .root := by
    intro he
    subst he
    cases h
  obtain ⟨r, hr, hp⟩ := (Image.parentOf?_eq_some_iff hroot).mp h
  have hholds : d.raw.Holds e.id := (Array.getElem?_eq_some_iff.mp hr).1
  have hroot' := Image.ne_root_of_holds (addressable_image haddr)
    (d := d.renumbering.applyDecl e) (holds_apply haddr hholds)
  refine (Image.parentOf?_eq_some_iff hroot').mpr ⟨_, image_getElem?_apply haddr hr, ?_⟩
  exact (parent_laidOut _ r).trans (congrArg (Option.map d.renumbering.applyDecl) hp)

theorem rooted_applyDecl (haddr : d.raw.Addressable) {e : DeclId} (h : d.raw.Rooted e) :
    d.image.Rooted (d.renumbering.applyDecl e) := by
  induction h with
  | root => exact .root
  | owned hp _ ih => exact .owned (parentOf?_applyDecl haddr hp) ih

/-! ## Member lists -/

theorem sorted_image (d : Draft) (a : Arena) :
    ((d.image.arena a).toList.map (·.hash)).Pairwise (· ≤ ·) := by
  have hhashes : (d.image.arena a).toList.map (·.hash) =
      (d.renumbered.get a).toList.map (·.hash) := by
    refine List.ext_getElem? fun j => ?_
    rw [List.getElem?_map, List.getElem?_map, Array.getElem?_toList, Array.getElem?_toList,
      image_getElem?, Option.map_map]
    refine congrArg (Option.map · _) (funext fun r => ?_)
    exact congrArg (fun h : Header => h.name.hash) (Records.header_finish _ _ _ _)
  rw [hhashes]
  exact d.renumbered_sorted a

theorem sizes_renumbered (haddr : d.raw.Addressable) (a : Arena) :
    (d.renumbered.get a).size < UInt32.size := by
  rw [size_renumbered]
  exact haddr a

theorem listed_image (l : IdList a) :
    d.image.listed l = ((Records.pool d.renumbered a).extract l.start.toNat l.stop).toList := by
  have hpool : d.image.pool a = Records.pool d.renumbered a := PerArena.get_ofFn _ a
  rw [Image.listed, hpool]

theorem listFits_spans (haddr : d.raw.Addressable) {owner : DeclId}
    (howner : owner ∈ Records.ownersOf d.renumbered a) :
    d.image.ListFits owner ((Records.spans d.renumbered).of owner a) := by
  obtain ⟨hstop, hlisted⟩ := Records.span_of_owner _ (sizes_renumbered haddr) howner
  rw [← listed_image] at hlisted
  have hpool : d.image.pool a = Records.pool d.renumbered a := PerArena.get_ofFn _ a
  have hindex {j : Nat} {r : Record a} (hr : (d.renumbered.get a)[j]? = some r) :
      (Id.ofIndex j : Id a).index = j :=
    Id.index_ofIndex
      (Nat.lt_trans (Array.getElem?_eq_some_iff.mp hr).1 (sizes_renumbered haddr a))
  refine ⟨hpool ▸ hstop, ?_, ?_⟩
  · intro id hid
    rw [hlisted] at hid
    obtain ⟨j, r, hr, rfl, hlister⟩ := Records.mem_listedBy _ hid
    refine ⟨Records.finish d.renumbered (Records.spans d.renumbered) j r, ?_, ?_⟩
    · rw [hindex hr, image_getElem?, hr]
      rfl
    · rw [Record.parent, Records.header_finish]
      exact Records.parent_of_lister _ hlister
  · rw [hlisted]
    refine Records.listedBy_hashes _ (fun j r hr => ?_) ?_
    · rw [Image.hash?, hindex hr, image_getElem?, hr]
      exact congrArg (fun h : Header => some h.name.hash) (Records.header_finish _ _ _ _)
    · exact d.renumbered_sorted a

theorem mem_ownersOf_image {k : DeclKind} {i : Nat} (haddr : d.raw.Addressable)
    (hi : i < (d.image.arena (.decl k)).size) (hk : a ∈ k.memberArenas) :
    (⟨k, .ofNat i⟩ : DeclId) ∈ Records.ownersOf d.renumbered a := by
  refine Records.mem_ownersOf _ (Records.owners_of_memberArenas hk) (Or.inr ?_)
  rw [size_image] at hi
  show (UInt32.ofNat i).toNat < (d.renumbered.get (.decl k)).size
  rw [UInt32.toNat_ofNat_of_lt' (Nat.lt_trans hi (haddr _)), size_renumbered]
  exact hi

/-- A return value is a field of its function and no parameter. -/
theorem returned_laidOut (h : d.Sound) (haddr : d.raw.Addressable) {i : Nat}
    {r : Record .functions} (hr : (d.arena .functions)[i]? = some r) {id : Id .fields}
    (hid : r.returnField? = some id) :
    let owner : DeclId := ⟨.function, .ofNat (d.place .functions i)⟩
    (∃ field, (d.image.arena .fields)[(d.renumbering.apply id).index]? = some field ∧
      field.parent = some owner) ∧
      d.renumbering.apply id ∉ Records.listedBy d.renumbered .fields owner := by
  obtain ⟨field, hfield, hparent⟩ := h.returned i r hr id hid
  have hi := (Array.getElem?_eq_some_iff.mp hr).1
  have howner := applyDecl_ofNat haddr (k := .function) hi
  have happlied : (field.parent.map d.renumbering.applyDecl) =
      some ⟨.function, .ofNat (d.place .functions i)⟩ := by
    rw [hparent, Option.map_some, howner]
  refine ⟨⟨_, image_getElem?_apply haddr hfield, ?_⟩, fun hlisted => ?_⟩
  · rw [parent_laidOut, happlied]
  · obtain ⟨j, s, hs, hj, hlister⟩ := Records.mem_listedBy _ hlisted
    have hlt := (Array.getElem?_eq_some_iff.mp hs).1
    have hindex := congrArg Id.index hj
    rw [index_apply_of_holds haddr (Array.getElem?_eq_some_iff.mp hfield).1,
      Id.index_ofIndex (Nat.lt_trans hlt (sizes_renumbered haddr _))] at hindex
    rw [← hindex, renumbered_getElem?_place hfield] at hs
    obtain rfl := Option.some.inj hs
    have hfunction := renumbered_getElem?_place hr
    have hreturn : (d.renumbering.applyRecord r).returnField? = some (d.renumbering.apply id) := by
      rw [Renumbering.returnField?_applyRecord, hid, Option.map_some]
    have hplace : (UInt32.ofNat (d.place .functions i)).toNat = d.place .functions i :=
      UInt32.toNat_ofNat_of_lt' (Nat.lt_trans (place_lt hi) (haddr _))
    have hnone := Records.lister_of_returnField d.renumbered
      (r := d.renumbering.applyRecord field) (f := ⟨.function, .ofNat (d.place .functions i)⟩)
      happlied rfl (by rw [DeclId.index, hplace]; exact hfunction) hreturn
    rw [hnone] at hlister
    cases hlister

end Draft
end TypeAtlas
