/-
Member lists are exactly the children.

In an image that was built every record stands once in the list of its parent and in
no other list, return values apart, which stand in none.  The lists over an arena
share its pool out among them.  Within a list records go by hash, and those of equal
hash in the order they were added.

`Image.Keeps` says which lists there are, and `Draft.keeps_iff` that they are the spans
that were laid out.  From then on a list is what its owner lists, `Records.listedBy`.
-/
import TypeAtlas.Proofs.Build.Renumbering
import TypeAtlas.Proofs.Layout.Partition

namespace TypeAtlas
namespace Image

/-- A declaration keeps a member list.  The root namespace is one that does. -/
def Keeps (img : Image) (owner : DeclId) {b : Arena} (l : IdList b) : Prop :=
  b ∈ owner.kind.memberArenas ∧ ∃ r, img.record? owner.id = some r ∧ r.members b = l

/-- A field is the return value of a function. -/
def Returned (img : Image) : {b : Arena} → Id b → Prop
  | .fields, id => ∃ f ∈ img.arena .functions, f.returnField? = some id
  | _, _ => False

/-- The member lists of an image hold its records, each at its parent. -/
structure ListsMembers (img : Image) : Prop where
  /-- A record stands once in one list, and that is kept by its parent. -/
  once : ∀ (b : Arena) (j : Nat) (r : Record b), (img.arena b)[j]? = some r →
    ¬ img.Returned (.ofIndex j : Id b) → ∃ (owner : DeclId) (l : IdList b),
      r.parent = some owner ∧ img.Keeps owner l ∧ (img.listed l).count (.ofIndex j) = 1 ∧
      ∀ (other : DeclId) (l' : IdList b), img.Keeps other l' → .ofIndex j ∈ img.listed l' →
        other = owner ∧ l' = l
  returned : ∀ (b : Arena) (id : Id b), img.Returned id →
    ∀ (owner : DeclId) (l : IdList b), img.Keeps owner l → id ∉ img.listed l
  owned : ∀ (owner : DeclId) (b : Arena) (l : IdList b), img.Keeps owner l →
    ∀ id ∈ img.listed l, ∃ r, (img.arena b)[id.index]? = some r ∧ r.parent = some owner
  /-- Lists lie in their pool, without a position in common and without a gap. -/
  inPool : ∀ (owner : DeclId) (b : Arena) (l : IdList b), img.Keeps owner l →
    l.stop ≤ (img.pool b).size
  apart : ∀ (owner other : DeclId) (b : Arena) (l l' : IdList b), img.Keeps owner l →
    img.Keeps other l' → owner ≠ other → l.stop ≤ l'.start.toNat ∨ l'.stop ≤ l.start.toNat
  covered : ∀ (b : Arena) (i : Nat), i < (img.pool b).size →
    ∃ (owner : DeclId) (l : IdList b), img.Keeps owner l ∧ l.start.toNat ≤ i ∧ i < l.stop

theorem keeps_of_getElem? {img : Image} (haddr : img.Addressable) {k : DeclKind} {i : Nat}
    {r : Record (.decl k)} (hr : (img.arena (.decl k))[i]? = some r) {b : Arena}
    (hb : b ∈ k.memberArenas) : img.Keeps ⟨k, .ofNat i⟩ (r.members b) := by
  have hindex : (Id.ofIndex i : Id (.decl k)).index = i :=
    Id.index_ofIndex (Nat.lt_trans (Array.getElem?_eq_some_iff.mp hr).1 (haddr _))
  rw [← hindex] at hr
  exact ⟨hb, r, (Image.record?_of_holds haddr (holds_of_getElem? hr)).trans hr, rfl⟩

/-- A declaration keeps one list over an arena. -/
theorem Keeps.unique {img : Image} {owner : DeclId} {b : Arena} {l l' : IdList b}
    (hl : img.Keeps owner l) (hl' : img.Keeps owner l') : l = l' := by
  obtain ⟨_, r, hr, rfl⟩ := hl
  obtain ⟨_, r', hr', rfl⟩ := hl'
  obtain rfl := Option.some.inj (hr.symm.trans hr')
  rfl

theorem ListFits.parent_eq {img : Image} {owner : DeclId} {b : Arena} {l : IdList b}
    (h : img.ListFits owner l) {id : Id b} (hid : id ∈ img.listed l) {r : Record b}
    (hr : (img.arena b)[id.index]? = some r) : r.parent = some owner := by
  obtain ⟨m, hm, howner⟩ := h.owned id hid
  rw [hr] at hm
  obtain rfl := Option.some.inj hm
  exact howner

/-- A return value could only be listed by its function, which does not list it. -/
theorem Regular.not_listed_of_returned {img : Image} (h : img.Regular) (haddr : img.Addressable)
    {b : Arena} {id : Id b} (hid : img.Returned id) {owner : DeclId} {l : IdList b}
    (hl : img.Keeps owner l) (hfits : img.ListFits owner l) : id ∉ img.listed l := by
  intro hmem
  cases b with
  | attributes => exact hid
  | decl k =>
    cases k with
    | field =>
      obtain ⟨f, hf, hreturn⟩ := hid
      obtain ⟨i, hi⟩ := Array.mem_iff_getElem?.mp hf
      obtain ⟨⟨field, hfield, hparent⟩, hnot⟩ := (h.members .function i f hi).returned id hreturn
      obtain rfl := Option.some.inj ((hfits.parent_eq hmem hfield).symm.trans hparent)
      rw [hl.unique (keeps_of_getElem? haddr hi (b := .fields) (by decide))] at hmem
      exact hnot hmem
    | _ => exact hid

theorem RecordFits.mem_owners {img : Image} {b : Arena} {r : Record b} (h : img.RecordFits r) :
    ∃ p, r.parent = some p ∧ img.Knows p ∧ p.kind ∈ b.owners := by
  obtain ⟨p, hp, hknown, hallows⟩ := h.owner
  rw [h.kind] at hallows
  refine ⟨p, hp, hknown, ?_⟩
  cases b with
  | attributes => exact List.contains_iff_mem.mp hallows
  | decl k => exact List.contains_iff_mem.mp hallows

end Image

namespace Draft

variable {d : Draft} {b : Arena}

/-! ## Lists of the image of a draft -/

theorem members_of_record? {owner : DeclId} {r : Record (.decl owner.kind)}
    (hr : d.image.record? owner.id = some r) (hb : b ∈ owner.kind.memberArenas) :
    r.members b = (Records.spans d.renumbered).of owner b := by
  by_cases hroot : owner = .root
  · subst hroot
    obtain rfl := Option.some.inj (hr.symm.trans (Image.record?_root d.image))
    exact Body.members_withMembers _ Record.root.body hb
  · rw [Image.record?_of_ne_root _ (show owner.id.decl ≠ .root from hroot), image_getElem?] at hr
    obtain ⟨s, _, rfl⟩ := Option.map_eq_some_iff.mp hr
    have howner : (⟨owner.kind, .ofNat owner.id.index⟩ : DeclId) = owner :=
      congrArg (DeclId.mk owner.kind) owner.raw.ofNat_toNat
    rw [Records.members_finish _ _ _ _ hb, howner]

variable (haddr : d.raw.Addressable)
include haddr

theorem keeps_iff {owner : DeclId} {l : IdList b} : d.image.Keeps owner l ↔
    owner ∈ Records.ownersOf d.renumbered b ∧ l = (Records.spans d.renumbered).of owner b := by
  rw [Records.mem_ownersOf_iff (sizes_renumbered haddr)]
  constructor
  · intro h
    obtain ⟨hb, r, hr, rfl⟩ := h
    refine ⟨⟨Records.owners_of_memberArenas hb, ?_⟩, members_of_record? hr hb⟩
    by_cases hroot : owner = .root
    · exact Or.inl hroot
    · rw [Image.record?_of_ne_root _ (show owner.id.decl ≠ .root from hroot)] at hr
      have hlt := (Array.getElem?_eq_some_iff.mp hr).1
      rw [size_image] at hlt
      rw [size_renumbered]
      exact Or.inr hlt
  · intro h
    obtain ⟨⟨hk, hknown⟩, rfl⟩ := h
    have hb := Records.memberArenas_of_owners hk
    have hrecord : ∃ r, d.image.record? owner.id = some r := by
      rcases hknown with rfl | hlt
      · exact ⟨_, Image.record?_root d.image⟩
      · rw [size_renumbered, ← size_image] at hlt
        have hholds : d.image.Holds owner.id := hlt
        rw [Image.record?_of_holds (addressable_image haddr) hholds]
        exact ⟨_, Image.getElem?_eq_some_of_holds hholds⟩
    obtain ⟨r, hr⟩ := hrecord
    exact ⟨hb, r, hr, members_of_record? hr hb⟩

theorem listed_of_keeps {owner : DeclId} {l : IdList b} (hl : d.image.Keeps owner l) :
    d.image.listed l = Records.listedBy d.renumbered b owner := by
  obtain ⟨howner, rfl⟩ := (keeps_iff haddr).mp hl
  rw [listed_image]
  exact (Records.span_of_owner _ (sizes_renumbered haddr) howner).2

theorem listFits_of_keeps {owner : DeclId} {l : IdList b} (hl : d.image.Keeps owner l) :
    d.image.ListFits owner l := by
  obtain ⟨howner, rfl⟩ := (keeps_iff haddr).mp hl
  exact listFits_spans haddr howner

theorem nodup_listed {owner : DeclId} {l : IdList b} (hl : d.image.Keeps owner l) :
    (d.image.listed l).Nodup := by
  rw [listed_of_keeps haddr hl]
  refine (Records.listedBy_ascending (sizes_renumbered haddr b) owner).imp fun hlt heq => ?_
  exact absurd (congrArg Id.index heq) (Nat.ne_of_lt hlt)

/-- The parent of a record keeps a list over its arena. -/
theorem Sound.exists_keeps (h : d.Sound) {r : Record b} (hr : r ∈ d.image.arena b) :
    ∃ owner, r.parent = some owner ∧
      d.image.Keeps owner ((Records.spans d.renumbered).of owner b) := by
  obtain ⟨owner, hparent, hknown, hkind⟩ := ((h.regular haddr).records b r hr).mem_owners
  refine ⟨owner, hparent, (keeps_iff haddr).mpr ⟨?_, rfl⟩⟩
  refine (Records.mem_ownersOf_iff (sizes_renumbered haddr)).mpr ⟨hkind, hknown.imp_right ?_⟩
  intro hholds
  rw [size_renumbered]
  exact holds_image_iff.mp hholds

omit haddr in
/-- A record that is not returned is listed by its parent. -/
theorem lister_of_not_returned {j : Nat} {r : Record b} (hr : (d.renumbered.get b)[j]? = some r)
    (hreturned : ¬ d.image.Returned (.ofIndex j : Id b)) :
    Records.lister d.renumbered (.ofIndex j) r = r.parent := by
  cases b with
  | attributes => rfl
  | decl k =>
    cases k with
    | field =>
      show (if Records.isReturn d.renumbered (.ofIndex j) r then none else r.parent) = r.parent
      refine if_neg fun hreturn => hreturned ?_
      obtain ⟨f, hf, hfield⟩ := Records.exists_returnField_of_isReturn hreturn
      obtain ⟨i, hi⟩ := Array.mem_iff_getElem?.mp hf
      have hget := image_getElem? d .functions i
      rw [hi] at hget
      exact ⟨_, Array.mem_of_getElem? hget, (Records.returnField?_finish _ _ _ _).trans hfield⟩
    | _ => rfl

theorem mem_listed_of_not_returned {j : Nat} {s : Record b}
    (hs : (d.image.arena b)[j]? = some s) (hreturned : ¬ d.image.Returned (.ofIndex j : Id b))
    {owner : DeclId} (hparent : s.parent = some owner) {l : IdList b}
    (hl : d.image.Keeps owner l) : .ofIndex j ∈ d.image.listed l := by
  rw [image_getElem?] at hs
  obtain ⟨r, hr, rfl⟩ := Option.map_eq_some_iff.mp hs
  rw [Record.parent, Records.header_finish] at hparent
  rw [listed_of_keeps haddr hl]
  exact Records.mem_listedBy_of_lister hr
    ((lister_of_not_returned hr hreturned).trans hparent)

theorem listsMembers_image (h : d.Sound) : d.image.ListsMembers where
  once b j s hs hreturned := by
    obtain ⟨owner, hparent, hl⟩ := h.exists_keeps haddr (Array.mem_of_getElem? hs)
    have hmem := mem_listed_of_not_returned haddr hs hreturned hparent hl
    have hindex : (Id.ofIndex j : Id b).index = j := Id.index_ofIndex
      (Nat.lt_trans (Array.getElem?_eq_some_iff.mp hs).1 (addressable_image haddr b))
    refine ⟨owner, _, hparent, hl, List.count_eq_one_of_mem (nodup_listed haddr hl) hmem, ?_⟩
    intro other l' hl' hmem'
    have howner := (listFits_of_keeps haddr hl').parent_eq hmem' (hindex.symm ▸ hs)
    obtain rfl := Option.some.inj (howner.symm.trans hparent)
    exact ⟨rfl, hl'.unique hl⟩
  returned b id hid owner l hl := (h.regular haddr).not_listed_of_returned
    (addressable_image haddr) hid hl (listFits_of_keeps haddr hl)
  owned owner b l hl := (listFits_of_keeps haddr hl).owned
  inPool owner b l hl := (listFits_of_keeps haddr hl).inPool
  apart owner other b l l' hl hl' hne := by
    obtain ⟨howner, rfl⟩ := (keeps_iff haddr).mp hl
    obtain ⟨hother, rfl⟩ := (keeps_iff haddr).mp hl'
    exact Records.spans_apart (sizes_renumbered haddr) howner hother hne
  covered b i hi := by
    have hpool : d.image.pool b = Records.pool d.renumbered b := PerArena.get_ofFn _ b
    rw [hpool] at hi
    obtain ⟨owner, howner, hat⟩ := Records.exists_span_at (sizes_renumbered haddr) hi
    exact ⟨owner, _, (keeps_iff haddr).mpr ⟨howner, rfl⟩, hat⟩

/-! ## Order -/

omit haddr

namespace Log

variable {log : Log} {place : log.Placement} {img : Image}

/-- Ids of records by hash, and of those of equal hash by the order they were added in. -/
def ListedInOrder (place : log.Placement) (ids : List (Id b)) : Prop :=
  ∃ numbers : List (Fin (log.added b).length),
    ids = (numbers.map fun i => .ofIndex (place b i).val) ∧
    numbers.Pairwise fun i j =>
      (log.added b)[i].2.name.hash < (log.added b)[j].2.name.hash ∨
        (log.added b)[i].2.name.hash = (log.added b)[j].2.name.hash ∧ i < j

/-- Where places go up, so do hashes and then numbers. -/
theorem RenumberedIn.listedInOrder (h : log.RenumberedIn place img) {ids : List (Id b)}
    (hheld : ∀ id ∈ ids, img.Holds id) (hascending : ids.Pairwise fun x y => x.index < y.index) :
    log.ListedInOrder place ids := by
  have hplaces : ∀ id ∈ ids, id.index < (log.added b).length := by
    intro id hid
    rw [← h.sizes]
    exact hheld id hid
  refine ⟨ids.pmap (fun id hid => (place b).symm ⟨id.index, hid⟩) hplaces, ?_, ?_⟩
  · rw [List.map_pmap]
    refine (List.pmap_eq_self.mpr fun id hid => ?_).symm
    rw [Equiv.apply_symm_apply]
    exact id.ofIndex_index
  · rw [List.pairwise_pmap]
    refine hascending.imp fun hlt hx hy => (h.ordered b _ _).mp ?_
    rw [Equiv.apply_symm_apply, Equiv.apply_symm_apply]
    exact hlt

end Log

theorem Agrees.listedInOrder {log : Log} (h : d.Agrees log) (hd : d.Sound)
    (haddr : d.raw.Addressable) {owner : DeclId} {l : IdList b} (hl : d.image.Keeps owner l) :
    log.ListedInOrder h.placement (d.image.listed l) := by
  refine (h.renumberedIn_image hd).listedInOrder (fun id hid => ?_) ?_
  · obtain ⟨r, hr, _⟩ := (listFits_of_keeps haddr hl).owned id hid
    exact Image.holds_of_getElem? hr
  · rw [listed_of_keeps haddr hl]
    exact Records.listedBy_ascending (sizes_renumbered haddr b) owner

/-! ## Building -/

/-- Whatever was done to a draft, in the image that is built from it the member lists are
the records, each at its parent.  An arena has fewer records than there are words, the
largest of which is the root namespace. -/
theorem build_lists_members (p : Profile) (calls : List Call) (account : Option Account)
    (bank : Bank) {held : Holding} (hcounts : ∀ a, ((made p calls).arena a).size < UInt32.size)
    (hbuilt : ((made p calls).build account bank).1 = .ok held) :
    held.image.ListsMembers ∧ ∃ place : (logOf p calls).Placement,
      (logOf p calls).RenumberedIn place held.image ∧
      ∀ (owner : DeclId) (b : Arena) (l : IdList b), held.image.Keeps owner l →
        (logOf p calls).ListedInOrder place (held.image.listed l) := by
  have hnum := numbered_of_addressable hcounts
  have hsound := sound_made hnum
  have hagrees := agrees_made hnum
  rw [image_of_build hbuilt]
  exact ⟨listsMembers_image hcounts hsound, hagrees.placement, hagrees.renumberedIn_image hsound,
    fun _ _ _ => hagrees.listedInOrder hsound hcounts⟩

/-- A function that returns a value and has two parameters of one hash. -/
def oneFunction : List Call :=
  [.addType (.hashed 1 "") .root 4, .addFunction (.hashed 2 "") .root 0 0,
    .setReturn ⟨0⟩ ⟨.type, 0⟩ .plain, .addParameter (.hashed 3 "") ⟨0⟩ none .plain 0,
    .addParameter (.hashed 3 "") ⟨0⟩ none .plain 1]

theorem counts_oneFunction : ∀ a, ((made .full oneFunction).arena a).size < UInt32.size := by
  decide +kernel

theorem build_lists_members_oneFunction :
    ∃ held, ((made .full oneFunction).build none {}).1 = .ok held ∧ held.image.ListsMembers := by
  have hbuilt := build_of_no_classes .full oneFunction {} counts_oneFunction (by decide +kernel)
  exact ⟨_, hbuilt, (build_lists_members .full oneFunction none {} counts_oneFunction hbuilt).1⟩

end Draft
end TypeAtlas
