/-
What a verified image says of its records.

The type index and the member lists repeat what records say of themselves.  In an image
that was verified nothing they say is wrong, `Image.RepeatsTruly`: what they list is there
and belongs where it is listed, and lookups through them answer like scans of what they
list.  They need not list everything, and a mask of flags need not have anything to do
with attributes.  In an image that was built they do, and an image read back from the file
of such a one is that image, `Image.RepeatsWholly`.
-/
import TypeAtlas.Proofs.Build.Flags
import TypeAtlas.Proofs.Build.TypeIndex
import TypeAtlas.Proofs.Layout.Stripped
import TypeAtlas.Proofs.Wire.File

namespace TypeAtlas

namespace Search

/-- An answer is something that qualifies, and is there if anything does. -/
structure Picks {α : Type} (qualifies : α → Prop) (answer : Option α) : Prop where
  picked : ∀ x ∈ answer, qualifies x
  isSome_iff : answer.isSome ↔ ∃ x, qualifies x

theorem Finds.picks {α : Type} {elements : List α} {key : α → UInt32} {hash : UInt32}
    {answer : Option α} (h : Finds elements key hash answer) {qualifies : α → Prop}
    (hiff : ∀ x, qualifies x ↔ x ∈ elements ∧ key x = hash) : Picks qualifies answer where
  picked x hx := (hiff x).mpr (h.found x hx)
  isSome_iff := by
    rw [h.isSome_iff]
    exact exists_congr fun x => (hiff x).symm

end Search

/-! ## Loading -/

namespace LoadPolicy

variable {p : LoadPolicy} {input unread rest : List UInt8} {img img' : Image}

theorem exists_read_of_load {account : Option Account} {bank : Bank} {held : Holding}
    (h : (p.load input account bank).result = .ok held) :
    ∃ unread, p.read input = (.ok held.image, unread) := by
  rw [load] at h
  split at h
  · cases h
  · next img unread hread =>
    have himage := Image.image_of_hold (Check.mapError_eq_ok_iff.mp h)
    exact ⟨unread, himage ▸ hread⟩

theorem safe_of_read (hverify : p.verify = true) (hread : p.read input = (.ok img, unread))
    (haddr : img.Addressable) : img.Safe := by
  obtain ⟨_, _, _, hreads⟩ := read_eq_ok_iff.mp hread
  exact Image.safe_of_validate haddr (hreads.valid hverify)

/-- Whatever a loader gets from the file of an image is that image. -/
theorem eq_of_read_file (hlength : img.encode.length < UInt64.size)
    (hread : p.read (img.file ++ rest) = (.ok img', unread)) : img' = img := by
  obtain ⟨h, payload, hinput, hreads⟩ := read_eq_ok_iff.mp hread
  have hheader := (Image.readHeader_file rest).symm.trans
    (readHeader_eq_ok_iff.mpr ⟨hreads.version, hinput⟩)
  obtain ⟨hsame, hrest⟩ := Prod.mk.inj hheader
  obtain rfl := Except.ok.inj hsame
  have hsize : img.encode.length = payload.length := by
    rw [hreads.size, Image.payloadSize_header hlength]
  obtain ⟨rfl, _⟩ := List.append_inj hrest hsize
  have himage := (Image.decode_encode (Image.countable_of_length hlength)).symm.trans hreads.image
  exact (Except.ok.inj himage).symm

end LoadPolicy

namespace Image

open Search

variable {img : Image}

/-! ## Nothing wrong -/

/-- A type that the type index lists under a hash. -/
def ListsType (img : Image) (hash : UInt32) (t : TypeRef) : Prop :=
  t.id ∈ img.typeIndex ∧ img.Genuine t.ref ∧ t.header.name.hash = hash

/-- A record that a declaration lists under a hash. -/
def ListsMember (img : Image) {k : DeclKind} (r : Ref (.decl k)) {b : Arena} (hash : UInt32)
    (m : Ref b) : Prop :=
  m.id ∈ img.listed (r.record.members b) ∧ img.Genuine m ∧ m.record.hash = hash

/-- The type index and the member lists are right in what they say. -/
structure RepeatsTruly (img : Image) : Prop where
  indexed : ∀ t ∈ img.typeIndex, img.Holds t.decl.id
  indexAscends : (img.typeIndex.toList.filterMap img.typeHash?).Pairwise (· ≤ ·)
  /-- A list lies in its pool and lists, by ascending hash, what belongs to its owner. -/
  listed : ∀ (owner : DeclId) (b : Arena) (l : IdList b), img.Keeps owner l → img.ListFits owner l
  /-- A record is listed in one place at most. -/
  once : ∀ (b : Arena) (id : Id b) (owner other : DeclId) (l l' : IdList b), img.Keeps owner l →
    img.Keeps other l' → id ∈ img.listed l → id ∈ img.listed l' → owner = other ∧ l = l'
  returned : ∀ (b : Arena) (id : Id b), img.Returned id →
    ∀ (owner : DeclId) (l : IdList b), img.Keeps owner l → id ∉ img.listed l
  /-- A lookup in the index answers what it lists, and nothing that a lookup among the records
  of one kind does not. -/
  types : ∀ hash, ∃ found, img.getType hash = .ok found ∧ Picks (img.ListsType hash) found ∧
    ∀ t ∈ found, (img.find (.decl t.kind.toDecl) hash).isSome
  members : ∀ (k : DeclKind) (r : Ref (.decl k)) (b : Arena), img.Genuine r → ∀ hash,
    ∃ (ids : Array (Id b)) (found : Option (Ref b)), img.members r b = .ok ids ∧
      img.findIn ids hash = .ok found ∧ Picks (img.ListsMember r hash) found

theorem Keeps.listFits (hsafe : img.Safe) {owner : DeclId} {b : Arena} {l : IdList b}
    (h : img.Keeps owner l) : img.ListFits owner l := by
  obtain ⟨_, r, hr, rfl⟩ := h
  have hgenuine : img.Genuine (⟨owner.id, r⟩ : Ref (.decl owner.kind)) :=
    ref_eq_ok_iff.mpr ⟨rfl, hr⟩
  exact hgenuine.listFits hsafe b

/-- What is listed states its owner, so that no other declaration lists it. -/
theorem Keeps.eq_of_listed (hsafe : img.Safe) {owner other : DeclId} {b : Arena} {l l' : IdList b}
    (hl : img.Keeps owner l) (hl' : img.Keeps other l') {id : Id b} (hid : id ∈ img.listed l)
    (hid' : id ∈ img.listed l') : owner = other ∧ l = l' := by
  obtain ⟨r, hr, hparent⟩ := (hl.listFits hsafe).owned id hid
  have hparent' := (hl'.listFits hsafe).parent_eq hid' hr
  obtain rfl := Option.some.inj (hparent.symm.trans hparent')
  exact ⟨rfl, hl.unique hl'⟩

theorem Safe.types (hsafe : img.Safe) (hash : UInt32) :
    ∃ found, img.getType hash = .ok found ∧ Picks (img.ListsType hash) found ∧
      ∀ t ∈ found, (img.find (.decl t.kind.toDecl) hash).isSome := by
  have hregular := hsafe.wellFormed.toRegular
  obtain ⟨ts, found, hts, hanswer, hfinds⟩ :=
    getType_finds hsafe.addressable hregular.types hregular.typesSorted hash
  have hpicks : Picks (img.ListsType hash) found := hfinds.picks fun t => by
    rw [mem_types_iff hts, ListsType, and_assoc]
  refine ⟨found, hanswer, hpicks, fun t ht => ?_⟩
  obtain ⟨hid, hgenuine, hhash⟩ := hpicks.picked t ht
  have hget := hgenuine.getElem? hsafe.addressable (hregular.types t.id hid)
  exact (isSome_find_iff hsafe.addressable (hregular.sorted _)).mpr ⟨t.ref, hget, hhash⟩

theorem Safe.members (hsafe : img.Safe) {k : DeclKind} {r : Ref (.decl k)} (hr : img.Genuine r)
    (b : Arena) (hash : UInt32) :
    ∃ (ids : Array (Id b)) (found : Option (Ref b)), img.members r b = .ok ids ∧
      img.findIn ids hash = .ok found ∧ Picks (img.ListsMember r hash) found := by
  obtain ⟨ids, rs, found, hids, hrs, hfound, hfinds⟩ := hr.members_finds hsafe b hash
  refine ⟨ids, found, hids, hfound, hfinds.picks fun m => ?_⟩
  rw [mem_refs_iff hrs, ListsMember, and_assoc, ← (ids_eq_ok_iff.mp hids).2, Array.mem_toList_iff]

theorem Safe.repeatsTruly (hsafe : img.Safe) : img.RepeatsTruly where
  indexed := hsafe.wellFormed.types
  indexAscends := hsafe.wellFormed.typesSorted
  listed _ _ _ hl := hl.listFits hsafe
  once _ _ _ _ _ _ hl hl' := hl.eq_of_listed hsafe hl'
  returned _ _ hid _ _ hl := hsafe.wellFormed.toRegular.not_listed_of_returned
    hsafe.addressable hid hl (hl.listFits hsafe)
  types := hsafe.types
  members _ _ b hr := hsafe.members hr b

/-! ## Nothing left out -/

/-- The type index, the member lists and the masks say everything, so that lookups through
them find whatever there is. -/
structure RepeatsWholly (img : Image) : Prop where
  index : img.IndexesTypes
  lists : img.ListsMembers
  masks : img.MasksAttributes
  types : ∀ (k : TypeKind) hash, (img.find (.decl k.toDecl) hash).isSome →
    ∃ t, img.getType hash = .ok (some t)
  members : ∀ (b : Arena) (m : Ref b), (img.arena b)[m.id.index]? = some m.record →
    ¬ img.Returned m.id → ∃ (d : DeclRef) (ids : Array (Id b)) (found : Ref b),
      img.parentOf m = .ok (some d) ∧ img.members d.ref b = .ok ids ∧
        img.findIn ids m.record.hash = .ok (some found)

theorem IndexesTypes.exists_getType (h : img.IndexesTypes) (hsafe : img.Safe) {k : TypeKind}
    {hash : UInt32} (hsome : (img.find (.decl k.toDecl) hash).isSome) :
    ∃ t, img.getType hash = .ok (some t) := by
  obtain ⟨r, hget, hhash⟩ :=
    (isSome_find_iff hsafe.addressable (hsafe.wellFormed.sorted _)).mp hsome
  have hheld : img.Holds r.id := holds_of_getElem? hget
  have hlisted : img.ListsType hash ⟨k, r⟩ :=
    ⟨h.mem_of_holds hheld, genuine_of_getElem? hsafe.addressable hget, hhash⟩
  obtain ⟨found, hfound, hpicks, _⟩ := hsafe.types hash
  obtain ⟨t, rfl⟩ := Option.isSome_iff_exists.mp (hpicks.isSome_iff.mpr ⟨_, hlisted⟩)
  exact ⟨t, hfound⟩

/-- What is not returned is found in the list of its owner. -/
theorem ListsMembers.exists_findIn (h : img.ListsMembers) (hsafe : img.Safe) {b : Arena} {m : Ref b}
    (hget : (img.arena b)[m.id.index]? = some m.record) (hnot : ¬ img.Returned m.id) :
    ∃ (d : DeclRef) (ids : Array (Id b)) (found : Ref b), img.parentOf m = .ok (some d) ∧
      img.members d.ref b = .ok ids ∧ img.findIn ids m.record.hash = .ok (some found) := by
  rw [← m.id.ofIndex_index] at hnot
  obtain ⟨owner, l, hparent, ⟨_, r, hr, rfl⟩, hcount, _⟩ := h.once b m.id.index m.record hget hnot
  rw [m.id.ofIndex_index] at hcount
  have howner : img.Genuine (⟨owner.id, r⟩ : Ref (.decl owner.kind)) :=
    ref_eq_ok_iff.mpr ⟨rfl, hr⟩
  have hm : img.Genuine m := genuine_of_getElem? hsafe.addressable hget
  have hlisted : img.ListsMember (⟨owner.id, r⟩ : Ref (.decl owner.kind)) m.record.hash m :=
    ⟨List.count_pos_iff.mp (hcount ▸ Nat.one_pos), hm, rfl⟩
  obtain ⟨ids, found, hids, hfound, hpicks⟩ := hsafe.members howner b m.record.hash
  obtain ⟨x, rfl⟩ := Option.isSome_iff_exists.mp (hpicks.isSome_iff.mpr ⟨m, hlisted⟩)
  exact ⟨_, ids, x, parentOf_of_owned howner hparent, hids, hfound⟩

theorem Safe.repeatsWholly (hsafe : img.Safe) (hindex : img.IndexesTypes)
    (hlists : img.ListsMembers) (hmasks : img.MasksAttributes) : img.RepeatsWholly where
  index := hindex
  lists := hlists
  masks := hmasks
  types _ _ := hindex.exists_getType hsafe
  members _ _ := hlists.exists_findIn hsafe

section
variable {p : Profile} {calls : List Draft.Call} {account : Option Account} {bank : Bank}
  {held : Holding} (hcounts : ∀ a, ((Draft.made p calls).arena a).size < UInt32.size)
  (hbuilt : ((Draft.made p calls).build account bank).1 = .ok held)
include hcounts hbuilt

theorem safe_of_build : held.image.Safe := by
  have hvalid := Draft.validate_of_build hbuilt
  rw [Draft.image_of_build hbuilt] at hvalid ⊢
  exact safe_of_validate (Draft.addressable_image hcounts) hvalid

theorem repeatsWholly_of_build : held.image.RepeatsWholly := by
  have hsafe := safe_of_build hcounts hbuilt
  have hvalid := Draft.validate_of_build hbuilt
  rw [Draft.image_of_build hbuilt] at hsafe hvalid ⊢
  have hsound := Draft.sound_made (Draft.numbered_of_addressable hcounts)
  exact hsafe.repeatsWholly (Draft.indexesTypes_image hcounts)
    (Draft.listsMembers_image hcounts hsound) (Draft.masksAttributes_image hcounts hvalid)

end

/-! ## Loading -/

/-- In an image that a loader has verified the type index and the member lists are right in
what they say.  The file of an image that was built is accepted, and whatever a loader gets
from it says everything.  A file states the length of its payload in 64 bits. -/
theorem verified_repeats_truly :
    (∀ (p : LoadPolicy) (input : List UInt8) (account : Option Account) (bank : Bank)
      (held : Holding), p.verify = true → (p.load input account bank).result = .ok held →
      held.image.Addressable → held.image.RepeatsTruly) ∧
    (∀ (profile : Profile) (calls : List Draft.Call) (account : Option Account) (bank : Bank)
      (built : Holding), (∀ a, ((Draft.made profile calls).arena a).size < UInt32.size) →
      ((Draft.made profile calls).build account bank).1 = .ok built →
      built.image.encode.length < UInt64.size →
      (∀ rest, ({} : LoadPolicy).read (built.image.file ++ rest) = (.ok built.image, rest)) ∧
      ∀ (p : LoadPolicy) (rest : List UInt8) (account : Option Account) (bank : Bank)
        (held : Holding), (p.load (built.image.file ++ rest) account bank).result = .ok held →
        held.image = built.image ∧ held.image.RepeatsWholly) := by
  refine ⟨fun p input account bank held hverify hload haddr => ?_,
    fun profile calls account bank built hcounts hbuilt hlength =>
      ⟨read_file (Draft.validate_of_build hbuilt) hlength,
        fun p rest account bank held hload => ?_⟩⟩
  · obtain ⟨_, hread⟩ := LoadPolicy.exists_read_of_load hload
    exact (LoadPolicy.safe_of_read hverify hread haddr).repeatsTruly
  · obtain ⟨_, hread⟩ := LoadPolicy.exists_read_of_load hload
    have hsame := LoadPolicy.eq_of_read_file hlength hread
    rw [hsame]
    exact ⟨rfl, repeatsWholly_of_build hcounts hbuilt⟩

/-- An enum with the name of the flag that it has. -/
def flaggedEnum : List Draft.Call :=
  [.addEnum (.text "transient") .root 4, .addAttribute (.text "transient") ⟨.enum, 0⟩ .flag]

theorem counts_flaggedEnum : ∀ a, ((Draft.made .full flaggedEnum).arena a).size < UInt32.size := by
  decide +kernel

theorem length_encode_flaggedEnum :
    (Draft.made .full flaggedEnum).image.encode.length < UInt64.size :=
  Nat.lt_of_le_of_lt (Draft.length_encode_image_le counts_flaggedEnum) (by decide +kernel)

theorem verified_repeats_truly_flaggedEnum : ∃ built held,
    ((Draft.made .full flaggedEnum).build none {}).1 = .ok built ∧
    (({} : LoadPolicy).load (built.image.file ++ []) none {}).result = .ok held ∧
    held.image.RepeatsTruly ∧ held.image = built.image ∧ held.image.RepeatsWholly := by
  obtain ⟨hverified, hbuiltFile⟩ := verified_repeats_truly
  have hbuilt := Draft.build_of_no_classes .full flaggedEnum {} counts_flaggedEnum
    (by decide +kernel)
  obtain ⟨haccepted, hloaded⟩ := hbuiltFile .full flaggedEnum none {} _ counts_flaggedEnum hbuilt
    length_encode_flaggedEnum
  have hload := congrArg Loaded.result (LoadPolicy.load_none_eq_ok {} (haccepted []))
  have haddr := (safe_of_build counts_flaggedEnum hbuilt).addressable
  exact ⟨_, _, hbuilt, hload, hverified {} _ none {} _ rfl hload haddr,
    hloaded {} [] none {} _ hload⟩

/-! ## What verification leaves open -/

/-- A class with a flag but without attributes, which nothing lists. -/
def strayClass : Image := (oneClass none).stripped .transient

theorem length_encode_strayClass : strayClass.encode.length < UInt64.size := by
  simp only [encode, codec, Codec.imap, Codec.pair, List.length_append, Codec.length_text]
  decide +kernel

theorem addressable_strayClass : strayClass.Addressable :=
  addressable_stripped (addressable_oneClass none)

theorem validate_strayClass : strayClass.validate = .ok () :=
  validate_stripped (addressable_oneClass none) validate_oneClass .transient

theorem safe_strayClass : strayClass.Safe :=
  safe_of_validate addressable_strayClass validate_strayClass

/-- The class, with its id. -/
def stray : Ref .classes := ⟨⟨0⟩, (bareClass none).stripped .transient⟩

theorem classes_strayClass : strayClass.arena .classes = #[stray.record] := by
  rw [strayClass, arena_stripped]
  exact List.map_toArray

theorem attributes_strayClass : strayClass.arena .attributes = #[] := by
  rw [strayClass, arena_stripped]
  exact Array.map_empty

theorem get_stray : (strayClass.arena .classes)[stray.id.index]? = some stray.record := by
  rw [classes_strayClass]
  rfl

theorem genuine_stray : strayClass.Genuine stray :=
  genuine_of_getElem? addressable_strayClass get_stray

theorem find_strayClass : strayClass.find .classes 0 = some stray := by
  have hfinds : Finds _ _ 0 (strayClass.find .classes 0) :=
    finds_find (safe_strayClass.wellFormed.sorted .classes)
  have hrefs : strayClass.recordRefs .classes = [stray] := by
    rw [recordRefs, classes_strayClass]
    rfl
  rw [hrefs] at hfinds
  obtain ⟨c, hc⟩ := Option.isSome_iff_exists.mp
    (hfinds.isSome_iff.mpr ⟨stray, List.mem_singleton_self stray, rfl⟩)
  rw [hc, List.mem_singleton.mp (hfinds.found c hc).1]

theorem getType_strayClass : strayClass.getType 0 = .ok none := by
  obtain ⟨found, hfound, hpicks, _⟩ := safe_strayClass.types 0
  cases found with
  | none => exact hfound
  | some t => exact absurd (hpicks.picked t rfl).1 (Array.not_mem_empty t.id)

theorem not_indexesTypes_strayClass : ¬ strayClass.IndexesTypes := by
  intro h
  have hheld : strayClass.Holds (⟨.classType, 0⟩ : TypeId).decl.id := holds_of_getElem? get_stray
  have hcount : [].count (⟨.classType, 0⟩ : TypeId) = 1 := h.once ⟨.classType, 0⟩ hheld
  cases hcount

theorem not_listsMembers_strayClass : ¬ strayClass.ListsMembers := by
  intro h
  obtain ⟨_, l, _, _, hcount, _⟩ := h.once .classes 0 stray.record get_stray id
  have hlisted : strayClass.listed l = [] := by
    show ((#[] : Array (Id .classes)).extract l.start.toNat l.stop).toList = []
    rw [Array.extract_empty]
  rw [hlisted] at hcount
  cases hcount

theorem not_masksAttributes_strayClass : ¬ strayClass.MasksAttributes := by
  intro h
  obtain ⟨_, attrs, _, _, hfits⟩ := h .classType rfl stray genuine_stray
  have hset : stray.record.hasFlags .transient = true := rfl
  have hbit : FlagBits.transient.Has 0 := rfl
  obtain ⟨m, hm, _⟩ := (hfits.hasFlags_iff .transient).mp hset 0 hbit
  have hget := genuine_attribute_iff.mp ((hfits.listed m).mp hm).1
  rw [attributes_strayClass] at hget
  cases hget

/-- An image is accepted whose class is in no list and not in the type index, and has a flag
that no attribute stands for. -/
theorem verified_strayClass :
    (({} : LoadPolicy).verify = true ∧
      (({} : LoadPolicy).load strayClass.file none {}).result = .ok { image := strayClass }) ∧
    (¬ strayClass.IndexesTypes ∧ ¬ strayClass.ListsMembers ∧ ¬ strayClass.MasksAttributes) ∧
    ∃ c : Ref .classes, strayClass.find .classes 0 = some c ∧ strayClass.getType 0 = .ok none ∧
      strayClass.parentOf c = .ok (some strayClass.rootRef.decl) ∧
      strayClass.members strayClass.rootRef .classes = .ok #[] ∧
      c.record.hasFlags .transient = true ∧ strayClass.members c .attributes = .ok #[] := by
  have hread := read_whole_file validate_strayClass length_encode_strayClass
  have hload := LoadPolicy.load_none_eq_ok {} hread
  exact ⟨⟨rfl, congrArg Loaded.result hload⟩,
    ⟨not_indexesTypes_strayClass, not_listsMembers_strayClass, not_masksAttributes_strayClass⟩,
    stray, find_strayClass, getType_strayClass, rfl, rfl, rfl, rfl⟩

end Image
end TypeAtlas
