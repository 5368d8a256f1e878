/-
Masks of well-known flags.

A mask is folded from the owners that attributes state, and the list of an owner is cut from
a pool that was laid out apart from it.  In an image that was built the two say the same: a
bit is set in a mask exactly if the list has a flag attribute with the name of that bit.
-/
import TypeAtlas.Proofs.Build.Membership
import TypeAtlas.Proofs.Query.Genuine

namespace TypeAtlas

/-! ## Bits -/

namespace FlagBits

/-- The bit at a place is set. -/
def Has (f : FlagBits) (n : Nat) : Prop := f.bits.toNat.testBit n = true

variable {f g : FlagBits} {n : Nat}

theorem not_has_none (n : Nat) : ¬ none.Has n := by
  show ¬ Nat.testBit 0 n = true
  rw [Nat.zero_testBit]
  exact Bool.false_ne_true

theorem has_union : (f.union g).Has n ↔ f.Has n ∨ g.Has n := by
  show (f.bits ||| g.bits).toNat.testBit n = true ↔ _
  rw [UInt32.toNat_or, Nat.testBit_or, Bool.or_eq_true]
  rfl

theorem contains_iff : f.contains g = true ↔ ∀ n, g.Has n → f.Has n := by
  rw [contains, beq_iff_eq, ← UInt32.toNat_inj, UInt32.toNat_and]
  constructor
  · intro h n hn
    rw [Has, ← h, Nat.testBit_and, Bool.and_eq_true] at hn
    exact hn.1
  · intro h
    refine Nat.eq_of_testBit_eq fun n => ?_
    rw [Nat.testBit_and, Bool.and_eq_right_iff_imp]
    exact h n

end FlagBits

namespace Record

/-- A flag attribute with the well-known name of the flag at a place. -/
def Marks (r : Record .attributes) (n : Nat) : Prop :=
  r.body = .flag ∧ ∃ known ∈ FlagBits.wellKnown, known.flag.Has n ∧ r.hash = hashText known.setBy

/-- No two well-known names have one hash. -/
theorem hash_setBy_injective : ∀ x ∈ FlagBits.wellKnown, ∀ y ∈ FlagBits.wellKnown,
    hashText x.setBy = hashText y.setBy → x.flag = y.flag := by
  have hne : hashText "transient" ≠ hashText "nullstr" := by decide +kernel
  intro x hx y hy h
  simp only [FlagBits.wellKnown, List.mem_cons, List.not_mem_nil, or_false] at hx hy
  rcases hx with rfl | rfl <;> rcases hy with rfl | rfl
  · rfl
  · exact absurd h hne
  · exact absurd h.symm hne
  · rfl

/-- Where elements of one key agree on a property, the first of a key stands for all. -/
theorem exists_find?_iff {α κ : Type} [BEq κ] [LawfulBEq κ] {xs : List α} {key : α → κ}
    {p : α → Prop} (hkey : ∀ x ∈ xs, ∀ y ∈ xs, key x = key y → p y → p x) (k : κ) :
    (∃ x, xs.find? (fun x => key x == k) = some x ∧ p x) ↔ ∃ x ∈ xs, p x ∧ k = key x := by
  have hfound {x : α} (hx : xs.find? (fun x => key x == k) = some x) : x ∈ xs ∧ key x = k :=
    ⟨List.mem_of_find?_eq_some hx, by simpa using List.find?_some hx⟩
  constructor
  · rintro ⟨x, hx, hp⟩
    exact ⟨x, (hfound hx).1, hp, (hfound hx).2.symm⟩
  · rintro ⟨y, hy, hp, hk⟩
    have hsome : (xs.find? fun x => key x == k).isSome :=
      List.find?_isSome.mpr ⟨y, hy, beq_iff_eq.mpr hk.symm⟩
    obtain ⟨x, hx⟩ := Option.isSome_iff_exists.mp hsome
    exact ⟨x, hx, hkey x (hfound hx).1 y hy ((hfound hx).2.trans hk) hp⟩

theorem has_ofHash {hash : UInt32} {n : Nat} : (FlagBits.ofHash hash).Has n ↔
    ∃ known ∈ FlagBits.wellKnown, known.flag.Has n ∧ hash = hashText known.setBy := by
  have hsame : ∀ x ∈ FlagBits.wellKnown, ∀ y ∈ FlagBits.wellKnown,
      hashText x.setBy = hashText y.setBy → y.flag.Has n → x.flag.Has n := by
    intro x hx y hy h hhas
    rwa [hash_setBy_injective x hx y hy h]
  rw [← exists_find?_iff hsame hash]
  unfold FlagBits.ofHash
  cases FlagBits.wellKnown.find? fun known => hashText known.setBy == hash with
  | none => simp [FlagBits.not_has_none]
  | some found => simp

theorem has_flagBit {r : Record .attributes} {n : Nat} : r.flagBit.Has n ↔ r.Marks n := by
  rw [flagBit, Marks]
  cases hbody : r.body with
  | flag => exact has_ofHash.trans (and_iff_right rfl).symm
  | _ => simp [FlagBits.not_has_none]

end Record

/-! ## Masks that are folded -/

namespace Records

variable {rs : Records}

theorem has_foldl_union {owner : DeclId} {n : Nat} (attrs : List (Record .attributes))
    (flags : FlagBits) :
    (attrs.foldl (fun flags r => if r.parent == some owner then flags.union r.flagBit else flags)
      flags).Has n ↔ flags.Has n ∨ ∃ r ∈ attrs, r.parent = some owner ∧ r.Marks n := by
  induction attrs generalizing flags with
  | nil => simp
  | cons r attrs ih =>
    rw [List.foldl_cons, ih]
    simp only [List.exists_mem_cons_iff, ← or_assoc]
    refine or_congr_left ?_
    by_cases hparent : r.parent = some owner
    · rw [if_pos (beq_iff_eq.mpr hparent), FlagBits.has_union, Record.has_flagBit,
        and_iff_right hparent]
    · rw [if_neg (mt beq_iff_eq.mp hparent)]
      simp only [hparent, false_and, or_false]

theorem has_flagsOf {owner : DeclId} {n : Nat} : (rs.flagsOf owner).Has n ↔
    ∃ r ∈ rs.attributes, r.parent = some owner ∧ r.Marks n := by
  rw [flagsOf, ← Array.foldl_toList, has_foldl_union]
  simp only [FlagBits.not_has_none, false_or, Array.mem_toList_iff]

end Records

/-! ## Masks of an image -/

namespace Image

/-- What the mask of a declaration has to do with its attributes. -/
structure MaskFits (img : Image) {k : DeclKind} (r : Ref (.decl k))
    (attrs : List (Ref .attributes)) : Prop where
  /-- The list has every attribute that the declaration owns, and no other. -/
  listed : ∀ m : Ref .attributes, m ∈ attrs ↔ img.Genuine m ∧ m.record.parent = some r.id.decl
  hasFlags_iff : ∀ mask : FlagBits,
    r.record.hasFlags mask = true ↔ ∀ n, mask.Has n → ∃ m ∈ attrs, m.record.Marks n
  known : ∀ n, r.record.flags.Has n → ∃ known ∈ FlagBits.wellKnown, known.flag.Has n

/-- The mask of every record with attributes fits the list of them. -/
def MasksAttributes (img : Image) : Prop :=
  ∀ (k : DeclKind), k.isAttributed = true → ∀ r : Ref (.decl k), img.Genuine r →
    ∃ ids attrs, img.members r .attributes = .ok ids ∧ img.refs ids = .ok attrs ∧
      img.MaskFits r attrs

end Image

namespace Draft

open Image (Genuine)

variable {d : Draft}

theorem image_attributes (d : Draft) (j : Nat) :
    (d.image.arena .attributes)[j]? = (d.renumbered.get .attributes)[j]? := by
  rw [image_getElem?]
  exact Option.map_id_apply

/-- The attributes in the list of a declaration are those that state it as their owner. -/
theorem mem_listed_attributes (haddr : d.raw.Addressable) {owner : DeclId}
    {l : IdList .attributes} (hl : d.image.Keeps owner l) {m : Ref .attributes}
    (hm : d.image.Genuine m) : m.id ∈ d.image.listed l ↔ m.record.parent = some owner := by
  have hget := Image.genuine_attribute_iff.mp hm
  constructor
  · intro hmem
    exact (listFits_of_keeps haddr hl).parent_eq hmem hget
  · intro hparent
    have hmem := mem_listed_of_not_returned haddr hget id hparent hl
    rwa [Id.ofIndex_index] at hmem

theorem maskFits_image (haddr : d.raw.Addressable) {k : DeclKind} (hk : k.isAttributed = true)
    {r : Ref (.decl k)} (hr : (d.image.arena (.decl k))[r.id.index]? = some r.record)
    {attrs : List (Ref .attributes)} (hattrs : ∀ m : Ref .attributes,
      m ∈ attrs ↔ d.image.Genuine m ∧ m.record.parent = some r.id.decl) :
    d.image.MaskFits r attrs := by
  have hflags : r.record.flags = Records.flagsOf d.renumbered r.id.decl := by
    rw [image_getElem?] at hr
    obtain ⟨s, _, hs⟩ := Option.map_eq_some_iff.mp hr
    rw [← hs, Records.flags_finish _ _ _ hk, Id.index, UInt32.ofNat_toNat]
    rfl
  have hhas (n : Nat) : r.record.flags.Has n ↔ ∃ m ∈ attrs, m.record.Marks n := by
    rw [hflags, Records.has_flagsOf]
    constructor
    · rintro ⟨s, hs, hparent, hmarks⟩
      obtain ⟨j, hj⟩ := Array.getElem?_of_mem hs
      have hget : (d.image.arena .attributes)[j]? = some s := (image_attributes d j).trans hj
      have hindex : (Id.ofIndex j : Id .attributes).index = j := Id.index_ofIndex
        (Nat.lt_trans (Array.getElem?_eq_some_iff.mp hget).1 (addressable_image haddr _))
      have hm : d.image.Genuine ⟨.ofIndex j, s⟩ :=
        Image.genuine_attribute_iff.mpr ((congrArg _ hindex).trans hget)
      exact ⟨⟨.ofIndex j, s⟩, (hattrs _).mpr ⟨hm, hparent⟩, hmarks⟩
    · rintro ⟨m, hm, hmarks⟩
      obtain ⟨hgenuine, hparent⟩ := (hattrs m).mp hm
      have hget := Image.genuine_attribute_iff.mp hgenuine
      rw [image_attributes] at hget
      exact ⟨m.record, Array.mem_of_getElem? hget, hparent, hmarks⟩
  refine ⟨hattrs, fun mask => ?_, fun n h => ?_⟩
  · rw [Record.hasFlags, FlagBits.contains_iff]
    simp only [hhas]
  · obtain ⟨m, _, _, known, hknown, hn, _⟩ := (hhas n).mp h
    exact ⟨known, hknown, hn⟩

theorem masksAttributes_image (haddr : d.raw.Addressable) (hvalid : d.image.validate = .ok ()) :
    d.image.MasksAttributes := by
  have haddr' := addressable_image haddr
  have hsafe := Image.safe_of_validate haddr' hvalid
  intro k hk r hr
  have hget : (d.image.arena (.decl k))[r.id.index]? = some r.record := by
    refine hr.root_or_get.resolve_left fun hroot => ?_
    cases k with
    | nameSpace => cases hk
    | _ => exact hroot
  obtain ⟨ids, attrs, hids, hattrs, hmem⟩ := hr.exists_refs hsafe .attributes
  have hkeeps : d.image.Keeps r.id.decl (r.record.members .attributes) := by
    have hkeeps := Image.keeps_of_getElem? haddr' hget (b := .attributes)
      (by cases k <;> first | decide | cases hk)
    rwa [Id.index, UInt32.ofNat_toNat] at hkeeps
  refine ⟨ids, attrs, hids, hattrs, maskFits_image haddr hk hget fun m => ?_⟩
  rw [hmem, and_comm]
  exact and_congr_right fun hm => mem_listed_attributes haddr hkeeps hm

end Draft
end TypeAtlas
