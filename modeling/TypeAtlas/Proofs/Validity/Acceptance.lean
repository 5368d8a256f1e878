/-
What validation accepts.

The passes put together.  An image is accepted exactly when it is well-formed,
and no pass has to rely on a test that an earlier one did not make.
-/
import TypeAtlas.Proofs.Text
import TypeAtlas.Proofs.Validity.Trust

namespace TypeAtlas
namespace Image

open Check

variable {img : Image}

theorem listed_empty (img : Image) (b : Arena) : img.listed (.empty : IdList b) = [] := by
  simp [listed, IdList.empty, IdList.stop]

theorem listFits_empty (owner : DeclId) (b : Arena) : img.ListFits owner (.empty : IdList b) := by
  refine ⟨Nat.zero_le _, ?_, ?_⟩
  · rw [listed_empty]
    exact fun _ h => absurd h List.not_mem_nil
  · rw [listed_empty]
    exact List.Pairwise.nil

/-- A declaration that refers to nothing. -/
theorem membersFit_of_empty {owner : DeclId} {r : Record owner.arena} (hlinks : r.links = [])
    (hlists : ∀ b, r.members b = .empty) (hreturn : r.returnField? = none) :
    img.MembersFit owner r := by
  refine ⟨?_, fun b _ => ?_, ?_⟩
  · rw [hlinks]
    exact fun _ h => absurd h List.not_mem_nil
  · rw [hlists b]
    exact listFits_empty owner b
  · rw [hreturn]
    intro _ h
    cases h

/-- The namespaces and the kinds of `memberOrder` are all kinds that refer to
something beside their owner. -/
theorem mem_memberOrder (k : DeclKind) :
    k ∈ memberOrder ∨ k = .nameSpace ∨ k = .type ∨ k = .enumConstant := by
  cases k <;> decide

/-- The member passes without the one over the root namespace. -/
theorem checkMembersOf_all_iff :
    (img.checkMembersOf .nameSpace = .ok () ∧ memberOrder.forM img.checkMembersOf = .ok ()) ↔
      ∀ k i r, (img.arena (.decl k))[i]? = some r → img.MembersFit ⟨k, .ofNat i⟩ r := by
  rw [forM_eq_ok_iff]
  constructor
  · rintro ⟨hn, ho⟩ k i r hr
    rcases mem_memberOrder k with hk | rfl | hk
    · exact checkMembersOf_eq_ok_iff.mp (ho k hk) i r hr
    · exact checkMembersOf_eq_ok_iff.mp hn i r hr
    · rcases hk with rfl | rfl
      · exact membersFit_of_empty rfl (fun _ => rfl) rfl
      · exact membersFit_of_empty rfl (fun _ => rfl) rfl
  · intro h
    exact ⟨checkMembersOf_eq_ok_iff.mpr (h .nameSpace),
      fun k _ => checkMembersOf_eq_ok_iff.mpr (h k)⟩

theorem Regular.basesHold (h : img.Regular) : img.BasesHold :=
  basesHold_of_members (h.members .classType)

/-- Of a regular image only the chains of base classes are left to look at. -/
theorem Regular.validate_eq (h : img.Regular) : img.validate = img.checkInheritance := by
  have hprofile := checkProfile_eq_ok_iff.mpr h.profile
  have hroot := checkRoot_eq_ok_iff.mpr h.root
  have harenas := checkArenas_eq_ok_iff.mpr ⟨h.records, h.values, h.sorted⟩
  obtain ⟨hnamespaces, hothers⟩ := checkMembersOf_all_iff.mpr h.members
  have hrootMembers : img.checkMembers .root img.root = .ok () :=
    checkMembers_eq_ok_iff.mpr h.rootMembers
  have hchains := checkChains_eq_ok_iff.mpr h.rooted
  have htypes := checkTypeIndex_eq_ok_iff.mpr ⟨h.types, h.typesSorted⟩
  have hnames := checkNames_eq_ok_iff.mpr ⟨h.names, h.namesSorted⟩
  rw [validate, hprofile, hroot, harenas, hnamespaces, hrootMembers, hothers, hchains, htypes, hnames]
  cases img.checkInheritance <;> rfl

/-- An image that is accepted is regular. -/
theorem regular_of_validate (h : img.validate = .ok ()) : img.Regular := by
  simp only [validate, then_eq_ok_iff, checkProfile_eq_ok_iff, checkRoot_eq_ok_iff,
    checkArenas_eq_ok_iff, checkChains_eq_ok_iff, checkTypeIndex_eq_ok_iff, checkNames_eq_ok_iff] at h
  obtain ⟨hprofile, hroot, ⟨hrecords, hvalues, hsorted⟩, hnamespaces, hrootMembers, hothers,
    hrooted, _, ⟨htypes, htypesSorted⟩, hnames, hnamesSorted⟩ := h
  have hmembers := checkMembersOf_all_iff.mp ⟨hnamespaces, hothers⟩
  exact ⟨hprofile, hroot, hrecords, hvalues, hsorted, hmembers,
    checkMembers_eq_ok_iff.mp hrootMembers, hrooted, htypes, htypesSorted, hnames, hnamesSorted⟩

/-- An image is accepted exactly when it is well-formed. -/
theorem validate_eq_ok_iff (haddr : img.Addressable) :
    img.validate = .ok () ↔ img.WellFormed := by
  constructor
  · intro h
    have hregular := regular_of_validate h
    rw [hregular.validate_eq] at h
    exact ⟨hregular, (checkInheritance_eq_ok_iff haddr hregular.basesHold).mp h⟩
  · intro h
    rw [h.validate_eq]
    exact (checkInheritance_eq_ok_iff haddr h.basesHold).mpr h.acyclic

/-- Validation decides well-formedness, of any image whatever, and never comes to
a record or a list that is not there. -/
theorem validate_decides (img : Image) (haddr : img.Addressable) :
    img.validateTrusting.run = .ok img.validate ∧ (img.validate = .ok () ↔ img.WellFormed) :=
  ⟨validateTrusting_eq haddr, validate_eq_ok_iff haddr⟩

/-- A class without members, which may state a base. -/
def bareClass (base : Option (Id .classes)) : Record .classes :=
  ⟨⟨.decl .classType, .empty, some .root⟩, { size := 4, base }⟩

def oneClass (base : Option (Id .classes)) : Image :=
  { empty .full with
    records := (empty .full).records.modify .classes fun _ => #[bareClass base] }

theorem addressable_oneClass (base : Option (Id .classes)) : (oneClass base).Addressable := by
  intro a
  have hsize : ((oneClass base).arena a).size ≤ 1 := by
    cases a with
    | decl k =>
      cases k with
      | classType => exact Nat.le_refl 1
      | _ => exact Nat.zero_le 1
    | attributes => exact Nat.zero_le 1
  exact Nat.lt_of_le_of_lt hsize (by decide)

theorem validate_decides_oneClass :
    (oneClass (some ⟨0⟩)).Addressable ∧ (oneClass (some ⟨0⟩)).validate ≠ .ok () := by
  have haddr := addressable_oneClass (some ⟨0⟩)
  refine ⟨haddr, fun h => ?_⟩
  have hwf := ((oneClass (some ⟨0⟩)).validate_decides haddr).2.mp h
  exact hwf.acyclic ⟨0⟩ (Relation.TransGen.single ⟨_, rfl, rfl⟩)

theorem recordFits_bareClass (base : Option (Id .classes)) :
    (oneClass base).RecordFits (bareClass base) where
  kind := rfl
  owner := ⟨.root, rfl, Or.inl rfl, rfl⟩
  name := by
    show (TextSpan.empty.resolve? "").isSome
    rw [TextSpan.resolve?_empty]
    rfl

theorem wellFormed_oneClass : (oneClass none).WellFormed where
  profile h := by cases h
  root := ⟨rfl, rfl, rfl⟩
  records a r hr := by
    cases a with
    | attributes => exact absurd hr (Array.not_mem_empty r)
    | decl k =>
      cases k with
      | classType => exact Array.mem_singleton.mp hr ▸ recordFits_bareClass none
      | _ => exact absurd hr (Array.not_mem_empty r)
  values r hr := absurd hr (Array.not_mem_empty r)
  sorted a := by
    cases a with
    | attributes => exact .nil
    | decl k =>
      cases k with
      | classType => exact List.pairwise_singleton _ _
      | _ => exact .nil
  members k i r hr := by
    cases k with
    | classType =>
      have hmem : r ∈ #[bareClass none] := Array.mem_of_getElem? hr
      rw [Array.mem_singleton.mp hmem]
      refine membersFit_of_empty rfl (fun b => ?_) rfl
      cases b with
      | attributes => rfl
      | decl k => cases k <;> rfl
    | _ => exact absurd (Array.mem_of_getElem? hr) (Array.not_mem_empty r)
  rootMembers := by
    refine membersFit_of_empty rfl (fun b => ?_) rfl
    cases b with
    | attributes => rfl
    | decl k => cases k <;> rfl
  rooted k i hi := by
    cases k with
    | classType =>
      obtain rfl : i = 0 := Nat.lt_one_iff.mp hi
      exact .owned rfl .root
    | _ => exact absurd hi (Nat.not_lt_zero i)
  acyclic c hcycle := by
    obtain ⟨b, ⟨r, hr, hbase⟩, _⟩ := Relation.TransGen.head'_iff.mp hcycle
    have hmem : r ∈ #[bareClass none] := Array.mem_of_getElem? hr
    rw [Array.mem_singleton.mp hmem] at hbase
    cases hbase
  types t ht := absurd ht (Array.not_mem_empty t)
  typesSorted := .nil
  names n hn := absurd hn (Array.not_mem_empty n)
  namesSorted := .nil

end Image
end TypeAtlas
