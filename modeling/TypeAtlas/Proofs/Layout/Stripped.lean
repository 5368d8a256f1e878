/-
Images without derived data.

The type index, the member lists and the masks of flags say once more what records say
of themselves.  Validation compares what stands in an index or a list with the records
it names, but does not ask for any record to stand there, and looks at no mask.
`Image.stripped` leaves the index and every list empty and sets every mask to one and
the same.  What is left of a well-formed image is well-formed.
-/
import TypeAtlas.Proofs.Layout.Renumber
import TypeAtlas.Proofs.Validity.Acceptance

namespace TypeAtlas

namespace Record

variable {a : Arena}

/-- A record that lists no members, with another mask. -/
def stripped (mask : FlagBits) (r : Record a) : Record a :=
  { r with body := (r.body.withMembers fun _ => .empty).withFlags mask }

variable (mask : FlagBits) (r : Record a)

theorem links_stripped : (r.stripped mask).links = r.links :=
  (Body.links_withFlags mask _).trans (Body.links_withMembers _ r.body)

theorem members_stripped (b : Arena) : (r.stripped mask).members b = .empty := by
  cases a with
  | attributes => rfl
  | decl k =>
    cases b with
    | attributes => cases k <;> rfl
    | decl j => cases k <;> cases j <;> rfl

theorem returnField?_stripped : (r.stripped mask).returnField? = r.returnField? :=
  (returnField?_withFlags mask _).trans (returnField?_withMembers _ r)

theorem expectedKind_stripped : (r.stripped mask).expectedKind = r.expectedKind := by
  cases a with
  | attributes => rfl
  | decl k => rfl

end Record

namespace Image

variable {img : Image} {mask : FlagBits} {a : Arena}

/-- The image with an empty type index and empty member lists, and with another mask. -/
def stripped (img : Image) (mask : FlagBits) : Image :=
  { img with
    records := .ofFn fun a => (img.arena a).map (·.stripped mask)
    typeIndex := #[]
    root := img.root.stripped mask }

theorem arena_stripped (img : Image) (mask : FlagBits) (a : Arena) :
    (img.stripped mask).arena a = (img.arena a).map (·.stripped mask) :=
  PerArena.get_ofFn _ a

theorem stripped_getElem? (i : Nat) : ((img.stripped mask).arena a)[i]? =
    ((img.arena a)[i]?).map (·.stripped mask) := by
  rw [arena_stripped, Array.getElem?_map]

theorem addressable_stripped (h : img.Addressable) : (img.stripped mask).Addressable := by
  intro a
  rw [arena_stripped, Array.size_map]
  exact h a

theorem holds_stripped_iff {id : Id a} : (img.stripped mask).Holds id ↔ img.Holds id := by
  rw [Holds, arena_stripped, Array.size_map]
  rfl

theorem knows_stripped_iff {d : DeclId} : (img.stripped mask).Knows d ↔ img.Knows d :=
  or_congr_right holds_stripped_iff

/-! ## Records -/

theorem recordFits_stripped {r : Record a} (h : img.RecordFits r) :
    (img.stripped mask).RecordFits (r.stripped mask) where
  kind := h.kind.trans (r.expectedKind_stripped mask).symm
  owner := by
    obtain ⟨p, hp, hknown, hallows⟩ := h.owner
    exact ⟨p, hp, knows_stripped_iff.mpr hknown, hallows⟩
  name := h.name

theorem membersFit_stripped {owner : DeclId} {r : Record owner.arena}
    (h : img.MembersFit owner r) : (img.stripped mask).MembersFit owner (r.stripped mask) where
  links d hd := by
    rw [Record.links_stripped] at hd
    exact holds_stripped_iff.mpr (h.links d hd)
  lists b _ := by
    rw [Record.members_stripped]
    exact listFits_empty owner b
  returned id hid := by
    rw [Record.returnField?_stripped] at hid
    obtain ⟨⟨field, hfield, hparent⟩, _⟩ := h.returned id hid
    rw [stripped_getElem?, hfield, Record.members_stripped, listed_empty]
    exact ⟨⟨_, rfl, hparent⟩, List.not_mem_nil⟩

/-! ## Chains of owners and of base classes -/

theorem rooted_stripped {d : DeclId} (h : img.Rooted d) :
    (img.stripped mask).Rooted d := by
  induction h with
  | root => exact .root
  | @owned d p hp _ ih =>
    by_cases hroot : d = .root
    · exact hroot ▸ .root
    · obtain ⟨r, hr, hparent⟩ := (parentOf?_eq_some_iff hroot).mp hp
      refine .owned ((parentOf?_eq_some_iff hroot).mpr ⟨r.stripped mask, ?_, hparent⟩) ih
      rw [stripped_getElem?, hr]
      rfl

theorem derives_of_stripped {c b : Id .classes} (h : (img.stripped mask).Derives c b) :
    img.Derives c b := by
  obtain ⟨r, hr, hbase⟩ := h
  rw [stripped_getElem?] at hr
  obtain ⟨s, hs, rfl⟩ := Option.map_eq_some_iff.mp hr
  exact ⟨s, hs, hbase⟩

/-! ## Images -/

theorem WellFormed.stripped (h : img.WellFormed) (mask : FlagBits) :
    (img.stripped mask).WellFormed where
  profile hreduced := by
    obtain ⟨hattributes, htemplates, hinstances⟩ := h.profile hreduced
    simp only [arena_stripped, hattributes, htemplates, hinstances, Array.map_empty, and_self]
  root := h.root
  records a r hr := by
    rw [arena_stripped] at hr
    obtain ⟨s, hs, rfl⟩ := Array.mem_map.mp hr
    exact recordFits_stripped (h.records a s hs)
  values r hr := by
    rw [arena_stripped] at hr
    obtain ⟨s, hs, rfl⟩ := Array.mem_map.mp hr
    exact h.values s hs
  sorted a := by
    rw [arena_stripped, Array.toList_map, List.map_map]
    exact h.sorted a
  members k i r hr := by
    obtain ⟨s, hs, rfl⟩ := Option.map_eq_some_iff.mp ((stripped_getElem? i).symm.trans hr)
    exact membersFit_stripped (h.members k i s hs)
  rootMembers := membersFit_stripped h.rootMembers
  rooted k i hi := by
    rw [arena_stripped, Array.size_map] at hi
    exact rooted_stripped (h.rooted k i hi)
  acyclic c hcycle :=
    h.acyclic c (Relation.TransGen.mono (fun _ _ => derives_of_stripped) c c hcycle)
  types t ht := absurd ht (Array.not_mem_empty t)
  typesSorted := .nil
  names := h.names
  namesSorted := h.namesSorted

/-- Validation asks for nothing to be listed, and takes masks as they are. -/
theorem validate_stripped (haddr : img.Addressable) (h : img.validate = .ok ())
    (mask : FlagBits) : (img.stripped mask).validate = .ok () :=
  (validate_eq_ok_iff (addressable_stripped haddr)).mpr
    (((validate_eq_ok_iff haddr).mp h).stripped mask)

end Image
end TypeAtlas
