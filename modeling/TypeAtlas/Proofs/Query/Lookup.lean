/-
Lookups by hash on a valid image.

Validation proves the arenas, the lists, the type index and the name table ascending under
the very keys that lookups search by, those of lists and of the type index being read
through their ids.  A lookup therefore answers like a scan of what it looks in.  Of
elements with one hash it may answer any.
-/
import Mathlib.Data.List.Basic
import TypeAtlas.Proofs.Query.Navigation
import TypeAtlas.Proofs.Search.Ordered

namespace TypeAtlas
namespace Image

open Check Search

variable {img : Image} {a : Arena}

/-- The records of an arena with their ids. -/
def recordRefs (img : Image) (a : Arena) : List (Ref a) :=
  (img.arena a).toList.zipIdx.map fun entry => ⟨.ofIndex entry.2, entry.1⟩

theorem mem_recordRefs {r : Ref a} :
    r ∈ img.recordRefs a ↔ ∃ i, (img.arena a)[i]? = some r.record ∧ r.id = .ofIndex i := by
  simp only [recordRefs, List.mem_map, List.mem_zipIdx_iff_getElem?, Array.getElem?_toList]
  constructor
  · rintro ⟨⟨record, i⟩, hget, rfl⟩
    exact ⟨i, hget, rfl⟩
  · rintro ⟨i, hget, hid⟩
    refine ⟨(r.record, i), hget, ?_⟩
    rw [← hid]

theorem finds_find {hash : UInt32} (h : ((img.arena a).toList.map (·.hash)).Pairwise (· ≤ ·)) :
    Finds (img.recordRefs a) (·.record.hash) hash (img.find a hash) := by
  have hscan : (∃ r ∈ img.recordRefs a, r.record.hash = hash) ↔
      ∃ record ∈ img.arena a, record.hash = hash := by
    constructor
    · rintro ⟨r, hr, hhash⟩
      obtain ⟨i, hget, _⟩ := mem_recordRefs.mp hr
      exact ⟨r.record, Array.mem_of_getElem? hget, hhash⟩
    · rintro ⟨record, hrecord, hhash⟩
      obtain ⟨i, hi⟩ := Array.getElem?_of_mem hrecord
      exact ⟨⟨.ofIndex i, record⟩, mem_recordRefs.mpr ⟨i, hi, rfl⟩, hhash⟩
  have hsome := isSome_byKey_iff h hash
  rw [find]
  cases hfound : byKey (img.arena a) (·.hash) hash with
  | none =>
    rw [hfound] at hsome
    refine ⟨fun r hr => ?_, by rw [hscan, ← hsome]; rfl⟩
    cases hr
  | some i =>
    obtain ⟨hi, hhash⟩ := key_of_byKey h hfound
    have hget : (img.arena a)[i]? = some (img.arena a)[i] := Array.getElem?_eq_getElem hi
    rw [Option.bind_eq_bind, Option.bind_some, hget]
    refine ⟨fun r hr => ?_, ?_⟩
    · obtain rfl := Option.some.inj hr
      exact ⟨mem_recordRefs.mpr ⟨i, hget, rfl⟩, hhash⟩
    · rw [hscan]
      exact iff_of_true rfl ⟨_, Array.getElem_mem hi, hhash⟩

theorem isSome_find_iff (haddr : img.Addressable)
    (h : ((img.arena a).toList.map (·.hash)).Pairwise (· ≤ ·)) {hash : UInt32} :
    (img.find a hash).isSome ↔
      ∃ r : Ref a, (img.arena a)[r.id.index]? = some r.record ∧ r.record.hash = hash := by
  rw [(finds_find h).isSome_iff]
  refine exists_congr fun r => and_congr_left fun _ => mem_recordRefs.trans ?_
  constructor
  · rintro ⟨i, hget, hid⟩
    rw [hid, Id.index_ofIndex (Nat.lt_trans (Array.getElem?_eq_some_iff.mp hget).1 (haddr a))]
    exact hget
  · intro hget
    exact ⟨r.id.index, hget, r.id.ofIndex_index.symm⟩

/-- The hash of a record that is there. -/
theorem hash?_of_ref (haddr : img.Addressable) {id : Id a} (h : img.Holds id) {r : Ref a}
    (hr : img.ref id = .ok r) : img.hash? id = some r.record.hash := by
  have hrecord := (ref_eq_ok_iff.mp hr).2
  rw [record?_of_holds haddr h] at hrecord
  rw [hash?, hrecord]
  rfl

theorem map_hash?_getD {β : Type} {xs : List β} {f : β → Option UInt32}
    (h : ∀ x ∈ xs, (f x).isSome) : xs.filterMap f = xs.map fun x => (f x).getD 0 := by
  refine List.filterMap_eq_map_iff_forall_eq_some.mpr fun x hx => ?_
  obtain ⟨hash, hhash⟩ := Option.isSome_iff_exists.mp (h x hx)
  rw [hhash]
  rfl

theorem findIn_finds (haddr : img.Addressable) {ids : Array (Id a)}
    (hholds : ∀ id ∈ ids, img.Holds id) {rs : List (Ref a)} (hrs : img.refs ids = .ok rs)
    (hsorted : (ids.toList.filterMap img.hash?).Pairwise (· ≤ ·)) (hash : UInt32) :
    ∃ found, img.findIn ids hash = .ok found ∧ Finds rs (·.record.hash) hash found := by
  have hkey : ∀ id ∈ ids, ∀ r, img.ref id = .ok r → r.record.hash = (img.hash? id).getD 0 := by
    intro id hid r hr
    rw [hash?_of_ref haddr (hholds id hid) hr]
    rfl
  have hat : ∀ id ∈ ids, img.hashAt id = .ok ((img.hash? id).getD 0) := by
    intro id hid
    obtain ⟨r, hr, _⟩ := genuine_of_holds haddr (hholds id hid)
    rw [hashAt, hr, ← hkey id hid r hr]
    rfl
  rw [map_hash?_getD fun id hid => isSome_hash? (hholds id (Array.mem_toList_iff.mp hid))] at hsorted
  obtain ⟨found, hfound, hfinds⟩ := exists_finds_of_mapM hrs hkey hsorted hash
  refine ⟨found, ?_, hfinds⟩
  rw [findIn, byKeyM_eq_ok hat hash]
  exact hfound

theorem getType_finds (haddr : img.Addressable) (hholds : ∀ t ∈ img.typeIndex, img.Holds t.decl.id)
    (hsorted : (img.typeIndex.toList.filterMap img.typeHash?).Pairwise (· ≤ ·)) (hash : UInt32) :
    ∃ ts found, img.typeIndex.toList.mapM img.resolveType = .ok ts ∧
      img.getType hash = .ok found ∧ Finds ts (·.header.name.hash) hash found := by
  obtain ⟨ts, hts⟩ := exists_mapM_eq_ok (f := img.resolveType) fun t ht =>
    resolveType_of_holds haddr (hholds t (Array.mem_toList_iff.mp ht))
  have hkey : ∀ t ∈ img.typeIndex, ∀ r, img.resolveType t = .ok r →
      r.header.name.hash = (img.typeHash? t).getD 0 := by
    intro t ht r hr
    obtain ⟨s, hs, hr⟩ := bind_eq_ok_iff.mp hr
    obtain rfl := Except.ok.inj hr
    rw [typeHash?_eq, hash?_of_ref haddr (hholds t ht) hs]
    rfl
  have hat : ∀ t ∈ img.typeIndex, img.typeHashAt t = .ok ((img.typeHash? t).getD 0) := by
    intro t ht
    obtain ⟨r, hr⟩ := resolveType_of_holds haddr (hholds t ht)
    rw [typeHashAt, hr, ← hkey t ht r hr]
    rfl
  have hsome : ∀ t ∈ img.typeIndex.toList, (img.typeHash? t).isSome := by
    intro t ht
    rw [typeHash?_eq]
    exact isSome_hash? (hholds t (Array.mem_toList_iff.mp ht))
  rw [map_hash?_getD hsome] at hsorted
  obtain ⟨found, hfound, hfinds⟩ := exists_finds_of_mapM hts hkey hsorted hash
  refine ⟨ts, found, hts, ?_, hfinds⟩
  rw [getType, byKeyM_eq_ok hat hash]
  exact hfound

/-! ## Names -/

theorem getName_zero (img : Image) : img.getName 0 = .empty := rfl

/-- The empty name is answered where no name in the table has the hash, and a name
of the table with its text anywhere else. -/
theorem getName_cases (hnames : ∀ n ∈ img.names, (n.text.resolve? img.nameBlob).isSome)
    (hsorted : (img.names.toList.map (·.hash)).Pairwise (· ≤ ·)) {hash : UInt32} (hne : hash ≠ 0) :
    (img.getName hash = .empty ∧ ∀ n ∈ img.names, n.hash ≠ hash) ∨
      ∃ n ∈ img.names, ∃ text, n.hash = hash ∧ n.text.resolve? img.nameBlob = some text ∧
        img.getName hash = .ofText hash text := by
  rw [getName, if_neg (by simpa using hne)]
  have hsome := isSome_byKey_iff hsorted hash
  cases hfound : byKey img.names (·.hash) hash with
  | none =>
    rw [hfound] at hsome
    refine .inl ⟨rfl, fun n hn heq => ?_⟩
    exact Bool.false_ne_true (hsome.mpr ⟨n, hn, heq⟩)
  | some i =>
    obtain ⟨hi, heq⟩ := key_of_byKey hsorted hfound
    have hmem := Array.getElem_mem hi
    obtain ⟨text, htext⟩ := Option.isSome_iff_exists.mp (hnames _ hmem)
    refine .inr ⟨img.names[i], hmem, text, heq, htext, ?_⟩
    rw [Option.bind_some, Array.getElem?_eq_getElem hi]
    show img.resolveName img.names[i] = _
    have hnonempty : ¬ (img.names[i].isEmpty = true) := by
      rw [NameSpan.isEmpty, heq]
      simpa using hne
    rw [resolveName, NameSpan.resolve, if_neg hnonempty, heq, htext]
    rfl

/-! ## All lookups -/

/-- Every lookup of a hash answers like a scan. -/
structure LookupsScan (img : Image) (hash : UInt32) : Prop where
  records : ∀ a, Finds (img.recordRefs a) (·.record.hash) hash (img.find a hash)
  types : ∃ ts found, img.typeIndex.toList.mapM img.resolveType = .ok ts ∧
    img.getType hash = .ok found ∧ Finds ts (·.header.name.hash) hash found
  members : ∀ (k : DeclKind) (r : Ref (.decl k)) (b : Arena), img.Genuine r →
    ∃ (ids : Array (Id b)) (rs : List (Ref b)) (found : Option (Ref b)),
      img.members r b = .ok ids ∧ img.refs ids = .ok rs ∧ img.findIn ids hash = .ok found ∧
        Finds rs (·.record.hash) hash found
  names : hash ≠ 0 → (img.getName hash = .empty ↔ ∀ n ∈ img.names, n.hash ≠ hash) ∧
    (img.getName hash ≠ .empty → ∃ n ∈ img.names, ∃ text, n.hash = hash ∧
      n.text.resolve? img.nameBlob = some text ∧ img.getName hash = .ofText hash text)
  zero : img.getName 0 = .empty

theorem Genuine.members_finds (hsafe : img.Safe) {k : DeclKind} {r : Ref (.decl k)}
    (h : img.Genuine r) (b : Arena) (hash : UInt32) :
    ∃ (ids : Array (Id b)) (rs : List (Ref b)) (found : Option (Ref b)),
      img.members r b = .ok ids ∧ img.refs ids = .ok rs ∧ img.findIn ids hash = .ok found ∧
        Finds rs (·.record.hash) hash found := by
  have hfits := h.listFits hsafe b
  obtain ⟨ids, hids, hmembers⟩ := h.members hsafe b
  have hholds : ∀ id ∈ ids, img.Holds id := fun id hid => (hmembers id hid).1
  obtain ⟨rs, hrs, _⟩ := refs_of_holds hsafe.addressable hholds
  have hslice : (r.record.members b).slice? (img.pool b) = some ids := by
    rw [Image.members, Image.ids, IdList.slice?, if_pos hfits.inPool] at hids
    rw [IdList.slice?, if_pos hfits.inPool, Except.ok.inj hids]
  have hascending := hfits.ascending
  rw [← (slice?_eq_some_iff.mp hslice).2] at hascending
  obtain ⟨found, hfound, hfinds⟩ := findIn_finds hsafe.addressable hholds hrs hascending hash
  exact ⟨ids, rs, found, hids, hrs, hfound, hfinds⟩

/-- On an image that validation accepts every lookup answers like a scan of what it
looks in. -/
theorem lookups_scan (img : Image) (haddr : img.Addressable) (hvalid : img.validate = .ok ())
    (hash : UInt32) : img.LookupsScan hash := by
  have hwf := (validate_eq_ok_iff haddr).mp hvalid
  refine ⟨fun a => finds_find (hwf.sorted a), getType_finds haddr hwf.types hwf.typesSorted hash,
    fun k r b h => h.members_finds ⟨haddr, hwf⟩ b hash, fun hne => ?_, img.getName_zero⟩
  rcases getName_cases hwf.names hwf.namesSorted hne with ⟨hempty, hnone⟩ | hfound
  · exact ⟨iff_of_true hempty hnone, fun h => absurd hempty h⟩
  · refine ⟨iff_of_false ?_ ?_, fun _ => hfound⟩
    · obtain ⟨_, _, _, _, _, heq⟩ := hfound
      rw [heq]
      intro h
      cases h
    · obtain ⟨n, hn, _, heq, _⟩ := hfound
      exact fun h => h n hn heq

/-- Of two methods with one name a lookup answers either. -/
theorem lookups_scan_shapes :
    (Draft.made .full Draft.shapes).image.Addressable ∧
      (Draft.made .full Draft.shapes).image.validate = .ok () ∧
      (Draft.made .full Draft.shapes).image.LookupsScan (hashText "area") ∧
      ((Draft.made .full Draft.shapes).image.find .functions (hashText "area")).isSome := by
  have haddr := Draft.addressable_shapes
  have hvalid := Draft.validate_shapes
  have hscan := lookups_scan _ haddr hvalid (hashText "area")
  refine ⟨haddr, hvalid, hscan, (hscan.records .functions).isSome_iff.mpr ?_⟩
  have hadded : ((Draft.made .full Draft.shapes).arena .functions)[0]?.map (·.hash) =
      some (hashText "area") := by decide +kernel
  obtain ⟨r, hr, hhash⟩ := Option.map_eq_some_iff.mp hadded
  have hplaced := Draft.image_getElem?_place hr
  refine ⟨⟨.ofIndex _, _⟩, mem_recordRefs.mpr ⟨_, hplaced, rfl⟩, ?_⟩
  rw [← hhash]
  exact congrArg NameSpan.hash (Draft.name_laidOut _ r)

end Image
end TypeAtlas
