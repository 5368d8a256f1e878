/-
Insertion order does not matter.

Drafts that match build the same image, texts written out, or fail in the same way.  Their
name tables have the same entries, since a draft lists no name twice.
-/
import TypeAtlas.Proofs.Build.Outcome
import TypeAtlas.Proofs.Draft.Names
import TypeAtlas.Proofs.Layout.Matching

namespace TypeAtlas
namespace Draft

variable {d d' : Draft} {m : d.Matching d'}

/-! ## Name tables -/

/-- Whatever a call does, the name table is one that interning leaves. -/
theorem Effect.interned_names {c : Call} {reply : Reply} (h : Effect d c reply d')
    {names : List NameInput} (hd : d.names.Interned names) : ∃ more, d'.names.Interned more := by
  cases h with
  | interned h hintern => exact ⟨_, (internsAll_internName hintern).1.names _ hd⟩
  | added hentry _ h => exact ⟨_, (internsAll_of_interned h.interned).1.names _ hd⟩
  | base => exact ⟨_, hd⟩
  | constructor => exact ⟨_, hd⟩
  | destructor => exact ⟨_, hd⟩
  | returned _ _ hentry h => exact ⟨_, (internsAll_of_interned h.interned).1.names _ hd⟩

/-- The name of an attribute may be left behind by a call that is refused. -/
theorem interned_names_refused (c : Call) {names : List NameInput} (hd : d.names.Interned names) :
    ∃ more, (d.refused c).names.Interned more := by
  cases c with
  | addAttribute name owner value =>
    rw [refused]
    cases hnamed : d.nameAttribute value.kind name owner with
    | error e => exact ⟨_, hd⟩
    | ok r =>
      obtain ⟨span, d₁⟩ := r
      obtain ⟨_, _, h⟩ := Check.bind_eq_ok_iff.mp hnamed
      obtain ⟨_, _, hintern⟩ := Check.bind_eq_ok_iff.mp h
      exact ⟨_, (internsAll_internName hintern).1.names _ hd⟩
  | _ => exact ⟨_, hd⟩

theorem interned_names_run (hd : d.TextsSound) {names : List NameInput}
    (hnames : d.names.Interned names) (calls : List Call) :
    ∃ more, (d.run calls).2.names.Interned more := by
  induction calls generalizing d names with
  | nil => exact ⟨_, hnames⟩
  | cons c calls ih =>
    cases h : d.call c with
    | error e =>
      rw [run_cons_error h]
      obtain ⟨more, hmore⟩ := interned_names_refused c hnames
      exact ih (interns_refused hd c).toTextsSound hmore
    | ok answer =>
      obtain ⟨reply, d'⟩ := answer
      have heffect := effect_of_call hd h
      rw [run_cons_ok h]
      obtain ⟨more, hmore⟩ := heffect.interned_names hnames
      exact ih (heffect.textsSound hd) hmore

theorem interned_names_made (p : Profile) (calls : List Call) :
    ∃ names, (made p calls).names.Interned names :=
  interned_names_run (sound_empty p).toTextsSound NameTable.interned_empty calls

/-- No two listed names are spelled alike. -/
theorem nodup_spelledNames {names : List NameInput} (h : d.names.Interned names) :
    d.raw.spelledNames.Nodup := by
  refine List.Nodup.map_on (fun x hx y hy heq => ?_) h.nodup
  obtain ⟨name, hname, _, hspan⟩ := (h.mem_listed x).mp (Array.mem_toList_iff.mp hx)
  have hstored := h.storedAs_span hname
  rw [hspan] at hstored
  obtain ⟨hhash, htext⟩ := Name.mk.inj heq
  have hother : name.StoredAs d.names.texts.blob y :=
    ⟨hhash.symm.trans hstored.1, htext.symm.trans hstored.2⟩
  exact hspan.symm.trans (h.span_eq (.inr (Array.mem_toList_iff.mp hy)) hother)

theorem spelledNames_image_perm (d : Draft) :
    d.image.spelledNames.Perm (d.raw.spelledNames.filter fun n => !n.isEmpty) := by
  have hsort := List.mergeSort_perm (d.names.listed.toList.filter fun n => !n.isEmpty)
    fun x y => x.hash ≤ y.hash
  rw [Image.spelledNames, Image.spelledNames, List.filter_map]
  exact hsort.map _

theorem sorted_spelledNames (d : Draft) :
    (d.image.spelledNames.map (·.hash)).Pairwise (· ≤ ·) := by
  rw [Image.spelledNames, List.map_map]
  exact nameIndex_sorted d

/-- Two name tables have the same entries, in an order that differs at equal hashes only. -/
structure SameNames (img img' : Image) : Prop where
  perm : img'.spelledNames.Perm img.spelledNames
  hashes : img'.spelledNames.map (·.hash) = img.spelledNames.map (·.hash)

theorem Matches.sameNames (h : Matches m) {names names' : List NameInput}
    (hd : d.names.Interned names) (hd' : d'.names.Interned names') :
    SameNames d.image d'.image := by
  have hraw : d'.raw.spelledNames.Perm d.raw.spelledNames :=
    (List.perm_ext_iff_of_nodup (nodup_spelledNames hd') (nodup_spelledNames hd)).mpr h.names
  have hperm : d'.image.spelledNames.Perm d.image.spelledNames :=
    (spelledNames_image_perm d').trans ((hraw.filter _).trans (spelledNames_image_perm d).symm)
  refine ⟨hperm, (hperm.map _).eq_of_pairwise (fun x y _ _ => UInt32.le_antisymm) ?_ ?_⟩
  · exact sorted_spelledNames d'
  · exact sorted_spelledNames d

/-! ## Building -/

/-- Drafts that match build alike: both fail in the same way, or both images are the same with
their texts written out, up to the order of names of equal hash.  An arena has fewer records
than there are words, the largest of which is the root namespace. -/
theorem build_ignores_order (p p' : Profile) (calls calls' : List Call)
    (m : (made p calls).Matching (made p' calls')) (h : Matches m)
    (hdistinct : (made p calls).HashesDistinct)
    (hcounts : ∀ a, ((made p calls).arena a).size < UInt32.size) (bank bank' : Bank) :
    (∃ e, ((made p calls).build none bank).1 = .error e ∧
      ((made p' calls').build none bank').1 = .error e) ∨
    ∃ held held', ((made p calls).build none bank).1 = .ok held ∧
      ((made p' calls').build none bank').1 = .ok held' ∧
      held'.image.spelled = held.image.spelled ∧ SameNames held.image held'.image := by
  have hcounts' := m.addressable hcounts
  have hsound := sound_made (numbered_of_addressable hcounts)
  have hsound' := sound_made (numbered_of_addressable hcounts')
  have hsame := h.validate_eq hdistinct hcounts hsound hsound'
  obtain ⟨names, hnames⟩ := interned_names_made p calls
  obtain ⟨names', hnames'⟩ := interned_names_made p' calls'
  cases hvalidate : (made p calls).image.validate with
  | error e =>
    rw [hvalidate] at hsame
    exact .inl ⟨_, build_none_error bank hvalidate, build_none_error bank' hsame⟩
  | ok =>
    rw [hvalidate] at hsame
    exact .inr ⟨_, _, build_none_ok bank hvalidate, build_none_ok bank' hsame,
      h.spelled_image hdistinct hcounts, h.sameNames hnames hnames'⟩

/-- A class and one derived from it, and the same two the other way round. -/
def baseFirst : List Call :=
  [.addClass (.hashed 2 "b") .root 4, .addClass (.hashed 1 "a") .root 8, .setBase ⟨1⟩ ⟨0⟩]

def baseLast : List Call :=
  [.addClass (.hashed 1 "a") .root 8, .addClass (.hashed 2 "b") .root 4, .setBase ⟨0⟩ ⟨1⟩]

/-- Their records, by where their texts stand. -/
def baseRecord (text : TextSpan) : Record .classes :=
  ⟨⟨.decl .classType, ⟨2, text⟩, some .root⟩, ({ size := 4 } : ClassBody)⟩

def derivedRecord (text : TextSpan) (base : Id .classes) : Record .classes :=
  ⟨⟨.decl .classType, ⟨1, text⟩, some .root⟩, ({ size := 8, base := some base } : ClassBody)⟩

theorem classes_baseFirst : (made .full baseFirst).arena .classes =
    #[baseRecord ⟨0, 1⟩, derivedRecord ⟨1, 1⟩ ⟨0⟩] := by
  decide +kernel

theorem classes_baseLast : (made .full baseLast).arena .classes =
    #[derivedRecord ⟨0, 1⟩ ⟨1⟩, baseRecord ⟨1, 1⟩] := by
  decide +kernel

theorem sizes_baseFirst : ∀ a, ((made .full baseFirst).arena a).size =
    if a = .classes then 2 else 0 := by decide +kernel

theorem sizes_baseLast : ∀ a, ((made .full baseLast).arena a).size =
    if a = .classes then 2 else 0 := by decide +kernel

/-- Every record stands where its mirror image stood. -/
def mirrored : (made .full baseFirst).Matching (made .full baseLast) := fun a =>
  Fin.revPerm.trans (finCongr ((sizes_baseFirst a).trans (sizes_baseLast a).symm))

theorem mirrored_val (i : Fin ((made .full baseFirst).arena .classes).size) :
    (mirrored .classes i).val = 1 - i.val := by
  have hsize : ((made .full baseFirst).arena .classes).size = 2 := sizes_baseFirst .classes
  show ((made .full baseFirst).arena .classes).size - (i.val + 1) = 1 - i.val
  omega

theorem mirrored_rename : mirrored.rename (⟨0⟩ : Id .classes) = ⟨1⟩ := by
  have hzero : 0 < ((made .full baseFirst).arena .classes).size := by
    rw [sizes_baseFirst]
    decide
  rw [Matching.rename, if_neg (by decide)]
  exact (dif_pos hzero).trans (congrArg Id.ofIndex (mirrored_val ⟨0, hzero⟩))

theorem matches_mirrored : Matches mirrored where
  profile := rfl
  names n := by
    have hfirst : (made .full baseFirst).raw.spelledNames = [⟨2, some "b"⟩, ⟨1, some "a"⟩] := by
      decide +kernel
    have hlast : (made .full baseLast).raw.spelledNames = [⟨1, some "a"⟩, ⟨2, some "b"⟩] := by
      decide +kernel
    rw [hfirst, hlast]
    exact (List.Perm.swap _ _ _).mem_iff
  records {a} i r r' hr hr' := by
    have hi := lt_of_lt_of_eq i.isLt (sizes_baseFirst a)
    by_cases ha : a = .classes
    · subst ha
      rw [mirrored_val, classes_baseLast] at hr'
      generalize i.val = n at hr hr' hi
      rw [classes_baseFirst] at hr
      obtain rfl | rfl : n = 0 ∨ n = 1 := by
        rw [if_pos rfl] at hi
        omega
      · obtain rfl : baseRecord ⟨0, 1⟩ = r := Option.some.inj hr
        obtain rfl : baseRecord ⟨1, 1⟩ = r' := Option.some.inj hr'
        exact Image.spell_congr rfl (by decide +kernel) rfl rfl
      · obtain rfl : derivedRecord ⟨1, 1⟩ ⟨0⟩ = r := Option.some.inj hr
        obtain rfl : derivedRecord ⟨0, 1⟩ ⟨1⟩ = r' := Option.some.inj hr'
        refine Image.spell_congr rfl (by decide +kernel) rfl ?_
        rw [← mirrored_rename]
        rfl
    · rw [if_neg ha] at hi
      exact absurd hi (Nat.not_lt_zero _)

theorem record_baseFirst {i : Nat} {r : Record .classes}
    (hr : ((made .full baseFirst).arena .classes)[i]? = some r) :
    (i = 0 ∧ r = baseRecord ⟨0, 1⟩) ∨ (i = 1 ∧ r = derivedRecord ⟨1, 1⟩ ⟨0⟩) := by
  have hi := lt_of_lt_of_eq (Array.getElem?_eq_some_iff.mp hr).1 (sizes_baseFirst .classes)
  rw [classes_baseFirst] at hr
  obtain rfl | rfl : i = 0 ∨ i = 1 := by
    rw [if_pos rfl] at hi
    omega
  · exact .inl ⟨rfl, (Option.some.inj hr).symm⟩
  · exact .inr ⟨rfl, (Option.some.inj hr).symm⟩

theorem hashesDistinct_baseFirst : (made .full baseFirst).HashesDistinct := by
  intro a i j r s hr hs heq
  by_cases ha : a = .classes
  · subst ha
    obtain ⟨rfl, rfl⟩ | ⟨rfl, rfl⟩ := record_baseFirst hr
    · obtain ⟨rfl, rfl⟩ | ⟨rfl, rfl⟩ := record_baseFirst hs
      · rfl
      · exact absurd heq (by decide)
    · obtain ⟨rfl, rfl⟩ | ⟨rfl, rfl⟩ := record_baseFirst hs
      · exact absurd heq (by decide)
      · rfl
  · have hi := lt_of_lt_of_eq (Array.getElem?_eq_some_iff.mp hr).1 (sizes_baseFirst a)
    rw [if_neg ha] at hi
    exact absurd hi (Nat.not_lt_zero _)

theorem derives_baseFirst {c b : Id .classes} (h : (made .full baseFirst).raw.Derives c b) :
    c = ⟨1⟩ ∧ b = ⟨0⟩ := by
  obtain ⟨r, hr, hb⟩ := h
  obtain ⟨_, rfl⟩ | ⟨hc, rfl⟩ := record_baseFirst hr
  · cases hb
  · exact ⟨Id.eq_of_index_eq hc, (Option.some.inj hb).symm⟩

theorem build_ignores_order_baseFirst :
    ∃ held held', ((made .full baseFirst).build none {}).1 = .ok held ∧
      ((made .full baseLast).build none {}).1 = .ok held' ∧
      held'.image.spelled = held.image.spelled ∧ SameNames held.image held'.image := by
  have hcounts (a : Arena) : ((made .full baseFirst).arena a).size < UInt32.size := by
    rw [sizes_baseFirst]
    split <;> decide
  have hvalid : (made .full baseFirst).image.validate = .ok () := by
    refine validate_of_bases_before hcounts fun c b hstep => ?_
    obtain ⟨rfl, rfl⟩ := derives_baseFirst hstep
    decide
  have hbuilt := build_none_ok {} hvalid
  refine (build_ignores_order .full .full baseFirst baseLast mirrored matches_mirrored
    hashesDistinct_baseFirst hcounts {} {}).resolve_left ?_
  rintro ⟨e, he, _⟩
  cases hbuilt.symm.trans he

end Draft
end TypeAtlas
