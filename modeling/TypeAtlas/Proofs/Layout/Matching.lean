/-
Drafts that hold the same records in another order.

Two drafts match if the records of one are those of the other in some order, with the
references between them renamed.  Where no two records of an arena share a hash, sorting
puts matching records in the same places, and laying out goes on in the same way from there.
Texts may stand elsewhere in the blobs.
-/
import Mathlib.Order.Fin.Basic
import Mathlib.Order.Hom.Set
import TypeAtlas.Proofs.Layout.Regular
import TypeAtlas.Proofs.Layout.Spelled

namespace TypeAtlas

/-! ## Renaming references -/

section rename

variable {a : Arena} (f g : {k : DeclKind} → Id (.decl k) → Id (.decl k))

/-- The record with its references sent through a renaming. -/
def Record.mapRefs (r : Record a) : Record a :=
  ⟨{ r.header with parent := r.parent.map fun e => (f e.id).decl }, r.body.mapLinks f⟩

theorem Renumbering.applyRecord_eq (t : Renumbering) (r : Record a) :
    t.applyRecord r = r.mapRefs t.apply := rfl

theorem Body.mapLinks_mapLinks (body : Body a) :
    (body.mapLinks f).mapLinks g = body.mapLinks fun id => g (f id) := by
  rcases a with k | _
  · cases k with
    | field =>
      obtain ⟨type, _⟩ := body
      cases type <;> rfl
    | function =>
      obtain ⟨_, _, returnField, _⟩ := body
      cases returnField <;> rfl
    | templateType =>
      obtain ⟨size, types, pointers⟩ := body
      refine congrArg (fun ts => (⟨size, ts, pointers⟩ : TemplateTypeBody)) ?_
      show Vector.map _ (Vector.map _ types) = Vector.map _ types
      rw [Vector.map_map]
      refine congrArg (Vector.map · types) (funext fun slot => ?_)
      cases slot <;> rfl
    | classType =>
      obtain ⟨_, base, constructor, destructor, _⟩ := body
      cases base <;> cases constructor <;> cases destructor <;> rfl
    | _ => rfl
  · rfl

theorem Record.mapRefs_mapRefs (r : Record a) :
    (r.mapRefs f).mapRefs g = r.mapRefs fun id => g (f id) := by
  have hparent : (r.mapRefs f).parent.map (fun e => (g e.id).decl) =
      r.parent.map fun e => (g (f e.id)).decl := by
    show (r.parent.map _).map _ = _
    rw [Option.map_map]
    rfl
  rw [mapRefs, hparent]
  exact congrArg (Record.mk _) (Body.mapLinks_mapLinks f g r.body)

variable {f g} in
theorem Record.mapRefs_congr (h : ∀ (k : DeclKind) (id : Id (.decl k)), f id = g id)
    (r : Record a) : r.mapRefs f = r.mapRefs g := by
  obtain rfl : @f = @g := funext fun k => funext (h k)
  rfl

theorem Image.spell_mapRefs {img img' : Image} {r r' : Record a} (h : img'.spell r' = img.spell r) :
    img'.spell (r'.mapRefs f) = img.spell (r.mapRefs f) := by
  obtain ⟨hkind, hname, hparent, hbody⟩ := SpelledRecord.mk.inj h
  have hparents : (r'.mapRefs f).parent = (r.mapRefs f).parent := congrArg (Option.map _) hparent
  cases a with
  | attributes =>
    show SpelledRecord.mk r'.kind (img'.spellName r'.name) _ (img'.spellBody r'.body) = _
    rw [hkind, hname, hparents, hbody]
    rfl
  | decl k => exact Image.spell_congr hkind hname hparents (congrArg (Body.mapLinks f) hbody)

end rename

/-! ## Base classes -/

namespace Image

/-- The walk down the bases of a class reads bodies only. -/
theorem descend_congr {img img' : Image}
    (h : (img'.arena .classes).map Record.body = (img.arena .classes).map Record.body)
    (index steps : Nat) (next : Option (Id .classes)) :
    img'.descend index steps next = img.descend index steps next := by
  have hsize : (img'.arena .classes).size = (img.arena .classes).size := by
    simpa using congrArg Array.size h
  fun_induction descend img index steps next with
  | case1 =>
    rw [descend]
  | case2 steps base hstop =>
    rw [descend, hsize, if_pos hstop]
  | case3 steps base hgo ih =>
    rw [descend, hsize, if_neg hgo]
    have hbase := congrArg (·[base.index]?) h
    simp only [Array.getElem?_map] at hbase
    rw [lookup, lookup]
    cases hr' : (img'.arena .classes)[base.index]? with
    | none =>
      rw [hr'] at hbase
      rw [Option.map_eq_none_iff.mp hbase.symm, hsize]
      rfl
    | some r' =>
      rw [hr'] at hbase
      obtain ⟨r, hr, hbody⟩ := Option.map_eq_some_iff.mp hbase.symm
      rw [hr]
      show img'.descend index (steps + 1) (ClassBody.base r'.body) = _
      rw [← hbody]
      exact ih r

theorem checkInheritance_congr {img img' : Image}
    (h : (img'.arena .classes).map Record.body = (img.arena .classes).map Record.body) :
    img'.checkInheritance = img.checkInheritance := by
  have hbodies (img : Image) : img.checkInheritance =
      ((img.arena .classes).map Record.body).toList.zipIdx.forM fun entry =>
        img.descend entry.2 0 (ClassBody.base entry.1) := by
    rw [checkInheritance, Array.toList_map, List.zipIdx_map, List.forM_eq_forM,
      List.forM_eq_forM, List.forM_map]
    rfl
  rw [hbodies, hbodies, h]
  exact congrArg _ (funext fun entry => descend_congr h _ _ _)

end Image

namespace Draft

variable {d d' : Draft} {a : Arena}

/-! ## Drafts that match -/

/-- For each arena, where the records of one draft stand in another. -/
abbrev Matching (d d' : Draft) : Type :=
  (a : Arena) → Fin (d.arena a).size ≃ Fin (d'.arena a).size

/-- The id in the other draft of what an id names in the one.  The root namespace stays. -/
def Matching.rename (m : d.Matching d') {k : DeclKind} (id : Id (.decl k)) : Id (.decl k) :=
  if id.decl.isRoot then id
  else if h : id.index < (d.arena (.decl k)).size then .ofIndex (m (.decl k) ⟨id.index, h⟩)
  else id

/-- Both drafts hold the same records, with the same texts, and list the same names. -/
structure Matches (m : d.Matching d') : Prop where
  profile : d'.profile = d.profile
  records {a : Arena} (i : Fin (d.arena a).size) (r r' : Record a) :
    (d.arena a)[i.val]? = some r → (d'.arena a)[(m a i).val]? = some r' →
      d'.raw.spell r' = d.raw.spell (r.mapRefs m.rename)
  names (n : Name) : n ∈ d'.raw.spelledNames ↔ n ∈ d.raw.spelledNames

/-- No two records of an arena share a hash. -/
def HashesDistinct (d : Draft) : Prop :=
  ∀ {a : Arena} (i j : Nat) (r s : Record a), (d.arena a)[i]? = some r → (d.arena a)[j]? = some s →
    r.hash = s.hash → i = j

variable {m : d.Matching d'}

theorem Matching.size_eq (m : d.Matching d') (a : Arena) : (d'.arena a).size = (d.arena a).size :=
  (Fin.equiv_iff_eq.mp ⟨m a⟩).symm

theorem Matches.hash_eq (h : Matches m) {i : Fin (d.arena a).size} {r r' : Record a}
    (hr : (d.arena a)[i.val]? = some r) (hr' : (d'.arena a)[(m a i).val]? = some r') :
    r'.hash = r.hash :=
  congrArg (fun s => s.name.hash) (h.records i r r' hr hr')

/-- Sorting by distinct hashes forgets the order of insertion. -/
theorem Matches.place_eq (h : Matches m) (hdistinct : d.HashesDistinct)
    (i : Fin (d.arena a).size) : d'.place a (m a i) = d.place a i := by
  let moved := (d.placement a).symm.trans ((m a).trans (d'.placement a))
  have hmono : StrictMono moved := by
    intro x y hxy
    obtain ⟨i, rfl⟩ := (d.placement a).surjective x
    obtain ⟨j, rfl⟩ := (d.placement a).surjective y
    have hr := Array.getElem?_eq_getElem i.isLt
    have hs := Array.getElem?_eq_getElem j.isLt
    have hr' := Array.getElem?_eq_getElem (m a i).isLt
    have hs' := Array.getElem?_eq_getElem (m a j).isLt
    have hbefore := (place_lt_place_iff hr hs).mp hxy
    have hlt : (d.arena a)[i.val].hash < (d.arena a)[j.val].hash := by
      rcases hbefore with hlt | ⟨heq, hij⟩
      · exact hlt
      · exact absurd (hdistinct _ _ _ _ hr hs heq) (Nat.ne_of_lt hij)
    rw [← h.hash_eq hr hr', ← h.hash_eq hs hs'] at hlt
    simp only [moved, Equiv.trans_apply, Equiv.symm_apply_apply]
    exact (place_lt_place_iff hr' hs').mpr (.inl hlt)
  have hfixed := Fin.coe_orderIso_apply
    (StrictMono.orderIsoOfSurjective moved hmono moved.surjective) (d.placement a i)
  rw [StrictMono.coe_orderIsoOfSurjective] at hfixed
  simp only [moved, Equiv.trans_apply, Equiv.symm_apply_apply] at hfixed
  exact hfixed

theorem Matching.addressable (m : d.Matching d') (haddr : d.raw.Addressable) :
    d'.raw.Addressable := by
  intro a
  have hsize := m.size_eq a
  have hlt : (d.arena a).size < UInt32.size := haddr a
  show (d'.arena a).size < UInt32.size
  omega

/-- A reference goes to the same place from either draft. -/
theorem Matches.apply_eq (h : Matches m) (hdistinct : d.HashesDistinct) (haddr : d.raw.Addressable)
    {k : DeclKind} (id : Id (.decl k)) :
    d'.renumbering.apply (m.rename id) = d.renumbering.apply id := by
  rw [Matching.rename]
  by_cases hroot : id.decl.isRoot = true
  · rw [if_pos hroot, Renumbering.apply, Renumbering.apply, if_pos hroot, if_pos hroot]
  · rw [if_neg hroot]
    have hne : id.decl ≠ .root := fun heq => hroot (Image.isRoot_iff.mpr heq)
    by_cases hid : id.index < (d.arena (.decl k)).size
    · rw [dif_pos hid, apply_of_holds hne hid,
        apply_ofIndex (m.addressable haddr) (m (.decl k) ⟨id.index, hid⟩).isLt,
        h.place_eq hdistinct ⟨id.index, hid⟩]
    · rw [dif_neg hid, apply_of_not_holds hne hid, apply_of_not_holds hne]
      show ¬ id.index < (d'.arena (.decl k)).size
      rwa [m.size_eq]

/-! ## Images -/

theorem Matches.spell_renumbered (h : Matches m) (hdistinct : d.HashesDistinct)
    (haddr : d.raw.Addressable) (a : Arena) :
    (d'.renumbered.get a).map d'.raw.spell = (d.renumbered.get a).map d.raw.spell := by
  refine Array.ext_getElem? fun j => ?_
  rw [Array.getElem?_map, Array.getElem?_map]
  by_cases hj : j < (d.arena a).size
  · obtain ⟨i, hi, rfl⟩ := exists_place hj
    have hr := Array.getElem?_eq_getElem hi
    have hr' := Array.getElem?_eq_getElem (m a ⟨i, hi⟩).isLt
    have hplace := h.place_eq hdistinct ⟨i, hi⟩
    rw [renumbered_getElem?_place hr, ← hplace, renumbered_getElem?_place hr', Option.map_some,
      Option.map_some, Renumbering.applyRecord_eq, Renumbering.applyRecord_eq]
    have hsame := Image.spell_mapRefs d'.renumbering.apply (h.records ⟨i, hi⟩ _ _ hr hr')
    rw [hsame, Record.mapRefs_mapRefs,
      Record.mapRefs_congr fun _ id => h.apply_eq hdistinct haddr id]
  · have hnone {e : Draft} (he : (e.arena a).size = (d.arena a).size) :
        (e.renumbered.get a)[j]? = none := by
      rw [Array.getElem?_eq_none_iff, size_renumbered, he]
      exact Nat.le_of_not_lt hj
    rw [hnone (m.size_eq a), hnone rfl]
    rfl

theorem Matches.plain_renumbered (h : Matches m) (hdistinct : d.HashesDistinct)
    (haddr : d.raw.Addressable) :
    Records.plain d'.renumbered = Records.plain d.renumbered := by
  refine PerArena.ext_get fun a => ?_
  rw [Records.get_plain_eq _ d'.raw, h.spell_renumbered hdistinct haddr, ← Records.get_plain_eq]

theorem spelled_image_eq (d : Draft) : d.image.spelled =
    { profile := d.profile
      records := .ofFn fun a => (d.image.arena a).map d.raw.spell
      typeIndex := Records.typeIndex d.renumbered
      pools := .ofFn (Records.pool d.renumbered)
      root := d.raw.spell d.image.root } := rfl

theorem spell_root (d : Draft) : d.raw.spell d.image.root =
    ⟨.decl .nameSpace, ⟨0, some ""⟩, none,
      Body.withMembers ((Records.spans d.renumbered).of .root) (Record.root.body)⟩ := by
  have hempty : d.raw.spellName .empty = ⟨0, some ""⟩ :=
    congrArg (Name.mk 0) (TextSpan.resolve?_empty _)
  show SpelledRecord.mk (a := .namespaces) _ (d.raw.spellName .empty) _ _ = _
  rw [hempty]
  rfl

theorem Matches.spell_arena (h : Matches m) (hdistinct : d.HashesDistinct)
    (haddr : d.raw.Addressable) (a : Arena) :
    (d'.image.arena a).map d'.raw.spell = (d.image.arena a).map d.raw.spell := by
  have hplain := h.plain_renumbered hdistinct haddr
  refine Array.ext_getElem? fun j => ?_
  have hj := congrArg (·[j]?) (h.spell_renumbered hdistinct haddr a)
  simp only [Array.getElem?_map] at hj
  rw [Array.getElem?_map, Array.getElem?_map, image_getElem?, image_getElem?]
  cases hr' : (d'.renumbered.get a)[j]? with
  | none =>
    rw [hr'] at hj
    rw [Option.map_eq_none_iff.mp hj.symm, Option.map_none, Option.map_none, Option.map_none,
      Option.map_none]
  | some r' =>
    rw [hr'] at hj
    obtain ⟨r, hr, hsame⟩ := Option.map_eq_some_iff.mp hj.symm
    rw [hr, Option.map_some, Option.map_some, Option.map_some, Option.map_some,
      Records.spell_finish hplain hsame.symm j]

theorem Matches.typeIndex_eq (h : Matches m) (hdistinct : d.HashesDistinct)
    (haddr : d.raw.Addressable) :
    Records.typeIndex d'.renumbered = Records.typeIndex d.renumbered := by
  rw [← Records.typeIndex_plain, h.plain_renumbered hdistinct haddr, Records.typeIndex_plain]

theorem Matches.pool_eq (h : Matches m) (hdistinct : d.HashesDistinct)
    (haddr : d.raw.Addressable) : Records.pool d'.renumbered = Records.pool d.renumbered := by
  funext b
  rw [← Records.pool_plain, h.plain_renumbered hdistinct haddr, Records.pool_plain]

theorem Matches.spans_eq (h : Matches m) (hdistinct : d.HashesDistinct)
    (haddr : d.raw.Addressable) : Records.spans d'.renumbered = Records.spans d.renumbered := by
  rw [← Records.spans_plain, h.plain_renumbered hdistinct haddr, Records.spans_plain]

/-- Laid out, the drafts are the same, texts apart. -/
theorem Matches.spelled_image (h : Matches m) (hdistinct : d.HashesDistinct)
    (haddr : d.raw.Addressable) : d'.image.spelled = d.image.spelled := by
  rw [spelled_image_eq, spelled_image_eq, spell_root, spell_root, h.profile,
    h.typeIndex_eq hdistinct haddr, h.pool_eq hdistinct haddr, h.spans_eq hdistinct haddr,
    funext (h.spell_arena hdistinct haddr)]

theorem Matches.validate_eq (h : Matches m) (hdistinct : d.HashesDistinct)
    (haddr : d.raw.Addressable) (hd : d.Sound) (hd' : d'.Sound) :
    d'.image.validate = d.image.validate := by
  rw [(hd.regular haddr).validate_eq, (hd'.regular (m.addressable haddr)).validate_eq]
  refine Image.checkInheritance_congr ?_
  have hbodies (d : Draft) : (d.image.arena .classes).map Record.body =
      ((d.image.arena .classes).map d.raw.spell).map SpelledRecord.body := by
    rw [Array.map_map]
    rfl
  rw [hbodies, hbodies, h.spell_arena hdistinct haddr]

end Draft
end TypeAtlas
