/-
Chains of owners.

The walk from a declaration up its owners remembers what is already known to lie
under the root namespace, and gives up when it has passed more declarations than
there are.  Giving up is right: `Rooted` rules out that a declaration comes back
to itself, so a chain that reaches the root passes each declaration once.
-/
import Mathlib.Data.List.Nodup
import Mathlib.Data.List.Perm.Subperm
import TypeAtlas.Proofs.Check
import TypeAtlas.Proofs.Validity.WellFormed

namespace TypeAtlas
namespace Image

open Check
open Relation (TransGen ReflTransGen)

variable {img : Image}

/-- One step up.  The root namespace has no owner, whatever its record says. -/
def OwnedBy (img : Image) (d p : DeclId) : Prop := d ≠ .root ∧ img.parentOf? d = some p

theorem OwnedBy.unique {d p q : DeclId} (hp : img.OwnedBy d p) (hq : img.OwnedBy d q) : p = q :=
  Option.some.inj (hp.2.symm.trans hq.2)

/-- A chain of owners that ends at the root does not come back to where it was. -/
theorem Rooted.not_transGen {d : DeclId} (h : img.Rooted d) : ¬ TransGen img.OwnedBy d d := by
  induction h with
  | root =>
    intro h
    obtain ⟨_, hstep, _⟩ := TransGen.head'_iff.mp h
    exact hstep.1 rfl
  | owned hp _ ih =>
    intro h
    obtain ⟨_, hstep, hback⟩ := TransGen.head'_iff.mp h
    have hq := hstep.unique ⟨hstep.1, hp⟩
    subst hq
    exact ih (TransGen.tail' hback hstep)

theorem holds_of_parentOf? {d p : DeclId} (hd : d ≠ .root) (h : img.parentOf? d = some p) :
    img.Holds d.id := by
  obtain ⟨r, hr, _⟩ := (parentOf?_eq_some_iff hd).mp h
  exact @holds_of_getElem? _ _ d.id r hr

/-- Every record of an image fits, so that it states an owner that is there. -/
def OwnersFit (img : Image) : Prop := ∀ a, ∀ r ∈ img.arena a, img.RecordFits r

theorem OwnersFit.exists_owner (h : img.OwnersFit) {d : DeclId} (hd : img.Holds d.id)
    (hne : d ≠ .root) : ∃ p, img.OwnedBy d p ∧ img.Knows p := by
  have hget := getElem?_eq_some_of_holds hd
  obtain ⟨p, hp, hknown, _⟩ := (h _ _ (Array.mem_of_getElem? hget)).owner
  exact ⟨p, ⟨hne, (parentOf?_eq_some_iff hne).mpr ⟨_, hget, hp⟩⟩, hknown⟩

theorem OwnersFit.knows_owner (h : img.OwnersFit) {d p : DeclId} (hstep : img.OwnedBy d p) :
    img.Knows p := by
  have hheld := holds_of_parentOf? hstep.1 hstep.2
  obtain ⟨q, hq, hknown⟩ := h.exists_owner hheld hstep.1
  exact hstep.unique hq ▸ hknown

/-! ## How many declarations there are -/

theorem mem_declarations {d : DeclId} :
    d ∈ img.declarations ↔ ∃ k i, i < (img.arena (.decl k)).size ∧ d = ⟨k, .ofNat i⟩ := by
  simp only [declarations, List.mem_flatMap, List.mem_map, List.mem_range]
  constructor
  · rintro ⟨k, _, i, hi, hd⟩
    exact ⟨k, i, hi, hd.symm⟩
  · rintro ⟨k, i, hi, hd⟩
    exact ⟨k, k.mem_all, i, hi, hd.symm⟩

theorem mem_declarations_of_holds {d : DeclId} (h : img.Holds d.id) : d ∈ img.declarations :=
  mem_declarations.mpr ⟨d.kind, d.index, h, by cases d; simp [DeclId.index]⟩

theorem length_declarations_le : img.declarations.length ≤ img.recordCount := by
  simp only [declarations, DeclKind.all, recordCount, Arena.all, Arena.types, Arena.enumConstants,
    Arena.enums, Arena.fields, Arena.functions, Arena.templateTypes, Arena.templates,
    Arena.classes, Arena.namespaces, List.flatMap_cons, List.flatMap_nil, List.length_append,
    List.length_map, List.length_range, List.length_nil, List.foldr_cons, List.foldr_nil]
  omega

theorem size_le_of_nodup {path : Array DeclId} (hnodup : path.toList.Nodup)
    (hpath : ∀ e ∈ path, img.Holds e.id) : path.size ≤ img.recordCount := by
  have hsub : path.toList ⊆ img.declarations := fun e he =>
    mem_declarations_of_holds (hpath e (Array.mem_toList_iff.mp he))
  have hlen := (hnodup.subperm hsub).length_le
  rw [Array.length_toList] at hlen
  exact Nat.le_trans hlen length_declarations_le

/-- Different records, from each of which owners lead to a declaration. -/
structure LeadsTo (img : Image) (path : Array DeclId) (d : DeclId) : Prop where
  nodup : path.toList.Nodup
  below : ∀ e ∈ path, img.Holds e.id ∧ TransGen img.OwnedBy e d

namespace LeadsTo

variable {path : Array DeclId} {d p : DeclId}

theorem empty : img.LeadsTo #[] d := ⟨List.nodup_nil, by simp⟩

theorem size_le (h : img.LeadsTo path d) : path.size ≤ img.recordCount :=
  size_le_of_nodup h.nodup fun e he => (h.below e he).1

theorem push (h : img.LeadsTo path d) (hacyclic : ¬ TransGen img.OwnedBy d d)
    (hstep : img.OwnedBy d p) : img.LeadsTo (path.push d) p := by
  have hnew : d ∉ path := fun hmem => hacyclic (h.below d hmem).2
  constructor
  · rw [Array.toList_push, List.nodup_append]
    refine ⟨h.nodup, List.nodup_singleton d, fun e he f hf heq => hnew ?_⟩
    rw [← List.mem_singleton.mp hf, ← heq]
    exact Array.mem_toList_iff.mp he
  · intro e he
    rcases Array.mem_push.mp he with he | rfl
    · exact ⟨(h.below e he).1, (h.below e he).2.tail hstep⟩
    · exact ⟨holds_of_parentOf? hstep.1 hstep.2, .single hstep⟩

end LeadsTo

/-! ## The walk -/

section climb

variable {rooted : Std.HashSet DeclId}

/-- A walk from a declaration under the root ends at one that is known to be. -/
theorem climb_of_rooted (hroot : DeclId.root ∈ rooted) {d : DeclId} (hd : img.Rooted d) :
    ∀ path : Array DeclId, img.LeadsTo path d →
      ∃ last passed, img.climb img.recordCount rooted path (some d) = (some last, passed) ∧
        last ∈ rooted := by
  induction hd with
  | root =>
    intro path _
    refine ⟨.root, path, ?_, hroot⟩
    rw [climb]
    simp [hroot]
  | @owned d p hp hrooted ih =>
    intro path hpath
    by_cases hknown : d ∈ rooted
    · refine ⟨d, path, ?_, hknown⟩
      rw [climb]
      simp [hknown]
    · have hstep : img.OwnedBy d p := ⟨fun e => hknown (e ▸ hroot), hp⟩
      have hgo : (rooted.contains d || decide (img.recordCount < path.size)) = false := by
        rw [Bool.or_eq_false_iff, decide_eq_false_iff_not]
        exact ⟨by simpa using hknown, Nat.not_lt.mpr hpath.size_le⟩
      rw [climb, hgo, hp]
      exact ih (path.push d) (hpath.push (hrooted.owned hp).not_transGen hstep)

/-- All that a walk passed lies under the root when the place does where it
stopped. -/
theorem rooted_of_climb {limit : Nat} {path passed : Array DeclId} {next : Option DeclId}
    {last : DeclId} (h : img.climb limit rooted path next = (some last, passed))
    (hlast : img.Rooted last)
    (hpath : ∀ e ∈ path, ∀ d, next = some d → img.Rooted d → img.Rooted e) :
    (∀ e ∈ passed, img.Rooted e) ∧ ∀ d, next = some d → img.Rooted d := by
  fun_induction climb img limit rooted path next with
  | case1 path => cases h
  | case2 path d _ =>
    obtain ⟨hd, rfl⟩ := Prod.mk.inj h
    have hd := Option.some.inj hd
    subst hd
    exact ⟨fun e he => hpath e he d rfl hlast, fun _ he => Option.some.inj he ▸ hlast⟩
  | case3 path d _ ih =>
    have hpush : ∀ e ∈ path.push d, ∀ p, img.parentOf? d = some p → img.Rooted p →
        img.Rooted e := by
      intro e he p hp hr
      rcases Array.mem_push.mp he with he | he
      · exact hpath e he d rfl (hr.owned hp)
      · exact he ▸ hr.owned hp
    obtain ⟨hpassed, hnext⟩ := ih h hpush
    refine ⟨hpassed, fun _ he => ?_⟩
    obtain rfl := Option.some.inj he
    cases hp : img.parentOf? d with
    | none =>
      rw [hp, climb] at h
      cases h
    | some p => exact (hnext p hp).owned hp

theorem mem_insertMany {path : Array DeclId} {d : DeclId} :
    d ∈ rooted.insertMany path ↔ d ∈ rooted ∨ d ∈ path := by
  have hlist : rooted.insertMany path = rooted.insertMany path.toList := by
    simp only [Std.HashSet.insertMany, Std.HashMap.insertManyIfNewUnit,
      Std.DHashMap.Const.insertManyIfNewUnit,
      Std.DHashMap.Internal.Raw₀.Const.insertManyIfNewUnit, Array.forIn_toList]
  rw [hlist, Std.HashSet.mem_insertMany_list, List.contains_iff_mem, Array.mem_toList_iff]

/-! ## The pass -/

/-- What is remembered is under the root, and the root itself is. -/
structure Remembered (img : Image) (rooted : Std.HashSet DeclId) : Prop where
  root : DeclId.root ∈ rooted
  sound : ∀ d ∈ rooted, img.Rooted d

theorem remembered_start (img : Image) : img.Remembered (Std.HashSet.ofList [.root]) where
  root := by simp
  sound d hd := by
    have he : DeclId.root = d := by simpa using hd
    exact he ▸ .root

theorem Remembered.insertMany (h : img.Remembered rooted) {path : Array DeclId}
    (hpath : ∀ e ∈ path, img.Rooted e) : img.Remembered (rooted.insertMany path) where
  root := mem_insertMany.mpr (Or.inl h.root)
  sound e he := (mem_insertMany.mp he).elim (h.sound e) (hpath e)

/-- One declaration is accepted exactly when it lies under the root, and what is
remembered then is under it as well. -/
theorem checkChain_eq_ok_iff (h : img.Remembered rooted) {d : DeclId} :
    (∃ more, img.checkChain img.recordCount rooted d = .ok more) ↔ img.Rooted d := by
  rw [checkChain]
  constructor
  · rintro ⟨more, hmore⟩
    split at hmore
    case h_1 last passed hclimb =>
      by_cases hlast : rooted.contains last = true
      · exact (rooted_of_climb hclimb (h.sound last hlast) (by simp)).2 d rfl
      · rw [if_neg hlast] at hmore
        cases hmore
    case h_2 => cases hmore
  · intro hd
    obtain ⟨last, passed, hclimb, hlast⟩ := climb_of_rooted h.root hd #[] .empty
    rw [hclimb]
    exact ⟨rooted.insertMany passed, if_pos hlast⟩

theorem Remembered.checkChain (h : img.Remembered rooted) {limit : Nat} {d : DeclId}
    {more : Std.HashSet DeclId} (hmore : img.checkChain limit rooted d = .ok more) :
    img.Remembered more := by
  rw [Image.checkChain] at hmore
  split at hmore
  case h_1 last passed hclimb =>
    by_cases hlast : rooted.contains last = true
    · rw [if_pos hlast] at hmore
      have hpassed := (rooted_of_climb hclimb (h.sound last hlast) (by simp)).1
      exact Except.ok.inj hmore ▸ h.insertMany hpassed
    · rw [if_neg hlast] at hmore
      cases hmore
  case h_2 => cases hmore

theorem foldlM_checkChain_eq_ok_iff {ds : List DeclId} (h : img.Remembered rooted) :
    (∃ more, ds.foldlM (img.checkChain img.recordCount) rooted = .ok more) ↔
      ∀ d ∈ ds, img.Rooted d := by
  induction ds generalizing rooted with
  | nil => exact ⟨fun _ _ hd => absurd hd List.not_mem_nil, fun _ => ⟨rooted, rfl⟩⟩
  | cons d ds ih =>
    rw [List.foldlM_cons, List.forall_mem_cons, ← checkChain_eq_ok_iff h]
    constructor
    · rintro ⟨more, hmore⟩
      obtain ⟨rooted', hd, hds⟩ := bind_eq_ok_iff.mp hmore
      exact ⟨⟨rooted', hd⟩, (ih (h.checkChain hd)).mp ⟨more, hds⟩⟩
    · rintro ⟨⟨rooted', hd⟩, hds⟩
      obtain ⟨more, hmore⟩ := (ih (h.checkChain hd)).mpr hds
      exact ⟨more, bind_eq_ok_iff.mpr ⟨rooted', hd, hmore⟩⟩

end climb

theorem checkChains_eq_ok_iff :
    img.checkChains = .ok () ↔
      ∀ k i, i < (img.arena (.decl k)).size → img.Rooted ⟨k, .ofNat i⟩ := by
  rw [checkChains, discard_eq_ok_iff, foldlM_checkChain_eq_ok_iff (remembered_start img)]
  constructor
  · intro h k i hi
    exact h _ (mem_declarations.mpr ⟨k, i, hi, rfl⟩)
  · intro h d hd
    obtain ⟨k, i, hi, rfl⟩ := mem_declarations.mp hd
    exact h k i hi

end Image
end TypeAtlas
