/-
Declarations that owners do not lead to the root from.

In an image whose records all have an owner that is there, the owners of such a stray run into
a cycle: the stray lies on it or leads there.  The pass over the chains reports the first
stray, which has to be said of positions.  Two positions of an arena have the same id when
there are more than ids, and then the earlier one decides.
-/
import Mathlib.Data.Prod.Lex
import TypeAtlas.Proofs.Validity.Owners
import TypeAtlas.Proofs.Validity.Passes

namespace TypeAtlas
namespace Image

open Check
open Relation (TransGen ReflTransGen)

variable {img : Image} {k k' : DeclKind} {i j : Nat} {d : DeclId}

/-! ## Turns -/

/-- When the chain of a declaration is looked at: by kind, and then by position. -/
def turn (k : DeclKind) (i : Nat) : Nat ×ₗ Nat := toLex (DeclKind.all.idxOf k, i)

theorem turn_lt_iff :
    turn k i < turn k' j ↔
      DeclKind.all.idxOf k < DeclKind.all.idxOf k' ∨ (k = k' ∧ i < j) := by
  rw [turn, turn, Prod.Lex.toLex_lt_toLex, List.idxOf_inj k.mem_all]

theorem turn_inj (h : turn k i = turn k' j) : k = k' ∧ i = j := by
  obtain ⟨hk, hi⟩ := Prod.mk.inj (toLex_inj.mp h)
  exact ⟨(List.idxOf_inj k.mem_all).mp hk, hi⟩

/-- Owners lead to the root from all declarations whose turn is earlier. -/
def RootedBefore (img : Image) (k : DeclKind) (i : Nat) : Prop :=
  ∀ k' j, j < (img.arena (.decl k')).size → turn k' j < turn k i → img.Rooted ⟨k', .ofNat j⟩

theorem RootedBefore.succ (h : img.RootedBefore k i) (hi : img.Rooted ⟨k, .ofNat i⟩) :
    img.RootedBefore k (i + 1) := by
  intro k' j hj hturn
  rcases turn_lt_iff.mp hturn with hkind | ⟨rfl, hlt⟩
  · exact h k' j hj (turn_lt_iff.mpr (.inl hkind))
  · rcases Nat.lt_succ_iff_lt_or_eq.mp hlt with hlt | rfl
    · exact h k' j hj (turn_lt_iff.mpr (.inr ⟨rfl, hlt⟩))
    · exact hi

/-- A stray, as none of those is whose turn is earlier. -/
structure FirstStray (img : Image) (k : DeclKind) (i : Nat) : Prop where
  held : i < (img.arena (.decl k)).size
  stray : ¬ img.Rooted ⟨k, .ofNat i⟩
  before : img.RootedBefore k i

theorem FirstStray.unique (h : img.FirstStray k i) (h' : img.FirstStray k' j) :
    k = k' ∧ i = j := by
  rcases lt_trichotomy (turn k i) (turn k' j) with hlt | heq | hlt
  · exact absurd (h'.before k i h.held hlt) h.stray
  · exact turn_inj heq
  · exact absurd (h.before k' j h'.held hlt) h'.stray

/-! ## Cycles of owners -/

/-- Owners lead from here to a declaration that comes back to itself. -/
def RunsInCircles (img : Image) (d : DeclId) : Prop :=
  ∃ c, ReflTransGen img.OwnedBy d c ∧ TransGen img.OwnedBy c c

theorem Rooted.not_runsInCircles (h : img.Rooted d) : ¬ img.RunsInCircles d := by
  rintro ⟨c, hreach, hcycle⟩
  induction hreach using ReflTransGen.head_induction_on with
  | refl => exact h.not_transGen hcycle
  | head hstep _ ih =>
    cases h with
    | root => exact hstep.1 rfl
    | owned hp hrooted =>
      obtain rfl := hstep.unique ⟨hstep.1, hp⟩
      exact ih hrooted

theorem ownersFit_of_checkArenas (h : Arena.all.forM img.checkArena = .ok ()) : img.OwnersFit :=
  (checkArenas_eq_ok_iff.mp h).1

/-- Owners that run into no cycle lead to the root: those that were passed are all different,
and there are only so many records. -/
theorem OwnersFit.rooted_of_not_circles (h : img.OwnersFit) {room : Nat} {path : Array DeclId}
    (hpath : img.LeadsTo path d) (hroom : img.recordCount < path.size + room) (hd : img.Knows d)
    (hcircles : ¬ img.RunsInCircles d) : img.Rooted d := by
  induction room generalizing path d with
  | zero => exact absurd hpath.size_le (Nat.not_le.mpr hroom)
  | succ room ih =>
    by_cases hroot : d = .root
    · exact hroot ▸ .root
    obtain ⟨p, hstep, hp⟩ := h.exists_owner (hd.resolve_left hroot) hroot
    have hacyclic : ¬ TransGen img.OwnedBy d d := fun hcycle => hcircles ⟨d, .refl, hcycle⟩
    refine .owned hstep.2 (ih (hpath.push hacyclic hstep) ?_ hp ?_)
    · rw [Array.size_push]
      omega
    · rintro ⟨c, hreach, hcycle⟩
      exact hcircles ⟨c, .head hstep hreach, hcycle⟩

/-- A record is a stray exactly if its owners run into a cycle. -/
theorem OwnersFit.not_rooted_iff (h : img.OwnersFit) (hd : img.Holds d.id) :
    ¬ img.Rooted d ↔ img.RunsInCircles d := by
  refine ⟨fun hstray => ?_, fun hcircles hrooted => hrooted.not_runsInCircles hcircles⟩
  by_contra hcircles
  have hroom : img.recordCount < (#[] : Array DeclId).size + (img.recordCount + 1) := by
    rw [Array.size_empty]
    omega
  exact hstray (h.rooted_of_not_circles .empty hroom (.inr hd) hcircles)

/-! ## The pass -/

/-- Where the declarations are, in turn. -/
def positions (img : Image) : List (DeclKind × Nat) :=
  DeclKind.all.flatMap fun k => (List.range (img.arena (.decl k)).size).map fun i => (k, i)

theorem mem_positions : (k, i) ∈ img.positions ↔ i < (img.arena (.decl k)).size := by
  simp [positions, DeclKind.mem_all]

theorem declarations_eq_map : img.declarations = img.positions.map fun q => ⟨q.1, .ofNat q.2⟩ := by
  simp [declarations, positions, List.map_flatMap, Function.comp_def]

theorem pairwise_positions :
    img.positions.Pairwise fun q q' => turn q.1 q.2 < turn q'.1 q'.2 := by
  rw [positions, List.pairwise_flatMap]
  constructor
  · intro k _
    rw [List.pairwise_map]
    exact List.pairwise_lt_range.imp fun hlt => turn_lt_iff.mpr (.inr ⟨rfl, hlt⟩)
  · have hkinds : DeclKind.all.Pairwise fun k k' =>
        DeclKind.all.idxOf k < DeclKind.all.idxOf k' := by decide
    refine hkinds.imp fun hlt => ?_
    simp only [List.mem_map]
    rintro _ ⟨i, _, rfl⟩ _ ⟨j, _, rfl⟩
    exact turn_lt_iff.mpr (.inl hlt)

/-- An id does not tell larger positions apart. -/
theorem index_ofNat_le : (⟨k, .ofNat i⟩ : DeclId).index ≤ i := by
  rw [DeclId.index, UInt32.toNat_ofNat']
  exact Nat.mod_le _ _

/-- What has its turn before a declaration stands before each place where that is listed. -/
theorem mem_of_turn_lt {before after : List DeclId}
    (hsplit : img.declarations = before ++ d :: after) (hj : j < (img.arena (.decl k)).size)
    (hturn : turn k j < turn d.kind d.index) : ⟨k, .ofNat j⟩ ∈ before := by
  rw [declarations_eq_map] at hsplit
  obtain ⟨earlier, rest, hpositions, rfl, hrest⟩ := List.map_eq_append_iff.mp hsplit
  obtain ⟨⟨k', i⟩, later, rfl, rfl, _⟩ := List.map_eq_cons_iff.mp hrest
  have hmem := mem_positions.mpr hj
  have hsorted := img.pairwise_positions
  rw [hpositions] at hmem hsorted
  -- Whatever is listed from the declaration on has its turn then or later.
  refine (List.mem_append.mp hmem).elim List.mem_map_of_mem fun hlate => ?_
  have hle : turn k' i ≤ turn k j := by
    rcases List.mem_cons.mp hlate with heq | hlater
    · obtain ⟨rfl, rfl⟩ := Prod.mk.inj heq
      exact le_rfl
    · exact (List.rel_of_pairwise_cons (List.pairwise_append.mp hsorted).2.1 hlater).le
  rcases turn_lt_iff.mp (hle.trans_lt hturn) with hlt | ⟨_, hlt⟩
  · exact absurd hlt (Nat.lt_irrefl _)
  · exact absurd hlt (Nat.not_lt.mpr index_ofNat_le)

theorem Remembered.foldlM {rooted more : Std.HashSet DeclId} (h : img.Remembered rooted)
    {limit : Nat} {ds : List DeclId} (hmore : ds.foldlM (img.checkChain limit) rooted = .ok more) :
    img.Remembered more := by
  induction ds generalizing rooted with
  | nil => exact Except.ok.inj hmore ▸ h
  | cons d ds ih =>
    rw [List.foldlM_cons] at hmore
    obtain ⟨rooted', hd, hds⟩ := bind_eq_ok_iff.mp hmore
    exact ih (h.checkChain hd) hds

theorem checkChain_eq_error {rooted : Std.HashSet DeclId} {limit : Nat} {fault : ImageFault}
    (h : img.checkChain limit rooted d = .error fault) : fault = .parentCycle d.kind d.index := by
  rw [checkChain] at h
  split at h
  · split at h
    · cases h
    · exact (Except.error.inj h).symm
  · exact (Except.error.inj h).symm

theorem firstStray_of_checkChains {fault : ImageFault} (h : img.checkChains = .error fault) :
    ∃ k i, fault = .parentCycle k i ∧ img.FirstStray k i := by
  rw [checkChains, discard_eq_error_iff] at h
  obtain ⟨before, d, after, rooted, hsplit, hbefore, hd⟩ := exists_of_foldlM_eq_error h
  have hstart := remembered_start img
  have hrooted := (foldlM_checkChain_eq_ok_iff hstart).mp ⟨rooted, hbefore⟩
  have hstray : ¬ img.Rooted d := by
    rw [← checkChain_eq_ok_iff (hstart.foldlM hbefore), hd]
    rintro ⟨_, hok⟩
    cases hok
  have hmem : d ∈ img.declarations := hsplit ▸ List.mem_append_right _ List.mem_cons_self
  refine ⟨d.kind, d.index, checkChain_eq_error hd, ?_, ?_, ?_⟩
  · obtain ⟨k, i, hi, rfl⟩ := mem_declarations.mp hmem
    exact Nat.lt_of_le_of_lt index_ofNat_le hi
  · rwa [DeclId.index, UInt32.ofNat_toNat]
  · exact fun k j hj hturn => hrooted _ (mem_of_turn_lt hsplit hj hturn)

/-- The first stray is what the pass is refused for. -/
theorem checkChains_eq_error_iff {fault : ImageFault} :
    img.checkChains = .error fault ↔ ∃ k i, fault = .parentCycle k i ∧ img.FirstStray k i := by
  refine ⟨firstStray_of_checkChains, ?_⟩
  rintro ⟨k, i, rfl, hfirst⟩
  cases hpass : img.checkChains with
  | ok => exact absurd (checkChains_eq_ok_iff.mp hpass k i hfirst.held) hfirst.stray
  | error fault =>
    obtain ⟨k', j, rfl, hfirst'⟩ := firstStray_of_checkChains hpass
    obtain ⟨rfl, rfl⟩ := hfirst.unique hfirst'
    rfl

end Image
end TypeAtlas
