/-
What a search finds.

Where elements that compare less come before those that compare equal, and those before
the greater ones, the search leaves the last candidate that is not greater.  It therefore
answers like a scan of all elements, `Finds`, except that of several elements that compare
equal it may answer any.
-/
import Mathlib.Data.List.Basic
import TypeAtlas.Proofs.Check
import TypeAtlas.Proofs.Search

namespace TypeAtlas
namespace Search

variable {α : Type} {items : Array α}

/-- Elements that compare less come before those that compare equal, and those
before the greater ones. -/
def Ordered (items : Array α) (cmp : α → Ordering) : Prop :=
  items.toList.Pairwise fun x y => (cmp y = .lt → cmp x = .lt) ∧ (cmp x = .gt → cmp y = .gt)

theorem Ordered.lt_of_lt {cmp : α → Ordering} (h : Ordered items cmp) {i j : Nat} (hij : i ≤ j)
    (hj : j < items.size) (hlt : cmp items[j] = .lt) : cmp items[i] = .lt := by
  rcases Nat.eq_or_lt_of_le hij with rfl | hij
  · exact hlt
  · exact (List.pairwise_iff_getElem.mp h i j (by simp; omega) (by simpa using hj) hij).1 hlt

theorem Ordered.gt_of_gt {cmp : α → Ordering} (h : Ordered items cmp) {i j : Nat} (hij : i ≤ j)
    (hj : j < items.size) (hgt : cmp items[i] = .gt) : cmp items[j] = .gt := by
  rcases Nat.eq_or_lt_of_le hij with rfl | hij
  · exact hgt
  · exact (List.pairwise_iff_getElem.mp h i j (by simp; omega) (by simpa using hj) hij).2 hgt

/-- Of a run of candidates the last one that is not greater is left, or the first if
all are. -/
structure Narrowed (items : Array α) (cmp : α → Ordering) (base size : Nat) (i : Fin items.size) :
    Prop where
  le : base ≤ i.val
  lt : i.val < base + size
  not_gt : base < i.val → cmp items[i] ≠ .gt
  gt : ∀ j (hj : j < items.size), i.val < j → j < base + size → cmp items[j] = .gt

theorem narrowed_narrow {cmp : α → Ordering} (h : Ordered items cmp) (base size : Nat)
    (fits : base + size ≤ items.size) (pos : 0 < size) :
    Narrowed items cmp base size
      (Id.run (narrow items (fun x => pure (cmp x)) base size fits pos)) := by
  induction size using Nat.strongRecOn generalizing base with
  | ind size ih =>
    rw [narrow]
    by_cases hone : size = 1
    · rw [dif_pos hone]
      exact ⟨Nat.le_refl base, by show base < base + size; omega,
        fun hlt => absurd hlt (Nat.lt_irrefl base), fun j _ hj hlt => by
          have : base < j := hj
          omega⟩
    · have hmid : base + size / 2 < items.size := by omega
      rw [dif_neg hone, pure_bind]
      -- The upper half goes on where the middle is not greater.
      have hupper (hngt : cmp items[base + size / 2] ≠ .gt) :
          Narrowed items cmp base size (Id.run (narrow items (fun x => pure (cmp x))
            (base + size / 2) (size - size / 2) (by omega) (by omega))) := by
        obtain ⟨hle, hlt, hnot, hgt⟩ :=
          ih (size - size / 2) (by omega) (base + size / 2) (by omega) (by omega)
        refine ⟨by omega, by omega, fun _ => ?_, fun j hj hij hjlt => hgt j hj hij (by omega)⟩
        rcases Nat.eq_or_lt_of_le hle with heq | hlt
        · simp only [Fin.getElem_fin, ← heq]
          exact hngt
        · exact hnot hlt
      cases hord : cmp items[base + size / 2] with
      | gt =>
        obtain ⟨hle, hlt, hnot, hgt⟩ := ih (size - size / 2) (by omega) base (by omega) (by omega)
        refine ⟨hle, Nat.lt_of_lt_of_le hlt (by omega), hnot, fun j hj hij hjlt => ?_⟩
        by_cases hjm : j < base + size / 2
        · exact hgt j hj hij (by omega)
        · exact h.gt_of_gt (Nat.le_of_not_lt hjm) hj hord
      | lt => exact hupper (by rw [hord]; simp)
      | eq => exact hupper (by rw [hord]; simp)

/-- What a search says of ordered elements. -/
def Hit.Sound (items : Array α) (cmp : α → Ordering) : Hit → Prop
  | .found i => ∃ h : i < items.size, cmp items[i] = .eq
  | .absent i => i ≤ items.size ∧ ∀ j (hj : j < items.size),
      (j < i → cmp items[j] = .lt) ∧ (i ≤ j → cmp items[j] = .gt)

theorem sound_locate {cmp : α → Ordering} (h : Ordered items cmp) :
    Hit.Sound items cmp (Id.run (locate items fun x => pure (cmp x))) := by
  rw [locate]
  by_cases hempty : items.size = 0
  · rw [dif_pos hempty]
    exact ⟨Nat.zero_le _, fun j hj => by omega⟩
  · rw [dif_neg hempty]
    simp only [Id.run_bind]
    have hnarrowed := narrowed_narrow h 0 items.size (by omega) (by omega)
    generalize Id.run (narrow items (fun x => pure (cmp x)) 0 items.size _ _) = i at hnarrowed
    obtain ⟨_, hlt, hnot, hgt⟩ := hnarrowed
    cases hord : cmp items[i] with
    | eq => exact ⟨i.isLt, hord⟩
    | lt =>
      refine ⟨i.isLt, fun j hj => ⟨fun hji => ?_, fun hij => hgt j hj hij (by omega)⟩⟩
      exact h.lt_of_lt (Nat.le_of_lt_succ hji) i.isLt hord
    | gt =>
      -- Only the first candidate can be greater.
      have hzero : i.val = 0 := by
        by_contra hne
        exact hnot (Nat.pos_of_ne_zero hne) hord
      refine ⟨Nat.le_of_lt i.isLt, fun j hj => ⟨fun hji => by omega, fun _ => ?_⟩⟩
      exact h.gt_of_gt (by omega) hj hord

theorem isSome_byOrder_iff {cmp : α → Ordering} (h : Ordered items cmp) :
    (byOrder items cmp).isSome ↔ ∃ x ∈ items, cmp x = .eq := by
  have hsound := sound_locate h
  rw [byOrder]
  cases hhit : Id.run (locate items fun x => pure (cmp x)) with
  | found i =>
    rw [hhit] at hsound
    obtain ⟨hi, heq⟩ := hsound
    exact iff_of_true rfl ⟨items[i], Array.getElem_mem hi, heq⟩
  | absent i =>
    rw [hhit] at hsound
    refine iff_of_false Bool.false_ne_true ?_
    rintro ⟨x, hx, heq⟩
    obtain ⟨j, hj, rfl⟩ := Array.mem_iff_getElem.mp hx
    rcases Nat.lt_or_ge j i with hlt | hge
    · rw [(hsound.2 j hj).1 hlt] at heq
      cases heq
    · rw [(hsound.2 j hj).2 hge] at heq
      cases heq

theorem eq_of_byOrder {cmp : α → Ordering} (h : Ordered items cmp) {i : Nat}
    (hfound : byOrder items cmp = some i) : ∃ hi : i < items.size, cmp items[i] = .eq := by
  have hsound := sound_locate h
  rw [byOrder] at hfound
  cases hhit : Id.run (locate items fun x => pure (cmp x)) with
  | found j =>
    rw [hhit] at hsound hfound
    obtain rfl := Option.some.inj hfound
    exact hsound
  | absent j =>
    rw [hhit] at hfound
    cases hfound

/-! ## Keys -/

/-- Ascending keys are ordered by how they compare with any hash. -/
theorem ordered_of_ascending {key : α → UInt32} (h : (items.toList.map key).Pairwise (· ≤ ·))
    (hash : UInt32) : Ordered items fun x => compare (key x) hash := by
  refine (List.pairwise_map.mp h).imp fun hle => ⟨fun hlt => ?_, fun hgt => ?_⟩
  · rw [Std.compare_eq_lt] at hlt ⊢
    exact UInt32.lt_of_le_of_lt hle hlt
  · rw [Std.compare_eq_gt] at hgt ⊢
    exact UInt32.lt_of_lt_of_le hgt hle

/-- An answer is that of a scan: an element with the hash, and none only where no
element has it. -/
structure Finds (elements : List α) (key : α → UInt32) (hash : UInt32) (answer : Option α) :
    Prop where
  found : ∀ x ∈ answer, x ∈ elements ∧ key x = hash
  isSome_iff : answer.isSome ↔ ∃ x ∈ elements, key x = hash

theorem isSome_byKey_iff {key : α → UInt32} (h : (items.toList.map key).Pairwise (· ≤ ·))
    (hash : UInt32) : (byKey items key hash).isSome ↔ ∃ x ∈ items, key x = hash := by
  rw [byKey, isSome_byOrder_iff (ordered_of_ascending h hash)]
  simp only [Std.compare_eq_iff_eq]

theorem key_of_byKey {key : α → UInt32} (h : (items.toList.map key).Pairwise (· ≤ ·))
    {hash : UInt32} {i : Nat} (hfound : byKey items key hash = some i) :
    ∃ hi : i < items.size, key items[i] = hash := by
  obtain ⟨hi, heq⟩ := eq_of_byOrder (ordered_of_ascending h hash) hfound
  exact ⟨hi, Std.compare_eq_iff_eq.mp heq⟩

/-- A search in an array whose elements stand for others, one for one, is a scan of
those. -/
theorem exists_finds_of_mapM {β ε : Type} {f : α → Except ε β} {ys : List β}
    (hys : items.toList.mapM f = .ok ys) {word : α → UInt32} {key : β → UInt32}
    (hkey : ∀ x ∈ items, ∀ y, f x = .ok y → key y = word x)
    (hsorted : (items.toList.map word).Pairwise (· ≤ ·)) (hash : UInt32) :
    ∃ answer, ((byKey items word hash).bind (items[·]?)).mapM f = .ok answer ∧
      Finds ys key hash answer := by
  cases hfound : byKey items word hash with
  | none =>
    have hnone : ¬ ∃ x ∈ items, word x = hash := by
      rw [← isSome_byKey_iff hsorted, hfound]
      exact Bool.false_ne_true
    refine ⟨none, rfl, ?_, iff_of_false Bool.false_ne_true ?_⟩
    · intro _ hy
      cases hy
    · rintro ⟨y, hy, heq⟩
      obtain ⟨x, hx, hxy⟩ := Check.exists_of_mem_mapM hys hy
      have hx := Array.mem_toList_iff.mp hx
      exact hnone ⟨x, hx, (hkey x hx y hxy).symm.trans heq⟩
  | some i =>
    obtain ⟨hi, hword⟩ := key_of_byKey hsorted hfound
    have hget : items[i]? = some items[i] := Array.getElem?_eq_getElem hi
    have hanswer := Check.mapM_getElem? hys i
    rw [Array.getElem?_toList, hget] at hanswer
    obtain ⟨y, hy, hyi⟩ := Check.bind_eq_ok_iff.mp hanswer
    have hyi : ys[i]? = some y := (Except.ok.inj hyi).symm
    have hmem := List.mem_of_getElem? hyi
    have heq : key y = hash := (hkey _ (Array.getElem_mem hi) y hy).trans hword
    refine ⟨some y, ?_, fun z hz => ?_, iff_of_true rfl ⟨y, hmem, heq⟩⟩
    · rw [Option.bind_some, hget, hanswer, hyi]
    · obtain rfl := Option.some.inj hz
      exact ⟨hmem, heq⟩

end Search
end TypeAtlas
