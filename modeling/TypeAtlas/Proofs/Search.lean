/-
Searches whose comparison is looked up.

A search asks its comparison in a monad.  Where every comparison is answered, so
is the search, and its answer is that of the pure search with the same
comparison: looking keys up changes nothing.
-/
import TypeAtlas.Search

namespace TypeAtlas
namespace Search

variable {α ε : Type} {items : Array α}

/-- Narrowing down to one candidate is answered where all comparisons are. -/
theorem narrow_eq_ok {cmp : α → Except ε Ordering} {order : α → Ordering}
    (hcmp : ∀ x ∈ items, cmp x = .ok (order x)) (base size : Nat)
    (fits : base + size ≤ items.size) (pos : 0 < size) :
    narrow items cmp base size fits pos =
      .ok (Id.run (narrow items (fun x => pure (order x)) base size fits pos)) := by
  induction size using Nat.strongRecOn generalizing base with
  | ind size ih =>
    rw [narrow, narrow.eq_def (m := Id)]
    by_cases hone : size = 1
    · rw [dif_pos hone, dif_pos hone]
      rfl
    · have hlt : base + size / 2 < items.size := by omega
      have hmid := hcmp _ (Array.getElem_mem hlt)
      rw [dif_neg hone, dif_neg hone, hmid]
      cases hord : order items[base + size / 2] with
      | gt =>
        have hrest := ih (size - size / 2) (by omega) base (by omega) (by omega)
        show narrow items cmp base _ _ _ = _
        rw [hrest]
        simp only [pure_bind]
      | lt =>
        have hrest := ih (size - size / 2) (by omega) (base + size / 2) (by omega) (by omega)
        show narrow items cmp _ _ _ _ = _
        rw [hrest]
        simp only [pure_bind]
      | eq =>
        have hrest := ih (size - size / 2) (by omega) (base + size / 2) (by omega) (by omega)
        show narrow items cmp _ _ _ _ = _
        rw [hrest]
        simp only [pure_bind]

theorem locate_eq_ok {cmp : α → Except ε Ordering} {order : α → Ordering}
    (hcmp : ∀ x ∈ items, cmp x = .ok (order x)) :
    locate items cmp = .ok (Id.run (locate items fun x => pure (order x))) := by
  rw [locate, locate]
  by_cases hempty : items.size = 0
  · rw [dif_pos hempty, dif_pos hempty]
    rfl
  · rw [dif_neg hempty, dif_neg hempty, narrow_eq_ok hcmp]
    simp only [Id.run_bind]
    generalize Id.run (narrow items (fun x => pure (order x)) 0 items.size _ _) = i
    have hlast := hcmp items[i] (Array.getElem_mem i.isLt)
    show (cmp items[i] >>= _) = _
    rw [hlast]
    cases order items[i] <;> rfl

/-- A search by looked up keys is the search by those keys. -/
theorem byKeyM_eq_ok {key : α → Except ε UInt32} {word : α → UInt32}
    (hkey : ∀ x ∈ items, key x = .ok (word x)) (hash : UInt32) :
    byKeyM items key hash = .ok (byKey items word hash) := by
  have hcmp : ∀ x ∈ items, (do return compare (← key x) hash : Except ε Ordering) =
      .ok (compare (word x) hash) := by
    intro x hx
    rw [hkey x hx]
    rfl
  rw [byKeyM, locate_eq_ok hcmp]
  rfl

end Search
end TypeAtlas
