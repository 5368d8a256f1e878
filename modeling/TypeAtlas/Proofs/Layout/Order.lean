/-
The order in which a draft is laid out.

Every arena is sorted by hash.  The sort is stable, so records of equal hash keep
the order in which they were added, and the place of a record is its rank in the
lexicographic order of hash and position.
-/
import Mathlib.Data.List.Nodup
import Mathlib.Logic.Equiv.Defs
import TypeAtlas.Draft.Layout

namespace TypeAtlas

/-! ## Stable sorting -/

section sort

variable {α : Type} {key : α → UInt32}

theorem le_key_trans (x y z : α) (hxy : decide (key x ≤ key y) = true)
    (hyz : decide (key y ≤ key z) = true) : decide (key x ≤ key z) = true := by
  rw [decide_eq_true_eq] at *
  exact UInt32.le_trans hxy hyz

theorem le_key_total (x y : α) : (decide (key x ≤ key y) || decide (key y ≤ key x)) = true := by
  rw [Bool.or_eq_true, decide_eq_true_eq, decide_eq_true_eq]
  exact UInt32.le_total _ _

theorem mergeSort_key_pairwise (xs : List α) :
    (xs.mergeSort fun x y => key x ≤ key y).Pairwise fun x y => key x ≤ key y :=
  (List.pairwise_mergeSort le_key_trans le_key_total xs).imp fun h => by simpa using h

/-- Elements of equal key keep the order they had. -/
theorem mergeSort_key_stable {r : α → α → Prop} {xs : List α} (h : xs.Pairwise r) :
    (xs.mergeSort fun x y => key x ≤ key y).Pairwise
      fun x y => key x < key y ∨ key x = key y ∧ r x y := by
  induction xs with
  | nil =>
    rw [List.mergeSort_nil]
    exact .nil
  | cons x xs ih =>
    -- The head goes after the elements of smaller key and before all others.
    obtain ⟨before, after, hsorted, hrest, hbefore⟩ :=
      @List.mergeSort_cons _ (fun x y => decide (key x ≤ key y)) le_key_trans le_key_total x xs
    have hpair := ih h.of_cons
    rw [hrest, List.pairwise_append] at hpair
    have hxs : ∀ y ∈ before ++ after, r x y := by
      intro y hy
      rw [← hrest] at hy
      exact List.rel_of_pairwise_cons h (List.mem_mergeSort.mp hy)
    have hle : (before ++ x :: after).Pairwise fun x y => key x ≤ key y :=
      hsorted ▸ mergeSort_key_pairwise (x :: xs)
    rw [hsorted, List.pairwise_append, List.pairwise_cons]
    rw [List.pairwise_append, List.pairwise_cons] at hle
    refine ⟨hpair.1, ⟨fun y hy => ?_, hpair.2.1⟩, fun y hy z hz => ?_⟩
    · have hr := hxs y (List.mem_append_right _ hy)
      rcases UInt32.lt_or_eq_of_le (hle.2.1.1 y hy) with hlt | heq
      · exact Or.inl hlt
      · exact Or.inr ⟨heq, hr⟩
    · rcases List.mem_cons.mp hz with rfl | hz
      · have hlt : ¬ key z ≤ key y := by simpa using hbefore y hy
        exact Or.inl (UInt32.not_le.mp hlt)
      · exact hpair.2.2 y hy z hz

end sort

namespace Draft

variable {d : Draft} {a : Arena}

/-! ## Places -/

/-- The positions of an arena by ascending hash. -/
def order (d : Draft) (a : Arena) : List Nat := (d.sorted a).map (·.2)

/-- Where the record at a position goes. -/
def place (d : Draft) (a : Arena) (i : Nat) : Nat := (d.order a).idxOf i

theorem mem_sorted {entry : Record a × Nat} :
    entry ∈ d.sorted a ↔ (d.arena a)[entry.2]? = some entry.1 := by
  rw [sorted, List.mem_mergeSort, List.mem_zipIdx_iff_getElem?, Array.getElem?_toList]

theorem order_perm (d : Draft) (a : Arena) : (d.order a).Perm (List.range (d.arena a).size) := by
  have hsort := List.mergeSort_perm (d.arena a).toList.zipIdx fun x y => x.1.hash ≤ y.1.hash
  have h := hsort.map Prod.snd
  rw [List.zipIdx_map_snd, Array.length_toList, ← List.range_eq_range'] at h
  exact h

theorem length_sorted (d : Draft) (a : Arena) : (d.sorted a).length = (d.arena a).size := by
  simp [sorted]

theorem length_order (d : Draft) (a : Arena) : (d.order a).length = (d.arena a).size := by
  rw [order, List.length_map, length_sorted]

theorem nodup_order (d : Draft) (a : Arena) : (d.order a).Nodup :=
  (order_perm d a).nodup_iff.mpr List.nodup_range

theorem mem_order {i : Nat} : i ∈ d.order a ↔ i < (d.arena a).size := by
  rw [(order_perm d a).mem_iff, List.mem_range]

theorem place_lt {i : Nat} (h : i < (d.arena a).size) : d.place a i < (d.arena a).size := by
  rw [← length_order]
  exact List.idxOf_lt_length_of_mem (mem_order.mpr h)

theorem exists_place {j : Nat} (h : j < (d.arena a).size) :
    ∃ i < (d.arena a).size, d.place a i = j := by
  rw [← length_order] at h
  refine ⟨(d.order a)[j], mem_order.mp (List.getElem_mem h), ?_⟩
  exact (d.nodup_order a).idxOf_getElem j h

theorem order_getElem?_place {i : Nat} (h : i < (d.arena a).size) :
    (d.order a)[d.place a i]? = some i := by
  have hlt := List.idxOf_lt_length_of_mem (mem_order.mpr h)
  rw [place, List.getElem?_eq_getElem hlt, List.getElem_idxOf hlt]

theorem place_injective {i j : Nat} (hi : i < (d.arena a).size) (hj : j < (d.arena a).size)
    (h : d.place a i = d.place a j) : i = j := by
  have hsame := order_getElem?_place hi
  rw [h, order_getElem?_place hj] at hsame
  exact (Option.some.inj hsame).symm

/-- At the place of a position stands the record that was there. -/
theorem sorted_getElem?_place {i : Nat} {r : Record a} (h : (d.arena a)[i]? = some r) :
    (d.sorted a)[d.place a i]? = some (r, i) := by
  have hplace := order_getElem?_place (Array.getElem?_eq_some_iff.mp h).1
  rw [order, List.getElem?_map, Option.map_eq_some_iff] at hplace
  obtain ⟨⟨s, j⟩, hentry, rfl⟩ := hplace
  have hs := mem_sorted.mp (List.mem_of_getElem? hentry)
  rw [h] at hs
  rw [hentry, Option.some.inj hs]

/-- The lexicographic order of hash and position. -/
def Before (x y : Record a × Nat) : Prop :=
  x.1.hash < y.1.hash ∨ x.1.hash = y.1.hash ∧ x.2 < y.2

theorem Before.asymm {x y : Record a × Nat} (h : Before x y) : ¬ Before y x := by
  intro h'
  rcases h with hlt | ⟨heq, hpos⟩
  · rcases h' with hlt' | ⟨heq', _⟩
    · exact UInt32.lt_irrefl _ (UInt32.lt_trans hlt hlt')
    · exact UInt32.lt_irrefl _ (heq' ▸ hlt)
  · rcases h' with hlt' | ⟨_, hpos'⟩
    · exact UInt32.lt_irrefl _ (heq ▸ hlt')
    · omega

theorem sorted_pairwise (d : Draft) (a : Arena) : (d.sorted a).Pairwise Before := by
  refine mergeSort_key_stable ?_
  apply List.pairwise_map.mp
  rw [List.zipIdx_map_snd]
  exact List.pairwise_lt_range'

theorem before_of_place_lt {i j : Nat} {r s : Record a} (hr : (d.arena a)[i]? = some r)
    (hs : (d.arena a)[j]? = some s) (h : d.place a i < d.place a j) : Before (r, i) (s, j) := by
  obtain ⟨hi, hri⟩ := List.getElem?_eq_some_iff.mp (sorted_getElem?_place hr)
  obtain ⟨hj, hsj⟩ := List.getElem?_eq_some_iff.mp (sorted_getElem?_place hs)
  have hpair := List.pairwise_iff_getElem.mp (d.sorted_pairwise a) _ _ hi hj h
  rwa [hri, hsj] at hpair

/-- An arena that ascends already is left as it is. -/
theorem place_of_ascending (h : ((d.arena a).toList.map (·.hash)).Pairwise (· ≤ ·)) {i : Nat}
    (hi : i < (d.arena a).size) : d.place a i = i := by
  have hsorted : d.sorted a = (d.arena a).toList.zipIdx := by
    refine List.mergeSort_of_pairwise ?_
    rw [← List.zipIdx_map_fst 0 (d.arena a).toList, List.map_map, List.pairwise_map] at h
    exact h.imp fun hle => decide_eq_true hle
  have hplace := order_getElem?_place hi
  rw [order, hsorted, List.zipIdx_map_snd, Array.length_toList, ← List.range_eq_range',
    List.getElem?_range (place_lt hi)] at hplace
  exact Option.some.inj hplace

/-- Places go by hash, and by position where hashes are equal. -/
theorem place_lt_place_iff {i j : Nat} {r s : Record a} (hr : (d.arena a)[i]? = some r)
    (hs : (d.arena a)[j]? = some s) :
    d.place a i < d.place a j ↔ Before (r, i) (s, j) := by
  refine ⟨before_of_place_lt hr hs, fun h => ?_⟩
  have hi := (Array.getElem?_eq_some_iff.mp hr).1
  have hj := (Array.getElem?_eq_some_iff.mp hs).1
  rcases Nat.lt_trichotomy (d.place a i) (d.place a j) with hlt | heq | hgt
  · exact hlt
  · obtain rfl := place_injective hi hj heq
    rw [hr] at hs
    obtain rfl := Option.some.inj hs
    exact absurd h h.asymm
  · exact absurd h (before_of_place_lt hs hr hgt).asymm

/-- The places as a permutation of the positions. -/
def placement (d : Draft) (a : Arena) : Equiv.Perm (Fin (d.arena a).size) where
  toFun i := ⟨d.place a i, place_lt i.isLt⟩
  invFun j :=
    have hj : j < (d.order a).length := by
      rw [length_order]
      exact j.isLt
    ⟨(d.order a)[j], mem_order.mp (List.getElem_mem hj)⟩
  left_inv i := by
    apply Fin.ext
    exact (List.getElem?_eq_some_iff.mp (order_getElem?_place i.isLt)).2
  right_inv j := by
    apply Fin.ext
    exact (d.nodup_order a).idxOf_getElem _ _

end Draft
end TypeAtlas
