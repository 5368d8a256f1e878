/-
Searches in sorted arrays, as a whole.

A partition point divides the elements that pass a test from those behind them that
fail.  Two of them cut out the run of all elements with one key: the first falls on the
smaller keys, and the second, in what is left, on the equal ones.  A single search ends
inside that run, and the first descent tells whether an array may be searched at all.
-/
import Mathlib.Order.Bounds.Basic
import TypeAtlas.Proofs.Search.Ordered

namespace TypeAtlas
namespace Search

variable {α : Type} {items : Array α} {key : α → UInt32} {hash : UInt32}

/-! ## Partition points -/

/-- No element that passes a test comes after one that fails. -/
def Divided (items : Array α) (p : α → Bool) : Prop :=
  items.toList.Pairwise fun x y => p y → p x

theorem Divided.ordered {p : α → Bool} (h : Divided items p) :
    Ordered items fun x => if p x then .lt else .gt := by
  refine List.Pairwise.imp (fun hpass => ⟨fun hlt => ?_, fun hgt => ?_⟩) h
  · by_contra hx
    simp_all
  · by_contra hy
    simp_all

/-- The elements before the partition point are those that pass. -/
theorem partitionPoint_spec {p : α → Bool} (h : Divided items p) :
    partitionPoint items p ≤ items.size ∧
      ∀ i (hi : i < items.size), i < partitionPoint items p ↔ p items[i] := by
  have hsound := sound_locate h.ordered
  show (Id.run (locate items fun x => pure (if p x then .lt else .gt))).place ≤ _ ∧
    ∀ i (hi : i < items.size),
      i < (Id.run (locate items fun x => pure (if p x then .lt else .gt))).place ↔ _
  cases hhit : Id.run (locate items fun x => pure (if p x then Ordering.lt else .gt)) with
  | found i =>
    -- The test leaves nothing that compares equal.
    rw [hhit] at hsound
    obtain ⟨hi, heq⟩ := hsound
    dsimp only at heq
    split at heq <;> cases heq
  | absent n =>
    rw [hhit] at hsound
    obtain ⟨hn, hsides⟩ := hsound
    refine ⟨hn, fun i hi => ⟨fun hlt => ?_, fun hpass => ?_⟩⟩
    · simpa using (hsides i hi).1 hlt
    · by_contra hge
      have hbehind := (hsides i hi).2 (Nat.le_of_not_lt hge)
      simp [hpass] at hbehind

/-! ## Runs of equal keys -/

/-- A range of positions cuts the elements of one key out of an array: smaller keys come
before it and larger ones behind it.  Without such an element the range is empty. -/
structure CutsOut (items : Array α) (key : α → UInt32) (hash : UInt32) (range : Nat × Nat) :
    Prop where
  le : range.1 ≤ range.2
  inside : range.2 ≤ items.size
  before : ∀ i (hi : i < items.size), i < range.1 ↔ key items[i] < hash
  within : ∀ i (hi : i < items.size), range.1 ≤ i ∧ i < range.2 ↔ key items[i] = hash
  behind : ∀ i (hi : i < items.size), range.2 ≤ i ↔ hash < key items[i]
  empty : (∀ x ∈ items, key x ≠ hash) → range.1 = range.2

theorem divided_lt (h : (items.toList.map key).Pairwise (· ≤ ·)) (hash : UInt32) :
    Divided items fun x => decide (key x < hash) := by
  refine (List.pairwise_map.mp h).imp fun hle hlt => ?_
  rw [decide_eq_true_eq] at hlt ⊢
  exact UInt32.lt_of_le_of_lt hle hlt

/-- Where no key is smaller, the equal ones come first. -/
theorem divided_eq (h : (items.toList.map key).Pairwise (· ≤ ·)) {hash : UInt32}
    (hmin : ∀ x ∈ items, hash ≤ key x) : Divided items fun x => key x == hash := by
  refine (List.pairwise_map.mp h).imp_of_mem fun {x y} hx _ hle heq => ?_
  rw [beq_iff_eq] at heq ⊢
  exact UInt32.le_antisymm (heq ▸ hle) (hmin x (Array.mem_toList_iff.mp hx))

/-- Behind the smaller keys a second partition point falls on the last of the equal ones. -/
theorem equalCount_spec (h : (items.toList.map key).Pairwise (· ≤ ·)) {first : Nat}
    (hfirst : first ≤ items.size)
    (hlt : ∀ i (hi : i < items.size), i < first ↔ key items[i] < hash) :
    first + partitionPoint (items.extract first) (fun x => key x == hash) ≤ items.size ∧
      ∀ i (hi : i < items.size), first ≤ i →
        (i < first + partitionPoint (items.extract first) (fun x => key x == hash) ↔
          key items[i] = hash) := by
  have hrest (j : Nat) (hj : first + j < items.size) : hash ≤ key items[first + j] := by
    rw [← UInt32.not_lt, ← hlt]
    omega
  have hsorted : ((items.extract first).toList.map key).Pairwise (· ≤ ·) := by
    rw [Array.toList_extract, List.extract_eq_take_drop]
    exact h.sublist (((List.take_sublist _ _).trans (List.drop_sublist _ _)).map key)
  have hmin : ∀ x ∈ items.extract first, hash ≤ key x := by
    intro x hx
    obtain ⟨j, hj, rfl⟩ := Array.mem_iff_getElem.mp hx
    rw [Array.size_extract] at hj
    rw [Array.getElem_extract]
    exact hrest j (by omega)
  obtain ⟨hcount, heq⟩ := partitionPoint_spec (divided_eq hsorted hmin)
  generalize (partitionPoint (items.extract first) fun x => key x == hash) = count at hcount heq ⊢
  rw [Array.size_extract] at hcount
  refine ⟨by omega, fun i hi hle => ?_⟩
  have hj : i - first < (items.extract first).size := by
    rw [Array.size_extract]
    omega
  have hequal := heq (i - first) hj
  simp only [Array.getElem_extract, Nat.add_sub_cancel' hle, beq_iff_eq] at hequal
  rw [← hequal]
  omega

theorem equalRange_eq (items : Array α) (key : α → UInt32) (hash : UInt32) :
    equalRange items key hash =
      let first := partitionPoint items fun x => decide (key x < hash)
      (first, first + partitionPoint (items.extract first) fun x => key x == hash) := rfl

theorem cutsOut_equalRange (h : (items.toList.map key).Pairwise (· ≤ ·)) (hash : UInt32) :
    CutsOut items key hash (equalRange items key hash) := by
  rw [equalRange_eq]
  obtain ⟨hfirst, hlt⟩ := partitionPoint_spec (divided_lt h hash)
  generalize (partitionPoint items fun x => decide (key x < hash)) = first at hfirst hlt
  simp only [decide_eq_true_eq] at hlt
  dsimp only
  obtain ⟨hinside, hequal⟩ := equalCount_spec h hfirst hlt
  have hle := Nat.le_add_right first (partitionPoint (items.extract first) fun x => key x == hash)
  generalize first + partitionPoint (items.extract first) (fun x => key x == hash) = last
    at hle hinside hequal ⊢
  have hwithin (i : Nat) (hi : i < items.size) : first ≤ i ∧ i < last ↔ key items[i] = hash := by
    constructor
    · rintro ⟨hfirst, hlast⟩
      exact (hequal i hi hfirst).mp hlast
    · intro hkey
      have hfirst : first ≤ i := by
        rw [← Nat.not_lt, hlt i hi, hkey]
        exact UInt32.lt_irrefl hash
      exact ⟨hfirst, (hequal i hi hfirst).mpr hkey⟩
  refine ⟨hle, hinside, hlt, hwithin, fun i hi => ?_, fun hnone => ?_⟩
  · have hbefore := hlt i hi
    have hat := hwithin i hi
    rw [← UInt32.not_le, UInt32.le_iff_lt_or_eq, ← hbefore, ← hat]
    omega
  · by_contra hne
    have hi : first < items.size := by omega
    exact hnone _ (Array.getElem_mem hi) ((hwithin first hi).mp ⟨Nat.le_refl _, by omega⟩)

/-! ## Descending order -/

/-- Descending keys are ordered by how a hash compares with them. -/
theorem ordered_of_descending (h : (items.toList.map key).Pairwise (· ≥ ·)) (hash : UInt32) :
    Ordered items fun x => compare hash (key x) := by
  refine (List.pairwise_map.mp h).imp fun hge => ⟨fun hlt => ?_, fun hgt => ?_⟩
  · rw [Std.compare_eq_lt] at hlt ⊢
    exact UInt32.lt_of_lt_of_le hlt hge
  · rw [Std.compare_eq_gt] at hgt ⊢
    exact UInt32.lt_of_le_of_lt hge hgt

/-! ## The first descent -/

/-- The key at a position is smaller than the one before. -/
def DescendsAt (keys : List UInt32) (i : Nat) : Prop :=
  ∃ j a b, i = j + 1 ∧ keys[j]? = some a ∧ keys[i]? = some b ∧ b < a

theorem descendsAt_cons {a : UInt32} {keys : List UInt32} {i : Nat} :
    DescendsAt (a :: keys) (i + 2) ↔ DescendsAt keys (i + 1) := by
  simp [DescendsAt]

theorem isLeast_firstDescent {keys : List UInt32} {i : Nat} (h : firstDescent keys = some i) :
    IsLeast {j | DescendsAt keys j} i := by
  fun_induction firstDescent keys generalizing i with
  | case1 a b rest hlt =>
    obtain rfl := Option.some.inj h
    refine ⟨⟨0, a, b, rfl, rfl, rfl, hlt⟩, ?_⟩
    rintro _ ⟨j, _, _, rfl, _⟩
    exact Nat.le_add_left _ _
  | case2 a b rest hge ih =>
    obtain ⟨i, hi, rfl⟩ := Option.map_eq_some_iff.mp h
    obtain ⟨⟨k, c, d, rfl, hcd⟩, hleast⟩ := ih hi
    refine ⟨descendsAt_cons.mpr ⟨k, c, d, rfl, hcd⟩, ?_⟩
    rintro _ ⟨n, c, d, rfl, hn, hd, hlt⟩
    cases n with
    | zero =>
      obtain rfl := Option.some.inj hn
      obtain rfl := Option.some.inj hd
      exact absurd hlt hge
    | succ n => exact Nat.succ_le_succ (hleast ⟨n, c, d, rfl, hn, hd, hlt⟩)
  | case3 => cases h

/-! ## Exactness -/

theorem sorted_of_firstUnsorted (h : firstUnsorted items key = none) :
    (items.toList.map key).Pairwise (· ≤ ·) :=
  firstDescent_eq_none_iff.mp h

/-- A position that a search for a key may answer: the element there has the key, and the
position lies in a range. -/
def HitWithin (items : Array α) (key : α → UInt32) (hash : UInt32) (range : Nat × Nat) (i : Nat) :
    Prop :=
  ∃ h : i < items.size, key items[i] = hash ∧ range.1 ≤ i ∧ i < range.2

theorem hitWithin_of_byKey (h : (items.toList.map key).Pairwise (· ≤ ·)) {i : Nat}
    (hfound : byKey items key hash = some i) :
    HitWithin items key hash (equalRange items key hash) i := by
  obtain ⟨hi, hkey⟩ := key_of_byKey h hfound
  exact ⟨hi, hkey, ((cutsOut_equalRange h hash).within i hi).mpr hkey⟩

/-- Where keys do not descend, a search by key answers a position of the run of that key and
nothing only where the run is empty.  By any order that the elements keep to, descending
ones among them, it answers an element that compares equal exactly if there is one.  Keys
that are reported to descend do so there, and not before. -/
theorem search_exact (items : Array α) (key : α → UInt32) (hash : UInt32) :
    (firstUnsorted items key = none →
      CutsOut items key hash (equalRange items key hash) ∧
      (∀ i, byKey items key hash = some i →
        HitWithin items key hash (equalRange items key hash) i) ∧
      (byKey items key hash = none → ∀ x ∈ items, key x ≠ hash)) ∧
    (∀ cmp : α → Ordering, Ordered items cmp →
      (∀ i, byOrder items cmp = some i → ∃ h : i < items.size, cmp items[i] = .eq) ∧
      ((byOrder items cmp).isSome ↔ ∃ x ∈ items, cmp x = .eq)) ∧
    ((items.toList.map key).Pairwise (· ≥ ·) → Ordered items fun x => compare hash (key x)) ∧
    ∀ i, firstUnsorted items key = some i → IsLeast {j | DescendsAt (items.toList.map key) j} i := by
  refine ⟨fun hnone => ?_, fun cmp hcmp => ?_, fun h => ordered_of_descending h hash, ?_⟩
  · have hsorted := sorted_of_firstUnsorted hnone
    refine ⟨cutsOut_equalRange hsorted hash, fun i => hitWithin_of_byKey hsorted, fun hfound => ?_⟩
    have habsent := isSome_byKey_iff hsorted hash
    rw [hfound] at habsent
    exact fun x hx hkey => absurd (habsent.mpr ⟨x, hx, hkey⟩) Bool.false_ne_true
  · exact ⟨fun i => eq_of_byOrder hcmp, isSome_byOrder_iff hcmp⟩
  · exact fun i => isLeast_firstDescent

/-- A repeated key, a descending order and a descent. -/
theorem search_exact_repeated :
    (CutsOut #[1, 3, 3, 7] id 3 (equalRange #[1, 3, 3, 7] id 3) ∧
      (byKey #[1, 3, 3, 7] id 3).isSome) ∧
    (byOrder #[7, 3, 1] fun x : UInt32 => compare 3 (id x)).isSome ∧
    IsLeast {j | DescendsAt [9, 9, 3, 1] j} 2 := by
  have hsorted : firstUnsorted #[1, 3, 3, 7] id = none := by decide
  have hdescent : firstUnsorted #[9, 9, 3, 1] id = some 2 := by decide
  obtain ⟨hcuts, _, hnone⟩ := (search_exact #[1, 3, 3, 7] id 3).1 hsorted
  obtain ⟨_, horder, hdescending, _⟩ := search_exact #[7, 3, 1] id 3
  refine ⟨⟨hcuts, ?_⟩, ?_, (search_exact #[9, 9, 3, 1] id 3).2.2.2 2 hdescent⟩
  · by_contra hmissing
    exact hnone (Option.not_isSome_iff_eq_none.mp hmissing) 3 (by simp) rfl
  · exact (horder _ (hdescending (by decide))).2.mpr ⟨3, by simp, by decide⟩

end Search
end TypeAtlas
