/-
When a sequence of checks accepts.

A check answers in `Except`.  A sequence accepts exactly when each of its parts
does, so that acceptance of a whole pass over a list is a statement about every
element.  What it can be refused for is what its parts can be, and `Raises` says
so part by part.
-/
import Mathlib.Data.List.Forall2
import TypeAtlas.Image.Validity

namespace TypeAtlas
namespace Check

variable {ε α β : Type}

/-- A sequence of two accepts exactly when both do. -/
theorem bind_eq_ok_iff {x : Except ε α} {f : α → Except ε β} {b : β} :
    (x >>= f) = .ok b ↔ ∃ a, x = .ok a ∧ f a = .ok b := by
  cases x with
  | error e => simp [bind, Except.bind]
  | ok a => simp [bind, Except.bind]

theorem bind_eq_error {x : Except ε α} {f : α → Except ε β} {e : ε} (h : x = .error e) :
    (x >>= f) = .error e := by
  rw [h]
  rfl

theorem bind_eq_error_iff {x : Except ε α} {f : α → Except ε β} {e : ε} :
    (x >>= f) = .error e ↔ x = .error e ∨ ∃ a, x = .ok a ∧ f a = .error e := by
  cases x <;> simp [bind, Except.bind]

theorem bind_eq_error_of_ok {x : Except ε α} {f : α → Except ε β} {a : α} {e : ε}
    (hx : x = .ok a) (h : f a = .error e) : (x >>= f) = .error e := by
  rw [hx]
  exact h

theorem mapError_eq_ok_iff {ε' : Type} {x : Except ε α} {f : ε → ε'} {a : α} :
    x.mapError f = .ok a ↔ x = .ok a := by
  cases x with
  | error e => exact iff_of_false (fun h => by cases h) (fun h => by cases h)
  | ok b => simp [Except.mapError]

theorem map_eq_ok_iff {x : Except ε α} {f : α → β} {b : β} :
    x.map f = .ok b ↔ ∃ a, x = .ok a ∧ f a = b := by
  cases x <;> simp [Except.map]

theorem map_eq_error_iff {x : Except ε α} {f : α → β} {e : ε} :
    x.map f = .error e ↔ x = .error e := by
  cases x <;> simp [Except.map]

/-- `bind_eq_ok_iff` where the first part answers nothing. -/
theorem then_eq_ok_iff {x : Except ε Unit} {f : Unit → Except ε β} {b : β} :
    (x >>= f) = .ok b ↔ x = .ok () ∧ f () = .ok b := by
  rw [bind_eq_ok_iff]
  constructor
  · rintro ⟨_, hx, hf⟩
    exact ⟨hx, hf⟩
  · rintro ⟨hx, hf⟩
    exact ⟨(), hx, hf⟩

theorem discard_eq_ok_iff {x : Except ε α} :
    (do let _ ← x : Except ε Unit) = .ok () ↔ ∃ a, x = .ok a := by
  rw [bind_eq_ok_iff]
  constructor
  · rintro ⟨a, hx, _⟩
    exact ⟨a, hx⟩
  · rintro ⟨a, hx⟩
    exact ⟨a, hx, rfl⟩

theorem discard_eq_error_iff {x : Except ε α} {e : ε} :
    (do let _ ← x : Except ε Unit) = .error e ↔ x = .error e := by
  cases x with
  | error e' => simp [bind, Except.bind]
  | ok a => exact iff_of_false (fun h => by cases h) (fun h => by cases h)

theorem forM_eq_ok_iff {xs : List α} {f : α → Except ε Unit} :
    xs.forM f = .ok () ↔ ∀ x ∈ xs, f x = .ok () := by
  induction xs with
  | nil => exact ⟨fun _ _ hx => absurd hx List.not_mem_nil, fun _ => rfl⟩
  | cons x xs ih =>
    show (f x >>= fun _ => xs.forM f) = .ok () ↔ _
    rw [then_eq_ok_iff, ih, List.forall_mem_cons]

/-- A pass is refused by its first element that is not accepted. -/
theorem exists_first_of_forM_eq_error {xs : List α} {f : α → Except ε Unit} {e : ε}
    (h : xs.forM f = .error e) :
    ∃ (n : Nat) (x : α), xs[n]? = some x ∧ f x = .error e ∧
      ∀ m < n, ∀ y, xs[m]? = some y → f y = .ok () := by
  induction xs with
  | nil => cases h
  | cons x xs ih =>
    have h : (f x >>= fun _ => xs.forM f) = .error e := h
    cases hx : f x with
    | error e' =>
      rw [hx] at h
      exact ⟨0, x, rfl, hx.trans h, fun m hm => absurd hm (Nat.not_lt_zero m)⟩
    | ok u =>
      rw [hx] at h
      obtain ⟨n, y, hy, hfy, hfirst⟩ := ih h
      refine ⟨n + 1, y, hy, hfy, fun m hm z hz => ?_⟩
      cases m with
      | zero =>
        obtain rfl := Option.some.inj hz
        exact hx
      | succ m => exact hfirst m (Nat.lt_of_succ_lt_succ hm) z hz

/-- A refusal of a pass is that of an element. -/
theorem exists_of_forM_eq_error {xs : List α} {f : α → Except ε Unit} {e : ε}
    (h : xs.forM f = .error e) : ∃ x ∈ xs, f x = .error e := by
  obtain ⟨n, x, hx, hrefused, _⟩ := exists_first_of_forM_eq_error h
  exact ⟨x, List.mem_of_getElem? hx, hrefused⟩

/-- A fold is refused by an element, after those before it were accepted. -/
theorem exists_of_foldlM_eq_error {xs : List α} {f : β → α → Except ε β} {b : β} {e : ε}
    (h : xs.foldlM f b = .error e) :
    ∃ before x after b', xs = before ++ x :: after ∧ before.foldlM f b = .ok b' ∧
      f b' x = .error e := by
  induction xs generalizing b with
  | nil => cases h
  | cons x xs ih =>
    rw [List.foldlM_cons] at h
    cases hx : f b x with
    | error e' =>
      rw [hx] at h
      exact ⟨[], x, xs, b, rfl, rfl, hx.trans h⟩
    | ok b₁ =>
      rw [hx] at h
      obtain ⟨before, y, after, b', rfl, hbefore, hy⟩ := ih h
      refine ⟨x :: before, y, after, b', rfl, ?_, hy⟩
      rw [List.foldlM_cons, hx]
      exact hbefore

/-- The answers of a pass are those of its elements in turn. -/
theorem mapM_eq_ok_iff {xs : List α} {f : α → Except ε β} {ys : List β} :
    xs.mapM f = .ok ys ↔ List.Forall₂ (fun x y => f x = .ok y) xs ys := by
  induction xs generalizing ys with
  | nil =>
    rw [List.mapM_nil, List.forall₂_nil_left_iff]
    exact ⟨fun h => (Except.ok.inj h).symm, fun h => h ▸ rfl⟩
  | cons x xs ih =>
    rw [List.mapM_cons, bind_eq_ok_iff, List.forall₂_cons_left_iff]
    constructor
    · rintro ⟨y, hy, h⟩
      obtain ⟨zs, hzs, h⟩ := bind_eq_ok_iff.mp h
      exact ⟨y, zs, hy, ih.mp hzs, (Except.ok.inj h).symm⟩
    · rintro ⟨y, zs, hy, hzs, hys⟩
      subst hys
      exact ⟨y, hy, bind_eq_ok_iff.mpr ⟨zs, ih.mpr hzs, rfl⟩⟩

theorem exists_mapM_eq_ok {xs : List α} {f : α → Except ε β} (h : ∀ x ∈ xs, ∃ y, f x = .ok y) :
    ∃ ys, xs.mapM f = .ok ys := by
  simp only [mapM_eq_ok_iff]
  induction xs with
  | nil => exact ⟨[], .nil⟩
  | cons x xs ih =>
    obtain ⟨y, hy⟩ := h x List.mem_cons_self
    obtain ⟨ys, hys⟩ := ih fun z hz => h z (List.mem_cons_of_mem x hz)
    exact ⟨y :: ys, .cons hy hys⟩

theorem exists_of_mem_mapM {xs : List α} {f : α → Except ε β} {ys : List β}
    (h : xs.mapM f = .ok ys) {y : β} (hy : y ∈ ys) : ∃ x ∈ xs, f x = .ok y := by
  rw [mapM_eq_ok_iff] at h
  induction h with
  | nil => exact absurd hy List.not_mem_nil
  | @cons x y' xs ys hxy _ ih =>
    rcases List.mem_cons.mp hy with rfl | hy
    · exact ⟨x, List.mem_cons_self, hxy⟩
    · obtain ⟨z, hz, hzy⟩ := ih hy
      exact ⟨z, List.mem_cons_of_mem x hz, hzy⟩

/-- Nothing is left out of the answers of a pass. -/
theorem mem_mapM_iff {xs : List α} {f : α → Except ε β} {ys : List β} (h : xs.mapM f = .ok ys)
    {y : β} : y ∈ ys ↔ ∃ x ∈ xs, f x = .ok y := by
  refine ⟨exists_of_mem_mapM h, ?_⟩
  rintro ⟨x, hx, hxy⟩
  rw [mapM_eq_ok_iff] at h
  induction h with
  | nil => exact absurd hx List.not_mem_nil
  | @cons x' y' xs ys hxy' _ ih =>
    rcases List.mem_cons.mp hx with rfl | hx
    · rw [Except.ok.inj (hxy.symm.trans hxy')]
      exact List.mem_cons_self
    · exact List.mem_cons_of_mem y' (ih hx)

/-- Where a pass has an answer, each of its positions has. -/
theorem mapM_getElem? {xs : List α} {f : α → Except ε β} {ys : List β} (h : xs.mapM f = .ok ys)
    (i : Nat) : xs[i]?.mapM f = .ok ys[i]? := by
  rw [mapM_eq_ok_iff] at h
  induction h generalizing i with
  | nil => rfl
  | @cons x y xs ys hxy _ ih =>
    cases i with
    | zero =>
      show (f x >>= fun z => pure (some z)) = _
      rw [hxy]
      rfl
    | succ i => exact ih i

/-- A pass whose elements all answer as a function says answers its map. -/
theorem mapM_eq_ok_map {xs : List α} {f : α → Except ε β} {g : α → β}
    (h : ∀ x ∈ xs, f x = .ok (g x)) : xs.mapM f = .ok (xs.map g) := by
  rw [mapM_eq_ok_iff, List.forall₂_map_right_iff, List.forall₂_same]
  exact h

/-- A pass that accepts elements with a property and answers a value of each. -/
theorem mapM_eq_ok_iff_filterMap {xs : List α} {f : α → Except ε β} {g : α → Option β}
    {p : α → Prop} (hf : ∀ x y, f x = .ok y ↔ p x ∧ g x = some y) (hp : ∀ x, p x → (g x).isSome)
    {ys : List β} : xs.mapM f = .ok ys ↔ (∀ x ∈ xs, p x) ∧ ys = xs.filterMap g := by
  rw [mapM_eq_ok_iff]
  induction xs generalizing ys with
  | nil => simp
  | cons x xs ih =>
    rw [List.forall₂_cons_left_iff, List.forall_mem_cons]
    constructor
    · rintro ⟨y, zs, hy, hzs, hys⟩
      obtain ⟨hx, hg⟩ := (hf x y).mp hy
      obtain ⟨hxs, rfl⟩ := ih.mp hzs
      exact ⟨⟨hx, hxs⟩, hys.trans (List.filterMap_cons_some hg).symm⟩
    · rintro ⟨⟨hx, hxs⟩, hys⟩
      subst hys
      obtain ⟨y, hg⟩ := Option.isSome_iff_exists.mp (hp x hx)
      exact ⟨y, _, (hf x y).mpr ⟨hx, hg⟩, ih.mpr ⟨hxs, rfl⟩, List.filterMap_cons_some hg⟩

theorem ensure_eq_ok_iff {p : Bool} {fault : ImageFault} :
    Image.ensure p fault = .ok () ↔ p = true := by
  cases p <;> simp [Image.ensure]

/-! ## Faults that a check can raise -/

variable {P : ε → Prop}

/-- A check fails only with such faults. -/
def Raises (P : ε → Prop) (x : Except ε α) : Prop := ∀ e, x = .error e → P e

theorem raises_ok {a : α} : Raises P (.ok a) := by
  intro e h
  cases h

theorem raises_error {e : ε} (h : P e) : Raises P (.error e : Except ε α) := by
  intro e' he
  exact Except.error.inj he ▸ h

theorem Raises.bind {x : Except ε α} {f : α → Except ε β} (hx : Raises P x)
    (hf : ∀ a, Raises P (f a)) : Raises P (x >>= f) := by
  intro e h
  cases x with
  | error e' =>
    obtain rfl : e' = e := Except.error.inj h
    exact hx e' rfl
  | ok a => exact hf a e h

theorem raises_forM {xs : List α} {f : α → Except ε Unit} (h : ∀ x, Raises P (f x)) :
    Raises P (xs.forM f) := by
  induction xs with
  | nil => exact raises_ok
  | cons x xs ih => exact (h x).bind fun _ => ih

theorem raises_mapM {xs : List α} {f : α → Except ε β} (h : ∀ x, Raises P (f x)) :
    Raises P (xs.mapM f) := by
  induction xs with
  | nil => exact raises_ok
  | cons x xs ih =>
    rw [List.mapM_cons]
    exact (h x).bind fun _ => ih.bind fun _ => raises_ok

theorem raises_foldlM {xs : List α} {f : β → α → Except ε β} (h : ∀ b x, Raises P (f b x))
    (b : β) : Raises P (xs.foldlM f b) := by
  induction xs generalizing b with
  | nil => exact raises_ok
  | cons x xs ih =>
    rw [List.foldlM_cons]
    exact (h b x).bind ih

theorem raises_ensure {P : ImageFault → Prop} {p : Bool} {fault : ImageFault} (h : P fault) :
    Raises P (Image.ensure p fault) := by
  rw [Image.ensure]
  split
  · exact raises_ok
  · exact raises_error h

/-- A fault that the first of two checks does not raise is the second one's. -/
theorem Raises.pass {x : Except ε α} {f : α → Except ε β} {e : ε} (hx : Raises P x)
    (he : ¬ P e) (h : (x >>= f) = .error e) : ∃ a, x = .ok a ∧ f a = .error e := by
  cases x with
  | error e' =>
    obtain rfl : e' = e := Except.error.inj h
    exact absurd (hx e' rfl) he
  | ok a => exact ⟨a, rfl, h⟩

end Check

namespace Search

/-- There is no descent exactly when the keys ascend. -/
theorem firstDescent_eq_none_iff {keys : List UInt32} :
    firstDescent keys = none ↔ keys.Pairwise (· ≤ ·) := by
  induction keys with
  | nil => simp [firstDescent]
  | cons a keys ih =>
    cases keys with
    | nil => simp [firstDescent]
    | cons b rest =>
      rw [firstDescent]
      by_cases hba : b < a
      · rw [if_pos hba]
        refine ⟨fun h => by simp at h, fun h => ?_⟩
        have hab : a ≤ b := List.rel_of_pairwise_cons h List.mem_cons_self
        exact absurd hba (UInt32.not_lt.mpr hab)
      · rw [if_neg hba, Option.map_eq_none_iff, ih]
        refine ⟨fun h => ?_, fun h => List.Pairwise.of_cons h⟩
        have hab : a ≤ b := UInt32.not_lt.mp hba
        refine List.pairwise_cons.mpr ⟨fun c hc => ?_, h⟩
        rcases List.mem_cons.mp hc with rfl | hc
        · exact hab
        · exact UInt32.le_trans hab (List.rel_of_pairwise_cons h hc)

end Search

theorem Check.ensureSorted_eq_ok_iff {array : SortedArray} {keys : List UInt32} :
    Image.ensureSorted array keys = .ok () ↔ keys.Pairwise (· ≤ ·) := by
  rw [Image.ensureSorted, ← Search.firstDescent_eq_none_iff]
  cases Search.firstDescent keys <;> simp

end TypeAtlas
