/-
Chains of base classes.

The walk from a class down its bases stops when it comes back to that class or
has passed as many classes as there are.  A cycle that does not lead back to the
class it started from is found by the second test, and also by the first one
from a class on the cycle.
-/
import Mathlib.Data.List.Nodup
import Mathlib.Data.List.Perm.Subperm
import TypeAtlas.Proofs.Check
import TypeAtlas.Proofs.Validity.Passes
import TypeAtlas.Proofs.Validity.WellFormed

namespace TypeAtlas
namespace Image

open Check
open Relation (TransGen ReflTransGen)

variable {img : Image}

/-- Every class that is stated as a base is there. -/
def BasesHold (img : Image) : Prop := ∀ c b, img.Derives c b → img.Holds b

theorem Derives.unique {c b b' : Id .classes} (h : img.Derives c b) (h' : img.Derives c b') :
    b = b' := by
  obtain ⟨r, hr, hb⟩ := h
  obtain ⟨r', hr', hb'⟩ := h'
  rw [hr] at hr'
  obtain rfl := Option.some.inj hr'
  exact Option.some.inj (hb.symm.trans hb')

theorem length_le_of_lt {positions : List Nat} {n : Nat} (hnodup : positions.Nodup)
    (hbound : ∀ i ∈ positions, i < n) : positions.length ≤ n := by
  have hsub : positions ⊆ List.range n := fun i hi => List.mem_range.mpr (hbound i hi)
  have hlen := (hnodup.subperm hsub).length_le
  rwa [List.length_range] at hlen

theorem length_le_of_nodup {a : Arena} {ids : List (Id a)} (hnodup : ids.Nodup)
    (hids : ∀ id ∈ ids, img.Holds id) : ids.length ≤ (img.arena a).size := by
  have hindices : (ids.map Id.index).Nodup :=
    hnodup.map_on fun _ _ _ _ h => Id.eq_of_index_eq h
  have hlen := length_le_of_lt hindices (List.forall_mem_map.mpr hids)
  rwa [List.length_map] at hlen

/-- A walk that has passed distinct classes accepts when no class derives from
itself: the next class is a new one, so there are more classes than were passed. -/
theorem descend_of_acyclic (hbases : img.BasesHold) (hacyclic : ∀ c, ¬ TransGen img.Derives c c)
    {start : Id .classes} {steps : Nat} {next : Option (Id .classes)} (path : List (Id .classes))
    (hstart : start ∈ path) (hsteps : path.length = steps + 1) (hnodup : path.Nodup)
    (hholds : ∀ e ∈ path, img.Holds e)
    (hnext : ∀ b, next = some b → img.Holds b ∧ ∀ e ∈ path, TransGen img.Derives e b) :
    img.descend start.index steps next = .ok () := by
  fun_induction descend img start.index steps next generalizing path with
  | case1 => rfl
  | case2 steps base hstop =>
    obtain ⟨hb, hreach⟩ := hnext base rfl
    have hnew : base ∉ path := fun hmem => hacyclic base (hreach base hmem)
    have hcount : (base :: path).length ≤ (img.arena .classes).size :=
      length_le_of_nodup (List.nodup_cons.mpr ⟨hnew, hnodup⟩) (List.forall_mem_cons.mpr ⟨hb, hholds⟩)
    rw [List.length_cons] at hcount
    rcases hstop with heq | hsize
    · exact absurd (Id.eq_of_index_eq heq ▸ hstart) hnew
    · omega
  | case3 steps base _ ih =>
    obtain ⟨hb, hreach⟩ := hnext base rfl
    have hnew : base ∉ path := fun hmem => hacyclic base (hreach base hmem)
    have hc := getElem?_eq_some_of_holds hb
    rw [lookup_eq_ok_iff.mpr hc]
    refine ih _ (base :: path) (List.mem_cons_of_mem _ hstart) (by simp [hsteps])
      (List.nodup_cons.mpr ⟨hnew, hnodup⟩) (List.forall_mem_cons.mpr ⟨hb, hholds⟩) ?_
    intro b hbase
    have hstep : img.Derives base b := ⟨_, hc, hbase⟩
    refine ⟨hbases base b hstep, fun e he => ?_⟩
    rcases List.mem_cons.mp he with rfl | he
    · exact TransGen.single hstep
    · exact (hreach e he).tail hstep

/-- A walk that accepts does not come from where it leads back to. -/
theorem not_reach_of_descend {start : Id .classes} {steps : Nat} {next : Option (Id .classes)}
    (h : img.descend start.index steps next = .ok ()) :
    ∀ b, next = some b → ¬ ReflTransGen img.Derives b start := by
  fun_induction descend img start.index steps next with
  | case1 =>
    intro _ hb
    cases hb
  | case2 => cases h
  | case3 steps base hgo ih =>
    intro b hb hreach
    obtain rfl := Option.some.inj hb
    obtain ⟨c, hc, hrest⟩ := bind_eq_ok_iff.mp h
    rcases ReflTransGen.cases_head hreach with heq | ⟨b', ⟨r, hr, hbase⟩, hreach'⟩
    · exact hgo (Or.inl (congrArg Id.index heq))
    · rw [lookup_eq_ok_iff.mp hc] at hr
      obtain rfl := Option.some.inj hr
      exact ih c hrest b' hbase hreach'

/-- With every base there, a walk refuses only because of a cycle. -/
theorem descend_error (hbases : img.BasesHold) {index steps : Nat} {next : Option (Id .classes)}
    (hnext : ∀ b, next = some b → img.Holds b) {e : ImageFault}
    (h : img.descend index steps next = .error e) : e = .inheritanceCycle index := by
  fun_induction descend img index steps next with
  | case1 => cases h
  | case2 => exact (Except.error.inj h).symm
  | case3 steps base _ ih =>
    have hc := getElem?_eq_some_of_holds (hnext base rfl)
    rw [lookup_eq_ok_iff.mpr hc] at h
    exact ih _ (fun b hb => hbases base b ⟨_, hc, hb⟩) h

theorem derives_ofIndex (haddr : img.Addressable) {i : Nat} {r : Record .classes}
    (hr : (img.arena .classes)[i]? = some r) {b : Id .classes} (hb : ClassBody.base r.body = some b) :
    img.Derives (.ofIndex i) b := by
  have hi : i < (img.arena .classes).size := (Array.getElem?_eq_some_iff.mp hr).1
  refine ⟨r, ?_, hb⟩
  rw [Id.index_ofIndex (Nat.lt_trans hi (haddr .classes))]
  exact hr

/-! ## The pass -/

theorem checkInheritance_eq_ok_iff (haddr : img.Addressable) (hbases : img.BasesHold) :
    img.checkInheritance = .ok () ↔ ∀ c, ¬ TransGen img.Derives c c := by
  rw [checkInheritance, forM_zipIdx_eq_ok_iff]
  constructor
  · intro h c hcycle
    obtain ⟨b, hstep, hback⟩ := TransGen.head'_iff.mp hcycle
    obtain ⟨r, hr, hbase⟩ := hstep
    exact not_reach_of_descend (h c.index r hr) b hbase hback
  · intro hacyclic i r hr
    have hi : i < (img.arena .classes).size := (Array.getElem?_eq_some_iff.mp hr).1
    have hindex : (Id.ofIndex i : Id .classes).index = i :=
      Id.index_ofIndex (Nat.lt_trans hi (haddr .classes))
    have hstart : img.Holds (Id.ofIndex i : Id .classes) := by
      rw [Holds, hindex]
      exact hi
    have hnext (b : Id .classes) (hb : ClassBody.base r.body = some b) :
        img.Holds b ∧ ∀ e ∈ [Id.ofIndex i], TransGen img.Derives e b := by
      have hstep := derives_ofIndex haddr hr hb
      refine ⟨hbases _ b hstep, fun e he => ?_⟩
      rw [List.mem_singleton.mp he]
      exact TransGen.single hstep
    have hdescend := descend_of_acyclic hbases hacyclic [Id.ofIndex i] List.mem_cons_self rfl
      (List.nodup_singleton _) (by simpa using hstart) hnext
    rwa [hindex] at hdescend

/-- The pass refuses only because of a cycle, and names a class. -/
theorem checkInheritance_error (haddr : img.Addressable) (hbases : img.BasesHold) {e : ImageFault}
    (h : img.checkInheritance = .error e) :
    ∃ i < (img.arena .classes).size, e = .inheritanceCycle i := by
  obtain ⟨⟨r, i⟩, hentry, hdescend⟩ := exists_of_forM_eq_error h
  have hr : (img.arena .classes)[i]? = some r := by
    simpa using List.mem_zipIdx_iff_getElem?.mp hentry
  have hnext (b : Id .classes) (hb : ClassBody.base r.body = some b) : img.Holds b :=
    hbases _ b (derives_ofIndex haddr hr hb)
  exact ⟨i, (Array.getElem?_eq_some_iff.mp hr).1, descend_error hbases hnext hdescend⟩

end Image
end TypeAtlas
