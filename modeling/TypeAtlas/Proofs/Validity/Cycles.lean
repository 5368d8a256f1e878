/-
Which class a cycle is reported of.

A class runs into a cycle when its bases come to a class that derives from itself.  It may
lie on that cycle or only lead there, and the walk down its bases is refused in both cases:
coming back to where it started in the one, and having passed too many classes in the
other.  So the report names the first class that runs into a cycle.
-/
import Mathlib.Order.Bounds.Basic
import TypeAtlas.Proofs.Validity.Acceptance

namespace TypeAtlas
namespace Image

open Check
open Relation (TransGen ReflTransGen)

variable {img : Image} {index steps i : Nat} {next : Option (Id .classes)}

/-- The class at a position comes back to itself by its bases. -/
def OnCycle (img : Image) (i : Nat) : Prop :=
  ∃ c : Id .classes, c.index = i ∧ TransGen img.Derives c c

/-- Bases lead from here to a class that comes back to itself. -/
def Circles (img : Image) (b : Id .classes) : Prop :=
  ∃ c, ReflTransGen img.Derives b c ∧ TransGen img.Derives c c

/-- The bases of the class at a position lead to one that comes back to itself. -/
def RunsIntoCycle (img : Image) (i : Nat) : Prop :=
  ∃ r b, (img.arena .classes)[i]? = some r ∧ ClassBody.base r.body = some b ∧ img.Circles b

/-! ## The walk -/

theorem circles_of_cycle {b : Id .classes} (h : TransGen img.Derives b b) : img.Circles b :=
  ⟨b, .refl, h⟩

theorem OnCycle.runsInto (h : img.OnCycle i) : img.RunsIntoCycle i := by
  obtain ⟨c, rfl, hcycle⟩ := h
  obtain ⟨b, hstep, hback⟩ := TransGen.head'_iff.mp hcycle
  obtain ⟨r, hr, hbase⟩ := hstep
  exact ⟨r, b, hr, hbase, c, hback, hcycle⟩

/-- What leads to a cycle has a base that does. -/
theorem Circles.base {b : Id .classes} (h : img.Circles b) :
    ∃ b', img.Derives b b' ∧ img.Circles b' := by
  obtain ⟨c, hreach, hcycle⟩ := h
  rcases ReflTransGen.cases_head hreach with rfl | ⟨b', hstep, hreach'⟩
  · obtain ⟨b', hstep, hback⟩ := TransGen.head'_iff.mp hcycle
    exact ⟨b', hstep, b, hback, hcycle⟩
  · exact ⟨b', hstep, c, hreach', hcycle⟩

/-- A walk that accepts comes to an end. -/
theorem not_circles_of_descend (h : img.descend index steps next = .ok ()) :
    ∀ b, next = some b → ¬ img.Circles b := by
  fun_induction descend img index steps next with
  | case1 =>
    intro _ hb
    cases hb
  | case2 => cases h
  | case3 steps base _ ih =>
    intro b hb hcircles
    obtain rfl := Option.some.inj hb
    obtain ⟨c, hc, hrest⟩ := bind_eq_ok_iff.mp h
    obtain ⟨b', ⟨r, hr, hbase⟩, hcircles'⟩ := hcircles.base
    rw [lookup_eq_ok_iff.mp hc] at hr
    obtain rfl := Option.some.inj hr
    exact ih c hrest b' hbase hcircles'

/-- A fault that is no cycle of bases. -/
def NoCycle (e : ImageFault) : Prop := ∀ i, e ≠ .inheritanceCycle i

theorem not_noCycle (i : Nat) : ¬ NoCycle (.inheritanceCycle i) := fun h => h i rfl

theorem raises_lookup {a : Arena} {id : Id a} : Raises NoCycle (img.lookup id) := by
  rw [lookup]
  split
  · exact raises_ok
  · exact raises_error fun _ h => by cases h

/-- A walk reports the class it started from. -/
theorem eq_of_descend_cycle (h : img.descend index steps next = .error (.inheritanceCycle i)) :
    i = index := by
  fun_induction descend img index steps next with
  | case1 => cases h
  | case2 =>
    cases h
    rfl
  | case3 steps base _ ih =>
    obtain ⟨c, _, hrest⟩ := raises_lookup.pass (not_noCycle i) h
    exact ih c hrest

/-- A walk that reports a cycle has come to a class it had passed.  If it stops where it
started, that class is the first one. -/
theorem circles_of_descend (passed : List Nat) (hstart : index ∈ passed)
    (hsteps : passed.length = steps + 1) (hnodup : passed.Nodup)
    (hbound : ∀ j ∈ passed, j < (img.arena .classes).size)
    (hreach : ∀ c : Id .classes, c.index ∈ passed → ∀ b, next = some b → TransGen img.Derives c b)
    (h : img.descend index steps next = .error (.inheritanceCycle i)) :
    ∃ b, next = some b ∧ img.Circles b := by
  fun_induction descend img index steps next generalizing passed with
  | case1 => cases h
  | case2 steps base hstop =>
    refine ⟨base, rfl, ?_⟩
    rcases hstop with heq | hsize
    · exact circles_of_cycle (hreach base (heq ▸ hstart) base rfl)
    · have hlength := length_le_of_lt hnodup hbound
      omega
  | case3 steps base _ ih =>
    refine ⟨base, rfl, ?_⟩
    obtain ⟨r, hr, hrest⟩ := raises_lookup.pass (not_noCycle i) h
    rw [lookup_eq_ok_iff] at hr
    by_cases hpassed : base.index ∈ passed
    · exact circles_of_cycle (hreach base hpassed base rfl)
    · have hbound' : ∀ j ∈ base.index :: passed, j < (img.arena .classes).size :=
        List.forall_mem_cons.mpr ⟨holds_of_getElem? hr, hbound⟩
      have hreach' (c : Id .classes) (hc : c.index ∈ base.index :: passed) (b : Id .classes)
          (hb : ClassBody.base r.body = some b) : TransGen img.Derives c b := by
        have hstep : img.Derives base b := ⟨r, hr, hb⟩
        rcases List.mem_cons.mp hc with heq | hc
        · rw [Id.eq_of_index_eq heq]
          exact .single hstep
        · exact (hreach c hc base rfl).tail hstep
      obtain ⟨b, hb, c, hback, hcycle⟩ := ih r (base.index :: passed)
        (List.mem_cons_of_mem _ hstart) (congrArg (· + 1) hsteps)
        (List.nodup_cons.mpr ⟨hpassed, hnodup⟩) hbound' hreach' hrest
      exact ⟨c, .head ⟨r, hr, hb⟩ hback, hcycle⟩

/-! ## The pass -/

/-- The pass reports the first class that runs into a cycle. -/
theorem least_of_checkInheritance (h : img.checkInheritance = .error (.inheritanceCycle i)) :
    IsLeast {j | img.RunsIntoCycle j} i := by
  obtain ⟨n, entry, hentry, hrefused, hfirst⟩ := exists_first_of_forM_eq_error h
  obtain ⟨r, j⟩ := entry
  obtain ⟨hr, rfl⟩ : (img.arena .classes)[n]? = some r ∧ n = j := by
    rw [List.getElem?_zipIdx] at hentry
    simpa using hentry
  obtain rfl := eq_of_descend_cycle hrefused
  constructor
  · have hi : i < (img.arena .classes).size := (Array.getElem?_eq_some_iff.mp hr).1
    obtain ⟨b, hb, hcircles⟩ := circles_of_descend [i] List.mem_cons_self rfl
      (List.nodup_singleton i) (by simpa using hi)
      (fun c hc b hb => .single ⟨r, List.mem_singleton.mp hc ▸ hr, hb⟩) hrefused
    exact ⟨r, b, hr, hb, hcircles⟩
  · rintro j ⟨s, b, hs, hb, hcircles⟩
    by_contra hbefore
    have haccepted : img.descend j 0 (ClassBody.base s.body) = .ok () := by
      refine hfirst j (Nat.lt_of_not_le hbefore) (s, j) ?_
      rw [List.getElem?_zipIdx]
      simpa using hs
    exact not_circles_of_descend haccepted b hb hcircles

/-! ## The other passes -/

theorem raises_ensureSorted {array : SortedArray} {keys : List UInt32} :
    Raises NoCycle (ensureSorted array keys) := by
  rw [ensureSorted]
  split
  · exact raises_ok
  · exact raises_error fun _ h => by cases h

theorem raises_checkProfile : Raises NoCycle img.checkProfile := by
  rw [checkProfile]
  split
  · exact raises_error fun _ h => by cases h
  · exact raises_ok

theorem raises_checkRoot : Raises NoCycle img.checkRoot :=
  raises_ensure fun _ h => by cases h

theorem raises_checkText {kind : Kind} {span : TextSpan} {blob : String} :
    Raises NoCycle (checkText kind span blob) :=
  raises_ensure fun _ h => by cases h

theorem raises_checkOwnerId {d : DeclId} : Raises NoCycle (img.checkOwnerId d) := by
  rw [checkOwnerId]
  split
  · exact raises_ok
  · exact raises_lookup.bind fun _ => raises_ok

theorem raises_checkHeader {header : Header} : Raises NoCycle (img.checkHeader header i) := by
  rw [checkHeader]
  split
  · exact raises_error fun _ h => by cases h
  · exact raises_checkOwnerId.bind fun _ =>
      (raises_ensure fun _ h => by cases h).bind fun _ => raises_checkText

theorem raises_checkValue {a : Arena} {r : Record a} : Raises NoCycle (img.checkValue r) := by
  cases a with
  | decl k => exact raises_ok
  | attributes =>
    rw [checkValue]
    split
    · exact raises_checkText
    · exact raises_checkText
    · exact raises_ok

theorem raises_checkArena (a : Arena) : Raises NoCycle (img.checkArena a) := by
  refine (raises_forM fun entry => ?_).bind fun _ => raises_ensureSorted
  exact raises_checkValue.bind fun _ =>
    (raises_ensure fun _ h => by cases h).bind fun _ => raises_checkHeader

theorem raises_checkMember {owner : DeclId} {b : Arena} (id : Id b) :
    Raises NoCycle (img.checkMember owner id) :=
  raises_lookup.bind fun _ => (raises_ensure fun _ h => by cases h).bind fun _ => raises_ok

theorem raises_checkList {owner : DeclId} {b : Arena} {list : IdList b} :
    Raises NoCycle (img.checkList owner list) := by
  rw [checkList]
  split
  · exact raises_error fun _ h => by cases h
  · exact (raises_mapM raises_checkMember).bind fun _ => raises_ensureSorted

theorem raises_checkReturn {owner : DeclId} {a : Arena} {r : Record a} :
    Raises NoCycle (img.checkReturn owner r) := by
  unfold checkReturn
  split
  · split
    · exact raises_ok
    · exact raises_lookup.bind fun _ => raises_ensure fun _ h => by cases h
  · exact raises_ok

theorem raises_checkMembers {owner : DeclId} {r : Record owner.arena} :
    Raises NoCycle (img.checkMembers owner r) :=
  (raises_forM fun _ => raises_lookup.bind fun _ => raises_ok).bind fun _ =>
    (raises_forM fun _ => raises_checkList).bind fun _ => raises_checkReturn

theorem raises_checkMembersOf (k : DeclKind) : Raises NoCycle (img.checkMembersOf k) :=
  raises_forM fun _ => raises_checkMembers

theorem raises_checkChains : Raises NoCycle img.checkChains := by
  refine (raises_foldlM (fun rooted d => ?_) _).bind fun _ => raises_ok
  rw [checkChain]
  split
  · split
    · exact raises_ok
    · exact raises_error fun _ h => by cases h
  · exact raises_error fun _ h => by cases h

theorem raises_checkTypeIndex : Raises NoCycle img.checkTypeIndex :=
  (raises_mapM fun _ => raises_lookup.bind fun _ => raises_ok).bind fun _ => raises_ensureSorted

theorem raises_checkNames : Raises NoCycle img.checkNames :=
  (raises_forM fun _ => raises_checkText).bind fun _ => raises_ensureSorted

/-- A cycle that validation reports is one that the pass over bases reports. -/
theorem checkInheritance_of_validate (h : img.validate = .error (.inheritanceCycle i)) :
    img.checkInheritance = .error (.inheritanceCycle i) := by
  have hcycle := not_noCycle i
  obtain ⟨_, _, h⟩ := raises_checkProfile.pass hcycle h
  obtain ⟨_, _, h⟩ := raises_checkRoot.pass hcycle h
  obtain ⟨_, _, h⟩ := (raises_forM raises_checkArena).pass hcycle h
  obtain ⟨_, _, h⟩ := (raises_checkMembersOf .nameSpace).pass hcycle h
  obtain ⟨_, _, h⟩ := raises_checkMembers.pass hcycle h
  obtain ⟨_, _, h⟩ := (raises_forM raises_checkMembersOf).pass hcycle h
  obtain ⟨_, _, h⟩ := raises_checkChains.pass hcycle h
  cases hbases : img.checkInheritance with
  | error e =>
    rw [hbases] at h
    exact h
  | ok =>
    rw [hbases] at h
    obtain ⟨_, _, h⟩ := raises_checkTypeIndex.pass hcycle h
    exact absurd (raises_checkNames _ h) hcycle

/-- A cycle is reported of the first class that runs into one. -/
theorem least_of_validate (h : img.validate = .error (.inheritanceCycle i)) :
    IsLeast {j | img.RunsIntoCycle j} i :=
  least_of_checkInheritance (checkInheritance_of_validate h)

/-- Where nothing else is wrong, that is when a cycle is reported. -/
theorem Regular.reports_cycle_iff (h : img.Regular) (haddr : img.Addressable) :
    img.validate = .error (.inheritanceCycle i) ↔ IsLeast {j | img.RunsIntoCycle j} i := by
  refine ⟨least_of_validate, fun hleast => ?_⟩
  have hvalidate := h.validate_eq
  rw [hvalidate]
  cases hpass : img.checkInheritance with
  | error e =>
    obtain ⟨j, _, rfl⟩ := checkInheritance_error haddr h.basesHold hpass
    rw [(least_of_checkInheritance hpass).unique hleast]
  | ok =>
    obtain ⟨r, b, hr, hb, hcircles⟩ := hleast.1
    rw [checkInheritance, forM_zipIdx_eq_ok_iff] at hpass
    exact absurd hcircles (not_circles_of_descend (hpass i r hr) b hb)

end Image
end TypeAtlas
