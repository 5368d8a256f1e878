/-
Cycles that building reports.

A report names the first class of the image that runs into a cycle.  The order of classes
is that of their name hashes and has nothing to do with who derives from whom, so the first
class may lead to a cycle that it is not on itself.
-/
import TypeAtlas.Proofs.Build.Outcome
import TypeAtlas.Proofs.Validity.Cycles

namespace TypeAtlas

open Relation (TransGen)

namespace Image

variable {img : Image} {i : Nat}

/-- A class that runs into a cycle, as no class before it does.  It lies on a cycle exactly if
no class leads to one without a class on a cycle at its position or before. -/
structure ReportsFirst (img : Image) (i : Nat) : Prop where
  least : IsLeast {j | img.RunsIntoCycle j} i
  onCycle_iff : img.OnCycle i ↔ ∀ j, img.RunsIntoCycle j → ∃ k ≤ j, img.OnCycle k

theorem reportsFirst_of_least (h : IsLeast {j | img.RunsIntoCycle j} i) : img.ReportsFirst i := by
  refine ⟨h, fun hon j hruns => ⟨i, h.2 hruns, hon⟩, fun hfirst => ?_⟩
  obtain ⟨k, hk, hon⟩ := hfirst i h.1
  rwa [Nat.le_antisymm hk (h.2 hon.runsInto)] at hon

end Image

namespace Draft

variable {d : Draft} {account : Option Account} {bank : Bank}

theorem validate_of_invalid {fault : ImageFault}
    (h : (d.build account bank).1 = .error (.fault (.invalid fault))) :
    d.image.validate = .error fault := by
  have hbuild : d.build account bank =
      (.error (.fault (.invalid fault)), (d.build account bank).2) := Prod.ext h rfl
  rcases build_eq_error_iff.mp hbuild with
    ⟨refusal, _, hstop⟩ | ⟨held, full, e, hheld, hinvalid, hstop, _⟩
  · cases refusal <;> cases hstop
  · cases hstop
    rw [← Image.image_of_hold (congrArg Prod.fst hheld)]
    exact hinvalid

/-- Whether an image is validated or a draft is built, a cycle is reported of the first class
that runs into one. -/
theorem cycle_reports (img : Image) (i : Nat)
    (h : img.validate = .error (.inheritanceCycle i) ∨
      ∃ (d : Draft) (account : Option Account) (bank : Bank), d.image = img ∧
        (d.build account bank).1 = .error (.fault (.invalid (.inheritanceCycle i)))) :
    img.ReportsFirst i := by
  apply Image.reportsFirst_of_least
  obtain hinvalid | ⟨d, account, bank, rfl, hfailed⟩ := h
  · exact Image.least_of_validate hinvalid
  · exact Image.least_of_validate (validate_of_invalid hfailed)

/-- A draft in which the first class runs into a cycle reports that class. -/
theorem build_reports_zero {p : Profile} {calls : List Call}
    (hcounts : ∀ a, ((made p calls).arena a).size < UInt32.size)
    (hruns : (made p calls).image.RunsIntoCycle 0) (bank : Bank) :
    ((made p calls).build none bank).1 = .error (.fault (.invalid (.inheritanceCycle 0))) := by
  have hregular := (sound_made (numbered_of_addressable hcounts)).regular hcounts
  have hleast : IsLeast {j | (made p calls).image.RunsIntoCycle j} 0 :=
    ⟨hruns, fun j _ => Nat.zero_le j⟩
  exact build_none_error bank
    ((hregular.reports_cycle_iff (addressable_image hcounts)).mpr hleast)

/-- Classes that were added by ascending hash keep their numbers and the bases stated last. -/
theorem derives_image_iff_stated {p : Profile} {calls : List Call}
    (hcounts : ∀ a, ((made p calls).arena a).size < UInt32.size)
    (hascending : (((made p calls).arena .classes).toList.map (·.hash)).Pairwise (· ≤ ·))
    {c b : Id .classes} : (made p calls).image.Derives c b ↔
      (made p calls).raw.statedBases[c.index]? = some (some b) :=
  (derives_image_iff (sound_made (numbered_of_addressable hcounts)) hcounts hascending).trans
    Image.derives_iff_stated

theorem cycle_reports_mutualBases :
    ((made .full mutualBases).build none #[]).1 = .error (.fault (.invalid (.inheritanceCycle 0))) ∧
    (made .full mutualBases).image.ReportsFirst 0 ∧
    (made .full mutualBases).image.OnCycle 0 := by
  have hcounts : ∀ a, ((made .full mutualBases).arena a).size < UInt32.size := by decide
  have hforth : (made .full mutualBases).image.Derives ⟨0⟩ ⟨1⟩ :=
    (derives_image_iff_stated hcounts (by decide)).mpr rfl
  have hback : (made .full mutualBases).image.Derives ⟨1⟩ ⟨0⟩ :=
    (derives_image_iff_stated hcounts (by decide)).mpr rfl
  have hon : (made .full mutualBases).image.OnCycle 0 := ⟨⟨0⟩, rfl, .tail (.single hforth) hback⟩
  have hreport := build_reports_zero hcounts hon.runsInto #[]
  exact ⟨hreport, cycle_reports _ 0 (.inr ⟨_, none, #[], rfl, hreport⟩), hon⟩

/-- Two classes, the second of which is the base of both. -/
def leaningBases : List Call :=
  [.addClass (.hashed 1 "") .root 4, .addClass (.hashed 2 "") .root 4, .setBase ⟨0⟩ ⟨1⟩,
    .setBase ⟨1⟩ ⟨1⟩]

/-- The class that is reported does not derive from itself, and the other one does. -/
theorem reports_leaning_class :
    ((made .full leaningBases).build none #[]).1 = .error (.fault (.invalid (.inheritanceCycle 0))) ∧
    ¬ (made .full leaningBases).image.OnCycle 0 ∧ (made .full leaningBases).image.OnCycle 1 := by
  have hcounts : ∀ a, ((made .full leaningBases).arena a).size < UInt32.size := by decide
  have hstated : (made .full leaningBases).raw.statedBases = [some ⟨1⟩, some ⟨1⟩] := by rfl
  have hlean : (made .full leaningBases).image.Derives ⟨0⟩ ⟨1⟩ :=
    (derives_image_iff_stated hcounts (by decide)).mpr rfl
  have hself : (made .full leaningBases).image.Derives ⟨1⟩ ⟨1⟩ :=
    (derives_image_iff_stated hcounts (by decide)).mpr rfl
  obtain ⟨r, hr, hb⟩ := hlean
  refine ⟨build_reports_zero hcounts ⟨r, _, hr, hb, Image.circles_of_cycle (.single hself)⟩ #[],
    fun hon => ?_, ⟨1⟩, rfl, .single hself⟩
  obtain ⟨c, hc, hcycle⟩ := hon
  obtain ⟨b, _, hstep⟩ := TransGen.tail'_iff.mp hcycle
  rw [derives_image_iff_stated hcounts (by decide), hstated] at hstep
  have hmem := List.mem_of_getElem? hstep
  have hone : c = ⟨1⟩ := by simpa using hmem
  rw [hone] at hc
  cases hc

end Draft
end TypeAtlas
