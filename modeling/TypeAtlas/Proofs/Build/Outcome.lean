/-
How building ends.

Whatever was done to a draft, building fails only on a cycle of base classes: the
passes of validation but one accept the image of every draft, and that one looks at
the bases that were set.
-/
import TypeAtlas.Proofs.Draft.Run
import TypeAtlas.Proofs.Layout.Extent
import TypeAtlas.Proofs.Layout.Trust

namespace TypeAtlas

theorem Image.image_of_hold {img : Image} {account : Option Account} {bank : Bank}
    {held : Holding} (h : (img.hold account bank).1 = .ok held) : held.image = img := by
  unfold hold at h
  cases account with
  | none => exact congrArg Holding.image (Except.ok.inj h).symm
  | some account =>
    dsimp only at h
    split at h
    · exact congrArg Holding.image (Except.ok.inj h).symm
    · cases h

/-- What the classes of an image state as their bases. -/
def Image.statedBases (img : Image) : List (Option (Id .classes)) :=
  (img.arena .classes).toList.map fun r => ClassBody.base r.body

theorem Image.derives_iff_stated {img : Image} {c b : Id .classes} :
    img.Derives c b ↔ img.statedBases[c.index]? = some (some b) := by
  rw [statedBases, List.getElem?_map, Array.getElem?_toList, Option.map_eq_some_iff]
  rfl

namespace Draft

open Relation (TransGen)

variable {d : Draft} {log : Log}

/-- The bases in a draft are the ones its log says were set last. -/
theorem Agrees.derives_iff (h : d.Agrees log) {c b : Id .classes} :
    d.raw.Derives c b ↔ log.Derives c b := by
  have hbase {r : Record .classes} (hr : (d.arena .classes)[c.index]? = some r) :
      ClassBody.base r.body = log.baseOf c := by
    have hi := (Array.getElem?_eq_some_iff.mp hr).1
    rw [← h.length_added] at hi
    obtain ⟨s, hs, hrecorded⟩ := h.records _ _ _ (List.getElem?_eq_getElem hi)
    obtain rfl := Option.some.inj (hr.symm.trans hs)
    have hbody : r.body = log.body (.ofIndex c.index) _ := hrecorded.body
    rw [hbody, Id.ofIndex_index]
    rfl
  constructor
  · rintro ⟨r, hr, hb⟩
    exact (hbase hr).symm.trans hb
  · intro hb
    have hc : d.raw.Holds c := by
      by_contra hc
      have hnone : log.baseOf c = none := Log.last_eq_none fun entry hentry =>
        Log.givesBase_eq_none fun htarget => hc (h.targets entry hentry _ htarget)
      exact absurd (hb.symm.trans hnone) (Option.some_ne_none b)
    have hr : (d.arena .classes)[c.index]? = some (d.arena .classes)[c.index] :=
      Array.getElem?_eq_getElem hc
    exact ⟨_, hr, (hbase hr).trans hb⟩

variable {account : Option Account} {bank full rest : Bank} {held : Holding}

/-- Building succeeds where the image is charged and valid. -/
theorem build_eq_ok_iff :
    d.build account bank = (.ok held, full) ↔
      d.image.hold account bank = (.ok held, full) ∧ held.image.validate = .ok () := by
  unfold build
  constructor
  · intro h
    split at h
    · cases h
    · next charged rest hheld =>
      split at h
      · next hvalid =>
        cases h
        exact ⟨hheld, hvalid⟩
      · cases h
  · intro h
    obtain ⟨hheld, hvalid⟩ := h
    rw [hheld]
    dsimp only
    rw [hvalid]

/-- It stops where the image is not charged, and where it is charged but not valid. -/
theorem build_eq_error_iff {stop : Stop DraftFault} :
    d.build account bank = (.error stop, rest) ↔
      (∃ refusal, d.image.hold account bank = (.error refusal, rest) ∧
        stop = refusal.map .alloc) ∨
      ∃ held full fault, d.image.hold account bank = (.ok held, full) ∧
        held.image.validate = .error fault ∧ stop = .fault (.invalid fault) ∧
        rest = held.drop full := by
  unfold build
  constructor
  · intro h
    split at h
    · next refusal rest' hrefused =>
      cases h
      exact .inl ⟨refusal, hrefused, rfl⟩
    · next held full hheld =>
      split at h
      · cases h
      · next fault hinvalid =>
        cases h
        exact .inr ⟨held, full, fault, hheld, hinvalid, rfl, rfl⟩
  · intro h
    obtain ⟨refusal, hrefused, rfl⟩ | ⟨held, full, fault, hheld, hinvalid, rfl, rfl⟩ := h
    · rw [hrefused]
    · rw [hheld]
      dsimp only
      rw [hinvalid]

theorem build_none_ok (bank : Bank) (h : d.image.validate = .ok ()) :
    (d.build none bank).1 = .ok { image := d.image } := by
  have hbuilt : d.build none bank = (.ok { image := d.image }, bank) :=
    build_eq_ok_iff.mpr ⟨rfl, h⟩
  rw [hbuilt]

theorem build_none_error (bank : Bank) {e : ImageFault} (h : d.image.validate = .error e) :
    (d.build none bank).1 = .error (.fault (.invalid e)) := by
  have hfailed : d.build none bank = (.error (.fault (.invalid e)), bank) :=
    build_eq_error_iff.mpr (.inr ⟨{ image := d.image }, bank, e, rfl, h, rfl, rfl⟩)
  rw [hfailed]

theorem validate_of_build (h : (d.build account bank).1 = .ok held) : held.image.validate = .ok () :=
  (build_eq_ok_iff.mp (Prod.ext h rfl)).2

theorem addressable_made {p : Profile} {calls : List Call}
    (hcounts : ∀ a, ((made p calls).arena a).size < UInt32.size) :
    (made p calls).image.Addressable :=
  addressable_image hcounts

/-- On a sound draft only the pass over base classes can refuse the image. -/
theorem Sound.validate_image (h : d.Sound) (haddr : d.raw.Addressable) :
    (d.image.validate = .ok () ↔ ∀ c, ¬ TransGen d.raw.Derives c c) ∧
      ∀ e, d.image.validate = .error e →
        ∃ i < (d.arena .classes).size, e = .inheritanceCycle i := by
  have hregular := h.regular haddr
  have haddr' := addressable_image haddr
  rw [hregular.validate_eq, ← acyclic_image_iff h haddr, ← size_image]
  exact ⟨Image.checkInheritance_eq_ok_iff haddr' hregular.basesHold,
    fun e => Image.checkInheritance_error haddr' hregular.basesHold⟩

/-- Building succeeds exactly when the bases that were set last close no cycle.
Otherwise it reports a cycle, and in no case does it break off.  An arena has fewer
records than there are words, the largest of which is the root namespace. -/
theorem build_fails_on_cycles_only (p : Profile) (calls : List Call) (bank : Bank)
    (hcounts : ∀ a, ((made p calls).arena a).size < UInt32.size) :
    (∃ result, (made p calls).buildTrusting.run = .ok result ∧
        ((made p calls).build none bank).1.map (·.image) = result.mapError .fault) ∧
      ((∃ held, ((made p calls).build none bank).1 = .ok held) ↔
        ∀ c, ¬ TransGen (logOf p calls).Derives c c) ∧
      ∀ stop, ((made p calls).build none bank).1 = .error stop →
        ∃ i < ((made p calls).arena .classes).size,
          stop = .fault (.invalid (.inheritanceCycle i)) := by
  have hnum := numbered_of_addressable hcounts
  have hsound := sound_made hnum
  have hderives : (made p calls).raw.Derives = (logOf p calls).Derives :=
    funext fun c => funext fun b => propext (agrees_made hnum).derives_iff
  obtain ⟨haccepts, hrefuses⟩ := hsound.validate_image hcounts
  rw [hderives] at haccepts
  rw [buildTrusting_eq hsound hcounts, ← haccepts]
  cases hvalidate : (made p calls).image.validate with
  | ok =>
    rw [build_none_ok bank hvalidate]
    refine ⟨⟨_, rfl, rfl⟩, ⟨fun _ => rfl, fun _ => ⟨_, rfl⟩⟩, fun stop hstop => ?_⟩
    cases hstop
  | error e =>
    rw [build_none_error bank hvalidate]
    obtain ⟨i, hi, rfl⟩ := hrefuses e hvalidate
    refine ⟨⟨_, rfl, rfl⟩, ?_, fun stop hstop => ⟨i, hi, (Except.error.inj hstop).symm⟩⟩
    simp

/-- Two classes, each the base of the other. -/
def mutualBases : List Call :=
  [.addClass (.hashed 1 "") .root 4, .addClass (.hashed 2 "") .root 4, .setBase ⟨0⟩ ⟨1⟩,
    .setBase ⟨1⟩ ⟨0⟩]

theorem build_fails_on_mutualBases :
    (∀ a, ((made .full mutualBases).arena a).size < UInt32.size) ∧
      ¬ ∃ held, ((made .full mutualBases).build none {}).1 = .ok held := by
  have hcounts : ∀ a, ((made .full mutualBases).arena a).size < UInt32.size := by decide
  refine ⟨hcounts, fun hbuilds => ?_⟩
  obtain ⟨_, hdecides, _⟩ := build_fails_on_cycles_only .full mutualBases {} hcounts
  have hforth : (logOf .full mutualBases).Derives ⟨0⟩ ⟨1⟩ := by rfl
  have hback : (logOf .full mutualBases).Derives ⟨1⟩ ⟨0⟩ := by rfl
  exact hdecides.mp hbuilds ⟨0⟩ (.tail (.single hforth) hback)

/-! ## Bases that come first -/

/-- Bases that were added before what derives from them close no cycle. -/
theorem validate_of_bases_before {p : Profile} {calls : List Call}
    (hcounts : ∀ a, ((made p calls).arena a).size < UInt32.size)
    (hbefore : ∀ c b, (made p calls).raw.Derives c b → b.index < c.index) :
    (made p calls).image.validate = .ok () := by
  have hsound := sound_made (numbered_of_addressable hcounts)
  refine (hsound.validate_image hcounts).1.mpr fun c hcycle => ?_
  have hdown : ∀ b, TransGen (made p calls).raw.Derives c b → b.index < c.index := by
    intro b hreach
    induction hreach with
    | single hstep => exact hbefore _ _ hstep
    | tail _ hstep ih => exact Nat.lt_trans (hbefore _ _ hstep) ih
  exact Nat.lt_irrefl _ (hdown c hcycle)

/-- Without classes there is no chain of base classes that could be a cycle. -/
theorem build_of_no_classes (p : Profile) (calls : List Call) (bank : Bank)
    (hcounts : ∀ a, ((made p calls).arena a).size < UInt32.size)
    (hnone : ((made p calls).arena .classes).size = 0) :
    ((made p calls).build none bank).1 = .ok { image := (made p calls).image } := by
  refine build_none_ok bank (validate_of_bases_before hcounts fun c b hstep => ?_)
  obtain ⟨r, hr, _⟩ := hstep
  have hlt : c.index < ((made p calls).arena .classes).size :=
    (Array.getElem?_eq_some_iff.mp hr).1
  omega

/-- Two classes in a namespace, with what belongs to them: an overloaded method, members
with types of every kind, and attributes with values. -/
def shapes : List Call :=
  [.addNamespace (.text "geo") .root, .addClass (.text "Shape") ⟨.nameSpace, 0⟩ 8,
    .addClass (.text "Circle") ⟨.nameSpace, 0⟩ 16, .setBase ⟨1⟩ ⟨0⟩,
    .addType (.text "float") .root 4, .addEnum (.text "Color") ⟨.nameSpace, 0⟩ 4,
    .addEnumConstant (.text "red") ⟨.enum, 0⟩ 1,
    .addField (.text "radius") ⟨.classType, 1⟩ (some ⟨.type, 0⟩) .plain 8,
    .addFunction (.text "area") ⟨.classType, 0⟩ 0 1,
    .addFunction (.text "area") ⟨.classType, 0⟩ 0 2, .setReturn ⟨0⟩ ⟨.type, 0⟩ .plain,
    .addParameter (.text "scale") ⟨1⟩ (some ⟨.type, 0⟩) .plain 0,
    .addTemplate (.text "List") .root,
    .addTemplateType (.text "List<Shape>") ⟨0⟩ 24 [(⟨.classType, 0⟩, true)],
    .addAttribute (.text "transient") ⟨.field, 0⟩ .flag,
    .addAttribute (.text "unit") ⟨.field, 0⟩ (.name (.text "metre")),
    .addAttribute (.text "doc") ⟨.classType, 0⟩ (.text "a plane figure")]

theorem counts_shapes : ∀ a, ((made .full shapes).arena a).size < UInt32.size := by decide +kernel

theorem validate_shapes : (made .full shapes).image.validate = .ok () := by
  have hstated : (made .full shapes).raw.statedBases = [none, some ⟨0⟩] := by decide +kernel
  refine validate_of_bases_before counts_shapes fun c b hstep => ?_
  rw [Image.derives_iff_stated, hstated] at hstep
  cases hc : c.index with
  | zero =>
    rw [hc] at hstep
    cases hstep
  | succ i =>
    rw [hc] at hstep
    cases i with
    | zero =>
      obtain rfl := Option.some.inj (Option.some.inj hstep)
      exact Nat.zero_lt_one
    | succ i => cases hstep

theorem addressable_shapes : (made .full shapes).image.Addressable := addressable_made counts_shapes

theorem length_encode_shapes : (made .full shapes).image.encode.length < UInt64.size :=
  Nat.lt_of_le_of_lt (length_encode_image_le counts_shapes) (by decide +kernel)

end Draft
end TypeAtlas
