/-
Images of reduced drafts.

An image says its profile, and building looks at it in one pass alone.  That pass accepts
whatever a run has led to, so a reduced draft builds as a full one does that was never
asked for what the reduced profile does not allow.
-/
import TypeAtlas.Proofs.Build.Renumbering
import TypeAtlas.Proofs.Draft.Profile
import TypeAtlas.Proofs.Layout.Matching
import TypeAtlas.Proofs.Wire.File

namespace TypeAtlas

/-! ## Images under another profile -/

/-- The image under another profile. -/
def Image.under (img : Image) (p : Profile) : Image := { img with profile := p }

def Holding.under (held : Holding) (p : Profile) : Holding :=
  { held with image := held.image.under p }

namespace Image

variable {img : Image} {p : Profile}

/-- The climb to the root looks at headers only. -/
theorem climb_under (limit : Nat) (rooted : Std.HashSet DeclId) (path : Array DeclId)
    (next : Option DeclId) :
    (img.under p).climb limit rooted path next = img.climb limit rooted path next := by
  fun_induction climb img limit rooted path next with
  | case1 => rw [climb]
  | case2 path d hstop => rw [climb, if_pos hstop]
  | case3 path d hgo ih =>
    rw [climb, if_neg hgo]
    exact ih

theorem checkChains_under : (img.under p).checkChains = img.checkChains := by
  have hchain : (img.under p).checkChain img.recordCount = img.checkChain img.recordCount := by
    funext rooted d
    rw [checkChain, checkChain, climb_under]
  have hcount : (img.under p).recordCount = img.recordCount := rfl
  have hdeclarations : (img.under p).declarations = img.declarations := rfl
  rw [checkChains, checkChains, hcount, hchain, hdeclarations]

/-- Where the profile may be either, validation does not tell which it is. -/
theorem validate_under (h : (img.under p).checkProfile = .ok ()) (h' : img.checkProfile = .ok ()) :
    (img.under p).validate = img.validate := by
  have hbases : (img.under p).checkInheritance = img.checkInheritance := checkInheritance_congr rfl
  rw [validate, validate, h, h', checkChains_under, hbases]
  rfl

theorem hold_under (account : Option Account) (bank : Bank) :
    (img.under p).hold account bank =
      ((img.hold account bank).1.map (·.under p), (img.hold account bank).2) := by
  cases account with
  | none => rfl
  | some account =>
    have harrays : (img.under p).arrays = img.arrays := rfl
    rw [hold, hold, harrays]
    split <;> rfl

end Image

namespace Draft

variable {d : Draft}

theorem FitsProfile.checkProfile_image (h : d.FitsProfile) : d.image.checkProfile = .ok () := by
  rw [Image.checkProfile_eq_ok_iff]
  intro hp
  obtain ⟨hattributes, htemplates, hinstances⟩ := h hp
  refine ⟨?_, ?_, ?_⟩ <;> apply Array.eq_empty_of_size_eq_zero <;> rw [size_image]
  · rw [hattributes]
    rfl
  · rw [htemplates]
    rfl
  · rw [hinstances]
    rfl

theorem fitsProfile_made (p : Profile) (calls : List Call) : (made p calls).FitsProfile :=
  FitsProfile.run (sound_empty p).toTextsSound (sound_empty p).profile calls

theorem image_under (p : Profile) : (d.under p).image = d.image.under p := rfl

theorem build_under {p : Profile} (h : d.FitsProfile) (h' : (d.under p).FitsProfile)
    (account : Option Account) (bank : Bank) :
    (d.under p).build account bank =
      ((d.build account bank).1.map (·.under p), (d.build account bank).2) := by
  have hvalidate : (d.image.under p).validate = d.image.validate :=
    Image.validate_under h'.checkProfile_image h.checkProfile_image
  rw [build, build, image_under, Image.hold_under]
  cases hheld : d.image.hold account bank with
  | mk result bank' =>
    cases result with
    | error e => rfl
    | ok held =>
      have himage : held.image = d.image := Image.image_of_hold (congrArg Prod.fst hheld)
      have hunder : (held.under p).image = d.image.under p := congrArg (Image.under · p) himage
      dsimp only [Except.map]
      rw [hunder, himage, hvalidate]
      cases d.image.validate <;> rfl

/-! ## Building a reduced draft -/

/-- The answers to some calls on a new draft. -/
def repliesTo (p : Profile) (calls : List Call) : List (Except DraftFault Reply) :=
  (({ profile := p } : Draft).run calls).1

theorem made_reduced (calls : List Call) :
    made .reduced calls = (made .full (Call.unrestricted calls)).under .reduced :=
  (run_reduced { profile := .full } calls).1

theorem profile_of_build_reduced {calls : List Call} {account : Option Account} {bank : Bank}
    {held : Holding} (hbuilt : ((made .reduced calls).build account bank).1 = .ok held) :
    held.image.profile = .reduced := by
  rw [image_of_build hbuilt, made_reduced]
  rfl

/-- The reduced profile is the full one without what it does not allow.  Calls for such
records are refused, all others are answered as on a full draft without those, and the
image that is built is the same but for its profile.  A loader takes its file whichever
profile it asks for, unless the file is over its limit. -/
theorem reduced_erases (calls : List Call) :
    (repliesTo .reduced calls).length = calls.length ∧
    (∀ entry ∈ calls.zip (repliesTo .reduced calls), ∀ kind,
      entry.1.restricted? = some kind → entry.2 = .error (.profileViolation kind .reduced)) ∧
    unrestrictedReplies calls (repliesTo .reduced calls) =
      (Call.unrestricted calls).zip (repliesTo .full (Call.unrestricted calls)) ∧
    (repliesTo .full (Call.unrestricted calls)).length = (Call.unrestricted calls).length ∧
    ∀ account bank,
      (made .reduced calls).build account bank =
        (((made .full (Call.unrestricted calls)).build account bank).1.map (·.under .reduced),
          ((made .full (Call.unrestricted calls)).build account bank).2) ∧
      ∀ held, ((made .reduced calls).build account bank).1 = .ok held →
        (∀ required, held.image.profile.satisfies required = true) ∧
        (held.image.encode.length < UInt64.size → ∀ (policy : LoadPolicy) (rest : List UInt8),
          (∀ max, policy.maxBytes = some max → held.image.header.payloadSize ≤ max) →
            policy.read (held.image.file ++ rest) = (.ok held.image, rest)) := by
  refine ⟨length_run _ calls, fun entry hentry kind hkind => ?_,
    (run_reduced { profile := .full } calls).2, length_run _ _, fun account bank => ⟨?_, ?_⟩⟩
  · exact reply_of_restricted { profile := .full } calls hentry hkind
  · have hfits := fitsProfile_made .reduced calls
    rw [made_reduced] at hfits ⊢
    exact build_under (fitsProfile_made .full _) hfits account bank
  · intro held hbuilt
    have hsatisfies (required : Profile) : held.image.profile.satisfies required = true := by
      rw [profile_of_build_reduced hbuilt]
      cases required <;> rfl
    refine ⟨hsatisfies, fun hlength policy rest hlimit => ?_⟩
    exact Image.read_of_reads_header
      (Image.reads_header (hsatisfies _) hlimit (fun _ => validate_of_build hbuilt) hlength) rest

/-- An enum with a constant, between calls for records that are not allowed.  Some of them
name records that are not there. -/
def mixedCalls : List Call :=
  [.addTemplate (.hashed 1 "") ⟨.classType, 7⟩, .addEnum (.hashed 2 "") .root 4,
    .addTemplateType (.hashed 3 "") ⟨0⟩ 8 [], .addAttribute (.hashed 4 "") ⟨.enum, 0⟩ .flag,
    .addEnumConstant (.hashed 2 "") ⟨.enum, 0⟩ 1,
    .addField (.hashed 5 "") ⟨.templateType, 0⟩ (some ⟨.templateType, 0⟩) .plain 0]

theorem reduced_erases_mixedCalls :
    repliesTo .reduced mixedCalls =
      [.error (.profileViolation (.decl .template) .reduced), .ok (.added 0),
        .error (.profileViolation (.decl .templateType) .reduced),
        .error (.profileViolation (.attr .flag) .reduced), .ok (.added 0),
        .error (.unknownId ⟨.templateType, 0⟩)] ∧
    ∃ held, ((made .reduced mixedCalls).build none {}).1 = .ok held ∧
      ({ required := .full } : LoadPolicy).read held.image.file = (.ok held.image, []) ∧
      ({ required := .reduced } : LoadPolicy).read held.image.file = (.ok held.image, []) := by
  have hcounts : ∀ a, ((made .reduced mixedCalls).arena a).size < UInt32.size := by decide +kernel
  have hbuilt := build_of_no_classes .reduced mixedCalls {} hcounts (by decide +kernel)
  have hlength : (made .reduced mixedCalls).image.encode.length < UInt64.size :=
    Nat.lt_of_le_of_lt (length_encode_image_le hcounts) (by decide +kernel)
  obtain ⟨_, _, _, _, hbuilds⟩ := reduced_erases mixedCalls
  obtain ⟨_, hread⟩ := (hbuilds none {}).2 _ hbuilt
  refine ⟨by rfl, _, hbuilt, ?_, ?_⟩
  · have hfile := hread hlength { required := .full } [] (fun _ hmax => by cases hmax)
    rwa [List.append_nil] at hfile
  · have hfile := hread hlength { required := .reduced } [] (fun _ hmax => by cases hmax)
    rwa [List.append_nil] at hfile

end Draft
end TypeAtlas
