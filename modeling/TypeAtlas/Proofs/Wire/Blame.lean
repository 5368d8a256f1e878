/-
What a refused stream is to blame for.

A fault is corruption, or something else accounts for it: the stream is too short for a
header, its version is another one, or a setting excludes what it states.  One fault has
neither account.  A header that states another profile than that of the image behind it, and
is right in everything else, is reported as if that profile had been asked for.  A loader
with nothing set calls every other stream of its version that it refuses corrupt.
-/
import TypeAtlas.Proofs.Wire.Policy

namespace TypeAtlas

/-- The version that a stream declares in its header. -/
def declaredVersion (input : List UInt8) : Nat := ofLittleEndian ((input.drop 4).take 2)

theorem declaredVersion_append (h : WireHeader) (rest : List UInt8) :
    declaredVersion (h.encode.toList ++ rest) = h.version.toNat := by
  have hparts : h.encode.toList ++ rest = magic.toList ++ (littleEndian 2 h.version.toNat ++
      (h.profile.tag :: 0 :: (littleEndian 8 h.payloadSize.toNat ++ h.checksum.toList)
        ++ rest)) := by
    rw [WireHeader.toList_encode]
    simp only [List.append_assoc]
  have hmagic : magic.toList.length = 4 := rfl
  rw [declaredVersion, hparts, List.drop_left' hmagic, List.take_left' (length_littleEndian _ _)]
  exact ofLittleEndian_littleEndian h.version.toNat_lt

/-- A header and a payload that fit together but for the profile. -/
structure Mislabels (h : WireHeader) (payload : List UInt8) (img : Image) : Prop where
  version : h.version = formatVersion
  size : payload.length = h.payloadSize.toNat
  checksum : Blake3.hash payload = h.checksum
  image : Image.decode payload = .ok img
  profile : img.profile ≠ h.profile

/-- Nothing is wrong with a stream but that its header states another profile than that of
the image behind it. -/
def Mislabelled (input : List UInt8) : Prop :=
  ∃ h payload img rest, input = h.encode.toList ++ (payload ++ rest) ∧ Mislabels h payload img

namespace LoadPolicy

/-- Faults of a stream that its bytes are not to blame for. -/
inductive Excused (p : LoadPolicy) (input : List UInt8) : LoadFault → Prop
  | short : input.length < headerSize → Excused p input (.stream .endsEarly)
  | version {v : UInt16} : declaredVersion input = v.toNat → v ≠ formatVersion →
      Excused p input (.unsupportedVersion v)
  | limit {size max : UInt64} : declaredSize input = size.toNat → p.maxBytes = some max →
      max < size → Excused p input (.tooLarge size max)
  | profile {found : Profile} : ¬ found.satisfies p.required →
      Excused p input (.profileMismatch p.required found)

variable {p : LoadPolicy} {h : WireHeader} {input payload rest unread : List UInt8} {img : Image}
  {e : LoadFault}

/-! ## Faults by stage -/

theorem headerDecode_error {bytes : Vector UInt8 headerSize}
    (hdecode : WireHeader.decode bytes = .error e) : e.isCorrupt ∨
      ∃ v, v = UInt16.ofNat (ofLittleEndian (bytes.extract 4 6).toList) ∧ v ≠ formatVersion ∧
        e = .unsupportedVersion v := by
  unfold WireHeader.decode at hdecode
  dsimp only at hdecode
  split at hdecode
  · cases hdecode
    exact Or.inl rfl
  · split at hdecode
    · next hversion =>
      cases hdecode
      exact Or.inr ⟨_, rfl, hversion, rfl⟩
    · split at hdecode
      · cases hdecode
        exact Or.inl rfl
      · split at hdecode
        · cases hdecode
          exact Or.inl rfl
        · cases hdecode

theorem declaredVersion_lt (input : List UInt8) : declaredVersion input < UInt16.size := by
  have hlength : ((input.drop 4).take 2).length ≤ 2 := List.length_take_le 2 _
  exact Nat.lt_of_lt_of_le (ofLittleEndian_lt _) (Nat.pow_le_pow_right (by decide) hlength)

theorem readHeader_error (hread : readHeader input = (.error e, rest)) :
    e.isCorrupt ∨ p.Excused input e := by
  unfold readHeader at hread
  split at hread
  · refine (headerDecode_error (Prod.mk.inj hread).1).imp_right fun hfault => ?_
    obtain ⟨v, hv, hversion, rfl⟩ := hfault
    have hfield : ((input.take headerSize).drop 4).take 2 = (input.drop 4).take 2 := by
      rw [List.drop_take, List.take_take]
      rfl
    have hdeclared : v = UInt16.ofNat (declaredVersion input) := by
      rw [hv, Vector.toList_extract, declaredVersion, ← hfield]
      rfl
    refine .version ?_ hversion
    rw [hdeclared, UInt16.toNat_ofNat_of_lt' (declaredVersion_lt input)]
  · next hlength =>
    cases hread
    exact Or.inr (.short (Nat.not_le.mp hlength))

theorem readPayload_error (hread : p.readPayload h input = (.error e, unread)) : e.isCorrupt ∨
    ∃ max, p.maxBytes = some max ∧ max < h.payloadSize ∧ e = .tooLarge h.payloadSize max := by
  unfold readPayload at hread
  split at hread
  · next max hlimit =>
    cases hread
    obtain ⟨hmax, hlt⟩ := Option.filter_eq_some_iff.mp hlimit
    exact Or.inr ⟨max, hmax, of_decide_eq_true hlt, rfl⟩
  · dsimp only at hread
    split at hread
    · cases hread
      exact Or.inl rfl
    · split at hread
      · cases hread
        exact Or.inl rfl
      · cases hread

theorem decodeImage_error (hdecode : p.decodeImage h payload = .error e) : e.isCorrupt ∨
    ∃ img, Image.decode payload = .ok img ∧ img.profile ≠ h.profile ∧
      e = .profileMismatch h.profile img.profile := by
  unfold decodeImage at hdecode
  cases himage : Image.decode payload with
  | error fault =>
    rw [himage] at hdecode
    cases hdecode
    exact Or.inl rfl
  | ok img =>
    rw [himage] at hdecode
    dsimp only [Except.mapError, bind, Except.bind] at hdecode
    split at hdecode
    · next hprofile =>
      cases hdecode
      exact Or.inr ⟨img, rfl, hprofile, rfl⟩
    · split at hdecode
      · cases hvalid : img.validate with
        | error fault =>
          rw [hvalid] at hdecode
          cases hdecode
          exact Or.inl rfl
        | ok =>
          rw [hvalid] at hdecode
          cases hdecode
      · cases hdecode

/-! ## Streams -/

/-- Every fault is accounted for, whatever the settings of the loader. -/
theorem read_error (hread : p.read input = (.error e, unread)) :
    e.isCorrupt ∨ p.Excused input e ∨ Mislabelled input := by
  unfold read at hread
  split at hread
  · next hheader =>
    cases hread
    exact (readHeader_error hheader).imp_right Or.inl
  · next h rest hheader =>
    obtain ⟨hversion, rfl⟩ := readHeader_eq_ok_iff.mp hheader
    split at hread
    · split at hread
      · next hpayload =>
        cases hread
        refine (readPayload_error hpayload).imp_right fun hlimit => Or.inl ?_
        obtain ⟨max, hmax, hlt, rfl⟩ := hlimit
        exact .limit (declaredSize_append h rest) hmax hlt
      · next payload rest' hpayload =>
        obtain ⟨_, hsize, hchecksum, rfl⟩ := readPayload_eq_ok_iff.mp hpayload
        refine (decodeImage_error (Prod.mk.inj hread).1).imp_right fun hfault => Or.inr ?_
        obtain ⟨img, himage, hprofile, _⟩ := hfault
        exact ⟨h, payload, img, rest', rfl, hversion, hsize, hchecksum, himage, hprofile⟩
    · next hsatisfies =>
      cases hread
      exact Or.inr (Or.inl (.profile hsatisfies))

/-- What is reported of a stream whose profile alone is wrong. -/
theorem read_of_mislabels (hmislabels : Mislabels h payload img)
    (hsatisfies : h.profile.satisfies p.required)
    (hlimit : ∀ max, p.maxBytes = some max → h.payloadSize ≤ max) (rest : List UInt8) :
    p.read (h.encode.toList ++ (payload ++ rest)) =
      (.error (.profileMismatch h.profile img.profile), rest) := by
  rw [read, readHeader_eq_ok_iff.mpr ⟨hmislabels.version, rfl⟩]
  dsimp only
  rw [if_pos hsatisfies, readPayload_eq_ok_iff.mpr
    ⟨hlimit, hmislabels.size, hmislabels.checksum, rfl⟩]
  dsimp only
  rw [decodeImage, hmislabels.image]
  dsimp only [Except.mapError, bind, Except.bind]
  rw [if_pos hmislabels.profile]
  rfl

/-- With nothing set, a loader calls what it refuses corrupt, if it is long enough for a header
and of the version that is read, but for a stream whose profile alone is wrong: that is
never called corrupt. -/
theorem refusal_is_corruption_iff (input : List UInt8) (bank : Bank) (stop : Stop LoadFault)
    (hlength : headerSize ≤ input.length) (hversion : declaredVersion input = formatVersion.toNat)
    (hrefused : (({} : LoadPolicy).load input none bank).result = .error stop) :
    ∃ e, stop = .fault e ∧ (e.isCorrupt ↔ ¬ Mislabelled input) := by
  obtain ⟨e, unread, rfl, hread⟩ :
      ∃ e unread, stop = .fault e ∧ ({} : LoadPolicy).read input = (.error e, unread) := by
    cases hread : ({} : LoadPolicy).read input with
    | mk result unread =>
      cases result with
      | error e =>
        rw [load_of_unreadable none bank hread] at hrefused
        exact ⟨e, unread, (Except.error.inj hrefused).symm, rfl⟩
      | ok img =>
        rw [load_none_eq_ok bank hread] at hrefused
        cases hrefused
  refine ⟨e, rfl, ?_⟩
  constructor
  · rintro hcorrupt ⟨h, payload, img, rest, rfl, hmislabels⟩
    rw [read_of_mislabels hmislabels rfl (fun _ hmax => by cases hmax) rest] at hread
    cases hread
    cases hcorrupt
  · intro hlabelled
    rcases read_error hread with hcorrupt | hexcused | hmislabelled
    · exact hcorrupt
    · cases hexcused with
      | short hshort => exact absurd hlength (Nat.not_le.mpr hshort)
      | version hdeclared hother =>
        exact absurd (UInt16.toNat_inj.mp (hdeclared.symm.trans hversion)) hother
      | limit _ hmax _ => cases hmax
      | profile hsatisfies => exact absurd rfl hsatisfies
    · exact absurd hmislabelled hlabelled

/-- Zeros where the magic should be. -/
theorem refusal_is_corruption_noMagic :
    headerSize ≤ (List.replicate 4 0 ++ 1 :: List.replicate 43 0 : List UInt8).length ∧
    declaredVersion (List.replicate 4 0 ++ 1 :: List.replicate 43 0) = formatVersion.toNat ∧
    (({} : LoadPolicy).load (List.replicate 4 0 ++ 1 :: List.replicate 43 0) none {}).result =
      .error (.fault (.badMagic #v[0, 0, 0, 0])) ∧
    ¬ Mislabelled (List.replicate 4 0 ++ 1 :: List.replicate 43 0) := by
  have hlength : headerSize ≤
      (List.replicate 4 0 ++ 1 :: List.replicate 43 0 : List UInt8).length := by decide
  have hversion : declaredVersion (List.replicate 4 0 ++ 1 :: List.replicate 43 0) =
      formatVersion.toNat := by decide
  have hrefused : (({} : LoadPolicy).load (List.replicate 4 0 ++ 1 :: List.replicate 43 0) none
      {}).result = .error (.fault (.badMagic #v[0, 0, 0, 0])) := rfl
  obtain ⟨e, hstop, hcorrupt⟩ := refusal_is_corruption_iff _ _ _ hlength hversion hrefused
  obtain rfl := Stop.fault.inj hstop
  exact ⟨hlength, hversion, hrefused, hcorrupt.mp rfl⟩

end LoadPolicy

namespace Image

/-- The file of an image under a header that states a profile of its own. -/
def relabelled (img : Image) (profile : Profile) : List UInt8 :=
  ({ img.header with profile } : WireHeader).encode.toList ++ img.encode

theorem mislabels_relabelled {img : Image} (hlength : img.encode.length < UInt64.size)
    {profile : Profile} (hne : img.profile ≠ profile) :
    Mislabels { img.header with profile } img.encode img where
  version := rfl
  size := (payloadSize_header hlength).symm
  checksum := rfl
  image := decode_encode (countable_of_length hlength)
  profile := hne

/-- An image of nothing under the other profile is refused, and not called corrupt. -/
theorem relabelled_not_corrupt :
    headerSize ≤ ((empty .full).relabelled .reduced).length ∧
    declaredVersion ((empty .full).relabelled .reduced) = formatVersion.toNat ∧
    (({} : LoadPolicy).load ((empty .full).relabelled .reduced) none {}).result =
      .error (.fault (.profileMismatch .reduced .full)) ∧
    (LoadFault.profileMismatch .reduced .full).isCorrupt = false := by
  have hlength : (empty .full).encode.length < UInt64.size := by
    simp only [encode, codec, Codec.imap, Codec.pair, List.length_append, Codec.length_text]
    decide +kernel
  have hmislabels : Mislabels { (empty .full).header with profile := .reduced }
      (empty .full).encode (empty .full) := mislabels_relabelled hlength (by decide)
  have hread : ({} : LoadPolicy).read ((empty .full).relabelled .reduced) =
      (.error (.profileMismatch .reduced .full), []) := by
    rw [relabelled, ← List.append_nil (empty .full).encode]
    exact LoadPolicy.read_of_mislabels hmislabels rfl (fun _ hmax => by cases hmax) []
  refine ⟨?_, ?_, ?_, rfl⟩
  · rw [relabelled, List.length_append, Vector.length_toList]
    exact Nat.le_add_right _ _
  · exact declaredVersion_append _ _
  · exact congrArg Loaded.result (LoadPolicy.load_of_unreadable none {} hread)

end Image
end TypeAtlas
