/-
Headers are exact.

A header is read off the bytes that are written for it and off no others: each of the
48 is fixed by a field of the header, by the magic or by being zero.
-/
import TypeAtlas.Proofs.Codec.Exact

namespace TypeAtlas

theorem Profile.ofTag?_eq_some_iff {b : UInt8} {p : Profile} : ofTag? b = some p ↔ b = p.tag := by
  constructor
  · intro h
    unfold ofTag? at h
    split at h
    · cases h
      rfl
    · cases h
      rfl
    · cases h
  · intro h
    rw [h, ofTag?_tag]

theorem take_append_drop_add {α : Type} (xs : List α) (i n : Nat) :
    (xs.drop i).take n ++ xs.drop (i + n) = xs.drop i := by
  rw [← List.drop_drop, List.take_append_drop]

namespace WireHeader

theorem toList_encode (h : WireHeader) : h.encode.toList =
    magic.toList ++ (littleEndian 2 h.version.toNat ++ (h.profile.tag :: 0 ::
      (littleEndian 8 h.payloadSize.toNat ++ h.checksum.toList))) := by
  show (magic ++ littleEndianVector 2 h.version.toNat ++ #v[h.profile.tag, 0] ++
    littleEndianVector 8 h.payloadSize.toNat ++ h.checksum : Vector UInt8 (4 + 2 + 2 + 8 + 32)).toList = _
  simp only [Vector.toList_append, List.append_assoc]
  rfl

theorem toList_eq_parts (bytes : Vector UInt8 headerSize) : bytes.toList =
    (bytes.extract 0 4).toList ++ ((bytes.extract 4 6).toList ++ (bytes[6] :: bytes[7] ::
      ((bytes.extract 8 16).toList ++ (bytes.extract 16 48).toList))) := by
  have hlength : bytes.toList.length = 48 := bytes.length_toList
  have h6 : bytes.toList.drop 6 = bytes[6] :: bytes.toList.drop 7 :=
    List.drop_eq_getElem_cons (by omega)
  have h7 : bytes.toList.drop 7 = bytes[7] :: bytes.toList.drop 8 :=
    List.drop_eq_getElem_cons (by omega)
  have hend : (bytes.toList.drop 16).take 32 = bytes.toList.drop 16 :=
    List.take_of_length_le (by rw [List.length_drop]; omega)
  simp only [Vector.toList_extract]
  calc bytes.toList
      = (bytes.toList.drop 0).take 4 ++ bytes.toList.drop 4 :=
        (take_append_drop_add bytes.toList 0 4).symm
    _ = _ ++ ((bytes.toList.drop 4).take 2 ++ bytes.toList.drop 6) := by
        rw [take_append_drop_add bytes.toList 4 2]
    _ = _ ++ (_ ++ (bytes[6] :: bytes[7] :: ((bytes.toList.drop 8).take 8 ++
          (bytes.toList.drop 16).take 32))) := by
        rw [h6, h7, hend, take_append_drop_add bytes.toList 8 8]

theorem eq_encode_iff {h : WireHeader} {bytes : Vector UInt8 headerSize} : bytes = h.encode ↔
    (bytes.extract 0 4).toList = magic.toList ∧
    (bytes.extract 4 6).toList = littleEndian 2 h.version.toNat ∧
    bytes[6] = h.profile.tag ∧ bytes[7] = 0 ∧
    (bytes.extract 8 16).toList = littleEndian 8 h.payloadSize.toNat ∧
    (bytes.extract 16 48).toList = h.checksum.toList := by
  rw [← Vector.toList_inj, toList_eq_parts bytes, toList_encode]
  constructor
  · intro heq
    obtain ⟨hmagic, heq⟩ := List.append_inj heq (by simp only [Vector.length_toList]; rfl)
    obtain ⟨hversion, heq⟩ := List.append_inj heq
      (by rw [Vector.length_toList, length_littleEndian]; rfl)
    obtain ⟨hprofile, heq⟩ := List.cons.inj heq
    obtain ⟨hreserved, heq⟩ := List.cons.inj heq
    obtain ⟨hsize, hchecksum⟩ := List.append_inj heq
      (by rw [Vector.length_toList, length_littleEndian]; rfl)
    exact ⟨hmagic, hversion, hprofile, hreserved, hsize, hchecksum⟩
  · intro hparts
    obtain ⟨hmagic, hversion, hprofile, hreserved, hsize, hchecksum⟩ := hparts
    rw [hmagic, hversion, hprofile, hreserved, hsize, hchecksum]

/-- No bytes but its own are read as a header, and only those of the one version. -/
theorem decode_eq_ok_iff {bytes : Vector UInt8 headerSize} {h : WireHeader} :
    decode bytes = .ok h ↔ h.version = formatVersion ∧ bytes = h.encode := by
  have hversion : (bytes.extract 4 6).toList.length = 2 := Vector.length_toList
  have hsize : (bytes.extract 8 16).toList.length = 8 := Vector.length_toList
  have hversionLt := ofLittleEndian_lt (bytes.extract 4 6).toList
  have hsizeLt := ofLittleEndian_lt (bytes.extract 8 16).toList
  rw [hversion] at hversionLt
  rw [hsize] at hsizeLt
  rw [eq_encode_iff, eq_littleEndian_iff hversion h.version.toNat_lt,
    eq_littleEndian_iff hsize h.payloadSize.toNat_lt]
  unfold decode
  dsimp only
  constructor
  · intro hread
    split at hread
    · cases hread
    · next hmagic =>
      split at hread
      · cases hread
      · next hformat =>
        split at hread
        · cases hread
        · next profile hprofile =>
          split at hread
          · cases hread
          · next hreserved =>
            cases hread
            refine ⟨of_not_not hformat, congrArg Vector.toList (of_not_not hmagic), ?_,
              Profile.ofTag?_eq_some_iff.mp hprofile, of_not_not hreserved, ?_, rfl⟩
            · exact (UInt16.toNat_ofNat_of_lt' hversionLt).symm
            · exact (UInt64.toNat_ofNat_of_lt' hsizeLt).symm
  · intro hparts
    obtain ⟨hformat, hmagic, hversion, hprofile, hreserved, hsize, hchecksum⟩ := hparts
    have hfound : (bytes.extract 0 4).cast (by decide) = magic := Vector.toList_inj.mp hmagic
    have hrest : (bytes.extract 16 48).cast (by decide) = h.checksum :=
      Vector.toList_inj.mp hchecksum
    rw [hfound, hrest, hversion, hsize, hprofile, hreserved, Profile.ofTag?_tag]
    rw [if_neg (not_not_intro rfl), UInt16.ofNat_toNat, if_neg (not_not_intro hformat)]
    dsimp only
    rw [if_neg (not_not_intro rfl), UInt64.ofNat_toNat]

end WireHeader
end TypeAtlas
