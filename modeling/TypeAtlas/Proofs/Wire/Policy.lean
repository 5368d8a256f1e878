/-
What the settings of a loader change.

Every setting adds a test of its own to those of a loader with nothing set, so that what is
accepted under settings is accepted without, with the same image.  Validation is the last
test that is made of the bytes, and a loader that leaves it out goes on where one that makes
it stops.  What is read off the bytes alone is named here without the loader: the length a
stream declares and the payload of that length.
-/
import TypeAtlas.Proofs.Ledger.Room
import TypeAtlas.Proofs.Wire.File

namespace TypeAtlas

open Check (mapError_eq_ok_iff)

/-! ## Streams -/

/-- The length of its payload that a stream declares in its header. -/
def declaredSize (input : List UInt8) : Nat := ofLittleEndian ((input.drop 8).take 8)

/-- As many bytes behind the header as are declared. -/
def declaredPayload (input : List UInt8) : List UInt8 :=
  (input.drop headerSize).take (declaredSize input)

theorem declaredSize_append (h : WireHeader) (rest : List UInt8) :
    declaredSize (h.encode.toList ++ rest) = h.payloadSize.toNat := by
  have hparts : h.encode.toList ++ rest =
      (magic.toList ++ (littleEndian 2 h.version.toNat ++ [h.profile.tag, 0])) ++
        (littleEndian 8 h.payloadSize.toNat ++ (h.checksum.toList ++ rest)) := by
    rw [WireHeader.toList_encode]
    simp only [List.append_assoc, List.cons_append, List.nil_append]
  have hfront :
      (magic.toList ++ (littleEndian 2 h.version.toNat ++ [h.profile.tag, 0])).length = 8 := by
    simp only [List.length_append, length_littleEndian]
    rfl
  rw [declaredSize, hparts, List.drop_left' hfront,
    List.take_left' (length_littleEndian 8 h.payloadSize.toNat)]
  exact ofLittleEndian_littleEndian h.payloadSize.toNat_lt

theorem declaredPayload_append {h : WireHeader} {payload : List UInt8}
    (hsize : payload.length = h.payloadSize.toNat) (rest : List UInt8) :
    declaredPayload (h.encode.toList ++ (payload ++ rest)) = payload := by
  rw [declaredPayload, declaredSize_append, List.drop_left' h.encode.length_toList,
    List.take_left' hsize]

namespace LoadPolicy

variable {p : LoadPolicy} {h : WireHeader} {input unread payload : List UInt8} {img : Image}
  {account : Option Account} {bank : Bank}

/-! ## Reading -/

theorem decode_declaredPayload (hread : p.read input = (.ok img, unread)) :
    Image.decode (declaredPayload input) = .ok img := by
  obtain ⟨h, payload, rfl, hreads⟩ := read_eq_ok_iff.mp hread
  rw [declaredPayload_append hreads.size]
  exact hreads.image

/-- A loader that verifies reads what one with nothing set reads, as far as its other
settings admit it. -/
theorem read_verifying_iff (p : LoadPolicy) :
    ({ p with verify := true } : LoadPolicy).read input = (.ok img, unread) ↔
      ({} : LoadPolicy).read input = (.ok img, unread) ∧ img.profile.satisfies p.required ∧
        ∀ max ∈ p.maxBytes, declaredSize input ≤ max.toNat := by
  rw [read_eq_ok_iff, read_eq_ok_iff]
  constructor
  · rintro ⟨h, payload, rfl, hreads⟩
    refine ⟨⟨h, payload, rfl, ?_⟩, ?_, fun max hmax => ?_⟩
    · exact { hreads with satisfies := rfl, limit := fun _ hmax => by cases hmax }
    · rw [hreads.profile]
      exact hreads.satisfies
    · rw [declaredSize_append]
      exact UInt64.le_iff_toNat_le.mp (hreads.limit max hmax)
  · rintro ⟨⟨h, payload, rfl, hreads⟩, hsatisfies, hlimit⟩
    refine ⟨h, payload, rfl, { hreads with satisfies := ?_, limit := fun max hmax => ?_ }⟩
    · rw [← hreads.profile]
      exact hsatisfies
    · rw [declaredSize_append] at hlimit
      exact UInt64.le_iff_toNat_le.mpr (hlimit max hmax)

/-- What verification makes of an image. -/
def verified (img : Image) : Except LoadFault Image := do
  img.validate.mapError LoadFault.invalid
  return img

theorem verified_of_ok (h : img.validate = .ok ()) : verified img = .ok img := by
  rw [verified, h]
  rfl

theorem verified_of_error {fault : ImageFault} (h : img.validate = .error fault) :
    verified img = .error (.invalid fault) := by
  rw [verified, h]
  rfl

theorem decodeImage_unverified (p : LoadPolicy) (h : WireHeader) (payload : List UInt8) :
    ({ p with verify := false } : LoadPolicy).decodeImage h payload =
      (Image.decode payload).mapError LoadFault.decode >>= fun img =>
        if img.profile ≠ h.profile then .error (.profileMismatch h.profile img.profile)
        else .ok img := by
  unfold decodeImage
  refine bind_congr fun img => ?_
  by_cases hprofile : img.profile ≠ h.profile
  · rw [if_pos hprofile, if_pos hprofile]
    rfl
  · rw [if_neg hprofile, if_neg hprofile]
    rfl

theorem decodeImage_verifying (p : LoadPolicy) (h : WireHeader) (payload : List UInt8) :
    ({ p with verify := true } : LoadPolicy).decodeImage h payload =
      ({ p with verify := false } : LoadPolicy).decodeImage h payload >>= verified := by
  rw [decodeImage_unverified, bind_assoc]
  unfold decodeImage
  refine bind_congr fun img => ?_
  by_cases hprofile : img.profile ≠ h.profile
  · rw [if_pos hprofile, if_pos hprofile]
    rfl
  · rw [if_neg hprofile, if_neg hprofile]
    rfl

/-- Verification is the last that is done to what is read. -/
theorem read_verifying (p : LoadPolicy) (input : List UInt8) :
    ({ p with verify := true } : LoadPolicy).read input =
      ((({ p with verify := false } : LoadPolicy).read input).1 >>= verified,
        (({ p with verify := false } : LoadPolicy).read input).2) := by
  unfold read
  cases readHeader input with
  | mk result rest =>
    cases result with
    | error e => rfl
    | ok h =>
      have hsame : ({ p with verify := true } : LoadPolicy).readPayload h rest =
          ({ p with verify := false } : LoadPolicy).readPayload h rest := rfl
      dsimp only
      split
      · rw [hsame]
        cases ({ p with verify := false } : LoadPolicy).readPayload h rest with
        | mk result unread =>
          cases result with
          | error e => rfl
          | ok payload => exact Prod.ext (decodeImage_verifying p h payload) rfl
      · rfl

theorem read_verifying_eq_ok_iff (p : LoadPolicy) :
    ({ p with verify := true } : LoadPolicy).read input = (.ok img, unread) ↔
      ({ p with verify := false } : LoadPolicy).read input = (.ok img, unread) ∧
        img.validate = .ok () := by
  rw [read_verifying]
  cases ({ p with verify := false } : LoadPolicy).read input with
  | mk result rest =>
    cases result with
    | error e => exact iff_of_false (fun h => by cases h) fun h => by cases h.1
    | ok img' =>
      cases hvalid : img'.validate with
      | ok =>
        have hverified : (Except.ok img' >>= verified) = .ok img' := verified_of_ok hvalid
        rw [hverified]
        refine ⟨fun h => ⟨h, ?_⟩, And.left⟩
        cases h
        exact hvalid
      | error fault =>
        have hverified : (Except.ok img' >>= verified) = .error (.invalid fault) :=
          verified_of_error hvalid
        rw [hverified]
        constructor
        · intro h
          cases h
        · rintro ⟨h, hok⟩
          cases h
          rw [hvalid] at hok
          cases hok

theorem headerDecode_ne_invalid {bytes : Vector UInt8 headerSize} {fault : ImageFault} :
    WireHeader.decode bytes ≠ .error (.invalid fault) := by
  intro hdecode
  unfold WireHeader.decode at hdecode
  dsimp only at hdecode
  split at hdecode
  · cases hdecode
  · split at hdecode
    · cases hdecode
    · split at hdecode
      · cases hdecode
      · split at hdecode <;> cases hdecode

theorem readHeader_ne_invalid {fault : ImageFault} :
    readHeader input ≠ (.error (.invalid fault), unread) := by
  intro hread
  unfold readHeader at hread
  split at hread
  · exact headerDecode_ne_invalid (Prod.mk.inj hread).1
  · cases hread

theorem readPayload_ne_invalid {fault : ImageFault} :
    p.readPayload h input ≠ (.error (.invalid fault), unread) := by
  intro hread
  unfold readPayload at hread
  split at hread
  · cases hread
  · dsimp only at hread
    split at hread
    · cases hread
    · split at hread <;> cases hread

theorem decodeImage_ne_invalid (p : LoadPolicy) {fault : ImageFault} :
    ({ p with verify := false } : LoadPolicy).decodeImage h payload ≠ .error (.invalid fault) := by
  intro hdecode
  rw [decodeImage_unverified] at hdecode
  cases himage : Image.decode payload with
  | error e =>
    rw [himage] at hdecode
    cases hdecode
  | ok img =>
    rw [himage] at hdecode
    by_cases hprofile : img.profile ≠ h.profile
    · have hfault := (if_pos hprofile).symm.trans hdecode
      cases hfault
    · have hfault := (if_neg hprofile).symm.trans hdecode
      cases hfault

/-- A loader that does not verify never calls an image invalid. -/
theorem read_ne_invalid (p : LoadPolicy) {fault : ImageFault} :
    ({ p with verify := false } : LoadPolicy).read input ≠ (.error (.invalid fault), unread) := by
  intro hread
  unfold read at hread
  split at hread
  · next hheader =>
    cases hread
    exact readHeader_ne_invalid hheader
  · split at hread
    · split at hread
      · next hpayload =>
        cases hread
        exact readPayload_ne_invalid hpayload
      · exact decodeImage_ne_invalid p (Prod.mk.inj hread).1
    · cases hread

/-! ## Loading -/

/-- A loader answers an image, charged to an account if there is one, and leaves the rest of
the stream. -/
def Accepts (p : LoadPolicy) (input : List UInt8) (account : Option Account) (bank : Bank)
    (img : Image) (unread : List UInt8) : Prop :=
  ∃ held full, p.load input account bank = ⟨.ok held, unread, full⟩ ∧ held.image = img

theorem accepts_iff : p.Accepts input account bank img unread ↔
    p.read input = (.ok img, unread) ∧ bank.HasRoomFor account img := by
  constructor
  · rintro ⟨held, full, hload, rfl⟩
    cases hread : p.read input with
    | mk result rest =>
      cases result with
      | error e =>
        rw [load_of_unreadable account bank hread] at hload
        cases hload
      | ok img =>
        rw [load_of_read account bank hread] at hload
        obtain ⟨hheld, rfl, _⟩ := Loaded.mk.inj hload
        have hheld := mapError_eq_ok_iff.mp hheld
        rw [Image.image_of_hold hheld]
        exact ⟨rfl, Image.exists_hold_iff.mp ⟨held, hheld⟩⟩
  · rintro ⟨hread, hroom⟩
    obtain ⟨held, hheld⟩ := Image.exists_hold_iff.mpr hroom
    refine ⟨held, (img.hold account bank).2, ?_, Image.image_of_hold hheld⟩
    rw [load_of_read account bank hread, hheld]
    rfl

/-- Nothing is wrong with a stream for a loader but that its image is not valid: that is what
the loader reports if it verifies, and there is room for the image. -/
structure OnlyInvalid (p : LoadPolicy) (input : List UInt8) (account : Option Account)
    (bank : Bank) (img : Image) (unread : List UInt8) : Prop where
  refused : ∃ fault, img.validate = .error fault ∧
    ({ p with verify := true } : LoadPolicy).load input account bank =
      ⟨.error (.fault (.invalid fault)), unread, bank⟩
  decoded : Image.decode (declaredPayload input) = .ok img
  room : bank.HasRoomFor account img

theorem onlyInvalid_iff : p.OnlyInvalid input account bank img unread ↔
    (∃ fault, img.validate = .error fault) ∧
      ({ p with verify := false } : LoadPolicy).read input = (.ok img, unread) ∧
      bank.HasRoomFor account img := by
  have hverifying := read_verifying p input
  constructor
  · rintro ⟨⟨fault, hinvalid, hload⟩, hdecoded, hroom⟩
    refine ⟨⟨fault, hinvalid⟩, ?_, hroom⟩
    cases hread : ({ p with verify := false } : LoadPolicy).read input with
    | mk result rest =>
      rw [hread] at hverifying
      cases result with
      | error e =>
        rw [load_of_unreadable account bank hverifying] at hload
        cases hload
        exact absurd hread (read_ne_invalid p)
      | ok img' =>
        have hsame := (decode_declaredPayload hread).symm.trans hdecoded
        obtain rfl := Except.ok.inj hsame
        have hfailed : ({ p with verify := true } : LoadPolicy).read input =
            (.error (.invalid fault), rest) :=
          hverifying.trans (Prod.ext (verified_of_error hinvalid) rfl)
        rw [load_of_unreadable account bank hfailed] at hload
        obtain rfl := (Loaded.mk.inj hload).2.1
        rfl
  · rintro ⟨⟨fault, hinvalid⟩, hread, hroom⟩
    refine ⟨⟨fault, hinvalid, ?_⟩, decode_declaredPayload hread, hroom⟩
    rw [hread] at hverifying
    refine load_of_unreadable account bank (hverifying.trans (Prod.ext ?_ rfl))
    exact verified_of_error hinvalid

/-- Settings only restrict.  A loader that verifies accepts what one with nothing set accepts,
with the same image, as far as the profile of the image will do, the declared length is
within the limit and there is room for the image.  One that does not verify accepts besides
what is not valid and nothing else.  The image is in any case the one in the payload. -/
theorem settings_only_restrict (p : LoadPolicy) (input : List UInt8) (account : Option Account)
    (bank : Bank) (img : Image) (unread : List UInt8) :
    (({ p with verify := true } : LoadPolicy).Accepts input account bank img unread ↔
      ({} : LoadPolicy).Accepts input none bank img unread ∧ img.profile.satisfies p.required ∧
        (∀ max ∈ p.maxBytes, declaredSize input ≤ max.toNat) ∧ bank.HasRoomFor account img) ∧
    (({ p with verify := false } : LoadPolicy).Accepts input account bank img unread ↔
      ({ p with verify := true } : LoadPolicy).Accepts input account bank img unread ∨
        p.OnlyInvalid input account bank img unread) ∧
    (p.Accepts input account bank img unread → Image.decode (declaredPayload input) = .ok img) := by
  have hnone : bank.HasRoomFor none img := fun _ h => by cases h
  refine ⟨?_, ?_, fun h => decode_declaredPayload (accepts_iff.mp h).1⟩
  · rw [accepts_iff, accepts_iff, read_verifying_iff]
    constructor
    · rintro ⟨⟨hread, hsatisfies, hlimit⟩, hroom⟩
      exact ⟨⟨hread, hnone⟩, hsatisfies, hlimit, hroom⟩
    · rintro ⟨⟨hread, _⟩, hsatisfies, hlimit, hroom⟩
      exact ⟨⟨hread, hsatisfies, hlimit⟩, hroom⟩
  · rw [accepts_iff, accepts_iff, onlyInvalid_iff, read_verifying_eq_ok_iff]
    cases hvalid : img.validate with
    | ok => simp
    | error fault => simp

/-- A file with room for it, and one of a class that is its own base. -/
theorem settings_only_restrict_ownBase :
    ({ required := .full, maxBytes := some 1000 } : LoadPolicy).Accepts (Image.oneClass none).file
      (some (.ledger 0)) #[{ limit := some 300, live := 40, blocks := 3 }] (Image.oneClass none) [] ∧
    ({} : LoadPolicy).OnlyInvalid (Image.oneClass (some ⟨0⟩)).file none {}
      (Image.oneClass (some ⟨0⟩)) [] ∧
    ({ verify := false } : LoadPolicy).Accepts (Image.oneClass (some ⟨0⟩)).file none {}
      (Image.oneClass (some ⟨0⟩)) [] ∧
    Image.decode (declaredPayload (Image.oneClass (some ⟨0⟩)).file) =
      .ok (Image.oneClass (some ⟨0⟩)) := by
  have hdefault : ({} : LoadPolicy).Accepts (Image.oneClass none).file none
      #[{ limit := some 300, live := 40, blocks := 3 }] (Image.oneClass none) [] :=
    accepts_iff.mpr ⟨Image.read_whole_file Image.validate_oneClass Image.length_encode_oneClass,
      fun _ h => by cases h⟩
  have hdeclared : declaredSize (Image.oneClass none).file ≤ 1000 := by
    rw [Image.file_eq, declaredSize_append, Image.payloadSize_header Image.length_encode_oneClass]
    simp only [Image.encode, Image.codec, Codec.imap, Codec.pair, List.length_append,
      Codec.length_text]
    decide +kernel
  have hroom : Bank.HasRoomFor #[{ limit := some 300, live := 40, blocks := 3 }]
      (some (.ledger 0)) (Image.oneClass none) := by
    have hsize : (Image.oneClass none).footprint = 104 := by decide +kernel
    refine (Bank.hasRoomFor_iff_admits rfl ?_).mpr ?_
    · rw [hsize]
      decide
    · rw [hsize]
      decide
  have honly : ({} : LoadPolicy).OnlyInvalid (Image.oneClass (some ⟨0⟩)).file none {}
      (Image.oneClass (some ⟨0⟩)) [] := by
    have hlength : (Image.oneClass (some ⟨0⟩)).encode.length < UInt64.size := by
      simp only [Image.encode, Image.codec, Codec.imap, Codec.pair, List.length_append,
        Codec.length_text]
      decide +kernel
    have hread := Image.read_file_unverified hlength []
    rw [List.append_nil] at hread
    refine onlyInvalid_iff.mpr ⟨?_, hread, fun _ h => by cases h⟩
    cases hvalid : (Image.oneClass (some ⟨0⟩)).validate with
    | error fault => exact ⟨fault, rfl⟩
    | ok =>
      have hwf := (Image.validate_eq_ok_iff (Image.addressable_oneClass (some ⟨0⟩))).mp hvalid
      exact absurd (.single ⟨_, rfl, rfl⟩) (hwf.acyclic ⟨0⟩)
  have haccepted := (settings_only_restrict {} (Image.oneClass (some ⟨0⟩)).file none {}
    (Image.oneClass (some ⟨0⟩)) []).2.1.mpr (Or.inr honly)
  refine ⟨?_, honly, haccepted, ?_⟩
  · refine (settings_only_restrict { required := .full, maxBytes := some 1000 } _ _ _ _ _).1.mpr
      ⟨hdefault, rfl, fun max hmax => ?_, hroom⟩
    obtain rfl := Option.some.inj hmax
    exact hdeclared
  · exact (settings_only_restrict { verify := false } _ _ _ _ _).2.2 haccepted

end LoadPolicy
end TypeAtlas
