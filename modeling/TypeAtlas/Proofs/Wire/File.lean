/-
Files are read back.

`LoadPolicy.Reads` collects what a loader asks of a header and a payload.  A stream
holds an image exactly if these come first in it, and what follows them stays unread.
A file that was written for a valid image meets all of that.
-/
import TypeAtlas.Proofs.Build.Outcome
import TypeAtlas.Proofs.Codec.Canonical
import TypeAtlas.Proofs.Wire.Header
import TypeAtlas.Wire.File

namespace TypeAtlas

open Check (bind_eq_ok_iff mapError_eq_ok_iff then_eq_ok_iff)

namespace LoadPolicy

variable {p : LoadPolicy} {h : WireHeader} {img : Image} {input payload rest unread : List UInt8}

/-! ## Headers -/

theorem readHeader_append (head : Vector UInt8 headerSize) (rest : List UInt8) :
    readHeader (head.toList ++ rest) = (WireHeader.decode head, rest) := by
  have hlength : head.toList.length = headerSize := head.length_toList
  have hle : headerSize ≤ (head.toList ++ rest).length := by
    rw [List.length_append]
    omega
  rw [readHeader, dif_pos hle]
  simp only [List.take_left' hlength, List.drop_left' hlength]
  rfl

theorem readHeader_eq_ok_iff : readHeader input = (.ok h, rest) ↔
    h.version = formatVersion ∧ input = h.encode.toList ++ rest := by
  constructor
  · intro hread
    by_cases hle : headerSize ≤ input.length
    · have hinput : input = (input.take headerSize) ++ input.drop headerSize :=
        (List.take_append_drop headerSize input).symm
      rw [readHeader, dif_pos hle] at hread
      obtain ⟨hdecode, rfl⟩ := Prod.mk.inj hread
      obtain ⟨hversion, hhead⟩ := WireHeader.decode_eq_ok_iff.mp hdecode
      refine ⟨hversion, ?_⟩
      rw [← hhead]
      exact hinput
    · rw [readHeader, dif_neg hle] at hread
      cases hread
  · intro hparts
    obtain ⟨hversion, rfl⟩ := hparts
    rw [readHeader_append, WireHeader.decode_eq_ok_iff.mpr ⟨hversion, rfl⟩]

/-! ## Payloads -/

theorem maxBytes_filter_eq_none_iff : p.maxBytes.filter (· < h.payloadSize) = none ↔
    ∀ max, p.maxBytes = some max → h.payloadSize ≤ max := by
  simp [Option.filter_eq_none_iff]

theorem readPayload_eq_ok_iff : p.readPayload h input = (.ok payload, unread) ↔
    (∀ max, p.maxBytes = some max → h.payloadSize ≤ max) ∧
    payload.length = h.payloadSize.toNat ∧ Blake3.hash payload = h.checksum ∧
    input = payload ++ unread := by
  rw [← maxBytes_filter_eq_none_iff]
  unfold readPayload
  constructor
  · intro hread
    split at hread
    · cases hread
    · next hlimit =>
      dsimp only at hread
      split at hread
      · cases hread
      · next hsize =>
        split at hread
        · cases hread
        · next hchecksum =>
          obtain ⟨hpayload, rfl⟩ := Prod.mk.inj hread
          obtain rfl := Except.ok.inj hpayload
          exact ⟨hlimit, of_not_not hsize, of_not_not hchecksum,
            (List.take_append_drop _ input).symm⟩
  · intro hparts
    obtain ⟨hlimit, hsize, hchecksum, rfl⟩ := hparts
    rw [hlimit]
    dsimp only
    rw [List.take_left' hsize, List.drop_left' hsize, if_neg (not_not_intro hsize),
      if_neg (not_not_intro hchecksum)]

theorem decodeImage_eq_ok_iff : p.decodeImage h payload = .ok img ↔
    Image.decode payload = .ok img ∧ img.profile = h.profile ∧
    (p.verify → img.validate = .ok ()) := by
  unfold decodeImage
  simp only [bind_eq_ok_iff, mapError_eq_ok_iff]
  constructor
  · intro hread
    obtain ⟨read, hdecode, hread⟩ := hread
    split at hread
    · cases hread
    · next hprofile =>
      split at hread
      · obtain ⟨hvalid, hread⟩ := then_eq_ok_iff.mp hread
        cases hread
        exact ⟨hdecode, of_not_not hprofile, fun _ => mapError_eq_ok_iff.mp hvalid⟩
      · next hverify =>
        cases hread
        exact ⟨hdecode, of_not_not hprofile, fun h => absurd h hverify⟩
  · intro hparts
    obtain ⟨hdecode, hprofile, hvalid⟩ := hparts
    refine ⟨img, hdecode, ?_⟩
    rw [if_neg (not_not_intro hprofile)]
    by_cases hverify : p.verify = true
    · rw [if_pos hverify, then_eq_ok_iff]
      exact ⟨mapError_eq_ok_iff.mpr (hvalid hverify), rfl⟩
    · rw [if_neg hverify]
      rfl

/-! ## Files -/

/-- What is asked of a header and a payload before the image in it is answered. -/
structure Reads (p : LoadPolicy) (h : WireHeader) (payload : List UInt8) (img : Image) : Prop where
  version : h.version = formatVersion
  satisfies : h.profile.satisfies p.required
  limit : ∀ max, p.maxBytes = some max → h.payloadSize ≤ max
  size : payload.length = h.payloadSize.toNat
  checksum : Blake3.hash payload = h.checksum
  image : Image.decode payload = .ok img
  profile : img.profile = h.profile
  valid : p.verify → img.validate = .ok ()

theorem read_eq_ok_iff : p.read input = (.ok img, unread) ↔
    ∃ h payload, input = h.encode.toList ++ (payload ++ unread) ∧ p.Reads h payload img := by
  unfold read
  constructor
  · intro hread
    split at hread
    · cases hread
    · next h rest hheader =>
      obtain ⟨hversion, rfl⟩ := readHeader_eq_ok_iff.mp hheader
      split at hread
      · next hsatisfies =>
        split at hread
        · cases hread
        · next payload unread' hpayload =>
          obtain ⟨himage, rfl⟩ := Prod.mk.inj hread
          obtain ⟨hlimit, hsize, hchecksum, rfl⟩ := readPayload_eq_ok_iff.mp hpayload
          obtain ⟨hdecode, hprofile, hvalid⟩ := decodeImage_eq_ok_iff.mp himage
          exact ⟨h, payload, rfl,
            ⟨hversion, hsatisfies, hlimit, hsize, hchecksum, hdecode, hprofile, hvalid⟩⟩
      · cases hread
  · intro hfile
    obtain ⟨h, payload, rfl, hreads⟩ := hfile
    rw [readHeader_eq_ok_iff.mpr ⟨hreads.version, rfl⟩]
    dsimp only
    rw [if_pos hreads.satisfies,
      readPayload_eq_ok_iff.mpr ⟨hreads.limit, hreads.size, hreads.checksum, rfl⟩]
    dsimp only
    rw [decodeImage_eq_ok_iff.mpr ⟨hreads.image, hreads.profile, hreads.valid⟩]

theorem load_of_unreadable {e : LoadFault} (account : Option Account) (bank : Bank)
    (hread : p.read input = (.error e, unread)) :
    p.load input account bank = ⟨.error (.fault e), unread, bank⟩ := by
  rw [load, hread]

/-- An image that was read is charged, and that alone can still fail. -/
theorem load_of_read (account : Option Account) (bank : Bank)
    (hread : p.read input = (.ok img, unread)) : p.load input account bank =
      ⟨(img.hold account bank).1.mapError (·.map .alloc), unread,
        (img.hold account bank).2⟩ := by
  rw [load, hread]

theorem load_none_eq_ok (bank : Bank) (hread : p.read input = (.ok img, unread)) :
    p.load input none bank = ⟨.ok { image := img }, unread, bank⟩ :=
  load_of_read none bank hread

end LoadPolicy

namespace Image

/-- The header that a file of this image starts with. -/
def header (img : Image) : WireHeader := .ofPayload img.profile img.encode

theorem file_eq (img : Image) : img.file = img.header.encode.toList ++ img.encode := rfl

theorem length_file (img : Image) : img.file.length = headerSize + img.encode.length := by
  rw [file_eq, List.length_append, Vector.length_toList]

variable {img : Image}

theorem payloadSize_header (h : img.encode.length < UInt64.size) :
    img.header.payloadSize.toNat = img.encode.length :=
  UInt64.toNat_ofNat_of_lt' h

/-- The header of a written file is one that every loader reads. -/
theorem readHeader_file (rest : List UInt8) :
    LoadPolicy.readHeader (img.file ++ rest) = (.ok img.header, img.encode ++ rest) := by
  rw [LoadPolicy.readHeader_eq_ok_iff, file_eq, List.append_assoc]
  exact ⟨rfl, rfl⟩

theorem reads_header {p : LoadPolicy} (hrequired : img.profile.satisfies p.required)
    (hlimit : ∀ max, p.maxBytes = some max → img.header.payloadSize ≤ max)
    (hvalid : p.verify → img.validate = .ok ())
    (h : img.encode.length < UInt64.size) : p.Reads img.header img.encode img where
  version := rfl
  satisfies := hrequired
  limit := hlimit
  size := (payloadSize_header h).symm
  checksum := rfl
  image := decode_encode (countable_of_length h)
  profile := rfl
  valid := hvalid

theorem read_of_reads_header {p : LoadPolicy} (hreads : p.Reads img.header img.encode img)
    (rest : List UInt8) : p.read (img.file ++ rest) = (.ok img, rest) := by
  rw [LoadPolicy.read_eq_ok_iff, file_eq, List.append_assoc]
  exact ⟨img.header, img.encode, rfl, hreads⟩

theorem read_file (hvalid : img.validate = .ok ()) (h : img.encode.length < UInt64.size)
    (rest : List UInt8) : ({} : LoadPolicy).read (img.file ++ rest) = (.ok img, rest) :=
  read_of_reads_header (reads_header rfl (fun _ hmax => by cases hmax) (fun _ => hvalid) h) rest

theorem read_whole_file (hvalid : img.validate = .ok ()) (h : img.encode.length < UInt64.size) :
    ({} : LoadPolicy).read img.file = (.ok img, []) := by
  have hread := read_file hvalid h []
  rwa [List.append_nil] at hread

/-- A loader that validates nothing gets any image back. -/
theorem read_file_unverified (h : img.encode.length < UInt64.size) (rest : List UInt8) :
    ({ verify := false } : LoadPolicy).read (img.file ++ rest) = (.ok img, rest) :=
  read_of_reads_header (reads_header rfl (fun _ hmax => by cases hmax) (fun hverify => by cases hverify) h) rest

/-- A loader with nothing set gets the image back and takes no more than its file. -/
structure Restored (img : Image) : Prop where
  header (rest : List UInt8) :
    LoadPolicy.readHeader (img.file ++ rest) = (.ok img.header, img.encode ++ rest)
  declared : img.header.payloadSize.toNat = img.encode.length
  length : img.file.length = headerSize + img.header.payloadSize.toNat
  loaded (rest : List UInt8) (bank : Bank) : ∃ held,
    ({} : LoadPolicy).load (img.file ++ rest) none bank = ⟨.ok held, rest, bank⟩ ∧
      held.image = img ∧ held.image.file = img.file

theorem restored_of_validate (hvalid : img.validate = .ok ())
    (h : img.encode.length < UInt64.size) : img.Restored where
  header := readHeader_file
  declared := payloadSize_header h
  length := by rw [length_file, payloadSize_header h]
  loaded rest bank :=
    ⟨_, LoadPolicy.load_none_eq_ok bank (read_file hvalid h rest), rfl, rfl⟩

/-- Every valid image is restored from its file, every image that is built among them.
A file states the length of its payload in 64 bits. -/
theorem file_round_trip :
    (∀ img : Image, img.validate = .ok () → img.encode.length < UInt64.size → img.Restored) ∧
    (∀ (p : Profile) (calls : List Draft.Call) (account : Option Account) (bank : Bank)
      (held : Holding), ((Draft.made p calls).build account bank).1 = .ok held →
      held.image.encode.length < UInt64.size → held.image.Restored) :=
  ⟨fun _ => restored_of_validate,
    fun _ _ _ _ _ hbuilt => restored_of_validate (Draft.validate_of_build hbuilt)⟩

theorem validate_oneClass : (oneClass none).validate = .ok () :=
  (validate_eq_ok_iff (addressable_oneClass none)).mpr wellFormed_oneClass

theorem length_encode_oneClass : (oneClass none).encode.length < UInt64.size := by
  simp only [encode, codec, Codec.imap, Codec.pair, List.length_append, Codec.length_text]
  decide +kernel

theorem file_round_trip_shapes :
    (oneClass none).Restored ∧
    ∃ held, ((Draft.made .full Draft.shapes).build none {}).1 = .ok held ∧
      held.image.Restored := by
  refine ⟨file_round_trip.1 _ validate_oneClass length_encode_oneClass, ?_⟩
  have hbuilt := Draft.build_none_ok {} Draft.validate_shapes
  exact ⟨_, hbuilt, file_round_trip.2 _ _ _ _ _ hbuilt Draft.length_encode_shapes⟩

end Image
end TypeAtlas
