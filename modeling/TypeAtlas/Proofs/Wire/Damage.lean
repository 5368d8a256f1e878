/-
Damaged files are refused.

Every byte of a header is bound by what is read after it.  Whatever header a payload is
put under, the image that is decoded fixes the length, the checksum and the profile that
the header must state, since no part of a payload decodes that is not the whole of it.
The payload itself is bound by its checksum only, so damage to it is refused if the
checksum changes with it.
-/
import TypeAtlas.Proofs.Wire.File

namespace TypeAtlas

namespace LoadPolicy

/-- Whoever loads these bytes gets a fault and no image. -/
def Refuses (p : LoadPolicy) (bytes : List UInt8) : Prop :=
  ∀ account bank, ∃ e, (p.load bytes account bank).result = .error (.fault e)

variable {p : LoadPolicy}

theorem refuses_of_not_reads {bytes : List UInt8}
    (h : ∀ head payload unread img, bytes = head.encode.toList ++ (payload ++ unread) →
      ¬ p.Reads head payload img) : p.Refuses bytes := by
  intro account bank
  cases hread : p.read bytes with
  | mk result unread =>
    cases result with
    | error e =>
      rw [load, hread]
      exact ⟨e, rfl⟩
    | ok img =>
      obtain ⟨head, payload, hbytes, hreads⟩ := read_eq_ok_iff.mp hread
      exact absurd hreads (h head payload unread img hbytes)

end LoadPolicy

theorem WireHeader.eq_of_encode_eq {h h' : WireHeader} (hversion : h.version = formatVersion)
    (hversion' : h'.version = formatVersion) (heq : h.encode = h'.encode) : h = h' := by
  have hread := WireHeader.decode_eq_ok_iff.mpr ⟨hversion, rfl⟩
  rw [heq, WireHeader.decode_eq_ok_iff.mpr ⟨hversion', rfl⟩] at hread
  exact (Except.ok.inj hread).symm

namespace Image

variable {p : LoadPolicy} {img : Image}

/-- Whatever header the payload of an image is read under, it is the one that was written
for the image, and the payload is read whole. -/
theorem eq_header_of_reads (hlength : img.encode.length < UInt64.size) {h : WireHeader}
    {payload : List UInt8} {img' : Image} (hreads : p.Reads h payload img')
    (hstart : payload <+: img.encode) : payload = img.encode ∧ h = img.header := by
  obtain ⟨hcountable, hwritten⟩ := decode_eq_ok_iff.mp hreads.image
  -- What is decoded is written at the start of the part, hence of the whole payload.
  obtain rfl := eq_of_isPrefix hcountable (countable_of_length hlength) (hwritten.trans hstart)
  have hwhole : payload = img.encode := hstart.eq_of_length_le hwritten.length_le
  subst hwhole
  have hsize : h.payloadSize = UInt64.ofNat img.encode.length := by
    rw [hreads.size, UInt64.ofNat_toNat]
  refine ⟨rfl, ?_⟩
  calc h = ⟨h.version, h.profile, h.payloadSize, h.checksum⟩ := rfl
    _ = img.header := by
      rw [hreads.version, ← hreads.profile, hsize, ← hreads.checksum]
      rfl

theorem refuses_cut (hlength : img.encode.length < UInt64.size) {cut : List UInt8}
    (hstart : cut <+: img.file) (hne : cut ≠ img.file) : p.Refuses cut := by
  refine LoadPolicy.refuses_of_not_reads fun h payload unread img' hcut hreads => ?_
  obtain ⟨lost, hfile⟩ := hstart
  rw [hcut, file_eq, List.append_assoc, List.append_assoc] at hfile
  -- A header was left, or there would be none to read; so it is the payload that was cut.
  obtain ⟨hhead, hpayload⟩ := List.append_inj hfile (by simp only [Vector.length_toList])
  have hpart : payload <+: img.encode := ⟨unread ++ lost, hpayload⟩
  obtain ⟨rfl, _⟩ := eq_header_of_reads hlength hreads hpart
  have hrest : unread ++ lost = [] := List.append_right_eq_self.mp hpayload
  obtain ⟨rfl, rfl⟩ := List.append_eq_nil_iff.mp hrest
  rw [List.append_nil, hhead] at hcut
  exact hne hcut

theorem refuses_header (hlength : img.encode.length < UInt64.size)
    {head : Vector UInt8 headerSize} (hne : head ≠ img.header.encode) :
    p.Refuses (head.toList ++ img.encode) := by
  refine LoadPolicy.refuses_of_not_reads fun h payload unread img' hfile hreads => ?_
  obtain ⟨hhead, hpayload⟩ := List.append_inj hfile (by simp only [Vector.length_toList])
  obtain ⟨_, rfl⟩ := eq_header_of_reads hlength hreads ⟨unread, hpayload.symm⟩
  exact hne (Vector.toList_inj.mp hhead)

theorem refuses_payload {payload : List UInt8} (hlength : img.encode.length < UInt64.size)
    (hsame : payload.length = img.encode.length)
    (hhash : Blake3.hash payload ≠ Blake3.hash img.encode) :
    p.Refuses (img.header.encode.toList ++ payload) := by
  refine LoadPolicy.refuses_of_not_reads fun h read unread img' hfile hreads => ?_
  obtain ⟨hhead, hpayload⟩ := List.append_inj hfile (by simp only [Vector.length_toList])
  obtain rfl : img.header = h :=
    WireHeader.eq_of_encode_eq rfl hreads.version (Vector.toList_inj.mp hhead)
  have hsize := hreads.size
  rw [payloadSize_header hlength, ← hsame] at hsize
  have hread : read = payload := by
    have hstart : read <+: payload := ⟨unread, hpayload.symm⟩
    exact hstart.eq_of_length hsize
  rw [← hread, hreads.checksum] at hhash
  exact hhash rfl

theorem file_set_of_lt {i : Nat} (b : UInt8) (hi : i < headerSize) :
    img.file.set i b = (img.header.encode.set i b).toList ++ img.encode := by
  have hhead : img.header.encode.toList.length = headerSize := Vector.length_toList
  rw [file_eq, List.set_append_left _ _ (by omega), Vector.toList_set]

theorem file_set_of_le {i : Nat} (b : UInt8) (hi : headerSize ≤ i) :
    img.file.set i b = img.header.encode.toList ++ img.encode.set (i - headerSize) b := by
  have hhead : img.header.encode.toList.length = headerSize := Vector.length_toList
  rw [file_eq, List.set_append_right _ _ (by omega), hhead]

theorem file_getElem?_of_lt {i : Nat} (hi : i < headerSize) :
    img.file[i]? = some img.header.encode[i] := by
  have hhead : img.header.encode.toList.length = headerSize := Vector.length_toList
  rw [file_eq, List.getElem?_append_left (by omega),
    List.getElem?_eq_getElem (by omega), Vector.getElem_toList]

/-- The byte of a header that tells the profile. -/
theorem file_getElem?_profile : img.file[6]? = some img.profile.tag := by
  have hprofile := (WireHeader.eq_encode_iff.mp (Eq.refl img.header.encode)).2.2.1
  rw [file_getElem?_of_lt (by decide), hprofile]
  rfl

/-- One byte of a file is replaced by another.  Past the header this has to show in the
checksum. -/
theorem refuses_set (hlength : img.encode.length < UInt64.size) {i : Nat} {b : UInt8}
    (hne : img.file[i]? ≠ some b) (hhash : headerSize ≤ i →
      Blake3.hash ((img.file.set i b).drop headerSize) ≠ Blake3.hash img.encode) :
    p.Refuses (img.file.set i b) := by
  by_cases hi : i < headerSize
  · rw [file_getElem?_of_lt hi] at hne
    rw [file_set_of_lt b hi]
    refine refuses_header hlength fun heq => hne ?_
    rw [← heq, Vector.getElem_set_self]
  · have hle := Nat.le_of_not_lt hi
    have hhash := hhash hle
    rw [file_set_of_le b hle, List.drop_left' Vector.length_toList] at hhash
    rw [file_set_of_le b hle]
    exact refuses_payload hlength List.length_set hhash

/-- Whatever its settings, a loader refuses a file that is cut off, one under any other
header, and one with another payload of that length if the checksum tells them apart.
So no byte of a file can be changed, past the header under the same condition.  A file
states the length of its payload in 64 bits. -/
theorem damaged_file_refused (p : LoadPolicy) (img : Image)
    (hlength : img.encode.length < UInt64.size) :
    (∀ cut, cut <+: img.file → cut ≠ img.file → p.Refuses cut) ∧
    (∀ head : Vector UInt8 headerSize, head ≠ img.header.encode →
      p.Refuses (head.toList ++ img.encode)) ∧
    (∀ payload, payload.length = img.encode.length →
      Blake3.hash payload ≠ Blake3.hash img.encode →
      p.Refuses (img.header.encode.toList ++ payload)) ∧
    (∀ i b, img.file[i]? ≠ some b →
      (headerSize ≤ i → Blake3.hash ((img.file.set i b).drop headerSize) ≠
        Blake3.hash img.encode) →
      p.Refuses (img.file.set i b)) :=
  ⟨fun _ => refuses_cut hlength, fun _ => refuses_header hlength,
    fun _ => refuses_payload hlength, fun _ _ => refuses_set hlength⟩

/-- A file without its last byte, and one whose profile is the other. -/
theorem damaged_file_refused_shapes :
    ({} : LoadPolicy).Refuses (Draft.made .full Draft.shapes).image.file.dropLast ∧
      ({} : LoadPolicy).Refuses ((Draft.made .full Draft.shapes).image.file.set 6 1) := by
  obtain ⟨hcut, _, _, hset⟩ := damaged_file_refused {} _ Draft.length_encode_shapes
  have hprofile : (Draft.made .full Draft.shapes).image.profile = .full := by decide +kernel
  constructor
  · refine hcut _ (List.dropLast_prefix _) fun h => ?_
    have hlength := congrArg List.length h
    rw [List.length_dropLast, length_file, headerSize] at hlength
    omega
  · refine hset 6 1 ?_ fun h => absurd h (by decide)
    rw [file_getElem?_profile, hprofile]
    decide

end Image
end TypeAtlas
