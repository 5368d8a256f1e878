/-
Payloads are canonical.

An image is read off exactly the payloads that start with what is written for it.  No
payload therefore holds two images, a payload that is cut off holds none, and where a
part of the format finds bytes that are not its own the whole payload is refused.
-/
import TypeAtlas.Proofs.Build.Outcome
import TypeAtlas.Proofs.Codec.Image

namespace TypeAtlas

open Check (bind_eq_error bind_eq_error_of_ok bind_eq_ok_iff)

namespace Codec

variable {α β : Type}

/-! ## Parts of a format -/

/-- In reading some bytes a codec comes to read `here` as `part`, all before it being
read without a fault. -/
inductive Reaches (part : Codec β) (here : List UInt8) : {α : Type} → Codec α → List UInt8 → Prop
  | whole : Reaches part here part here
  | imap {α γ : Type} {c : Codec α} {bytes : List UInt8} (forth : α → γ) (back : γ → α) :
      Reaches part here c bytes → Reaches part here (c.imap forth back) bytes
  | first {α γ : Type} {c : Codec α} {bytes : List UInt8} (d : Codec γ) :
      Reaches part here c bytes → Reaches part here (c.pair d) bytes
  | second {α γ : Type} {c : Codec α} {d : Codec γ} {bytes rest : List UInt8} {x : α} :
      c.decode bytes = .ok (x, rest) → Reaches part here d rest → Reaches part here (c.pair d) bytes
  | tag {α : Type} {γ : α → Type} {c : Codec α} {bytes : List UInt8} (d : (x : α) → Codec (γ x)) :
      Reaches part here c bytes → Reaches part here (c.sigma d) bytes
  | content {α : Type} {γ : α → Type} {c : Codec α} {d : (x : α) → Codec (γ x)}
      {bytes rest : List UInt8} {x : α} : c.decode bytes = .ok (x, rest) →
      Reaches part here (d x) rest → Reaches part here (c.sigma d) bytes
  | some {α : Type} {c : Codec α} {bytes : List UInt8} :
      Reaches part here c bytes → Reaches part here (option c) (1 :: bytes)
  | item {α : Type} {c : Codec α} {bytes items rest : List UInt8} {n i : Nat} {xs : List α} :
      (nat 8).decode bytes = .ok (n, items) → i < n → c.decodeMany i items = .ok (xs, rest) →
      Reaches part here c rest → Reaches part here (array c) bytes
  | slot {α : Type} {c : Codec α} {bytes rest : List UInt8} {n i : Nat} {xs : List α} :
      i < n → c.decodeMany i bytes = .ok (xs, rest) →
      Reaches part here c rest → Reaches part here (c.vector n) bytes

theorem decodeMany_error {c : Codec α} {i n : Nat} {bytes rest : List UInt8} {xs : List α}
    {e : DecodeError} (hi : i < n) (hbefore : c.decodeMany i bytes = .ok (xs, rest))
    (he : c.decode rest = .error e) : c.decodeMany n bytes = .error e := by
  induction i generalizing n bytes xs with
  | zero =>
    cases hbefore
    cases n with
    | zero => exact absurd hi (Nat.lt_irrefl 0)
    | succ n =>
      exact bind_eq_error he
  | succ i ih =>
    cases n with
    | zero => exact absurd hi (Nat.not_lt_zero _)
    | succ n =>
      rw [decodeMany, bind_eq_ok_iff] at hbefore
      obtain ⟨⟨x, middle⟩, hx, hbefore⟩ := hbefore
      obtain ⟨⟨ys, rest'⟩, hys, heq⟩ := bind_eq_ok_iff.mp hbefore
      cases heq
      exact bind_eq_error_of_ok hx (bind_eq_error (ih (Nat.lt_of_succ_lt_succ hi) hys))

/-- The first fault that a part meets is what the whole answers. -/
theorem Reaches.decode_eq_error {part : Codec β} {here bytes : List UInt8} {c : Codec α}
    {e : DecodeError} (h : Reaches part here c bytes) (he : part.decode here = .error e) :
    c.decode bytes = .error e := by
  induction h with
  | whole => exact he
  | imap _ _ _ ih => exact bind_eq_error ih
  | first _ _ ih => exact bind_eq_error ih
  | second hc _ ih => exact bind_eq_error_of_ok hc (bind_eq_error ih)
  | tag _ _ ih => exact bind_eq_error ih
  | content hc _ ih => exact bind_eq_error_of_ok hc (bind_eq_error ih)
  | some _ ih =>
    rw [option_decode_cons, if_neg (by decide), if_pos rfl]
    exact bind_eq_error ih
  | item hn hi hbefore _ ih =>
    exact bind_eq_error_of_ok hn (bind_eq_error (decodeMany_error hi hbefore ih))
  | @slot _ c bytes _ n _ _ hi hbefore _ ih =>
    have hmany := decodeMany_error hi hbefore ih
    unfold vector
    dsimp only
    split
    · next hother =>
      rw [hmany] at hother
      rw [Except.error.inj hother]
    · next hother =>
      rw [hmany] at hother
      cases hother

theorem decodeMany_eq_error {c : Codec α} (hc : c.Exact) (hbytes : c.TakesBytes) {n : Nat}
    {bytes : List UInt8} (h : bytes.length < n) : ∃ e, c.decodeMany n bytes = .error e := by
  cases hread : c.decodeMany n bytes with
  | error e => exact ⟨e, rfl⟩
  | ok read =>
    obtain ⟨hlength, hitems⟩ := hc.decodeMany_eq_ok_iff.mp hread
    have hle := hbytes.length_le read.1
    have htotal := congrArg List.length hitems
    rw [List.length_append] at htotal
    omega

end Codec

namespace Image

open Codec (Reaches bool_decode_cons option_decode_cons nat_decode_littleEndian)

/-! ## Faults -/

/-- What the arrays of an image hold. -/
inductive Item : {α : Type} → Codec α → Prop
  | name : Item NameSpan.codec
  | record (a : Arena) : Item (Record.codec a)
  | type : Item TypeId.codec
  | id (a : Arena) : Item (Id.codec : Codec (Id a))

theorem Item.exact {α : Type} {c : Codec α} (h : Item c) : c.Exact := by
  cases h with
  | name => exact NameSpan.codec_exact
  | record a => exact Record.codec_exact a
  | type => exact TypeId.codec_exact
  | id a => exact Id.codec_exact

theorem Item.takesBytes {α : Type} {c : Codec α} (h : Item c) : c.TakesBytes := by
  cases h with
  | name => exact nameSpan_takesBytes
  | record a => exact record_takesBytes a
  | type => exact typeId_takesBytes
  | id a => exact id_takesBytes

/-- A part of an image that finds what nothing is written as. -/
inductive Faulty : {α : Type} → Codec α → List UInt8 → Prop
  | option {α : Type} (c : Codec α) {b : UInt8} (rest : List UInt8) :
      b ≠ 0 → b ≠ 1 → Faulty (.option c) (b :: rest)
  | bool {b : UInt8} (rest : List UInt8) : b ≠ 0 → b ≠ 1 → Faulty .bool (b :: rest)
  | variant {α : Type} [BEq α] (cases : List α) {i : Nat} (rest : List UInt8) :
      cases.length ≤ i → i < UInt32.size → Faulty (.choice cases) (littleEndian 4 i ++ rest)
  | arrayLength {α : Type} {c : Codec α} {n : Nat} {rest : List UInt8} :
      Item c → rest.length < n → n < UInt64.size → Faulty (.array c) (littleEndian 8 n ++ rest)
  | textLength {n : Nat} {rest : List UInt8} :
      rest.length < n → n < UInt64.size → Faulty .text (littleEndian 8 n ++ rest)
  | notUtf8 {content : List UInt8} (rest : List UInt8) :
      ¬ content.toByteArray.IsValidUTF8 → content.length < UInt64.size →
      Faulty .text (littleEndian 8 content.length ++ (content ++ rest))

theorem Faulty.decode_eq_error {α : Type} {c : Codec α} {here : List UInt8} (h : Faulty c here) :
    ∃ e, c.decode here = .error e := by
  cases h with
  | option c rest hzero hone =>
    exact ⟨_, by rw [option_decode_cons, if_neg hzero, if_neg hone]⟩
  | bool rest hzero hone =>
    exact ⟨_, by rw [bool_decode_cons, if_neg hzero, if_neg hone]⟩
  | @variant _ _ cases i rest hcases hi =>
    refine ⟨.unknownVariant i cases.length, bind_eq_error_of_ok (nat_decode_littleEndian hi rest) ?_⟩
    dsimp only
    rw [List.getElem?_eq_none hcases]
    rfl
  | @arrayLength _ c n rest hitem hrest hn =>
    obtain ⟨e, he⟩ := Codec.decodeMany_eq_error hitem.exact hitem.takesBytes hrest
    exact ⟨e, bind_eq_error_of_ok (nat_decode_littleEndian hn rest) (bind_eq_error he)⟩
  | @textLength n rest hrest hn =>
    have htake : takeBytes? n rest = none := by
      rw [Option.eq_none_iff_forall_ne_some]
      intro read hread
      obtain ⟨hlength, hbytes⟩ := takeBytes?_eq_some_iff.mp hread
      have htotal := congrArg List.length hbytes
      rw [List.length_append] at htotal
      omega
    refine ⟨.textTooLong, bind_eq_error_of_ok (nat_decode_littleEndian hn rest) ?_⟩
    dsimp only
    rw [htake]
    rfl
  | @notUtf8 content rest hcontent hlength =>
    have hnone : String.fromUTF8? content.toByteArray = none := dif_neg hcontent
    refine ⟨.invalidText (.locate content),
      bind_eq_error_of_ok (nat_decode_littleEndian hlength (content ++ rest)) ?_⟩
    dsimp only
    rw [takeBytes?_eq_some_iff.mpr ⟨rfl, rfl⟩]
    dsimp only
    rw [hnone]
    rfl

/-! ## Payloads -/

theorem decode_eq_ok_iff {payload : List UInt8} {img : Image} :
    decode payload = .ok img ↔ img.Countable ∧ img.encode <+: payload := by
  show (codec.decode payload >>= fun read => .ok read.1) = .ok img ↔ _
  rw [bind_eq_ok_iff]
  constructor
  · intro h
    obtain ⟨⟨img', rest⟩, hread, heq⟩ := h
    cases heq
    obtain ⟨hcountable, hpayload⟩ := (codec_exactOn _ _ _).mp hread
    exact ⟨hcountable, rest, hpayload.symm⟩
  · intro h
    obtain ⟨hcountable, rest, hpayload⟩ := h
    exact ⟨(img, rest), (codec_exactOn _ _ _).mpr ⟨hcountable, hpayload.symm⟩, rfl⟩

theorem decode_encode {img : Image} (h : img.Countable) : decode img.encode = .ok img :=
  decode_eq_ok_iff.mpr ⟨h, List.prefix_rfl⟩

theorem eq_of_isPrefix {img img' : Image} (h : img.Countable) (h' : img'.Countable)
    (hstart : img.encode <+: img'.encode) : img' = img := by
  obtain ⟨rest, hrest⟩ := hstart
  exact (codec_exactOn.eq_of_isPrefix h' h hrest.symm).1

theorem decode_error_of_isPrefix {img : Image} {payload : List UInt8} (h : img.Countable)
    (hstart : payload <+: img.encode) (hne : payload ≠ img.encode) :
    ∃ e, decode payload = .error e := by
  cases hread : decode payload with
  | error e => exact ⟨e, rfl⟩
  | ok img' =>
    obtain ⟨h', hstart'⟩ := decode_eq_ok_iff.mp hread
    obtain rfl := eq_of_isPrefix h' h (hstart'.trans hstart)
    exact absurd (hstart.eq_of_length_le hstart'.length_le) hne

theorem decode_error_of_part {β : Type} {part : Codec β} {here payload : List UInt8}
    (hreaches : Reaches part here codec payload) (hfaulty : Faulty part here) :
    ∃ e, part.decode here = .error e ∧ decode payload = .error e := by
  obtain ⟨e, he⟩ := hfaulty.decode_eq_error
  exact ⟨e, he, bind_eq_error (hreaches.decode_eq_error he)⟩

/-- A payload holds an image exactly if it starts with what is written for it, so that
no two images share a payload.  A payload that is cut off is refused, and so is one
where any part is faulty. -/
theorem decode_canonical (payload : List UInt8) :
    (∀ img : Image, decode payload = .ok img ↔ img.Countable ∧ img.encode <+: payload) ∧
    (∀ img img' : Image, img.Countable → img'.Countable → img.encode <+: payload →
      img'.encode <+: payload → img = img') ∧
    (∀ payload' img, decode payload = .ok img → decode payload' = .ok img →
      ∃ ignored ignored', payload = img.encode ++ ignored ∧ payload' = img.encode ++ ignored') ∧
    (∀ img : Image, img.Countable → payload <+: img.encode → payload ≠ img.encode →
      ∃ e, decode payload = .error e) ∧
    (∀ (β : Type) (part : Codec β) (here : List UInt8), Reaches part here codec payload →
      Faulty part here → ∃ e, part.decode here = .error e ∧ decode payload = .error e) := by
  refine ⟨fun _ => decode_eq_ok_iff, ?_, ?_, fun _ => decode_error_of_isPrefix,
    fun _ _ _ => decode_error_of_part⟩
  · intro img img' h h' hstart hstart'
    have hread := decode_eq_ok_iff.mpr ⟨h, hstart⟩
    rw [decode_eq_ok_iff.mpr ⟨h', hstart'⟩] at hread
    exact (Except.ok.inj hread).symm
  · intro payload' img h h'
    obtain ⟨_, ignored, hpayload⟩ := decode_eq_ok_iff.mp h
    obtain ⟨_, ignored', hpayload'⟩ := decode_eq_ok_iff.mp h'
    exact ⟨ignored, ignored', hpayload.symm, hpayload'.symm⟩

/-- Bytes that follow an image are ignored, none of its own may be missing, and there is no
third profile. -/
theorem decode_canonical_shapes :
    decode ((Draft.made .full Draft.shapes).image.encode ++ [7]) =
      .ok (Draft.made .full Draft.shapes).image ∧
    (∃ e, decode (Draft.made .full Draft.shapes).image.encode.dropLast = .error e) ∧
    (∃ e, decode (littleEndian 4 2 ++ []) = .error e) := by
  have hcountable := countable_of_length Draft.length_encode_shapes
  refine ⟨((decode_canonical _).1 _).mpr ⟨hcountable, List.prefix_append _ _⟩, ?_, ?_⟩
  · refine (decode_canonical _).2.2.2.1 _ hcountable (List.dropLast_prefix _) fun heq => ?_
    have hlength := congrArg List.length heq
    have hpos : 0 < (Draft.made .full Draft.shapes).image.encode.length :=
      List.length_pos_of_ne_nil (List.cons_ne_nil _ _)
    rw [List.length_dropLast] at hlength
    omega
  · obtain ⟨e, _, he⟩ := (decode_canonical _).2.2.2.2 _ (.choice Profile.all) _
      (.imap _ _ (.first _ .whole)) (.variant Profile.all [] (Nat.le_refl 2) (by decide))
    exact ⟨e, he⟩

end Image
end TypeAtlas
