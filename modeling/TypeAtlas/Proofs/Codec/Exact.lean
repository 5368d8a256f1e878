/-
Exact codecs.

A codec is exact on some values if these are what it reads, each off the bytes that
are written for it and off no others.  The law has two sides: what was written is
read again, and what is read could only have been written like this.  It passes from
the parts of a format to the whole.
-/
import Mathlib.Algebra.Order.Ring.Nat
import TypeAtlas.Proofs.Check
import TypeAtlas.Wire.Header

namespace TypeAtlas

open Check (bind_eq_ok_iff)

/-! ## Bytes of a number -/

theorem ofLittleEndian_lt (bytes : List UInt8) : ofLittleEndian bytes < 256 ^ bytes.length := by
  induction bytes with
  | nil => exact Nat.one_pos
  | cons b bytes ih =>
    have hb := b.toNat_lt
    rw [ofLittleEndian, List.length_cons, Nat.pow_succ]
    omega

theorem ofLittleEndian_littleEndian {n x : Nat} (h : x < 256 ^ n) :
    ofLittleEndian (littleEndian n x) = x := by
  induction n generalizing x with
  | zero => exact (Nat.lt_one_iff.mp h).symm
  | succ n ih =>
    rw [Nat.pow_succ] at h
    rw [littleEndian, ofLittleEndian, ih (by omega), UInt8.toNat_ofNat']
    omega

theorem littleEndian_ofLittleEndian (bytes : List UInt8) :
    littleEndian bytes.length (ofLittleEndian bytes) = bytes := by
  induction bytes with
  | nil => rfl
  | cons b bytes ih =>
    have hb := b.toNat_lt
    have hhigh : (b.toNat + 256 * ofLittleEndian bytes) / 256 = ofLittleEndian bytes := by omega
    have hlow : UInt8.ofNat (b.toNat + 256 * ofLittleEndian bytes) = b := by
      apply UInt8.toNat_inj.mp
      rw [UInt8.toNat_ofNat']
      omega
    rw [ofLittleEndian, List.length_cons, littleEndian, hhigh, hlow, ih]

theorem eq_littleEndian_iff {n : Nat} {bytes : List UInt8} {x : Nat} (hbytes : bytes.length = n)
    (hx : x < 256 ^ n) : bytes = littleEndian n x ↔ ofLittleEndian bytes = x := by
  constructor
  · intro h
    rw [h, ofLittleEndian_littleEndian hx]
  · intro h
    rw [← h, ← hbytes, littleEndian_ofLittleEndian]

theorem takeBytes?_eq_some_iff {n : Nat} {bytes taken rest : List UInt8} :
    takeBytes? n bytes = some (taken, rest) ↔ taken.length = n ∧ bytes = taken ++ rest := by
  induction n generalizing bytes taken with
  | zero => cases taken <;> simp [takeBytes?, eq_comm]
  | succ n ih =>
    cases bytes with
    | nil => cases taken <;> simp [takeBytes?]
    | cons b bytes =>
      rw [takeBytes?, Option.map_eq_some_iff]
      constructor
      · intro h
        obtain ⟨first, hfirst, heq⟩ := h
        obtain ⟨rfl, rfl⟩ := Prod.mk.inj heq
        obtain ⟨hlength, hbytes⟩ := ih.mp hfirst
        exact ⟨congrArg Nat.succ hlength, congrArg (b :: ·) hbytes⟩
      · intro h
        obtain ⟨hlength, heq⟩ := h
        cases taken with
        | nil => cases hlength
        | cons b' taken =>
          obtain ⟨rfl, rfl⟩ := List.cons.inj heq
          exact ⟨(taken, rest), ih.mpr ⟨Nat.succ.inj hlength, rfl⟩, rfl⟩

namespace Codec

variable {α β : Type}

/-! ## The law -/

def ExactOn (c : Codec α) (fits : α → Prop) : Prop :=
  ∀ bytes x rest, c.decode bytes = .ok (x, rest) ↔ fits x ∧ bytes = c.encode x ++ rest

/-- Exact on all values. -/
def Exact (c : Codec α) : Prop := c.ExactOn fun _ => True

section laws

variable {c : Codec α} {d : Codec β} {fits : α → Prop} {fits' : β → Prop}

theorem ExactOn.congr {other : α → Prop} (h : c.ExactOn fits) (hfits : ∀ x, fits x ↔ other x) :
    c.ExactOn other := by
  intro bytes x rest
  rw [h bytes x rest, hfits]

theorem ExactOn.decode_encode (h : c.ExactOn fits) {x : α} (hx : fits x) (rest : List UInt8) :
    c.decode (c.encode x ++ rest) = .ok (x, rest) :=
  (h _ _ _).mpr ⟨hx, rfl⟩

theorem Exact.decode_eq_ok_iff (h : c.Exact) {bytes rest : List UInt8} {x : α} :
    c.decode bytes = .ok (x, rest) ↔ bytes = c.encode x ++ rest :=
  (h bytes x rest).trans (iff_of_eq (true_and _))

/-- No value is written as the start of another. -/
theorem ExactOn.eq_of_isPrefix (h : c.ExactOn fits) {x y : α} (hx : fits x) (hy : fits y)
    {rest : List UInt8} (heq : c.encode x = c.encode y ++ rest) : x = y ∧ rest = [] := by
  have hread := h.decode_encode hx []
  rw [List.append_nil, heq, h.decode_encode hy] at hread
  obtain ⟨hxy, hrest⟩ := Prod.mk.inj (Except.ok.inj hread)
  exact ⟨hxy.symm, hrest⟩

/-! ## Composition -/

theorem ExactOn.imap {forth : α → β} {back : β → α} (h : c.ExactOn fits)
    (hforth : ∀ y, forth (back y) = y) (hback : ∀ x, fits x → back (forth x) = x) :
    (c.imap forth back).ExactOn fun y => fits (back y) := by
  intro bytes y rest
  show (c.decode bytes >>= fun read => .ok (forth read.1, read.2)) = .ok (y, rest) ↔
    fits (back y) ∧ bytes = c.encode (back y) ++ rest
  rw [bind_eq_ok_iff]
  constructor
  · intro hread
    obtain ⟨⟨x, rest'⟩, hx, heq⟩ := hread
    cases heq
    obtain ⟨hfits, hbytes⟩ := (h _ _ _).mp hx
    rw [hback x hfits]
    exact ⟨hfits, hbytes⟩
  · intro hy
    exact ⟨(back y, rest), (h _ _ _).mpr hy, by rw [hforth]⟩

theorem ExactOn.pair (hc : c.ExactOn fits) (hd : d.ExactOn fits') :
    (c.pair d).ExactOn fun x => fits x.1 ∧ fits' x.2 := by
  intro bytes x rest
  show (c.decode bytes >>= fun first => d.decode first.2 >>= fun second =>
    .ok ((first.1, second.1), second.2)) = .ok (x, rest) ↔
    (fits x.1 ∧ fits' x.2) ∧ bytes = (c.encode x.1 ++ d.encode x.2) ++ rest
  simp only [bind_eq_ok_iff]
  constructor
  · intro hread
    obtain ⟨⟨x₁, middle⟩, hx₁, ⟨x₂, rest'⟩, hx₂, heq⟩ := hread
    cases heq
    obtain ⟨hfits, rfl⟩ := (hc _ _ _).mp hx₁
    obtain ⟨hfits', hmiddle⟩ := (hd _ _ _).mp hx₂
    refine ⟨⟨hfits, hfits'⟩, ?_⟩
    rw [List.append_assoc]
    exact congrArg (c.encode x₁ ++ ·) hmiddle
  · intro h
    obtain ⟨⟨hfits, hfits'⟩, rfl⟩ := h
    rw [List.append_assoc]
    exact ⟨_, hc.decode_encode hfits _, _, hd.decode_encode hfits' _, rfl⟩

theorem Exact.imap {forth : α → β} {back : β → α} (h : c.Exact)
    (hforth : ∀ y, forth (back y) = y) (hback : ∀ x, back (forth x) = x) :
    (c.imap forth back).Exact :=
  ExactOn.imap h hforth fun x _ => hback x

theorem Exact.pair (hc : c.Exact) (hd : d.Exact) : (c.pair d).Exact :=
  (ExactOn.pair hc hd).congr fun _ => iff_of_eq (and_self True)

theorem Exact.sigma {β : α → Type} {d : (x : α) → Codec (β x)} (hc : c.Exact)
    (hd : ∀ x, (d x).Exact) : (c.sigma d).Exact := by
  intro bytes x rest
  show (c.decode bytes >>= fun first => (d first.1).decode first.2 >>= fun second =>
    .ok ((⟨first.1, second.1⟩ : (x : α) × β x), second.2)) = .ok (x, rest) ↔
    True ∧ bytes = (c.encode x.1 ++ (d x.1).encode x.2) ++ rest
  simp only [bind_eq_ok_iff, true_and]
  constructor
  · intro hread
    obtain ⟨⟨x₁, middle⟩, hx₁, ⟨x₂, rest'⟩, hx₂, heq⟩ := hread
    cases heq
    rw [hc.decode_eq_ok_iff.mp hx₁, List.append_assoc]
    exact congrArg (c.encode x₁ ++ ·) ((hd x₁).decode_eq_ok_iff.mp hx₂)
  · intro h
    rw [h, List.append_assoc]
    exact ⟨_, hc.decode_eq_ok_iff.mpr rfl, _, (hd x.1).decode_eq_ok_iff.mpr rfl, rfl⟩

end laws

/-! ## Numbers -/

theorem unit_exact : unit.Exact := by
  intro bytes x rest
  show Except.ok ((), bytes) = Except.ok ((), rest) ↔ True ∧ bytes = rest
  simp

theorem nat_exactOn (n : Nat) : (nat n).ExactOn (· < 256 ^ n) := by
  intro bytes x rest
  unfold nat
  dsimp only
  constructor
  · intro h
    split at h
    · next taken rest' htake =>
      obtain ⟨rfl, rfl⟩ := Prod.mk.inj (Except.ok.inj h)
      obtain ⟨rfl, rfl⟩ := takeBytes?_eq_some_iff.mp htake
      rw [littleEndian_ofLittleEndian]
      exact ⟨ofLittleEndian_lt taken, rfl⟩
    · cases h
  · intro h
    obtain ⟨hx, rfl⟩ := h
    rw [takeBytes?_eq_some_iff.mpr ⟨length_littleEndian n x, rfl⟩]
    dsimp only
    rw [ofLittleEndian_littleEndian hx]

theorem nat_decode_littleEndian {n x : Nat} (h : x < 256 ^ n) (rest : List UInt8) :
    (nat n).decode (littleEndian n x ++ rest) = .ok (x, rest) :=
  (nat_exactOn n).decode_encode h rest

theorem u8_exact : u8.Exact :=
  (ExactOn.imap (nat_exactOn 1) (fun _ => UInt8.ofNat_toNat)
    fun _ h => UInt8.toNat_ofNat_of_lt' h).congr fun x => iff_of_true x.toNat_lt trivial

theorem u32_exact : u32.Exact :=
  (ExactOn.imap (nat_exactOn 4) (fun _ => UInt32.ofNat_toNat)
    fun _ h => UInt32.toNat_ofNat_of_lt' h).congr fun x => iff_of_true x.toNat_lt trivial

theorem i32_exact : i32.Exact := u32_exact.imap Int32.toInt32_toUInt32 UInt32.toUInt32_toInt32

theorem u8_decode_cons (b : UInt8) (rest : List UInt8) : u8.decode (b :: rest) = .ok (b, rest) := by
  refine u8_exact.decode_eq_ok_iff.mpr ?_
  show b :: rest = UInt8.ofNat b.toNat :: rest
  rw [UInt8.ofNat_toNat]

/-! ## Tags -/

theorem bool_decode_cons (b : UInt8) (rest : List UInt8) : bool.decode (b :: rest) =
    if b = 0 then .ok (false, rest) else if b = 1 then .ok (true, rest)
    else .error (.invalidBool b) := by
  unfold bool
  dsimp only
  rw [u8_decode_cons]
  dsimp only [bind, Except.bind]
  split
  · next h =>
    cases h
    rfl
  · next h =>
    cases h
    rfl
  · next hzero hone h =>
    cases h
    rw [if_neg hzero, if_neg hone]
    rfl

theorem option_decode_cons (c : Codec α) (b : UInt8) (rest : List UInt8) :
    (Codec.option c).decode (b :: rest) =
      if b = 0 then .ok (none, rest)
      else if b = 1 then c.decode rest >>= fun read => .ok (some read.1, read.2)
      else .error (.invalidOptionTag b) := by
  unfold Codec.option
  dsimp only
  rw [u8_decode_cons]
  dsimp only [bind, Except.bind]
  split
  · next h =>
    cases h
    rfl
  · next h =>
    cases h
    rfl
  · next hzero hone h =>
    cases h
    rw [if_neg hzero, if_neg hone]
    rfl

theorem bool_exact : bool.Exact := by
  intro bytes x rest
  show _ ↔ True ∧ bytes = (if x then 1 else 0) :: rest
  rw [true_and]
  cases bytes with
  | nil => exact iff_of_false (fun h => by cases h) (List.cons_ne_nil _ _).symm
  | cons b bytes =>
    rw [bool_decode_cons]
    by_cases hzero : b = 0
    · cases x <;> simp [hzero]
    · by_cases hone : b = 1
      · cases x <;> simp [hone]
      · cases x <;> simp [hzero, hone]

theorem choice_exact [BEq α] [LawfulBEq α] {cases : List α} (hall : ∀ x, x ∈ cases)
    (hnodup : cases.Nodup) (hcount : cases.length < 256 ^ 4) : (choice cases).Exact := by
  intro bytes x rest
  unfold choice
  dsimp only
  rw [bind_eq_ok_iff, true_and]
  constructor
  · intro h
    obtain ⟨⟨i, rest'⟩, hi, h⟩ := h
    dsimp only at h
    split at h
    · next y hy =>
      cases h
      obtain ⟨hlt, rfl⟩ := List.getElem?_eq_some_iff.mp hy
      rw [hnodup.idxOf_getElem i hlt]
      exact ((nat_exactOn 4 _ _ _).mp hi).2
    · cases h
  · intro h
    have hlt := List.idxOf_lt_length_of_mem (hall x)
    refine ⟨(cases.idxOf x, rest), (nat_exactOn 4 _ _ _).mpr ⟨Nat.lt_trans hlt hcount, h⟩, ?_⟩
    dsimp only
    rw [List.getElem?_idxOf (hall x)]
    rfl

theorem Exact.option {c : Codec α} (h : c.Exact) : (Codec.option c).Exact := by
  intro bytes x rest
  rw [true_and]
  cases bytes with
  | nil => cases x <;> exact iff_of_false (fun h => by cases h) (List.cons_ne_nil _ _).symm
  | cons b bytes =>
    rw [option_decode_cons]
    by_cases hzero : b = 0
    · cases x <;> simp [Codec.option, hzero]
    · rw [if_neg hzero]
      by_cases hone : b = 1
      · rw [if_pos hone, bind_eq_ok_iff, hone]
        cases x with
        | none => simp [Codec.option]
        | some x => simp [Codec.option, h.decode_eq_ok_iff]
      · cases x <;> simp [Codec.option, hzero, hone]

/-! ## Sequences -/

theorem Exact.decodeMany_eq_ok_iff {c : Codec α} (h : c.Exact) {n : Nat} {bytes rest : List UInt8}
    {xs : List α} : c.decodeMany n bytes = .ok (xs, rest) ↔
      xs.length = n ∧ bytes = xs.flatMap c.encode ++ rest := by
  induction n generalizing bytes xs with
  | zero => cases xs <;> simp [decodeMany, eq_comm]
  | succ n ih =>
    show (c.decode bytes >>= fun first => c.decodeMany n first.2 >>= fun others =>
      .ok (first.1 :: others.1, others.2)) = .ok (xs, rest) ↔ _
    simp only [bind_eq_ok_iff]
    constructor
    · intro hread
      obtain ⟨⟨x, middle⟩, hx, ⟨ys, rest'⟩, hys, heq⟩ := hread
      cases heq
      obtain ⟨hlength, hmiddle⟩ := ih.mp hys
      rw [h.decode_eq_ok_iff.mp hx, List.flatMap_cons, List.append_assoc]
      exact ⟨congrArg Nat.succ hlength, congrArg (c.encode x ++ ·) hmiddle⟩
    · intro hxs
      obtain ⟨hlength, rfl⟩ := hxs
      cases xs with
      | nil => cases hlength
      | cons x xs =>
        rw [List.flatMap_cons, List.append_assoc]
        exact ⟨_, h.decode_eq_ok_iff.mpr rfl, _, ih.mpr ⟨Nat.succ.inj hlength, rfl⟩, rfl⟩

theorem Exact.array {c : Codec α} (h : c.Exact) :
    (Codec.array c).ExactOn fun xs => xs.size < UInt64.size := by
  intro bytes xs rest
  show ((nat 8).decode bytes >>= fun count => c.decodeMany count.1 count.2 >>= fun items =>
    .ok (items.1.toArray, items.2)) = .ok (xs, rest) ↔
    xs.size < 256 ^ 8 ∧ bytes = (littleEndian 8 xs.size ++ xs.toList.flatMap c.encode) ++ rest
  simp only [bind_eq_ok_iff]
  constructor
  · intro hread
    obtain ⟨⟨n, middle⟩, hn, ⟨ys, rest'⟩, hys, heq⟩ := hread
    cases heq
    obtain ⟨hlt, hbytes⟩ := (nat_exactOn 8 _ _ _).mp hn
    obtain ⟨rfl, rfl⟩ := h.decodeMany_eq_ok_iff.mp hys
    refine ⟨hlt, ?_⟩
    rw [List.append_assoc]
    exact hbytes
  · intro hxs
    obtain ⟨hlt, rfl⟩ := hxs
    rw [List.append_assoc]
    exact ⟨_, (nat_exactOn 8).decode_encode hlt _, _, h.decodeMany_eq_ok_iff.mpr ⟨rfl, rfl⟩, rfl⟩

theorem Exact.vector {c : Codec α} (h : c.Exact) (n : Nat) : (c.vector n).Exact := by
  intro bytes xs rest
  rw [true_and]
  unfold Codec.vector
  dsimp only
  constructor
  · intro hread
    split at hread
    · cases hread
    · next ys rest' hys =>
      cases hread
      exact (h.decodeMany_eq_ok_iff.mp hys).2
  · intro hbytes
    have hread : c.decodeMany n bytes = .ok (xs.toList, rest) :=
      h.decodeMany_eq_ok_iff.mpr ⟨xs.length_toList, hbytes⟩
    split
    · next hys =>
      rw [hread] at hys
      cases hys
    · next ys rest' hys =>
      rw [hread] at hys
      cases hys
      rfl

/-! ## Items -/

/-- A value never takes less than a byte. -/
def TakesBytes (c : Codec α) : Prop := ∀ x, c.encode x ≠ []

theorem TakesBytes.length_le {c : Codec α} (h : c.TakesBytes) (xs : List α) :
    xs.length ≤ (xs.flatMap c.encode).length := by
  induction xs with
  | nil => exact Nat.le_refl 0
  | cons x xs ih =>
    have hx := List.length_pos_of_ne_nil (h x)
    rw [List.flatMap_cons, List.length_append, List.length_cons]
    omega

theorem TakesBytes.size_le {c : Codec α} (h : c.TakesBytes) (xs : Array α) :
    xs.size ≤ ((Codec.array c).encode xs).length := by
  have hitems := h.length_le xs.toList
  show xs.size ≤ (littleEndian 8 xs.size ++ xs.toList.flatMap c.encode).length
  rw [List.length_append]
  rw [Array.length_toList] at hitems
  omega

/-! ## Texts -/

theorem toList_loop (b : ByteArray) (i : Nat) (r : List UInt8) :
    ByteArray.toList.loop b i r = r.reverse ++ b.data.toList.drop i := by
  fun_induction ByteArray.toList.loop b i r with
  | case1 i r h ih =>
    have hi : i < b.data.toList.length := h
    have hget : b.get! i = b.data.toList[i] := getElem!_pos b.data i h
    rw [ih, List.reverse_cons, List.append_assoc, List.drop_eq_getElem_cons hi, hget]
    rfl
  | case2 i r h =>
    have hi : b.data.toList.length ≤ i := Nat.le_of_not_lt h
    rw [List.drop_eq_nil_of_le hi, List.append_nil]

theorem toList_eq_data (b : ByteArray) : b.toList = b.data.toList := toList_loop b 0 []

theorem toByteArray_toList (b : ByteArray) : b.toList.toByteArray = b := by
  apply ByteArray.ext
  rw [toList_eq_data, List.data_toByteArray, Array.toArray_toList]

theorem fromUTF8?_eq_some_iff {b : ByteArray} {s : String} :
    String.fromUTF8? b = some s ↔ s.toByteArray = b := by
  unfold String.fromUTF8?
  constructor
  · intro h
    split at h
    · obtain rfl := Option.some.inj h
      rfl
    · cases h
  · intro h
    subst h
    exact dif_pos s.isValidUTF8

theorem length_toList_toByteArray (s : String) : s.toByteArray.toList.length = s.utf8ByteSize := by
  rw [toList_eq_data]
  exact String.size_toByteArray

theorem length_text (s : String) : (text.encode s).length = 8 + s.utf8ByteSize := by
  show (littleEndian 8 s.utf8ByteSize ++ s.toByteArray.toList).length = 8 + s.utf8ByteSize
  rw [List.length_append, length_littleEndian, length_toList_toByteArray]

theorem text_exactOn : text.ExactOn fun s => s.utf8ByteSize < UInt64.size := by
  intro bytes s rest
  have hlength := length_toList_toByteArray s
  unfold text
  dsimp only
  rw [bind_eq_ok_iff, List.append_assoc]
  constructor
  · intro hread
    obtain ⟨⟨n, middle⟩, hn, hread⟩ := hread
    obtain ⟨hlt, rfl⟩ := (nat_exactOn 8 _ _ _).mp hn
    dsimp only at hread
    split at hread
    · cases hread
    · next taken rest' htake =>
      obtain ⟨rfl, rfl⟩ := takeBytes?_eq_some_iff.mp htake
      split at hread
      · next hs =>
        cases hread
        rw [fromUTF8?_eq_some_iff.mp hs, toList_eq_data, List.toList_data_toByteArray] at hlength ⊢
        rw [← hlength]
        exact ⟨hlt, rfl⟩
      · cases hread
  · intro hs
    obtain ⟨hlt, rfl⟩ := hs
    refine ⟨_, (nat_exactOn 8).decode_encode hlt _, ?_⟩
    dsimp only
    rw [takeBytes?_eq_some_iff.mpr ⟨hlength, rfl⟩]
    dsimp only
    rw [fromUTF8?_eq_some_iff.mpr (toByteArray_toList _).symm]
    rfl

end Codec
end TypeAtlas
