/-
Names that differ in one word differ in their hash.

Every step of the hash can be undone: a product with an odd constant, a rotation, a word
xored in, a word xored with its own upper bits.  So the state after a word tells the state
before it, and with that known it tells the word.  Two inputs with one word changed part
at that word and never meet again, and the seed can be told from the hash of any input.
-/
import Mathlib.Data.Fintype.EquivFin
import TypeAtlas.Name.Murmur
import TypeAtlas.Proofs.Codec.Exact

namespace TypeAtlas

open Function (Injective Bijective)

namespace Murmur

/-! ## Steps on one word -/

theorem mul_injective (c inverse : UInt32) (h : c * inverse = 1) : Injective (· * c) := by
  intro x y hxy
  have hback : x * c * inverse = y * c * inverse := congrArg (· * inverse) hxy
  rwa [UInt32.mul_assoc, UInt32.mul_assoc, h, UInt32.mul_one, UInt32.mul_one] at hback

theorem xor_injective (k : UInt32) : Injective (· ^^^ k) :=
  fun _ _ => (UInt32.xor_left_inj k).mp

/-- A bit of a rotated word is the one that many places below, counted round. -/
theorem testBit_rotate {r : UInt32} (hpos : 0 < r.toNat) (hr : r.toNat < 32) (x : UInt32)
    {i : Nat} (hi : i < 32) : (rotate x r).toNat.testBit i =
      x.toNat.testBit (if i < r.toNat then i + 32 - r.toNat else i - r.toNat) := by
  have hback : (32 - r).toNat = 32 - r.toNat :=
    UInt32.toNat_sub_of_le 32 r (UInt32.le_iff_toNat_le.mpr hr.le)
  rw [rotate, UInt32.toNat_or, Nat.testBit_or, UInt32.toNat_shiftLeft, Nat.testBit_mod_two_pow,
    UInt32.toNat_shiftRight, hback, Nat.mod_eq_of_lt hr, Nat.mod_eq_of_lt (by omega),
    Nat.testBit_shiftLeft, Nat.testBit_shiftRight]
  split
  · next hlow =>
    have hsum : 32 - r.toNat + i = i + 32 - r.toNat := by omega
    simp [hi, hlow, hsum]
  · next hhigh =>
    have hout : x.toNat.testBit (32 - r.toNat + i) = false :=
      Nat.testBit_lt_two_pow (Nat.lt_of_lt_of_le x.toNat_lt
        (Nat.pow_le_pow_right Nat.two_pos (by omega)))
    simp [hi, hout, Nat.not_lt.mp hhigh]

theorem rotate_injective {r : UInt32} (hpos : 0 < r.toNat) (hr : r.toNat < 32) :
    Injective (rotate · r) := by
  intro x y hxy
  apply UInt32.toNat_inj.mp
  apply Nat.eq_of_testBit_eq
  intro i
  by_cases hi : i < 32
  · -- where bit `i` of the word has gone
    have hplace (j : Nat) (hj : j < 32)
        (hfrom : (if j < r.toNat then j + 32 - r.toNat else j - r.toNat) = i) :
        x.toNat.testBit i = y.toNat.testBit i := by
      rw [← hfrom, ← testBit_rotate hpos hr x hj, ← testBit_rotate hpos hr y hj]
      exact congrArg (fun w : UInt32 => w.toNat.testBit j) hxy
    by_cases hround : i + r.toNat < 32
    · exact hplace (i + r.toNat) hround (by rw [if_neg (by omega)]; omega)
    · exact hplace (i + r.toNat - 32) (by omega) (by rw [if_pos (by omega)]; omega)
  · have hout (w : UInt32) : w.toNat.testBit i = false :=
      Nat.testBit_lt_two_pow (Nat.lt_of_lt_of_le w.toNat_lt
        (Nat.pow_le_pow_right Nat.two_pos (Nat.not_lt.mp hi)))
    rw [hout, hout]

/-- The upper bits of two words that agree after the step agree before it, by induction, and
the rest follows from them. -/
theorem eq_of_xor_shiftRight {s : Nat} (hs : 0 < s) (x y : Nat)
    (h : x ^^^ x >>> s = y ^^^ y >>> s) : x = y := by
  induction hsum : x + y using Nat.strongRecOn generalizing x y with
  | ind n ih =>
    subst hsum
    have hsmall (w : Nat) : w >>> s ≤ w / 2 := by
      rw [Nat.shiftRight_eq_div_pow]
      exact Nat.div_le_div_left (Nat.le_self_pow hs.ne' 2) Nat.two_pos
    have hx := hsmall x
    have hy := hsmall y
    by_cases hzero : x + y = 0
    · omega
    · have hupper : x >>> s = y >>> s := by
        refine ih (x >>> s + y >>> s) (by omega) _ _ ?_ rfl
        rw [← Nat.shiftRight_xor_distrib, h, Nat.shiftRight_xor_distrib]
      rw [hupper] at h
      have hxor := congrArg (· ^^^ y >>> s) h
      simpa only [Nat.xor_assoc, Nat.xor_self, Nat.xor_zero] using hxor

theorem xor_shiftRight_injective {s : UInt32} (hpos : 0 < s.toNat) (hs : s.toNat < 32) :
    Injective fun x : UInt32 => x ^^^ (x >>> s) := by
  intro x y hxy
  have hnat := congrArg UInt32.toNat hxy
  simp only [UInt32.toNat_xor, UInt32.toNat_shiftRight, Nat.mod_eq_of_lt hs] at hnat
  exact UInt32.toNat_inj.mp (eq_of_xor_shiftRight hpos _ _ hnat)

theorem scramble_injective : Injective scramble := by
  have hfirst := mul_injective 0xcc9e2d51 0xdee13bb1 (by decide)
  have hlast := mul_injective 0x1b873593 0x56ed309b (by decide)
  exact hlast.comp ((rotate_injective (by decide) (by decide)).comp hfirst)

theorem finish_injective : Injective finish := by
  have hfirst := mul_injective 0x85ebca6b 0xa5cb9243 (by decide)
  have hlast := mul_injective 0xc2b2ae35 0x7ed1b41d (by decide)
  have hwide : Injective fun x : UInt32 => x ^^^ (x >>> 16) :=
    xor_shiftRight_injective (by decide) (by decide)
  have hnarrow : Injective fun x : UInt32 => x ^^^ (x >>> 13) :=
    xor_shiftRight_injective (by decide) (by decide)
  exact hwide.comp (hlast.comp (hnarrow.comp (hfirst.comp hwide)))

/-- What is done to the state once a word has been xored in. -/
theorem stir_injective : Injective fun x : UInt32 => rotate x 13 * 5 + 0xe6546b64 := by
  have hadd : Injective fun x : UInt32 => x + 0xe6546b64 := fun _ _ => (UInt32.add_left_inj _).mp
  have hmul := mul_injective 5 0xcccccccd (by decide)
  exact hadd.comp (hmul.comp (rotate_injective (by decide) (by decide)))

theorem absorb_state_injective (k : UInt32) : Injective (absorb · k) :=
  stir_injective.comp (xor_injective (scramble k))

theorem absorb_word_injective (h : UInt32) : Injective (absorb h) := by
  have hxor : Injective (h ^^^ ·) := fun _ _ => (UInt32.xor_right_inj h).mp
  exact stir_injective.comp (hxor.comp scramble_injective)

/-! ## Words of bytes -/

theorem toNat_word (bs : List UInt8) (h : bs.length ≤ 4) : (word bs).toNat = ofLittleEndian bs := by
  induction bs with
  | nil => rfl
  | cons b bs ih =>
    rw [List.length_cons] at h
    have hrest := ih (by omega)
    have hlt : ofLittleEndian bs < 256 ^ 3 :=
      Nat.lt_of_lt_of_le (ofLittleEndian_lt bs) (Nat.pow_le_pow_right (by decide) (by omega))
    have hb : b.toNat < 2 ^ 8 := b.toNat_lt
    have hfits : 256 * ofLittleEndian bs < 2 ^ 32 := by omega
    have hshift : (word bs <<< 8).toNat = 256 * ofLittleEndian bs := by
      rw [UInt32.toNat_shiftLeft, hrest]
      show ofLittleEndian bs <<< 8 % 2 ^ 32 = _
      rw [Nat.shiftLeft_eq, Nat.mul_comm, Nat.mod_eq_of_lt hfits]
    have hor : 256 * ofLittleEndian bs + b.toNat = 256 * ofLittleEndian bs ||| b.toNat :=
      Nat.two_pow_add_eq_or_of_lt hb _
    rw [word, UInt32.toNat_or, hshift, UInt8.toNat_toUInt32, Nat.or_comm, ← hor, Nat.add_comm,
      ofLittleEndian]

/-- Words of as many bytes are told apart by their bytes. -/
theorem eq_of_word_eq {bs cs : List UInt8} (hlength : bs.length = cs.length) (h : bs.length ≤ 4)
    (hword : word bs = word cs) : bs = cs := by
  have hnat := congrArg UInt32.toNat hword
  rw [toNat_word bs h, toNat_word cs (hlength ▸ h)] at hnat
  rw [← littleEndian_ofLittleEndian bs, hlength, hnat, littleEndian_ofLittleEndian]

theorem bytes_eq (x : UInt32) : bytes x = littleEndian 4 x.toNat := by
  have hbyte (s : UInt32) (n : Nat) (hs : s.toNat % 32 = n) :
      (x >>> s).toUInt8 = UInt8.ofNat (x.toNat / 2 ^ n) := by
    apply UInt8.toNat_inj.mp
    rw [UInt32.toNat_toUInt8, UInt32.toNat_shiftRight, hs, Nat.shiftRight_eq_div_pow,
      UInt8.toNat_ofNat']
  simp only [bytes, littleEndian, hbyte 8 8 rfl, hbyte 16 16 rfl, hbyte 24 24 rfl,
    Nat.div_div_eq_div_mul]
  rfl

theorem bytes_injective : Injective bytes := by
  intro x y hxy
  have hback (z : UInt32) : ofLittleEndian (bytes z) = z.toNat := by
    rw [bytes_eq]
    exact ofLittleEndian_littleEndian z.toNat_lt
  exact UInt32.toNat_inj.mp (hback x ▸ hback y ▸ congrArg ofLittleEndian hxy)

/-! ## Runs over the words -/

theorem absorbAll_word (h : UInt32) {w : List UInt8} (hw : w.length = 4) (rest : List UInt8) :
    absorbAll h (w ++ rest) = absorbAll (absorb h (word w)) rest := by
  obtain ⟨a, b, c, d, rfl⟩ := List.length_eq_four.mp hw
  rw [absorbAll.eq_def]
  rfl

/-- A last word that is not whole.  Of no bytes it is zero, and leaves the state alone. -/
theorem absorbAll_tail (h : UInt32) {tail : List UInt8} (htail : tail.length < 4) :
    absorbAll h tail = h ^^^ scramble (word tail) := by
  have hzero : scramble 0 = 0 := by decide
  rcases tail with _ | ⟨a, _ | ⟨b, _ | ⟨c, _ | ⟨d, rest⟩⟩⟩⟩
  · rw [absorbAll.eq_def, word, hzero, UInt32.xor_zero]
  · rw [absorbAll.eq_def]
  · rw [absorbAll.eq_def]
  · rw [absorbAll.eq_def]
  · simp only [List.length_cons] at htail
    omega

/-- Every fourth byte ends a word. -/
theorem absorbAll_append (h : UInt32) (k : Nat) {front : List UInt8} (hfront : front.length = 4 * k)
    (rest : List UInt8) : absorbAll h (front ++ rest) = absorbAll (absorbAll h front) rest := by
  induction k generalizing h front with
  | zero =>
    obtain rfl := List.length_eq_zero_iff.mp hfront
    rfl
  | succ k ih =>
    have hw : (front.take 4).length = 4 := by
      rw [List.length_take]
      omega
    have hmore : (front.drop 4).length = 4 * k := by
      rw [List.length_drop]
      omega
    rw [← List.take_append_drop 4 front, List.append_assoc, absorbAll_word h hw, ih _ hmore,
      absorbAll_word h hw]

theorem absorbAll_injective (data : List UInt8) : Injective (absorbAll · data) := by
  induction hn : data.length using Nat.strongRecOn generalizing data with
  | ind n ih =>
    subst hn
    by_cases hshort : data.length < 4
    · intro h h' heq
      simp only [absorbAll_tail _ hshort] at heq
      exact xor_injective _ heq
    · have hw : (data.take 4).length = 4 := by
        rw [List.length_take]
        omega
      have hrest : (data.drop 4).length < data.length := by
        rw [List.length_drop]
        omega
      have hsplit (h : UInt32) :
          absorbAll h data = absorbAll (absorb h (word (data.take 4))) (data.drop 4) := by
        rw [← absorbAll_word h hw, List.take_append_drop]
      simp only [hsplit]
      exact (ih _ hrest _ rfl).comp (absorb_state_injective _)

/-! ## Hashes -/

theorem hash_seed_injective (data : List UInt8) : Injective (hash data) :=
  finish_injective.comp ((xor_injective _).comp (absorbAll_injective data))

theorem hash_bijective (data : List UInt8) : Bijective (hash data) := by
  have : Finite UInt32 := Finite.of_injective UInt32.toFin fun _ _ => UInt32.toFin_inj.mp
  exact Finite.injective_iff_bijective.mp (hash_seed_injective data)

/-- Inputs of one length that differ within the word at `4 * k` and nowhere else.  The last
word may be shorter than four bytes. -/
structure DifferInWord (k : Nat) (a b : List UInt8) : Prop where
  length : a.length = b.length
  before : a.take (4 * k) = b.take (4 * k)
  after : a.drop (4 * k + 4) = b.drop (4 * k + 4)
  distinct : a ≠ b

/-- The word that differs may be taken for the first. -/
theorem absorbAll_ne_of_first {a b : List UInt8} (hfirst : DifferInWord 0 a b) (h : UInt32) :
    absorbAll h a ≠ absorbAll h b := by
  intro heq
  by_cases hshort : a.length < 4
  · rw [absorbAll_tail h hshort, absorbAll_tail h (hfirst.length ▸ hshort)] at heq
    have hword := scramble_injective ((UInt32.xor_right_inj h).mp heq)
    exact hfirst.distinct (eq_of_word_eq hfirst.length hshort.le hword)
  · have hwhole {c : List UInt8} (hc : ¬ c.length < 4) : (c.take 4).length = 4 := by
      rw [List.length_take]
      omega
    have ha := hwhole hshort
    have hb := hwhole (hfirst.length ▸ hshort)
    have hrest : a.drop 4 = b.drop 4 := hfirst.after
    rw [← List.take_append_drop 4 a, ← List.take_append_drop 4 b, absorbAll_word h ha,
      absorbAll_word h hb, hrest] at heq
    have hword := absorb_word_injective h (absorbAll_injective _ heq)
    have hfour := eq_of_word_eq (ha.trans hb.symm) ha.le hword
    apply hfirst.distinct
    rw [← List.take_append_drop 4 a, hfour, hrest, List.take_append_drop]

theorem DifferInWord.absorbAll_ne {k : Nat} {a b : List UInt8} (hdiffer : DifferInWord k a b)
    (h : UInt32) : absorbAll h a ≠ absorbAll h b := by
  have hlong : 4 * k < a.length := by
    by_contra hend
    have hend := Nat.not_lt.mp hend
    have hsame := hdiffer.before
    rw [List.take_of_length_le hend, List.take_of_length_le (hdiffer.length ▸ hend)] at hsame
    exact hdiffer.distinct hsame
  have hfront : (a.take (4 * k)).length = 4 * k := by
    rw [List.length_take]
    omega
  have hrest : DifferInWord 0 (a.drop (4 * k)) (b.drop (4 * k)) := {
    length := by rw [List.length_drop, List.length_drop, hdiffer.length]
    before := rfl
    after := by
      rw [List.drop_drop, List.drop_drop]
      exact hdiffer.after
    distinct := fun hsame => hdiffer.distinct (by
      rw [← List.take_append_drop (4 * k) a, hdiffer.before, hsame, List.take_append_drop]) }
  rw [← List.take_append_drop (4 * k) a, ← List.take_append_drop (4 * k) b, ← hdiffer.before,
    absorbAll_append h k hfront, absorbAll_append h k hfront]
  exact absorbAll_ne_of_first hrest _

theorem DifferInWord.hash_ne {k : Nat} {a b : List UInt8} (hdiffer : DifferInWord k a b)
    (seed : UInt32) : hash a seed ≠ hash b seed := by
  intro heq
  have hstates := finish_injective heq
  rw [hdiffer.length] at hstates
  exact hdiffer.absorbAll_ne seed (xor_injective _ hstates)

/-- Inputs of at most one word differ in that word if they differ. -/
theorem differInWord_of_short {a b : List UInt8} (hlength : a.length = b.length)
    (hshort : a.length ≤ 4) (hne : a ≠ b) : DifferInWord 0 a b where
  length := hlength
  before := rfl
  after := by rw [List.drop_eq_nil_of_le hshort, List.drop_eq_nil_of_le (hlength ▸ hshort)]
  distinct := hne

end Murmur

open Murmur

theorem mixHashes_injective (scope : UInt32) : Injective (mixHashes scope) := by
  intro x y hxy
  rw [mixHashes_def, mixHashes_def] at hxy
  by_contra hne
  have hbytes : bytes x ≠ bytes y := fun h => hne (bytes_injective h)
  have hlength (z : UInt32) : (bytes z).length = 4 := rfl
  have hdiffer := differInWord_of_short ((hlength x).trans (hlength y).symm) (hlength x).le hbytes
  exact hdiffer.hash_ne scope hxy

theorem hashTextFrom_ne_of_short {s t : String} (hlength : s.utf8ByteSize = t.utf8ByteSize)
    (hshort : s.utf8ByteSize ≤ 4) (hne : s ≠ t) (seed : UInt32) :
    hashTextFrom seed s ≠ hashTextFrom seed t := by
  rw [← Codec.length_toList_toByteArray s] at hlength hshort
  rw [← Codec.length_toList_toByteArray t] at hlength
  refine (differInWord_of_short hlength hshort fun hsame => hne ?_).hash_ne seed
  apply String.toByteArray_inj.mp
  rw [← Codec.toByteArray_toList s.toByteArray, hsame, Codec.toByteArray_toList]

/-- The hash tells apart what differs in one word.  The seed can be told from the hash of any
input, and inputs of one length with one word changed have different hashes under every seed.
So of two hashes that are mixed each can be told when the other is known, and names of one
length up to four bytes never share a hash. -/
theorem hash_tells_words_apart :
    (∀ data, Bijective (Murmur.hash data)) ∧
    (∀ seed k a b, DifferInWord k a b → Murmur.hash a seed ≠ Murmur.hash b seed) ∧
    (∀ scope, Injective (mixHashes scope)) ∧
    (∀ member, Injective fun scope => mixHashes scope member) ∧
    (∀ s t : String, s.utf8ByteSize = t.utf8ByteSize → s.utf8ByteSize ≤ 4 → s ≠ t →
      hashText s ≠ hashText t) :=
  ⟨hash_bijective, fun seed _ _ _ hdiffer => hdiffer.hash_ne seed, mixHashes_injective,
    fun member => hash_seed_injective (bytes member),
    fun _ _ hlength hshort hne => hashTextFrom_ne_of_short hlength hshort hne 0⟩

/-- Seven bytes that differ in the last word, of three, and two names of three bytes. -/
theorem hash_tells_words_apart_lastWord :
    DifferInWord 1 [0x6d, 0x5f, 0x66, 0x6c, 0x61, 0x67, 0x73]
      [0x6d, 0x5f, 0x66, 0x6c, 0x69, 0x70, 0x73] ∧
    Murmur.hash [0x6d, 0x5f, 0x66, 0x6c, 0x61, 0x67, 0x73] 7 ≠
      Murmur.hash [0x6d, 0x5f, 0x66, 0x6c, 0x69, 0x70, 0x73] 7 ∧
    hashText "int" ≠ hashText "ptr" := by
  have hdiffer : DifferInWord 1 [0x6d, 0x5f, 0x66, 0x6c, 0x61, 0x67, 0x73]
      [0x6d, 0x5f, 0x66, 0x6c, 0x69, 0x70, 0x73] :=
    ⟨rfl, rfl, rfl, by decide⟩
  obtain ⟨_, hwords, _, _, hnames⟩ := hash_tells_words_apart
  exact ⟨hdiffer, hwords 7 1 _ _ hdiffer, hnames "int" "ptr" rfl (by decide) (by decide)⟩

end TypeAtlas
