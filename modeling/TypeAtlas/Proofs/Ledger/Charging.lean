/-
Charging arrays to a ledger, one after another.

`Carries` relates a ledger, or a bank, to one in which more bytes and blocks are live.
Granting a block adds to it and releasing one takes from it, so a row of blocks that is
given up on the way carries nothing.  A ledger has room for a block that its limit admits
and that leaves the live bytes a word.  Where all the blocks together leave them one, the
limit alone decides.
-/
import Mathlib.Algebra.Order.Ring.Nat
import TypeAtlas.Image.Holding

namespace TypeAtlas

/-! ## One block -/

namespace Ledger

/-- The limit admits so many bytes beside those live. -/
def Admits (l : Ledger) (bytes : Nat) : Prop :=
  ∀ limit ∈ l.limit, l.live.toNat + bytes ≤ limit.toNat

instance (l : Ledger) (bytes : Nat) : Decidable (l.Admits bytes) :=
  decidable_of_iff (l.limit.all fun limit => l.live.toNat + bytes ≤ limit.toNat) <| by
    simp only [Option.all_eq_true, decide_eq_true_eq]
    rfl

/-- So many bytes more are admitted and counted. -/
structure HasRoom (l : Ledger) (bytes : Nat) : Prop where
  word : l.live.toNat + bytes < UInt64.size
  admits : l.Admits bytes

/-- More bytes and blocks are live than were, and the limit is the same. -/
structure Carries (l l' : Ledger) (bytes blocks : Nat) : Prop where
  limit : l'.limit = l.limit
  live : l'.live.toNat = l.live.toNat + bytes
  blocks : l'.blocks = l.blocks + blocks

variable {l l' : Ledger} {size : UInt64} {bytes more blocks : Nat}

theorem Admits.mono (h : l.Admits more) (hle : bytes ≤ more) : l.Admits bytes :=
  fun limit hlimit => Nat.le_trans (Nat.add_le_add_left hle _) (h limit hlimit)

theorem HasRoom.mono (h : l.HasRoom more) (hle : bytes ≤ more) : l.HasRoom bytes where
  word := Nat.lt_of_le_of_lt (Nat.add_le_add_left hle _) h.word
  admits := h.admits.mono hle

theorem Carries.refl (l : Ledger) : l.Carries l 0 0 := ⟨rfl, rfl, rfl⟩

theorem Carries.trans {l'' : Ledger} {blocks' : Nat} (h : l.Carries l' bytes blocks)
    (h' : l'.Carries l'' more blocks') : l.Carries l'' (bytes + more) (blocks + blocks') where
  limit := h'.limit.trans h.limit
  live := by rw [h'.live, h.live, Nat.add_assoc]
  blocks := by rw [h'.blocks, h.blocks, Nat.add_assoc]

theorem Carries.admits_iff (h : l.Carries l' bytes blocks) :
    l'.Admits more ↔ l.Admits (bytes + more) := by
  rw [Admits, Admits, h.limit, h.live, Nat.add_assoc]

theorem Carries.hasRoom_iff (h : l.Carries l' bytes blocks) :
    l'.HasRoom more ↔ l.HasRoom (bytes + more) := by
  have hword : l'.live.toNat + more = l.live.toNat + (bytes + more) := by
    rw [h.live, Nat.add_assoc]
  constructor
  · exact fun hroom => ⟨hword ▸ hroom.word, h.admits_iff.mp hroom.admits⟩
  · exact fun hroom => ⟨hword ▸ hroom.word, h.admits_iff.mpr hroom.admits⟩

/-! ### What granting a block comes to -/

/-- A block is refused under a limit that is not the largest word. -/
theorem refuses_iff : l.refuses size = true ↔ ∃ limit, l.limit = some limit ∧
    limit.toNat < UInt64.size - 1 ∧ limit.toNat < l.live.toNat + size.toNat := by
  rw [refuses]
  cases l.limit with
  | none => simp
  | some limit =>
    simp only [decide_eq_true_eq, Option.some.injEq, exists_eq_left']
    omega

theorem refuses_eq_false_iff (hword : l.live.toNat + size.toNat < UInt64.size) :
    l.refuses size = false ↔ l.Admits size.toNat := by
  rw [← Bool.not_eq_true, refuses_iff, Admits]
  cases l.limit with
  | none => simp
  | some limit =>
    simp only [Option.some.injEq, exists_eq_left', Option.mem_some_iff, forall_eq']
    omega

/-- A block is granted where there is room for it. -/
theorem alloc_eq_ok_iff : l.alloc size = .ok l' ↔ l.HasRoom size.toNat ∧ l' = l.grant size := by
  rw [alloc]
  by_cases hword : l.live.toNat + size.toNat < UInt64.size
  · rw [if_pos hword]
    cases hrefused : l.refuses size with
    | false =>
      have hroom : l.HasRoom size.toNat := ⟨hword, (refuses_eq_false_iff hword).mp hrefused⟩
      rw [if_neg Bool.false_ne_true, Except.ok.injEq, and_iff_right hroom, eq_comm]
    | true =>
      refine iff_of_false (by simp) fun h => ?_
      rw [(refuses_eq_false_iff hword).mpr h.1.admits] at hrefused
      cases hrefused
  · refine iff_of_false ?_ fun h => hword h.1.word
    rw [if_neg hword]
    split <;> simp

theorem exists_of_fault {e : AllocError} (h : l.alloc size = .error (.fault e)) :
    ∃ limit, l.limit = some limit ∧ limit.toNat < UInt64.size - 1 ∧
      limit.toNat < l.live.toNat + size.toNat := by
  rw [alloc] at h
  split at h
  · next hrefused => exact refuses_iff.mp hrefused
  · split at h <;> cases h

/-- Only what no word counts is a breach, and only where the limit, if there is one, admits
every word. -/
theorem alloc_eq_breach_iff {v : Violation} : l.alloc size = .error (.breach v) ↔
    v = .sumOverflow ∧ UInt64.size ≤ l.live.toNat + size.toNat ∧
      ∀ limit ∈ l.limit, limit.toNat = UInt64.size - 1 := by
  rw [alloc]
  cases hrefused : l.refuses size with
  | true =>
    obtain ⟨limit, hlimit, hsmall, _⟩ := refuses_iff.mp hrefused
    refine iff_of_false (by simp) fun ⟨_, _, hlargest⟩ => ?_
    exact Nat.ne_of_lt hsmall (hlargest limit hlimit)
  | false =>
    rw [if_neg Bool.false_ne_true]
    by_cases hword : l.live.toNat + size.toNat < UInt64.size
    · rw [if_pos hword]
      exact iff_of_false (by simp) fun h => Nat.not_le.mpr hword h.2.1
    · rw [if_neg hword, Except.error.injEq, Stop.breach.injEq, eq_comm]
      have hlarge := Nat.le_of_not_lt hword
      refine (and_iff_left ⟨hlarge, fun limit hlimit => ?_⟩).symm
      -- Any smaller limit would have refused the block.
      have hword := limit.toNat_lt_size
      by_contra hsmall
      rw [refuses_iff.mpr ⟨limit, hlimit, by omega, by omega⟩] at hrefused
      cases hrefused

theorem alloc_of_hasRoom (h : l.HasRoom size.toNat) : l.alloc size = .ok (l.grant size) :=
  alloc_eq_ok_iff.mpr ⟨h, rfl⟩

theorem HasRoom.carries (h : l.HasRoom size.toNat) : l.Carries (l.grant size) size.toNat 1 where
  limit := rfl
  live := (UInt64.toNat_add _ _).trans (Nat.mod_eq_of_lt h.word)
  blocks := rfl

theorem alloc_of_not_admits (hword : l.live.toNat + size.toNat < UInt64.size)
    (h : ¬ l.Admits size.toNat) : ∃ limit, l.limit = some limit ∧
      l.alloc size = .error (.fault (.exhausted size limit l.live)) := by
  have hrefused : l.refuses size = true := by
    rw [← Bool.not_eq_false, refuses_eq_false_iff hword]
    exact h
  obtain ⟨limit, hlimit, _⟩ := refuses_iff.mp hrefused
  refine ⟨limit, hlimit, ?_⟩
  rw [alloc, if_pos hrefused, hlimit]
  rfl

/-- A block that is live can be taken back. -/
theorem Carries.release (h : l.Carries l' (bytes + size.toNat) (blocks + 1)) :
    l.Carries (l'.release size) bytes blocks ∧ l'.free size = .ok (l'.release size) := by
  have hlive := h.live
  have hblocks := h.blocks
  have hle : size ≤ l'.live := by
    rw [UInt64.le_iff_toNat_le]
    omega
  refine ⟨⟨h.limit, ?_, ?_⟩, if_pos ⟨by omega, hle⟩⟩
  · show (l'.live - size).toNat = _
    rw [UInt64.toNat_sub_of_le _ _ hle]
    omega
  · show l'.blocks - 1 = _
    omega

end Ledger

namespace Bank

/-- More is live on one ledger of a bank, and the others are what they were. -/
structure Carries (bank bank' : Bank) (i : Nat) (bytes blocks : Nat) : Prop where
  ledger : ∃ l l', bank[i]? = some l ∧ bank'[i]? = some l' ∧ l.Carries l' bytes blocks
  others : ∀ j ≠ i, bank'[j]? = bank[j]?

variable {bank bank' : Bank} {i : Nat} {l : Ledger} {size : UInt64} {bytes more blocks : Nat}

theorem Carries.refl (hl : bank[i]? = some l) : bank.Carries bank i 0 0 :=
  ⟨⟨l, l, hl, hl, .refl l⟩, fun _ _ => rfl⟩

theorem Carries.trans {bank'' : Bank} {blocks' : Nat} (h : bank.Carries bank' i bytes blocks)
    (h' : bank'.Carries bank'' i more blocks') :
    bank.Carries bank'' i (bytes + more) (blocks + blocks') := by
  obtain ⟨l, l', hl, hl', hcarries⟩ := h.ledger
  obtain ⟨m, m', hm, hm', hcarries'⟩ := h'.ledger
  obtain rfl := Option.some.inj (hl'.symm.trans hm)
  exact ⟨⟨l, m', hl, hm', hcarries.trans hcarries'⟩,
    fun j hj => (h'.others j hj).trans (h.others j hj)⟩

theorem carries_set {l' l'' : Ledger} (hl : bank[i]? = some l) (hl' : bank'[i]? = some l')
    (hothers : ∀ j ≠ i, bank'[j]? = bank[j]?) (h : l.Carries l'' bytes blocks) :
    bank.Carries (bank'.setIfInBounds i l'') i bytes blocks := by
  have hi := (Array.getElem?_eq_some_iff.mp hl').1
  refine ⟨⟨l, l'', hl, Array.getElem?_setIfInBounds_self_of_lt hi, h⟩, fun j hj => ?_⟩
  exact (Array.getElem?_setIfInBounds_ne hj.symm).trans (hothers j hj)

theorem alloc_ledger (hl : bank[i]? = some l) :
    bank.alloc size (.ledger i) = (l.alloc size).map (bank.setIfInBounds i) := by
  simp only [alloc, hl]
  cases l.alloc size <;> rfl

theorem alloc_missing (hl : bank[i]? = none) : bank.alloc size (.ledger i) = .ok bank := by
  rw [alloc, hl]

theorem alloc_of_hasRoom (hl : bank[i]? = some l) (h : l.HasRoom size.toNat) :
    bank.alloc size (.ledger i) = .ok (bank.setIfInBounds i (l.grant size)) ∧
      bank.Carries (bank.setIfInBounds i (l.grant size)) i size.toNat 1 := by
  refine ⟨?_, carries_set hl hl (fun _ _ => rfl) h.carries⟩
  rw [alloc_ledger hl, Ledger.alloc_of_hasRoom h]
  rfl

theorem alloc_of_not_admits (hl : bank[i]? = some l)
    (hword : l.live.toNat + size.toNat < UInt64.size) (h : ¬ l.Admits size.toNat) :
    ∃ limit, l.limit = some limit ∧
      bank.alloc size (.ledger i) = .error (.fault (.exhausted size limit l.live)) := by
  obtain ⟨limit, hlimit, halloc⟩ := l.alloc_of_not_admits hword h
  refine ⟨limit, hlimit, ?_⟩
  rw [alloc_ledger hl, halloc]
  rfl

theorem release_eq_set (hl : bank[i]? = some l) :
    bank.release size (.ledger i) = bank.setIfInBounds i (l.release size) := by
  obtain ⟨hi, hget⟩ := Array.getElem?_eq_some_iff.mp hl
  refine Array.ext_getElem? fun j => ?_
  rw [release, Array.getElem?_modify, Array.getElem?_setIfInBounds]
  by_cases hj : i = j
  · subst hj
    simp [hi, hget]
  · simp [hj]

theorem Carries.release (h : bank.Carries bank' i (bytes + size.toNat) (blocks + 1)) :
    bank.Carries (bank'.release size (.ledger i)) i bytes blocks ∧
      bank'.free size (.ledger i) = .ok (bank'.release size (.ledger i)) := by
  obtain ⟨l, l', hl, hl', hcarries⟩ := h.ledger
  obtain ⟨hreleased, hfree⟩ := hcarries.release
  rw [release_eq_set hl']
  refine ⟨carries_set hl hl' h.others hreleased, ?_⟩
  simp only [free, hl', hfree]
  rfl

end Bank

/-! ## Many blocks -/

/-- The sizes in bytes of arrays, given by element size and element count. -/
def blockSizes (arrays : List (Nat × Nat)) : List Nat := arrays.map fun array => array.1 * array.2

/-- Of blocks that are asked for in turn, all up to one are admitted beside those before
them, and that one is refused with the bytes that are live then. -/
def Ledger.FirstRefused (l : Ledger) (sizes : List Nat) (e : AllocError) : Prop :=
  ∃ before size after limit, sizes = before ++ size :: after ∧ l.limit = some limit ∧
    (∀ front, front <+: before → front ≠ [] → l.Admits front.sum) ∧
    ¬ l.Admits (before.sum + size) ∧
    e = .exhausted (.ofNat size) limit (.ofNat (l.live.toNat + before.sum))

theorem Ledger.firstRefused_head {l : Ledger} {size : Nat} {limit : UInt64} (rest : List Nat)
    (hlimit : l.limit = some limit) (h : ¬ l.Admits size) :
    l.FirstRefused (size :: rest) (.exhausted (.ofNat size) limit l.live) := by
  refine ⟨[], size, rest, limit, rfl, hlimit, fun front hfront hne => ?_, ?_, ?_⟩
  · exact absurd (List.prefix_nil.mp hfront) hne
  · simpa using h
  · simp

theorem Ledger.FirstRefused.cons {l l' : Ledger} {size : Nat} {rest : List Nat} {e : AllocError}
    {blocks : Nat} (h : l'.FirstRefused rest e) (hcarries : l.Carries l' size blocks)
    (hsize : l.Admits size) : l.FirstRefused (size :: rest) e := by
  obtain ⟨before, refused, after, limit, rfl, hlimit, hadmits, hrefused, rfl⟩ := h
  refine ⟨size :: before, refused, after, limit, rfl, hcarries.limit ▸ hlimit, ?_, ?_, ?_⟩
  · intro front hfront hne
    obtain ⟨x, front, rfl⟩ := List.exists_cons_of_ne_nil hne
    obtain ⟨rfl, hprefix⟩ := List.cons_prefix_cons.mp hfront
    rw [List.sum_cons]
    by_cases hnil : front = []
    · subst hnil
      exact hsize
    · exact hcarries.admits_iff.mp (hadmits front hprefix hnil)
  · rw [List.sum_cons, Nat.add_assoc, ← hcarries.admits_iff]
    exact hrefused
  · rw [hcarries.live, List.sum_cons, Nat.add_assoc]

theorem Ledger.FirstRefused.not_admits {l : Ledger} {sizes : List Nat} {e : AllocError}
    (h : l.FirstRefused sizes e) : ¬ l.Admits sizes.sum := by
  obtain ⟨before, size, after, _, rfl, _, _, hrefused, _⟩ := h
  refine fun hadmits => hrefused (hadmits.mono ?_)
  rw [List.sum_append, List.sum_cons]
  omega

namespace Bank

variable {bank : Bank} {i : Nat} {l : Ledger} {elementSize count : Nat} {arrays : List (Nat × Nat)}

theorem exists_bytes (h : elementSize * count < UInt64.size) :
    ∃ bytes, arrayBytes elementSize count = .ok bytes ∧ bytes.toNat = elementSize * count := by
  refine ⟨.ofNat (elementSize * count), ?_, UInt64.toNat_ofNat_of_lt' h⟩
  rw [Nat.mul_comm] at h ⊢
  exact if_pos h

/-- An array that there is room for is granted its block. -/
theorem exists_granted (hl : bank[i]? = some l) (h : l.HasRoom (elementSize * count)) :
    ∃ bytes granted l', arrayBytes elementSize count = .ok bytes ∧
      bytes.toNat = elementSize * count ∧ bank.alloc bytes (.ledger i) = .ok granted ∧
      granted[i]? = some l' ∧ l.Carries l' bytes.toNat 1 ∧ bank.Carries granted i bytes.toNat 1 := by
  obtain ⟨bytes, hbytes, hnat⟩ := exists_bytes (Nat.lt_of_le_of_lt (Nat.le_add_left _ _) h.word)
  rw [← hnat] at h
  obtain ⟨halloc, hgranted⟩ := alloc_of_hasRoom hl h
  obtain ⟨l₀, l', hl₀, hl', hcarries⟩ := hgranted.ledger
  obtain rfl := Option.some.inj (hl.symm.trans hl₀)
  exact ⟨bytes, _, l', hbytes, hnat, halloc, hl', hcarries, hgranted⟩

theorem exists_refused (hl : bank[i]? = some l)
    (hfits : l.live.toNat + elementSize * count < UInt64.size)
    (h : ¬ l.Admits (elementSize * count)) :
    ∃ limit, arrayBytes elementSize count = .ok (.ofNat (elementSize * count)) ∧
      l.limit = some limit ∧ bank.alloc (.ofNat (elementSize * count)) (.ledger i) =
        .error (.fault (.exhausted (.ofNat (elementSize * count)) limit l.live)) := by
  obtain ⟨bytes, hbytes, hnat⟩ := exists_bytes (Nat.lt_of_le_of_lt (Nat.le_add_left _ _) hfits)
  rw [← hnat] at hfits h ⊢
  obtain ⟨limit, hlimit, halloc⟩ := alloc_of_not_admits hl hfits h
  rw [UInt64.ofNat_toNat]
  exact ⟨limit, hbytes, hlimit, halloc⟩

/-- A block is taken back after nothing more came of those behind it. -/
theorem Carries.takeBack {granted rest : Bank} {bytes : UInt64}
    (h : bank.Carries granted i bytes.toNat 1) (hrest : granted.Carries rest i 0 0) :
    bank.Carries (rest.release bytes (.ledger i)) i 0 0 ∧
      rest.free bytes (.ledger i) = .ok (rest.release bytes (.ledger i)) := by
  have hall := h.trans hrest
  rw [Nat.add_comm _ 0] at hall
  exact hall.release

theorem sum_blockSizes_cons :
    (blockSizes ((elementSize, count) :: arrays)).sum =
      elementSize * count + (blockSizes arrays).sum :=
  List.sum_cons

/-- Where there is room for all the blocks together, all of them are granted. -/
theorem allocArrays_of_hasRoom (hl : bank[i]? = some l) (h : l.HasRoom (blockSizes arrays).sum) :
    ∃ blocks full, bank.allocArrays (.ledger i) arrays = (.ok blocks, full) ∧
      blocks.map (·.toNat) = blockSizes arrays ∧
      bank.Carries full i (blockSizes arrays).sum arrays.length := by
  induction arrays generalizing bank l with
  | nil => exact ⟨[], bank, rfl, rfl, .refl hl⟩
  | cons array arrays ih =>
    obtain ⟨elementSize, count⟩ := array
    rw [sum_blockSizes_cons] at h
    obtain ⟨bytes, granted, l', hbytes, hnat, halloc, hl', hcarries, hgranted⟩ :=
      exists_granted hl (h.mono (Nat.le_add_right _ _))
    rw [← hnat] at h
    obtain ⟨blocks, full, hrest, hblocks, hfull⟩ := ih hl' (hcarries.hasRoom_iff.mpr h)
    refine ⟨bytes :: blocks, full, ?_, ?_, ?_⟩
    · simp only [allocArrays, hbytes, halloc, hrest]
    · rw [List.map_cons, hblocks, hnat]
      rfl
    · rw [sum_blockSizes_cons, List.length_cons, Nat.add_comm arrays.length, ← hnat]
      exact hgranted.trans hfull

/-- Where they are not, one is refused, and those granted before it are taken back. -/
theorem allocArrays_of_not_admits (hl : bank[i]? = some l)
    (hfits : l.live.toNat + (blockSizes arrays).sum < UInt64.size)
    (h : ¬ l.Admits (blockSizes arrays).sum) (hnonempty : arrays ≠ []) :
    ∃ e rest, bank.allocArrays (.ledger i) arrays = (.error (.fault e), rest) ∧
      l.FirstRefused (blockSizes arrays) e ∧ bank.Carries rest i 0 0 := by
  induction arrays generalizing bank l with
  | nil => exact absurd rfl hnonempty
  | cons array arrays ih =>
    obtain ⟨elementSize, count⟩ := array
    rw [sum_blockSizes_cons] at hfits h
    by_cases hfirst : l.Admits (elementSize * count)
    · obtain ⟨bytes, granted, l', hbytes, hnat, halloc, hl', hcarries, hgranted⟩ :=
        exists_granted hl ⟨by omega, hfirst⟩
      have hlive := hcarries.live
      have hrefused : ¬ l'.Admits (blockSizes arrays).sum := by
        rw [hcarries.admits_iff, hnat]
        exact h
      -- A block that is admitted alone cannot be all there are.
      have hmore : arrays ≠ [] := by
        rintro rfl
        exact h hfirst
      obtain ⟨e, rest, hrest, hfault, hback⟩ := ih hl' (by omega) hrefused hmore
      refine ⟨e, rest.release bytes (.ledger i), ?_, ?_, (hgranted.takeBack hback).1⟩
      · simp only [allocArrays, hbytes, halloc, hrest]
      · rw [hnat] at hcarries
        exact hfault.cons hcarries hfirst
    · obtain ⟨limit, hbytes, hlimit, halloc⟩ := exists_refused hl (by omega) hfirst
      refine ⟨_, bank, ?_, Ledger.firstRefused_head (blockSizes arrays) hlimit hfirst, .refl hl⟩
      simp only [allocArrays, hbytes, halloc]

/-- What can become of an array that is charged, and of those behind it. -/
inductive ChargedFirst (bank : Bank) (account : Account) (elementSize count : Nat)
    (arrays : List (Nat × Nat)) : Attempt AllocError (List UInt64) → Bank → Prop
  | sizeless {e} (size : arrayBytes elementSize count = .error e) :
      ChargedFirst bank account elementSize count arrays (.error (.fault e)) bank
  | stopped {bytes stop} (size : arrayBytes elementSize count = .ok bytes)
      (alloc : bank.alloc bytes account = .error stop) :
      ChargedFirst bank account elementSize count arrays (.error stop) bank
  | takenBack {bytes granted stop rest} (size : arrayBytes elementSize count = .ok bytes)
      (alloc : bank.alloc bytes account = .ok granted)
      (behind : granted.allocArrays account arrays = (.error stop, rest)) :
      ChargedFirst bank account elementSize count arrays (.error stop) (rest.release bytes account)
  | granted {bytes granted more full} (size : arrayBytes elementSize count = .ok bytes)
      (alloc : bank.alloc bytes account = .ok granted)
      (behind : granted.allocArrays account arrays = (.ok more, full)) :
      ChargedFirst bank account elementSize count arrays (.ok (bytes :: more)) full

theorem chargedFirst {bank bank' : Bank} {account : Account}
    {result : Attempt AllocError (List UInt64)}
    (h : bank.allocArrays account ((elementSize, count) :: arrays) = (result, bank')) :
    bank.ChargedFirst account elementSize count arrays result bank' := by
  rw [allocArrays] at h
  split at h
  · next e hsize =>
    cases h
    exact .sizeless hsize
  · next bytes hsize =>
    split at h
    · next stop halloc =>
      cases h
      exact .stopped hsize halloc
    · next granted halloc =>
      split at h
      · next more full hbehind =>
        cases h
        exact .granted hsize halloc hbehind
      · next stop rest hbehind =>
        cases h
        exact .takenBack hsize halloc hbehind

/-! ## Blocks that are taken back -/

/-- Charging as `allocArrays` does it, with every block that is taken back looked up
among those that are live. -/
def allocArraysChecked (bank : Bank) (account : Account) :
    List (Nat × Nat) → Contract (Attempt AllocError (List UInt64) × Bank)
  | [] => .ok (.ok [], bank)
  | (elementSize, count) :: arrays =>
    match arrayBytes elementSize count with
    | .error e => .ok (.error (.fault e), bank)
    | .ok bytes =>
      match bank.alloc bytes account with
      | .error stop => .ok (.error stop, bank)
      | .ok granted => do
        match ← granted.allocArraysChecked account arrays with
        | (.ok blocks, full) => return (.ok (bytes :: blocks), full)
        | (.error stop, rest) => return (.error stop, ← rest.free bytes account)

theorem allocArraysChecked_eq (hl : bank[i]? = some l)
    (hfits : l.live.toNat + (blockSizes arrays).sum < UInt64.size) :
    bank.allocArraysChecked (.ledger i) arrays = .ok (bank.allocArrays (.ledger i) arrays) := by
  induction arrays generalizing bank l with
  | nil => rfl
  | cons array arrays ih =>
    obtain ⟨elementSize, count⟩ := array
    rw [sum_blockSizes_cons] at hfits
    by_cases hfirst : l.Admits (elementSize * count)
    · obtain ⟨bytes, granted, l', hbytes, hnat, halloc, hl', hcarries, hgranted⟩ :=
        exists_granted hl ⟨by omega, hfirst⟩
      have hlive := hcarries.live
      have hsame := ih hl' (by omega)
      simp only [allocArraysChecked, allocArrays, hbytes, halloc, hsame]
      by_cases hrest : l'.Admits (blockSizes arrays).sum
      · obtain ⟨blocks, full, heq, _⟩ := allocArrays_of_hasRoom hl' ⟨by omega, hrest⟩
        rw [heq]
        rfl
      · have hmore : arrays ≠ [] := by
          rintro rfl
          exact hrest ((hcarries.admits_iff).mpr (by rw [hnat]; exact hfirst))
        obtain ⟨e, rest, heq, _, hback⟩ := allocArrays_of_not_admits hl' (by omega) hrest hmore
        rw [heq]
        show (rest.free bytes (.ledger i) >>= fun b => pure (Except.error (Stop.fault e), b)) = _
        rw [(hgranted.takeBack hback).2]
        rfl
    · obtain ⟨limit, hbytes, _, halloc⟩ := exists_refused hl (by omega) hfirst
      simp only [allocArraysChecked, allocArrays, hbytes, halloc]

/-- Blocks that are live can all be taken back, whatever else is live. -/
theorem Carries.releaseAll {bank' : Bank} {sizes : List UInt64} {bytes blocks : Nat}
    (h : bank.Carries bank' i (bytes + (sizes.map (·.toNat)).sum) (blocks + sizes.length)) :
    bank.Carries (bank'.releaseAll (.ledger i) sizes) i bytes blocks ∧
      sizes.foldlM (fun b size => b.free size (.ledger i)) bank' =
        .ok (bank'.releaseAll (.ledger i) sizes) := by
  induction sizes generalizing bank' with
  | nil => exact ⟨h, rfl⟩
  | cons size sizes ih =>
    rw [List.map_cons, List.sum_cons, List.length_cons, Nat.add_comm size.toNat, ← Nat.add_assoc,
      ← Nat.add_assoc] at h
    obtain ⟨hreleased, hfree⟩ := h.release
    obtain ⟨hrest, hfreed⟩ := ih hreleased
    refine ⟨hrest, ?_⟩
    rw [List.foldlM_cons, hfree]
    exact hfreed

end Bank

/-! ## Images -/

namespace Image

variable {img : Image}

theorem footprint_eq_sum (img : Image) : img.footprint = (blockSizes img.arrays).sum := by
  rw [footprint, blockSizes, List.sum_eq_foldr, List.foldr_map]

theorem length_arrays (img : Image) : img.arrays.length = 22 := rfl

/-- An image is held and all of it is charged to a ledger.  Giving it up takes all of that
back, at once or later. -/
structure ChargedTo (img : Image) (bank : Bank) (i : Nat) (held : Holding) (full : Bank) :
    Prop where
  image : held.image = img
  bytes : held.chargedBytes = img.footprint
  charged : bank.Carries full i img.footprint 22
  dropped : bank.Carries (held.drop full) i 0 0
  freed {base later : Bank} {bytes blocks : Nat} :
    base.Carries later i (bytes + img.footprint) (blocks + 22) →
      base.Carries (held.drop later) i bytes blocks ∧
        held.blocks.foldlM (fun b size => b.free size held.account) later = .ok (held.drop later)

variable {bank : Bank} {i : Nat} {l : Ledger}

theorem hold_of_hasRoom (hl : bank[i]? = some l) (h : l.HasRoom img.footprint) :
    ∃ held full, img.hold (some (.ledger i)) bank = (.ok held, full) ∧
      img.ChargedTo bank i held full := by
  rw [footprint_eq_sum] at h
  obtain ⟨blocks, full, halloc, hblocks, hcharged⟩ := Bank.allocArrays_of_hasRoom hl h
  refine ⟨{ image := img, account := .ledger i, blocks }, full, ?_, ?_⟩
  · simp only [hold, halloc]
  · have hlength : blocks.length = 22 := by
      rw [← length_arrays img, ← List.length_map (·.toNat), hblocks, blockSizes, List.length_map]
    have hbytes : img.footprint = (blocks.map (·.toNat)).sum := by
      rw [footprint_eq_sum, hblocks]
    rw [← footprint_eq_sum, length_arrays] at hcharged
    have hfreed {base later : Bank} {bytes more : Nat}
        (hlater : base.Carries later i (bytes + img.footprint) (more + 22)) :
        base.Carries (later.releaseAll (.ledger i) blocks) i bytes more ∧
          blocks.foldlM (fun b size => b.free size (.ledger i)) later =
            .ok (later.releaseAll (.ledger i) blocks) := by
      rw [hbytes, ← hlength] at hlater
      exact hlater.releaseAll
    refine ⟨rfl, ?_, hcharged, ?_, hfreed⟩
    · rw [hbytes, List.sum_eq_foldr, List.foldr_map]
      rfl
    · refine (hfreed ?_).1
      rw [Nat.zero_add, Nat.zero_add]
      exact hcharged

theorem hold_of_not_admits (hl : bank[i]? = some l)
    (hfits : l.live.toNat + img.footprint < UInt64.size) (h : ¬ l.Admits img.footprint) :
    ∃ e rest, img.hold (some (.ledger i)) bank = (.error (.fault e), rest) ∧
      l.FirstRefused (blockSizes img.arrays) e ∧ bank.Carries rest i 0 0 := by
  rw [footprint_eq_sum] at hfits h
  obtain ⟨e, rest, halloc, hrefused, hback⟩ :=
    Bank.allocArrays_of_not_admits hl hfits h (List.cons_ne_nil _ _)
  refine ⟨e, rest, ?_, hrefused, hback⟩
  simp only [hold, halloc]

/-- All of an image is charged to a ledger where the limit admits it, and nothing where it
does not.  What is taken back is always live. -/
structure ChargesWhole (img : Image) (bank : Bank) (i : Nat) (l : Ledger) : Prop where
  ok_iff : (∃ held, (img.hold (some (.ledger i)) bank).1 = .ok held) ↔ l.Admits img.footprint
  ok {held : Holding} {full : Bank} :
    img.hold (some (.ledger i)) bank = (.ok held, full) → img.ChargedTo bank i held full
  error {stop : Stop AllocError} {rest : Bank} :
    img.hold (some (.ledger i)) bank = (.error stop, rest) →
      (∃ e, stop = .fault e ∧ l.FirstRefused (blockSizes img.arrays) e) ∧ bank.Carries rest i 0 0
  checked : bank.allocArraysChecked (.ledger i) img.arrays =
    .ok (bank.allocArrays (.ledger i) img.arrays)

theorem chargesWhole (hl : bank[i]? = some l)
    (hfits : l.live.toNat + img.footprint < UInt64.size) : img.ChargesWhole bank i l := by
  have hchecked : bank.allocArraysChecked (.ledger i) img.arrays =
      .ok (bank.allocArrays (.ledger i) img.arrays) :=
    Bank.allocArraysChecked_eq hl (footprint_eq_sum img ▸ hfits)
  by_cases hadmits : l.Admits img.footprint
  · obtain ⟨held, full, hheld, hcharged⟩ := hold_of_hasRoom hl ⟨hfits, hadmits⟩
    refine ⟨?_, ?_, ?_, hchecked⟩
    · rw [hheld]
      exact ⟨fun _ => hadmits, fun _ => ⟨held, rfl⟩⟩
    · intro held' full' h
      cases hheld.symm.trans h
      exact hcharged
    · intro stop rest h
      cases hheld.symm.trans h
  · obtain ⟨e, rest, hrefused, hfirst, hback⟩ := hold_of_not_admits hl hfits hadmits
    refine ⟨?_, ?_, ?_, hchecked⟩
    · rw [hrefused]
      simp [hadmits]
    · intro held full h
      cases hrefused.symm.trans h
    · intro stop rest' h
      cases hrefused.symm.trans h
      exact ⟨⟨e, rfl, hfirst⟩, hback⟩

end Image
end TypeAtlas
