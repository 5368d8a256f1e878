/-
Counters that come to what is charged.

`Ledger.Tallies` says that the counters of a ledger come to so many bytes in so many blocks.
Granting a block and taking one back keep that, and `Bank.Turns` says what either does to
the ledgers of a bank: one of them moves and the others stay.
-/
import TypeAtlas.Proofs.Check
import TypeAtlas.Proofs.Ledger.Charging

namespace TypeAtlas

/-! ## One ledger -/

namespace Ledger

/-- The counters of a ledger come to so many bytes in so many blocks. -/
structure Tallies (l : Ledger) (bytes blocks : Nat) : Prop where
  live : l.live.toNat = bytes
  blocks : l.blocks = blocks
  turnover : l.allocs = l.frees + l.blocks
  peak : l.live ≤ l.peak
  limit : ∀ limit ∈ l.limit, l.live ≤ limit

/-- A later state of the same ledger, which has not been over its new peak in between. -/
structure Follows (l l' : Ledger) : Prop where
  limit : l'.limit = l.limit
  peak : l'.peak.toNat = max l.peak.toNat l'.live.toNat

variable {l l' : Ledger} {size : UInt64} {bytes blocks : Nat}

theorem Tallies.follows (h : l.Tallies bytes blocks) : l.Follows l :=
  ⟨rfl, (Nat.max_eq_left (UInt64.le_iff_toNat_le.mp h.peak)).symm⟩

theorem Tallies.alloc (h : l.Tallies bytes blocks) (halloc : l.alloc size = .ok l') :
    l'.Tallies (bytes + size.toNat) (blocks + 1) ∧ l.Follows l' := by
  obtain ⟨hroom, rfl⟩ := alloc_eq_ok_iff.mp halloc
  have hlive := hroom.carries.live
  have hpeak : (l.grant size).peak.toNat = max l.peak.toNat (l.grant size).live.toNat :=
    UInt64.toNat_max _ _
  refine ⟨⟨?_, congrArg (· + 1) h.blocks, congrArg (· + 1) h.turnover, ?_, ?_⟩, rfl, hpeak⟩
  · rw [hlive, h.live]
  · rw [UInt64.le_iff_toNat_le, hpeak]
    exact Nat.le_max_right _ _
  · intro limit hlimit
    rw [UInt64.le_iff_toNat_le, hlive]
    exact hroom.admits limit hlimit

theorem Tallies.free (h : l.Tallies (bytes + size.toNat) (blocks + 1)) :
    ∃ l', l.free size = .ok l' ∧ l'.Tallies bytes blocks ∧ l.Follows l' := by
  have hlive := h.live
  have hblocks := h.blocks
  have hturnover := h.turnover
  have hle : size ≤ l.live := by
    rw [UInt64.le_iff_toNat_le]
    omega
  have hleft : (l.live - size).toNat = bytes := by
    rw [UInt64.toNat_sub_of_le _ _ hle]
    omega
  have hless : l.live - size ≤ l.live := by
    rw [UInt64.le_iff_toNat_le]
    omega
  have hpeak := UInt64.le_trans hless h.peak
  refine ⟨l.release size, if_pos ⟨by omega, hle⟩, ⟨hleft, ?_, ?_, hpeak, ?_⟩, rfl, ?_⟩
  · show l.blocks - 1 = blocks
    omega
  · show l.allocs = l.frees + 1 + (l.blocks - 1)
    omega
  · exact fun limit hlimit => UInt64.le_trans hless (h.limit limit hlimit)
  · exact (Nat.max_eq_left (UInt64.le_iff_toNat_le.mp hpeak)).symm

end Ledger

/-! ## One block of a bank -/

theorem toNat_of_arrayBytes {elementSize count : Nat} {bytes : UInt64}
    (h : arrayBytes elementSize count = .ok bytes) : bytes.toNat = count * elementSize := by
  rw [arrayBytes] at h
  split at h
  · next hfits =>
    cases h
    exact UInt64.toNat_ofNat_of_lt' hfits
  · cases h

namespace Bank

open Check (bind_eq_ok_iff map_eq_ok_iff map_eq_error_iff)

/-- The ledger of an account moves, if there is one, and the others stay. -/
structure Turns (bank bank' : Bank) (account : Account) (moves : Ledger → Ledger → Prop) :
    Prop where
  size : bank'.size = bank.size
  ledger (i : Nat) (l' : Ledger) : bank'[i]? = some l' → ∃ l, bank[i]? = some l ∧
    ((account = .ledger i ∧ moves l l') ∨ (account ≠ .ledger i ∧ l' = l))

/-- Every ledger of a bank is a later state of the one in its place. -/
structure Follows (bank bank' : Bank) : Prop where
  size : bank'.size = bank.size
  ledger (i : Nat) (l' : Ledger) : bank'[i]? = some l' → ∃ l, bank[i]? = some l ∧ l.Follows l'

variable {bank bank' : Bank} {size : UInt64} {account : Account} {moves : Ledger → Ledger → Prop}

theorem turns_of_missing (h : ∀ i, account = .ledger i → bank[i]? = none) :
    bank.Turns bank account moves where
  size := rfl
  ledger i l' hl' := by
    refine ⟨l', hl', .inr ⟨fun haccount => ?_, rfl⟩⟩
    cases (h i haccount).symm.trans hl'

theorem turns_set {k : Nat} {l l' : Ledger} (hl : bank[k]? = some l) (h : moves l l') :
    bank.Turns (bank.setIfInBounds k l') (.ledger k) moves where
  size := Array.size_setIfInBounds
  ledger i m' hm' := by
    by_cases hi : k = i
    · subst hi
      rw [Array.getElem?_setIfInBounds_self_of_lt (Array.getElem?_eq_some_iff.mp hl).1] at hm'
      obtain rfl := Option.some.inj hm'
      exact ⟨l, hl, .inl ⟨rfl, h⟩⟩
    · rw [Array.getElem?_setIfInBounds_ne hi] at hm'
      exact ⟨m', hm', .inr ⟨fun heq => hi (Account.ledger.inj heq), rfl⟩⟩

theorem turns_of_alloc (h : bank.alloc size account = .ok bank') :
    bank.Turns bank' account fun l l' => l.alloc size = .ok l' := by
  cases account with
  | system =>
    cases h
    exact turns_of_missing fun _ heq => by cases heq
  | ledger k =>
    cases hl : bank[k]? with
    | none =>
      cases (alloc_missing hl).symm.trans h
      exact turns_of_missing fun _ heq => Account.ledger.inj heq ▸ hl
    | some l =>
      rw [alloc_ledger hl] at h
      obtain ⟨l', halloc, rfl⟩ := map_eq_ok_iff.mp h
      exact turns_set hl halloc

/-- A block that is a breach is on the ledger of its account. -/
theorem exists_of_breach {v : Violation} (h : bank.alloc size account = .error (.breach v)) :
    ∃ i l, account = .ledger i ∧ bank[i]? = some l ∧ l.alloc size = .error (.breach v) := by
  cases account with
  | system => cases h
  | ledger i =>
    cases hl : bank[i]? with
    | none => cases (alloc_missing hl).symm.trans h
    | some l =>
      rw [alloc_ledger hl] at h
      exact ⟨i, l, rfl, hl, map_eq_error_iff.mp h⟩

/-- A block is taken back if its ledger can do so. -/
theorem exists_free (account : Account) (h : ∀ i l, account = .ledger i → bank[i]? = some l →
    ∃ l', l.free size = .ok l') :
    ∃ bank', bank.free size account = .ok bank' ∧
      bank.Turns bank' account fun l l' => l.free size = .ok l' := by
  cases account with
  | system => exact ⟨bank, rfl, turns_of_missing fun _ heq => by cases heq⟩
  | ledger k =>
    rw [free]
    cases hl : bank[k]? with
    | none => exact ⟨bank, rfl, turns_of_missing fun _ heq => Account.ledger.inj heq ▸ hl⟩
    | some l =>
      obtain ⟨l', hfree⟩ := h k l rfl hl
      exact ⟨bank.setIfInBounds k l', bind_eq_ok_iff.mpr ⟨l', hfree, rfl⟩, turns_set hl hfree⟩

end Bank
end TypeAtlas
