/-
Room in a ledger.

A ledger has room for bytes that its limit admits and that leave the live bytes a word.
Granting a block leaves room for as much less, so a row of blocks is granted exactly where
there is room for their sum, in whatever order they are asked for.
-/
import Mathlib.Algebra.Order.BigOperators.Group.List
import TypeAtlas.Proofs.Ledger.Tally

namespace TypeAtlas

/-! ## One ledger -/

namespace Ledger

variable {l l' : Ledger} {size : UInt64} {bytes more : Nat}

/-- Where live bytes and the bytes asked for are a word together, room is what the limit
admits. -/
theorem hasRoom_iff_admits (hword : l.live.toNat + bytes < UInt64.size) :
    l.HasRoom bytes ↔ l.Admits bytes :=
  ⟨HasRoom.admits, fun h => ⟨hword, h⟩⟩

theorem exists_alloc_iff : (∃ l', l.alloc size = .ok l') ↔ l.HasRoom size.toNat := by
  simp only [alloc_eq_ok_iff, exists_and_left, exists_eq, and_true]

/-- What is left of the room after a block. -/
theorem hasRoom_of_alloc (h : l.alloc size = .ok l') :
    l'.HasRoom more ↔ l.HasRoom (size.toNat + more) := by
  obtain ⟨hroom, rfl⟩ := alloc_eq_ok_iff.mp h
  exact hroom.carries.hasRoom_iff

end Ledger

/-! ## One ledger of a bank -/

namespace Bank

open Check (map_eq_ok_iff)

/-- The ledger of an account has room, if the account has one. -/
def HasRoom (bank : Bank) (account : Account) (bytes : Nat) : Prop :=
  ∀ i l, account = .ledger i → bank[i]? = some l → l.HasRoom bytes

variable {bank bank' : Bank} {account : Account} {i : Nat} {l : Ledger} {size : UInt64}
  {bytes more : Nat}

theorem HasRoom.mono (h : bank.HasRoom account more) (hle : bytes ≤ more) :
    bank.HasRoom account bytes :=
  fun i l haccount hl => (h i l haccount hl).mono hle

theorem hasRoom_system : bank.HasRoom .system bytes := by
  intro i l haccount
  cases haccount

theorem hasRoom_ledger (hl : bank[i]? = some l) :
    bank.HasRoom (.ledger i) bytes ↔ l.HasRoom bytes := by
  constructor
  · exact fun h => h i l rfl hl
  · intro h j l' haccount hl'
    cases haccount
    exact Option.some.inj (hl.symm.trans hl') ▸ h

theorem hasRoom_missing (hi : bank[i]? = none) : bank.HasRoom (.ledger i) bytes := by
  intro j l haccount hl
  cases haccount
  cases hi.symm.trans hl

/-- A block is granted where there is room for it, and takes that much of the room. -/
theorem alloc_room : (∃ bank', bank.alloc size account = .ok bank') ↔
    bank.HasRoom account size.toNat := by
  cases account with
  | system => exact iff_of_true ⟨bank, rfl⟩ hasRoom_system
  | ledger i =>
    cases hl : bank[i]? with
    | none => exact iff_of_true ⟨bank, alloc_missing hl⟩ (hasRoom_missing hl)
    | some l =>
      rw [hasRoom_ledger hl, ← Ledger.exists_alloc_iff, alloc_ledger hl]
      simp only [map_eq_ok_iff]
      constructor
      · rintro ⟨_, l', hl', _⟩
        exact ⟨l', hl'⟩
      · rintro ⟨l', hl'⟩
        exact ⟨_, l', hl', rfl⟩

theorem hasRoom_of_alloc (h : bank.alloc size account = .ok bank') :
    bank'.HasRoom account more ↔ bank.HasRoom account (size.toNat + more) := by
  cases account with
  | system => exact iff_of_true hasRoom_system hasRoom_system
  | ledger i =>
    cases hl : bank[i]? with
    | none =>
      cases (alloc_missing hl).symm.trans h
      exact iff_of_true (hasRoom_missing hl) (hasRoom_missing hl)
    | some l =>
      rw [alloc_ledger hl] at h
      obtain ⟨l', hl', rfl⟩ := map_eq_ok_iff.mp h
      have hi : i < bank.size := (Array.getElem?_eq_some_iff.mp hl).1
      have hnew : (bank.setIfInBounds i l')[i]? = some l' := by simp [hi]
      rw [hasRoom_ledger hl, hasRoom_ledger hnew]
      exact Ledger.hasRoom_of_alloc hl'

/-! ## Many blocks -/

variable {arrays : List (Nat × Nat)}

theorem exists_allocArrays_cons_iff {elementSize count : Nat} :
    (∃ blocks, (bank.allocArrays account ((elementSize, count) :: arrays)).1 = .ok blocks) ↔
      ∃ bytes granted, arrayBytes elementSize count = .ok bytes ∧
        bank.alloc bytes account = .ok granted ∧
        ∃ blocks, (granted.allocArrays account arrays).1 = .ok blocks := by
  constructor
  · rintro ⟨blocks, hblocks⟩
    cases chargedFirst (Prod.ext hblocks rfl) with
    | granted hbytes hgranted hmore => exact ⟨_, _, hbytes, hgranted, _, congrArg Prod.fst hmore⟩
  · rintro ⟨bytes, granted, hbytes, hgranted, more, hmore⟩
    rw [allocArrays, hbytes]
    dsimp only
    rw [hgranted]
    dsimp only
    rw [show granted.allocArrays account arrays = (.ok more, _) from Prod.ext hmore rfl]
    exact ⟨_, rfl⟩

theorem exists_arrayBytes_iff {elementSize count : Nat} :
    (∃ bytes, arrayBytes elementSize count = .ok bytes) ↔ elementSize * count < UInt64.size := by
  rw [arrayBytes, Nat.mul_comm]
  split
  · next h => exact iff_of_true ⟨_, rfl⟩ h
  · next h => exact iff_of_false (by simp) h

/-- A row of blocks is granted where each has a size and there is room for their sum. -/
theorem exists_allocArrays_iff (hne : arrays ≠ []) :
    (∃ blocks, (bank.allocArrays account arrays).1 = .ok blocks) ↔
      (∀ size ∈ blockSizes arrays, size < UInt64.size) ∧
        bank.HasRoom account (blockSizes arrays).sum := by
  induction arrays generalizing bank with
  | nil => exact absurd rfl hne
  | cons array arrays ih =>
    obtain ⟨elementSize, count⟩ := array
    rw [exists_allocArrays_cons_iff, sum_blockSizes_cons]
    show _ ↔ (∀ size ∈ (elementSize * count) :: blockSizes arrays, size < UInt64.size) ∧ _
    rw [List.forall_mem_cons]
    have hrest {granted : Bank} {bytes : UInt64} (h : bank.alloc bytes account = .ok granted) :
        (∃ blocks, (granted.allocArrays account arrays).1 = .ok blocks) ↔
          (∀ size ∈ blockSizes arrays, size < UInt64.size) ∧
            bank.HasRoom account (bytes.toNat + (blockSizes arrays).sum) := by
      rw [← hasRoom_of_alloc h]
      by_cases hnil : arrays = []
      · subst hnil
        refine iff_of_true ⟨[], rfl⟩ ⟨fun _ hsize => absurd hsize List.not_mem_nil, ?_⟩
        exact (hasRoom_of_alloc h).mpr (alloc_room.mp ⟨granted, h⟩)
      · exact ih hnil
    constructor
    · rintro ⟨bytes, granted, hbytes, hgranted, hmore⟩
      obtain ⟨hsizes, hroom⟩ := (hrest hgranted).mp hmore
      rw [toNat_of_arrayBytes hbytes, Nat.mul_comm] at hroom
      exact ⟨⟨exists_arrayBytes_iff.mp ⟨bytes, hbytes⟩, hsizes⟩, hroom⟩
    · rintro ⟨⟨hsize, hsizes⟩, hroom⟩
      obtain ⟨bytes, hbytes⟩ := exists_arrayBytes_iff.mpr hsize
      rw [Nat.mul_comm, ← toNat_of_arrayBytes hbytes] at hroom
      obtain ⟨granted, hgranted⟩ := alloc_room.mpr (hroom.mono (Nat.le_add_right _ _))
      exact ⟨bytes, granted, hbytes, hgranted, (hrest hgranted).mpr ⟨hsizes, hroom⟩⟩

end Bank

/-! ## Images -/

/-- An image can be charged to an account, if there is one: each of its arrays has a size,
and the ledger of the account has room for all of them. -/
def Bank.HasRoomFor (bank : Bank) (account : Option Account) (img : Image) : Prop :=
  ∀ a ∈ account, (∀ size ∈ blockSizes img.arrays, size < UInt64.size) ∧
    bank.HasRoom a img.footprint

/-- Where live bytes and an image are a word together, there is room for it exactly if the
limit admits it. -/
theorem Bank.hasRoomFor_iff_admits {bank : Bank} {i : Nat} {l : Ledger} {img : Image}
    (hl : bank[i]? = some l) (hfits : l.live.toNat + img.footprint < UInt64.size) :
    bank.HasRoomFor (some (.ledger i)) img ↔ l.Admits img.footprint := by
  have hsizes : ∀ size ∈ blockSizes img.arrays, size < UInt64.size := by
    intro size hsize
    have hle := List.le_sum_of_mem hsize
    rw [← Image.footprint_eq_sum] at hle
    omega
  rw [← Ledger.hasRoom_iff_admits hfits, ← Bank.hasRoom_ledger hl]
  simp only [HasRoomFor, Option.mem_some_iff, forall_eq']
  exact and_iff_right hsizes

theorem Image.exists_hold_iff {img : Image} {account : Option Account} {bank : Bank} :
    (∃ held, (img.hold account bank).1 = .ok held) ↔ bank.HasRoomFor account img := by
  cases account with
  | none => exact iff_of_true ⟨_, rfl⟩ fun _ h => by cases h
  | some account =>
    have hne : img.arrays ≠ [] := List.cons_ne_nil _ _
    simp only [Bank.HasRoomFor, Option.mem_some_iff, forall_eq']
    rw [footprint_eq_sum, ← Bank.exists_allocArrays_iff hne, hold]
    cases halloc : bank.allocArrays account img.arrays with
    | mk result rest => cases result <;> simp

end TypeAtlas
