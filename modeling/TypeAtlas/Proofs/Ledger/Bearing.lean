/-
What a ledger bears.

`Bank.Bears` says that the live bytes of one ledger come to given blocks, whatever becomes of
the other ledgers.  Blocks come and go one by one, and an image that cannot be charged whole
leaves what was borne before.
-/
import TypeAtlas.Proofs.Ledger.Tally

namespace TypeAtlas

/-! ## One ledger -/

namespace Ledger

/-- The live bytes of a ledger come to blocks of these sizes. -/
structure Bears (l : Ledger) (cap : Option UInt64) (sizes : List UInt64) : Prop where
  limit : l.limit = cap
  live : l.live.toNat = (sizes.map (·.toNat)).sum
  within : ∀ max ∈ cap, (sizes.map (·.toNat)).sum ≤ max.toNat

variable {l l' : Ledger} {cap : Option UInt64} {size : UInt64} {sizes sizes' : List UInt64}

theorem Bears.of_perm (h : l.Bears cap sizes) (hperm : sizes.Perm sizes') :
    l.Bears cap sizes' := by
  have hsum : (sizes.map (·.toNat)).sum = (sizes'.map (·.toNat)).sum := (hperm.map _).sum_nat
  exact ⟨h.limit, hsum ▸ h.live, hsum ▸ h.within⟩

theorem Bears.alloc (h : l.Bears cap sizes) (halloc : l.alloc size = .ok l') :
    l'.Bears cap (size :: sizes) := by
  obtain ⟨hroom, rfl⟩ := alloc_eq_ok_iff.mp halloc
  have hsum : l.live.toNat + size.toNat = ((size :: sizes).map (·.toNat)).sum := by
    rw [h.live, List.map_cons, List.sum_cons, Nat.add_comm]
  refine ⟨h.limit, hroom.carries.live.trans hsum, fun max hmax => ?_⟩
  rw [← hsum]
  exact hroom.admits max (h.limit ▸ hmax)

theorem Bears.release (h : l.Bears cap (size :: sizes)) :
    (l.release size).Bears cap sizes := by
  have hlive := h.live
  rw [List.map_cons, List.sum_cons] at hlive
  have hle : size ≤ l.live := by
    rw [UInt64.le_iff_toNat_le]
    omega
  refine ⟨h.limit, ?_, fun max hmax => ?_⟩
  · show (l.live - size).toNat = _
    rw [UInt64.toNat_sub_of_le _ _ hle]
    omega
  · have hwithin := h.within max hmax
    rw [List.map_cons, List.sum_cons] at hwithin
    omega

/-- A block is a breach only beside blocks that leave it no word. -/
theorem Bears.breach (h : l.Bears cap sizes) {v : Violation}
    (halloc : l.alloc size = .error (.breach v)) :
    UInt64.size ≤ (sizes.map (·.toNat)).sum + size.toNat ∧
      ∀ max ∈ cap, max.toNat = UInt64.size - 1 := by
  obtain ⟨_, hword, hlargest⟩ := alloc_eq_breach_iff.mp halloc
  exact ⟨h.live ▸ hword, h.limit ▸ hlargest⟩

end Ledger

/-! ## One ledger of a bank -/

/-- The blocks of an account that are a ledger's. -/
def Account.share (account : Account) (i : Nat) (blocks : List UInt64) : List UInt64 :=
  if account = .ledger i then blocks else []

namespace Account

variable {account : Account} {i : Nat} {blocks : List UInt64}

theorem share_self (h : account = .ledger i) : account.share i blocks = blocks := if_pos h

theorem share_other (h : account ≠ .ledger i) : account.share i blocks = [] := if_neg h

theorem share_nil : account.share i [] = [] := ite_self _

theorem share_cons (size : UInt64) (blocks : List UInt64) :
    account.share i (size :: blocks) = account.share i [size] ++ account.share i blocks := by
  by_cases h : account = .ledger i
  · rw [share_self h, share_self h, share_self h]
    rfl
  · rw [share_other h, share_other h, share_other h]
    rfl

end Account

namespace Bank

/-- The live bytes of a ledger of a bank come to blocks of these sizes. -/
def Bears (bank : Bank) (i : Nat) (cap : Option UInt64) (blocks : List UInt64) : Prop :=
  ∃ l, bank[i]? = some l ∧ l.Bears cap blocks

variable {bank bank' : Bank} {i : Nat} {cap : Option UInt64} {size : UInt64}
  {account : Account} {blocks blocks' : List UInt64}

theorem Bears.of_perm (h : bank.Bears i cap blocks) (hperm : blocks.Perm blocks') :
    bank.Bears i cap blocks' := by
  obtain ⟨l, hl, hbears⟩ := h
  exact ⟨l, hl, hbears.of_perm hperm⟩

theorem Bears.share_nil (h : bank.Bears i cap blocks) :
    bank.Bears i cap (account.share i [] ++ blocks) := by
  rw [Account.share_nil]
  exact h

theorem Bears.alloc (h : bank.Bears i cap blocks) (halloc : bank.alloc size account = .ok bank') :
    bank'.Bears i cap (account.share i [size] ++ blocks) := by
  obtain ⟨l, hl, hbears⟩ := h
  have hturns := turns_of_alloc halloc
  have hi : i < bank'.size := hturns.size ▸ (Array.getElem?_eq_some_iff.mp hl).1
  have hl' := Array.getElem?_eq_getElem hi
  obtain ⟨m, hm, ⟨haccount, hgranted⟩ | ⟨haccount, hsame⟩⟩ := hturns.ledger i _ hl'
  · obtain rfl := Option.some.inj (hl.symm.trans hm)
    rw [Account.share_self haccount]
    exact ⟨_, hl', hbears.alloc hgranted⟩
  · obtain rfl := Option.some.inj (hl.symm.trans hm)
    rw [Account.share_other haccount]
    exact ⟨_, hl', hsame ▸ hbears⟩

theorem Bears.release (h : bank.Bears i cap (account.share i [size] ++ blocks)) :
    (bank.release size account).Bears i cap blocks := by
  obtain ⟨l, hl, hbears⟩ := h
  by_cases haccount : account = .ledger i
  · rw [Account.share_self haccount] at hbears
    subst haccount
    refine ⟨l.release size, ?_, hbears.release⟩
    rw [Bank.release, Array.getElem?_modify, if_pos rfl, hl]
    rfl
  · rw [Account.share_other haccount] at hbears
    refine ⟨l, ?_, hbears⟩
    cases account with
    | system => exact hl
    | ledger k =>
      have hne : k ≠ i := fun heq => haccount (congrArg Account.ledger heq)
      rw [Bank.release, Array.getElem?_modify, if_neg hne]
      exact hl

theorem Bears.breach (h : bank.Bears i cap blocks) {v : Violation}
    (halloc : bank.alloc size (.ledger i) = .error (.breach v)) :
    UInt64.size ≤ (blocks.map (·.toNat)).sum + size.toNat ∧
      ∀ max ∈ cap, max.toNat = UInt64.size - 1 := by
  obtain ⟨l, hl, hbears⟩ := h
  obtain ⟨k, m, hk, hm, halloc⟩ := exists_of_breach halloc
  cases hk
  obtain rfl := Option.some.inj (hl.symm.trans hm)
  exact hbears.breach halloc

/-- Blocks that are granted are borne, and a row of them that is given up leaves nothing. -/
theorem Bears.allocArrays {arrays : List (Nat × Nat)} {result : Attempt AllocError (List UInt64)}
    (h : bank.Bears i cap blocks) (halloc : bank.allocArrays account arrays = (result, bank')) :
    bank'.Bears i cap (account.share i (result.toOption.getD []) ++ blocks) := by
  induction arrays generalizing bank blocks result bank' with
  | nil =>
    cases halloc
    exact h.share_nil
  | cons array arrays ih =>
    cases chargedFirst halloc with
    | sizeless => exact h.share_nil
    | stopped => exact h.share_nil
    | @takenBack bytes _ _ rest _ hfirst hrest =>
      have hback : rest.Bears i cap (account.share i [] ++ (account.share i [bytes] ++ blocks)) :=
        ih (h.alloc hfirst) hrest
      rw [Account.share_nil] at hback
      exact hback.release.share_nil
    | @granted bytes _ more _ _ hfirst hrest =>
      have hfull : bank'.Bears i cap (account.share i more ++ (account.share i [bytes] ++ blocks)) :=
        ih (h.alloc hfirst) hrest
      refine hfull.of_perm ?_
      show List.Perm _ (account.share i (bytes :: more) ++ blocks)
      rw [Account.share_cons bytes more, ← List.append_assoc]
      exact List.perm_append_comm.append_right _

/-- A row of blocks is a breach only beside blocks that leave it no word. -/
theorem Bears.breach_of_allocArrays {arrays : List (Nat × Nat)} {v : Violation} {rest : Bank}
    (h : bank.Bears i cap blocks)
    (halloc : bank.allocArrays (.ledger i) arrays = (.error (.breach v), rest)) :
    UInt64.size ≤ (blocks.map (·.toNat)).sum + (blockSizes arrays).sum ∧
      ∀ max ∈ cap, max.toNat = UInt64.size - 1 := by
  induction arrays generalizing bank blocks rest with
  | nil => cases halloc
  | cons array arrays ih =>
    obtain ⟨elementSize, count⟩ := array
    rw [sum_blockSizes_cons]
    cases chargedFirst halloc with
    | stopped hsize hstop =>
      obtain ⟨hword, hlargest⟩ := h.breach hstop
      rw [toNat_of_arrayBytes hsize, Nat.mul_comm] at hword
      exact ⟨by omega, hlargest⟩
    | @takenBack bytes _ _ _ hsize hfirst hrest =>
      obtain ⟨hword, hlargest⟩ := ih (h.alloc hfirst) hrest
      rw [Account.share_self rfl, List.cons_append, List.nil_append, List.map_cons, List.sum_cons,
        toNat_of_arrayBytes hsize, Nat.mul_comm] at hword
      exact ⟨by omega, hlargest⟩

/-- What is granted to arrays is their sizes. -/
theorem sizes_of_allocArrays {arrays : List (Nat × Nat)} {granted : List UInt64}
    (halloc : bank.allocArrays account arrays = (.ok granted, bank')) :
    granted.map (·.toNat) = blockSizes arrays := by
  induction arrays generalizing bank granted bank' with
  | nil =>
    cases halloc
    rfl
  | cons array arrays ih =>
    cases chargedFirst halloc with
    | granted hsize _ hrest =>
      rw [List.map_cons, ih hrest, toNat_of_arrayBytes hsize, Nat.mul_comm]
      rfl

theorem Bears.releaseAll {sizes : List UInt64}
    (h : bank.Bears i cap (account.share i sizes ++ blocks)) :
    (bank.releaseAll account sizes).Bears i cap blocks := by
  induction sizes generalizing bank with
  | nil =>
    rw [Account.share_nil] at h
    exact h
  | cons size sizes ih =>
    rw [Account.share_cons, List.append_assoc] at h
    exact ih h.release

end Bank

/-! ## Images -/

namespace Holding

variable {h : Holding} {i : Nat} {holdings : List Holding}

/-- What of an image is charged to a ledger. -/
def share (h : Holding) (i : Nat) : List UInt64 := h.account.share i h.blocks

def shares (holdings : List Holding) (i : Nat) : List UInt64 := holdings.flatMap (·.share i)

/-- The bytes that images are charged together to a ledger. -/
def chargedTo (holdings : List Holding) (i : Nat) : Nat :=
  ((holdings.filter (·.account = .ledger i)).map (·.chargedBytes)).sum

theorem shares_cons : shares (h :: holdings) i = h.share i ++ shares holdings i := rfl

theorem chargedBytes_eq_sum (h : Holding) : h.chargedBytes = (h.blocks.map (·.toNat)).sum := by
  rw [List.sum_eq_foldr, List.foldr_map]
  rfl

theorem chargedTo_cons_self (haccount : h.account = .ledger i) :
    chargedTo (h :: holdings) i = h.chargedBytes + chargedTo holdings i := by
  rw [chargedTo, List.filter_cons, if_pos (decide_eq_true haccount), List.map_cons, List.sum_cons]
  rfl

theorem chargedTo_cons_other (haccount : h.account ≠ .ledger i) :
    chargedTo (h :: holdings) i = chargedTo holdings i := by
  rw [chargedTo, List.filter_cons, if_neg (by simpa using haccount)]
  rfl

theorem sum_shares (holdings : List Holding) (i : Nat) :
    ((shares holdings i).map (·.toNat)).sum = chargedTo holdings i := by
  induction holdings with
  | nil => rfl
  | cons h holdings ih =>
    rw [shares_cons, List.map_append, List.sum_append_nat, ih, share]
    by_cases haccount : h.account = .ledger i
    · rw [Account.share_self haccount, chargedTo_cons_self haccount, chargedBytes_eq_sum]
    · rw [Account.share_other haccount, chargedTo_cons_other haccount, List.map_nil,
        List.sum_nil, Nat.zero_add]

/-- An image that is charged is charged for all of its arrays, whatever their sizes. -/
theorem chargedTo_of_hold {img : Image} {bank : Bank}
    (hheld : (img.hold (some (.ledger i)) bank).1 = .ok h) (holdings : List Holding) :
    chargedTo (h :: holdings) i = img.footprint + chargedTo holdings i := by
  rw [Image.hold] at hheld
  split at hheld
  · next blocks full halloc =>
    cases hheld
    rw [chargedTo_cons_self rfl, chargedBytes_eq_sum, Image.footprint_eq_sum,
      ← Bank.sizes_of_allocArrays halloc]
  · cases hheld

end Holding

namespace Bank

open Holding (shares)

variable {bank bank' : Bank} {i : Nat} {cap : Option UInt64} {account : Option Account}
  {holdings holdings' : List Holding}

theorem Bears.of_holdings_perm (h : bank.Bears i cap (shares holdings i))
    (hperm : holdings.Perm holdings') : bank.Bears i cap (shares holdings' i) :=
  h.of_perm (hperm.flatMap_right _)

/-- The live bytes of a ledger are what images are charged to it. -/
def Counts (bank : Bank) (i : Nat) (holdings : List Holding) : Prop :=
  ∃ l, bank[i]? = some l ∧ l.live.toNat = Holding.chargedTo holdings i

theorem Bears.counts (h : bank.Bears i cap (shares holdings i)) : bank.Counts i holdings := by
  obtain ⟨l, hl, hbears⟩ := h
  exact ⟨l, hl, hbears.live.trans (Holding.sum_shares holdings i)⟩

/-- An image from elsewhere does not count. -/
theorem Bears.enter {held : Holding} (h : bank.Bears i cap (shares holdings i))
    (hheld : held.account ≠ .ledger i) : bank.Bears i cap (shares (held :: holdings) i) := by
  rw [Holding.shares_cons, Holding.share, Account.share_other hheld]
  exact h

theorem Bears.drop {held : Holding} (h : bank.Bears i cap (shares (held :: holdings) i)) :
    (held.drop bank).Bears i cap (shares holdings i) :=
  h.releaseAll

theorem Bears.hold {img : Image} {result : Attempt AllocError Holding}
    (h : bank.Bears i cap (shares holdings i)) (hhold : img.hold account bank = (result, bank')) :
    bank'.Bears i cap (shares (result.toOption.toList ++ holdings) i) := by
  cases account with
  | none =>
    cases hhold
    exact h.enter (fun heq => by cases heq)
  | some account =>
    rw [Image.hold] at hhold
    cases halloc : bank.allocArrays account img.arrays with
    | mk granted full =>
      have hfull := h.allocArrays halloc
      rw [halloc] at hhold
      cases granted with
      | ok blocks =>
        cases hhold
        exact hfull
      | error stop =>
        cases hhold
        have hrest : bank'.Bears i cap (account.share i [] ++ shares holdings i) := hfull
        rw [Account.share_nil] at hrest
        exact hrest

/-- What a ledger bears is within its limit. -/
theorem Bears.chargedTo_le (h : bank.Bears i cap (shares holdings i)) {max : UInt64}
    (hmax : max ∈ cap) : Holding.chargedTo holdings i ≤ max.toNat := by
  obtain ⟨l, _, hbears⟩ := h
  rw [← Holding.sum_shares]
  exact hbears.within max hmax

theorem Counts.word (h : bank.Counts i holdings) : Holding.chargedTo holdings i < UInt64.size := by
  obtain ⟨l, _, hlive⟩ := h
  exact hlive ▸ l.live.toNat_lt_size

theorem Bears.exists_hold {img : Image} (h : bank.Bears i cap (shares holdings i))
    (hword : Holding.chargedTo holdings i + img.footprint < UInt64.size)
    (hcap : ∀ max ∈ cap, Holding.chargedTo holdings i + img.footprint ≤ max.toNat) :
    ∃ held, (img.hold (some (.ledger i)) bank).1 = .ok held := by
  obtain ⟨l, hl, hbears⟩ := h
  have hlive := hbears.live.trans (Holding.sum_shares holdings i)
  have hroom : l.HasRoom img.footprint := by
    refine ⟨hlive ▸ hword, fun max hmax => ?_⟩
    rw [hlive]
    exact hcap max (hbears.limit ▸ hmax)
  obtain ⟨held, full, hheld, _⟩ := Image.hold_of_hasRoom hl hroom
  exact ⟨held, congrArg Prod.fst hheld⟩

/-- An image that a ledger has no room for leaves what is borne. -/
theorem Bears.hold_of_overfull {img : Image} (h : bank.Bears i cap (shares holdings i))
    (hover : UInt64.size ≤ Holding.chargedTo holdings i + img.footprint ∨
      ∃ max ∈ cap, max.toNat < Holding.chargedTo holdings i + img.footprint) :
    ∃ stop rest, img.hold (some (.ledger i)) bank = (.error stop, rest) ∧
      rest.Bears i cap (shares holdings i) := by
  cases hhold : img.hold (some (.ledger i)) bank with
  | mk result rest =>
    have hafter := h.hold hhold
    cases result with
    | error stop => exact ⟨stop, rest, rfl, hafter⟩
    | ok held =>
      have hboth := Holding.chargedTo_of_hold (congrArg Prod.fst hhold) holdings
      have hword : Holding.chargedTo (held :: holdings) i < UInt64.size := hafter.counts.word
      rcases hover with hover | ⟨max, hmax, hover⟩
      · omega
      · have hwithin : Holding.chargedTo (held :: holdings) i ≤ max.toNat :=
          hafter.chargedTo_le hmax
        omega

/-- Under a limit below the largest word charging an image is no breach. -/
theorem Bears.hold_ne_breach {img : Image} (h : bank.Bears i cap (shares holdings i))
    {max : UInt64} (hmax : max ∈ cap) (hsmall : max.toNat < UInt64.size - 1) (v : Violation) :
    (img.hold (some (.ledger i)) bank).1 ≠ .error (.breach v) := by
  intro hhold
  rw [Image.hold] at hhold
  split at hhold
  · cases hhold
  · next stop rest halloc =>
    cases hhold
    obtain ⟨_, hlargest⟩ := h.breach_of_allocArrays halloc
    exact Nat.ne_of_lt hsmall (hlargest max hmax)

end Bank
end TypeAtlas
