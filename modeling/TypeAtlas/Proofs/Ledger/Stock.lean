/-
Stocks of arrays over a bank.

Arrays of any element sizes are made, copied, changed and given up in any order, and some
of them are charged to ledgers.  `Stock.Outcome` says once what a command can come to, and
each outcome keeps the ledgers exact.  A ledger counts in words, and an array that would
take it beyond one is not made.
-/
import Mathlib.Data.List.Induction
import Mathlib.Data.List.Perm.Basic
import TypeAtlas.Ledger.Shelf
import TypeAtlas.Proofs.Ledger.Tally

namespace TypeAtlas

/-! ## Stocks -/

namespace ChargedArray

variable {α : Type}

/-- Gives the charge back, takes the elements, and drops the array that is left. -/
def takeOut (bank : Bank) (a : ChargedArray α) : Contract (Array α × Bank) := do
  let bank ← a.drop bank
  return (a.items, ← (uncharged (#[] : Array α)).drop bank)

theorem takeOut_eq (bank : Bank) (a : ChargedArray α) :
    a.takeOut bank = (a.drop bank).map (a.items, ·) := by
  rw [takeOut]
  cases a.drop bank <;> rfl

end ChargedArray

/-- An array, the size of its elements, and how many of them it was made of. -/
structure Lot (α : Type) where
  elementSize : Nat
  made : Nat
  array : ChargedArray α

namespace Lot

variable {α : Type} {lot lot' : Lot α} {lots lots' : List (Lot α)} {i : Nat}

def isOn (lot : Lot α) (i : Nat) : Bool := lot.array.charge.any (·.account = .ledger i)

/-- The arrays that are charged to a ledger. -/
def attached (lots : List (Lot α)) (i : Nat) : List (Lot α) := lots.filter (·.isOn i)

/-- What they are charged together. -/
def charged (lots : List (Lot α)) (i : Nat) : Nat :=
  ((attached lots i).map (·.array.chargedBytes.toNat)).sum

/-- An array on an account is charged for what it was made of. -/
def Priced (lot : Lot α) : Prop :=
  lot.array.charge.isSome → lot.array.chargedBytes.toNat = lot.made * lot.elementSize

theorem isOn_of_charge {c : Charge} (h : lot.array.charge = some c) :
    lot.isOn i = decide (c.account = .ledger i) := by
  rw [isOn, h]
  rfl

theorem isOn_of_uncharged (h : lot.array.charge = none) : lot.isOn i = false := by
  rw [isOn, h]
  rfl

theorem attached_cons_self (h : lot.isOn i = true) :
    attached (lot :: lots) i = lot :: attached lots i :=
  List.filter_cons_of_pos h

theorem charged_cons_self (h : lot.isOn i = true) :
    charged (lot :: lots) i = charged lots i + lot.array.chargedBytes.toNat := by
  rw [charged, attached_cons_self h, List.map_cons, List.sum_cons, Nat.add_comm]
  rfl

theorem attached_cons_other (h : lot.isOn i = false) :
    attached (lot :: lots) i = attached lots i :=
  List.filter_cons_of_neg (Bool.eq_false_iff.mp h)

theorem charged_cons_other (h : lot.isOn i = false) :
    charged (lot :: lots) i = charged lots i := by
  rw [charged, attached_cons_other h]
  rfl

/-- Only the charge of an array counts. -/
theorem counts_congr (h : lot'.array.charge = lot.array.charge) :
    charged (lot' :: lots) i = charged (lot :: lots) i ∧
      (attached (lot' :: lots) i).length = (attached (lot :: lots) i).length := by
  have hsame : lot'.isOn i = lot.isOn i := by rw [isOn, isOn, h]
  have hbytes : lot'.array.chargedBytes = lot.array.chargedBytes := by
    rw [ChargedArray.chargedBytes, ChargedArray.chargedBytes, h]
  cases hon : lot.isOn i with
  | true =>
    rw [hon] at hsame
    rw [charged_cons_self hon, charged_cons_self hsame, attached_cons_self hon,
      attached_cons_self hsame, hbytes]
    exact ⟨rfl, rfl⟩
  | false =>
    rw [hon] at hsame
    rw [charged_cons_other hon, charged_cons_other hsame, attached_cons_other hon,
      attached_cons_other hsame]
    exact ⟨rfl, rfl⟩

theorem attached_of_perm (h : lots.Perm lots') :
    (attached lots i).length = (attached lots' i).length :=
  (h.filter _).length_eq

theorem charged_of_perm (h : lots.Perm lots') : charged lots i = charged lots' i :=
  ((h.filter _).map _).sum_nat

end Lot

/-- The arrays that are live, and the ledgers they may be charged to. -/
structure Stock (α : Type) where
  bank : Bank
  lots : List (Lot α) := []

namespace Stock

open Check (bind_eq_ok_iff bind_eq_error_iff mapError_eq_ok_iff)

variable {α : Type}

/-- Arrays are addressed by their places among those that are live. -/
inductive Command (α : Type) where
  /-- An array of the elements, charged to the account if there is one. -/
  | make (elementSize : Nat) (items : Array α) (account : Option Account)
  /-- An array of so many equal elements. -/
  | filled (elementSize count : Nat) (fill : α) (account : Account)
  /-- A charged copy of an array. -/
  | copy (k : Nat) (account : Account)
  /-- Turns an array into its elements. -/
  | takeOut (k : Nat)
  | drop (k : Nat)
  /-- Removes an element, not keeping the order. -/
  | remove (k i : Nat)
  | write (k i : Nat) (x : α)

inductive Reply (α : Type) where
  | done
  | element (x : α)
  | elements (items : Array α)

/-- Adds an array that was just made, or leaves the stock as it was. -/
def enter (s : Stock α) (elementSize made : Nat) :
    Attempt AllocError (ChargedArray α × Bank) → Except Shelf.Refusal (Reply α) × Stock α
  | .error stop => (.error (.ofStop stop), s)
  | .ok (array, bank) => (.ok .done, ⟨bank, ⟨elementSize, made, array⟩ :: s.lots⟩)

/-- Does something with one of the arrays, or leaves the stock as it was. -/
def withLot (s : Stock α) (k : Nat) (f : Lot α → Contract (Reply α × Stock α)) :
    Except Shelf.Refusal (Reply α) × Stock α :=
  match s.lots[k]? with
  | none => (.error .missing, s)
  | some lot =>
    match f lot with
    | .ok (reply, s) => (.ok reply, s)
    | .error v => (.error (.violation v), s)

/-- Another state of an array in its place. -/
def replace (s : Stock α) (k : Nat) (lot : Lot α) (array : ChargedArray α) : Stock α :=
  { s with lots := s.lots.set k { lot with array } }

def step (s : Stock α) : Command α → Except Shelf.Refusal (Reply α) × Stock α
  | .make elementSize items account =>
    s.enter elementSize items.size (ChargedArray.make s.bank account elementSize items)
  | .filled elementSize count fill account =>
    let (made, bank) := ChargedArray.filled s.bank account elementSize count fill
    { s with bank }.enter elementSize count (made.map (·, bank))
  | .copy k account =>
    match s.lots[k]? with
    | none => (.error .missing, s)
    | some lot =>
      s.enter lot.elementSize lot.array.items.size
        (ChargedArray.make s.bank (some account) lot.elementSize lot.array.items)
  | .takeOut k => s.withLot k fun lot =>
    (lot.array.takeOut s.bank).map fun r => (.elements r.1, ⟨r.2, s.lots.eraseIdx k⟩)
  | .drop k => s.withLot k fun lot =>
    (lot.array.drop s.bank).map fun bank => (.done, ⟨bank, s.lots.eraseIdx k⟩)
  | .remove k i => s.withLot k fun lot =>
    (lot.array.removeUnstable i).map fun r => (.element r.1, s.replace k lot r.2)
  | .write k i x => s.withLot k fun lot =>
    (lot.array.set i x).map fun array => (.done, s.replace k lot array)

/-- The stock at the end of a run. -/
def after (s : Stock α) (commands : List (Command α)) : Stock α :=
  commands.foldl (fun s c => (s.step c).2) s

/-- Every ledger counts the arrays that are charged to it, and every array on an account is
charged for what it was made of. -/
structure Exact (s : Stock α) : Prop where
  tallies (i : Nat) (l : Ledger) : s.bank[i]? = some l →
    l.Tallies (Lot.charged s.lots i) (Lot.attached s.lots i).length
  priced (lot : Lot α) : lot ∈ s.lots → lot.Priced

variable {s s' : Stock α} {lot lot' : Lot α} {lots : List (Lot α)} {bank bank' : Bank}

theorem Exact.of_perm (h : s.Exact) (hperm : s.lots.Perm lots) :
    (⟨s.bank, lots⟩ : Stock α).Exact where
  tallies i l hl := by
    rw [← Lot.charged_of_perm hperm, ← Lot.attached_of_perm hperm]
    exact h.tallies i l hl
  priced lot hlot := h.priced lot (hperm.mem_iff.mpr hlot)

theorem Exact.follows (h : s.Exact) : s.bank.Follows s.bank :=
  ⟨rfl, fun i l hl => ⟨l, hl, (h.tallies i l hl).follows⟩⟩

/-- Where one ledger moves, it has to count the new arrays, and the others must not care. -/
theorem Exact.turned {account : Account} {moves : Ledger → Ledger → Prop}
    (hturns : s.bank.Turns bank account moves) (hpriced : ∀ lot ∈ lots, lot.Priced)
    (hmoved : ∀ i l l', account = .ledger i → s.bank[i]? = some l → moves l l' →
      l'.Tallies (Lot.charged lots i) (Lot.attached lots i).length ∧ l.Follows l')
    (hstayed : ∀ i l, account ≠ .ledger i → s.bank[i]? = some l →
      l.Tallies (Lot.charged lots i) (Lot.attached lots i).length) :
    (⟨bank, lots⟩ : Stock α).Exact ∧ s.bank.Follows bank := by
  have hledger (i : Nat) (l' : Ledger) (hl' : bank[i]? = some l') : ∃ l, s.bank[i]? = some l ∧
      l'.Tallies (Lot.charged lots i) (Lot.attached lots i).length ∧ l.Follows l' := by
    obtain ⟨l, hl, ⟨haccount, hmoves⟩ | ⟨haccount, rfl⟩⟩ := hturns.ledger i l' hl'
    · exact ⟨l, hl, hmoved i l l' haccount hl hmoves⟩
    · have htallies := hstayed i l' haccount hl
      exact ⟨l', hl, htallies, htallies.follows⟩
  refine ⟨⟨fun i l' hl' => ?_, hpriced⟩, hturns.size, fun i l' hl' => ?_⟩
  · obtain ⟨_, _, htallies, _⟩ := hledger i l' hl'
    exact htallies
  · obtain ⟨l, hl, _, hfollows⟩ := hledger i l' hl'
    exact ⟨l, hl, hfollows⟩

/-- An array that is granted its block joins the others. -/
theorem Exact.granted {account : Account} {bytes : UInt64} (h : s.Exact)
    (halloc : s.bank.alloc bytes account = .ok bank)
    (hcharge : lot.array.charge = some ⟨account, bytes⟩)
    (hbytes : bytes.toNat = lot.made * lot.elementSize) :
    (⟨bank, lot :: s.lots⟩ : Stock α).Exact ∧ s.bank.Follows bank := by
  have hcharged : lot.array.chargedBytes = bytes := by rw [ChargedArray.chargedBytes, hcharge]
  refine Exact.turned (Bank.turns_of_alloc halloc)
    (List.forall_mem_cons.mpr ⟨fun _ => hcharged ▸ hbytes, h.priced⟩)
    (fun i l l' haccount hl hgranted => ?_) (fun i l haccount hl => ?_)
  · have hon : lot.isOn i = true := by rw [Lot.isOn_of_charge hcharge, haccount, decide_eq_true rfl]
    rw [Lot.charged_cons_self hon, hcharged, Lot.attached_cons_self hon, List.length_cons]
    exact (h.tallies i l hl).alloc hgranted
  · have hoff : lot.isOn i = false := by rw [Lot.isOn_of_charge hcharge, decide_eq_false haccount]
    rw [Lot.charged_cons_other hoff, Lot.attached_cons_other hoff]
    exact h.tallies i l hl

/-- An array that nothing is charged for joins the others. -/
theorem Exact.uncharged (h : s.Exact) (hcharge : lot.array.charge = none) :
    (⟨s.bank, lot :: s.lots⟩ : Stock α).Exact where
  tallies i l hl := by
    have hoff := Lot.isOn_of_uncharged (i := i) hcharge
    rw [Lot.charged_cons_other hoff, Lot.attached_cons_other hoff]
    exact h.tallies i l hl
  priced := by
    refine List.forall_mem_cons.mpr ⟨fun hsome => ?_, h.priced⟩
    rw [hcharge] at hsome
    cases hsome

/-- An array can always be dropped, and the others stay. -/
theorem Exact.dropped (h : (⟨bank, lot :: lots⟩ : Stock α).Exact) :
    ∃ bank', lot.array.drop bank = .ok bank' ∧ (⟨bank', lots⟩ : Stock α).Exact ∧
      bank.Follows bank' := by
  have hpriced := (List.forall_mem_cons.mp h.priced).2
  have hstayed (i : Nat) (l : Ledger) (hoff : lot.isOn i = false) (hl : bank[i]? = some l) :
      l.Tallies (Lot.charged lots i) (Lot.attached lots i).length := by
    have htallies := h.tallies i l hl
    rwa [Lot.charged_cons_other hoff, Lot.attached_cons_other hoff] at htallies
  cases hcharge : lot.array.charge with
  | none =>
    refine ⟨bank, by rw [ChargedArray.drop, hcharge], ⟨fun i l hl => ?_, hpriced⟩, h.follows⟩
    exact hstayed i l (Lot.isOn_of_uncharged hcharge) hl
  | some c =>
    have hcharged : lot.array.chargedBytes = c.bytes := by rw [ChargedArray.chargedBytes, hcharge]
    have hfree (i : Nat) (l : Ledger) (hc : c.account = .ledger i) (hl : bank[i]? = some l) :
        ∃ l', l.free c.bytes = .ok l' ∧
          l'.Tallies (Lot.charged lots i) (Lot.attached lots i).length ∧ l.Follows l' := by
      have hon : lot.isOn i = true := by rw [Lot.isOn_of_charge hcharge, hc, decide_eq_true rfl]
      have htallies := h.tallies i l hl
      rw [Lot.charged_cons_self hon, Lot.attached_cons_self hon, List.length_cons,
        hcharged] at htallies
      exact htallies.free
    obtain ⟨bank', hdrop, hturns⟩ := Bank.exists_free c.account fun i l hc hl =>
      (hfree i l hc hl).imp fun _ h => h.1
    refine ⟨bank', by rw [ChargedArray.drop, hcharge]; exact hdrop,
      Exact.turned (s := ⟨bank, lot :: lots⟩) hturns hpriced (fun i l l' hc hl hfreed => ?_)
        (fun i l hc hl => hstayed i l ?_ hl)⟩
    · obtain ⟨l'', hfreed', hrest⟩ := hfree i l hc hl
      cases hfreed.symm.trans hfreed'
      exact hrest
    · rw [Lot.isOn_of_charge hcharge, decide_eq_false hc]

/-! ## One command -/

/-- An array of so many elements has its charge from the bank, or has none. -/
def Granted (bank : Bank) (elementSize made : Nat) (array : ChargedArray α) (bank' : Bank) :
    Prop :=
  (array.charge = none ∧ bank' = bank) ∨
  ∃ account bytes, array.charge = some ⟨account, bytes⟩ ∧
    bank.alloc bytes account = .ok bank' ∧ bytes.toNat = made * elementSize

/-- The block that a command asks an account for. -/
def asked (s : Stock α) : Command α → Option (Account × Nat)
  | .make elementSize items account => account.map fun a => (a, items.size * elementSize)
  | .filled elementSize count _ account => some (account, count * elementSize)
  | .copy k account =>
    s.lots[k]?.map fun lot => (account, lot.array.items.size * lot.elementSize)
  | _ => none

/-- A refusal that is not for the counters of a ledger. -/
def Plain : Shelf.Refusal → Prop
  | .violation (.unmatchedFree _) | .violation .sumOverflow => False
  | _ => True

/-- All that a command can come to that asks for a block, or for none. -/
inductive Outcome (s : Stock α) (asked : Option (Account × Nat)) :
    Except Shelf.Refusal (Reply α) → Stock α → Prop where
  | made {elementSize made : Nat} {array : ChargedArray α} {bank : Bank} :
      Granted s.bank elementSize made array bank →
      Outcome s asked (.ok .done) ⟨bank, ⟨elementSize, made, array⟩ :: s.lots⟩
  | dropped {k : Nat} {lot : Lot α} {bank : Bank} (reply : Reply α) :
      s.lots[k]? = some lot → lot.array.drop s.bank = .ok bank →
      Outcome s asked (.ok reply) ⟨bank, s.lots.eraseIdx k⟩
  | changed {k : Nat} {lot : Lot α} {array : ChargedArray α} (reply : Reply α) :
      s.lots[k]? = some lot → array.charge = lot.array.charge →
      Outcome s asked (.ok reply) (s.replace k lot array)
  | refused {refusal : Shelf.Refusal} : Plain refusal → Outcome s asked (.error refusal) s
  /-- A block that its ledger cannot count. -/
  | overfull {account : Account} {bytes : UInt64} {v : Violation} :
      asked = some (account, bytes.toNat) → s.bank.alloc bytes account = .error (.breach v) →
      Outcome s asked (.error (.violation v)) s
  | undroppable {lot : Lot α} {v : Violation} :
      lot ∈ s.lots → lot.array.drop s.bank = .error v → Outcome s asked (.error (.violation v)) s
  /-- The charge of an array that cannot exist stays behind. -/
  | overflow (bank : Bank) :
      Outcome s asked (.error (.violation .capacityOverflow)) { s with bank }

variable {asked : Option (Account × Nat)}

theorem granted_of_chargeFor {account : Account} {elementSize made : Nat} {charge : Charge}
    {items : Array α}
    (h : ChargedArray.chargeFor bank account elementSize made = .ok (charge, bank')) :
    Granted bank elementSize made ⟨items, some charge⟩ bank' := by
  obtain ⟨bytes, hbytes, h⟩ := bind_eq_ok_iff.mp h
  obtain ⟨granted, halloc, h⟩ := bind_eq_ok_iff.mp h
  cases h
  exact .inr ⟨account, bytes, rfl, halloc, toNat_of_arrayBytes (mapError_eq_ok_iff.mp hbytes)⟩

theorem granted_of_make {account : Option Account} {elementSize : Nat} {items : Array α}
    {array : ChargedArray α}
    (h : ChargedArray.make bank account elementSize items = .ok (array, bank')) :
    Granted bank elementSize items.size array bank' := by
  cases account with
  | none =>
    cases h
    exact .inl ⟨rfl, rfl⟩
  | some account =>
    obtain ⟨⟨charge, granted⟩, hcharge, h⟩ := bind_eq_ok_iff.mp h
    cases h
    exact granted_of_chargeFor hcharge

/-- What is charged for some elements is a breach where their block is. -/
theorem breach_of_chargeFor {account : Account} {elementSize made : Nat} {v : Violation}
    (h : ChargedArray.chargeFor bank account elementSize made = .error (.breach v)) :
    ∃ bytes : UInt64, bytes.toNat = made * elementSize ∧
      bank.alloc bytes account = .error (.breach v) := by
  rcases bind_eq_error_iff.mp h with h | ⟨bytes, hbytes, h⟩
  · cases hbytes : arrayBytes elementSize made with
    | ok bytes => cases hbytes ▸ h
    | error e => cases hbytes ▸ h
  · refine ⟨bytes, toNat_of_arrayBytes (mapError_eq_ok_iff.mp hbytes), ?_⟩
    rcases bind_eq_error_iff.mp h with h | ⟨_, _, h⟩
    · exact h
    · cases h

theorem breach_of_make {account : Option Account} {elementSize : Nat} {items : Array α}
    {v : Violation}
    (h : ChargedArray.make bank account elementSize items = .error (.breach v)) :
    ∃ a bytes, account = some a ∧ UInt64.toNat bytes = items.size * elementSize ∧
      bank.alloc bytes a = .error (.breach v) := by
  cases account with
  | none => cases h
  | some a =>
    rcases bind_eq_error_iff.mp h with h | ⟨_, _, h⟩
    · obtain ⟨bytes, hrest⟩ := breach_of_chargeFor h
      exact ⟨a, bytes, rfl, hrest⟩
    · cases h

theorem outcome_enter {elementSize made : Nat} {x : Attempt AllocError (ChargedArray α × Bank)}
    (hok : ∀ array bank, x = .ok (array, bank) → Granted s.bank elementSize made array bank)
    (hbreach : ∀ v, x = .error (.breach v) → ∃ account bytes,
      asked = some (account, UInt64.toNat bytes) ∧ s.bank.alloc bytes account = .error (.breach v)) :
    s.Outcome asked (s.enter elementSize made x).1 (s.enter elementSize made x).2 := by
  cases x with
  | ok r => exact .made (hok r.1 r.2 rfl)
  | error stop =>
    cases stop with
    | fault e => exact .refused trivial
    | breach v =>
      obtain ⟨account, bytes, hasked, halloc⟩ := hbreach v rfl
      exact .overfull hasked halloc

theorem outcome_withLot {k : Nat} {f : Lot α → Contract (Reply α × Stock α)}
    (h : ∀ lot, s.lots[k]? = some lot →
      (∀ r, f lot = .ok r → s.Outcome asked (.ok r.1) r.2) ∧
      ∀ v, f lot = .error v → s.Outcome asked (.error (.violation v)) s) :
    s.Outcome asked (s.withLot k f).1 (s.withLot k f).2 := by
  rw [withLot]
  cases hlot : s.lots[k]? with
  | none => exact .refused trivial
  | some lot =>
    obtain ⟨hok, herror⟩ := h lot hlot
    cases hf : f lot with
    | ok r =>
      simp only [hf]
      exact hok r hf
    | error v =>
      simp only [hf]
      exact herror v hf

/-- An array is given up by being dropped, whatever is answered. -/
theorem outcome_giveUp {k : Nat} {lot : Lot α} (hlot : s.lots[k]? = some lot)
    {f : Contract (Reply α × Stock α)} (reply : Reply α)
    (hf : f = (lot.array.drop s.bank).map fun bank => (reply, ⟨bank, s.lots.eraseIdx k⟩)) :
    (∀ r, f = .ok r → s.Outcome asked (.ok r.1) r.2) ∧
      ∀ v, f = .error v → s.Outcome asked (.error (.violation v)) s := by
  subst hf
  cases hdrop : lot.array.drop s.bank with
  | ok bank =>
    refine ⟨fun r h => ?_, fun v h => (by cases h)⟩
    cases h
    exact .dropped reply hlot hdrop
  | error v =>
    refine ⟨fun r h => (by cases h), fun v h => ?_⟩
    cases h
    exact .undroppable (List.mem_of_getElem? hlot) hdrop

theorem outcome_step (s : Stock α) (c : Command α) :
    s.Outcome (s.asked c) (s.step c).1 (s.step c).2 := by
  cases c with
  | make elementSize items account =>
    refine outcome_enter (fun _ _ => granted_of_make) fun v hv => ?_
    obtain ⟨a, bytes, rfl, hbytes, halloc⟩ := breach_of_make hv
    exact ⟨a, bytes, by rw [hbytes]; rfl, halloc⟩
  | filled elementSize count fill account =>
    rw [step, ChargedArray.filled]
    cases hcharge : ChargedArray.chargeFor s.bank account elementSize count with
    | error stop =>
      refine outcome_enter (fun _ _ h => by cases h) fun v hv => ?_
      cases hv
      obtain ⟨bytes, hbytes, halloc⟩ := breach_of_chargeFor hcharge
      exact ⟨account, bytes, by rw [hbytes]; rfl, halloc⟩
    | ok r =>
      obtain ⟨charge, bank⟩ := r
      by_cases hbytes : charge.bytes ≤ maxArrayBytes
      · simp only [if_pos hbytes]
        exact .made (granted_of_chargeFor hcharge)
      · simp only [if_neg hbytes]
        exact .overflow bank
  | copy k account =>
    rw [step]
    cases hlot : s.lots[k]? with
    | none => exact .refused trivial
    | some lot =>
      refine outcome_enter (fun _ _ => granted_of_make) fun v hv => ?_
      obtain ⟨a, bytes, ha, hbytes, halloc⟩ := breach_of_make hv
      cases ha
      exact ⟨account, bytes, by rw [asked, hlot, hbytes]; rfl, halloc⟩
  | takeOut k =>
    refine outcome_withLot fun lot hlot =>
      outcome_giveUp hlot (.elements lot.array.items) ?_
    rw [ChargedArray.takeOut_eq]
    cases lot.array.drop s.bank <;> rfl
  | drop k => exact outcome_withLot fun lot hlot => outcome_giveUp hlot .done rfl
  | remove k i =>
    refine outcome_withLot fun lot hlot => ?_
    rw [ChargedArray.removeUnstable]
    by_cases hi : i < lot.array.items.size
    · rw [dif_pos hi]
      refine ⟨fun r h => ?_, fun v h => (by cases h)⟩
      cases h
      exact .changed _ hlot rfl
    · rw [dif_neg hi]
      refine ⟨fun r h => (by cases h), fun v h => ?_⟩
      cases h
      exact .refused trivial
  | write k i x =>
    refine outcome_withLot fun lot hlot => ?_
    rw [ChargedArray.set]
    by_cases hi : i < lot.array.items.size
    · rw [dif_pos hi]
      refine ⟨fun r h => ?_, fun v h => (by cases h)⟩
      cases h
      exact .changed _ hlot rfl
    · rw [dif_neg hi]
      refine ⟨fun r h => (by cases h), fun v h => ?_⟩
      cases h
      exact .refused trivial

/-! ## Runs -/

theorem cons_eraseIdx_perm {k : Nat} (h : s.lots[k]? = some lot) :
    s.lots.Perm (lot :: s.lots.eraseIdx k) := by
  obtain ⟨hk, rfl⟩ := List.getElem?_eq_some_iff.mp h
  exact (List.getElem_cons_eraseIdx_perm hk).symm

theorem Exact.replace {k : Nat} {array : ChargedArray α} (h : s.Exact)
    (hlot : s.lots[k]? = some lot) (hcharge : array.charge = lot.array.charge) :
    (s.replace k lot array).Exact := by
  obtain ⟨hk, _⟩ := List.getElem?_eq_some_iff.mp hlot
  have h := h.of_perm (cons_eraseIdx_perm hlot)
  have hpriced := List.forall_mem_cons.mp h.priced
  have hexact : (⟨s.bank, { lot with array } :: s.lots.eraseIdx k⟩ : Stock α).Exact := by
    refine ⟨fun i l hl => ?_, List.forall_mem_cons.mpr ⟨?_, hpriced.2⟩⟩
    · have hsame : ({ lot with array } : Lot α).array.charge = lot.array.charge := hcharge
      obtain ⟨hcharged, hattached⟩ := Lot.counts_congr hsame
      rw [hcharged, hattached]
      exact h.tallies i l hl
    · have hlot := hpriced.1
      rw [Lot.Priced, ChargedArray.chargedBytes] at hlot ⊢
      rw [hcharge]
      exact hlot
  exact hexact.of_perm (List.set_perm_cons_eraseIdx hk _).symm

theorem Exact.outcome {reply : Except Shelf.Refusal (Reply α)} (h : s.Exact)
    (houtcome : s.Outcome asked reply s')
    (hstorage : reply ≠ .error (.violation .capacityOverflow)) :
    s'.Exact ∧ s.bank.Follows s'.bank := by
  cases houtcome with
  | made hgranted =>
    rcases hgranted with ⟨hcharge, rfl⟩ | ⟨account, bytes, hcharge, halloc, hbytes⟩
    · exact ⟨h.uncharged hcharge, h.follows⟩
    · exact h.granted halloc hcharge hbytes
  | dropped reply hlot hdrop =>
    obtain ⟨bank', hdrop', hrest⟩ := (h.of_perm (cons_eraseIdx_perm hlot)).dropped
    cases hdrop.symm.trans hdrop'
    exact hrest
  | changed reply hlot hcharge => exact ⟨h.replace hlot hcharge, h.follows⟩
  | refused => exact ⟨h, h.follows⟩
  | overfull => exact ⟨h, h.follows⟩
  | undroppable => exact ⟨h, h.follows⟩
  | overflow => exact absurd rfl hstorage

theorem Outcome.refused_eq {refusal : Shelf.Refusal}
    (houtcome : s.Outcome asked (.error refusal) s')
    (hstorage : refusal ≠ .violation .capacityOverflow) : s' = s := by
  cases houtcome with
  | refused => rfl
  | overfull => rfl
  | undroppable => rfl
  | overflow => exact absurd rfl hstorage

/-- No block that is given back is missing from its ledger. -/
theorem Exact.matched {bytes : Nat} (h : s.Exact) :
    ¬ s.Outcome asked (.error (.violation (.unmatchedFree bytes))) s' := by
  intro houtcome
  cases houtcome with
  | refused hplain => exact hplain
  | overfull _ halloc =>
    obtain ⟨i, l, _, _, hbreach⟩ := Bank.exists_of_breach halloc
    cases (Ledger.alloc_eq_breach_iff.mp hbreach).1
  | undroppable hlot hdrop =>
    obtain ⟨k, hlot⟩ := List.getElem?_of_mem hlot
    obtain ⟨bank', hdrop', _⟩ := (h.of_perm (cons_eraseIdx_perm hlot)).dropped
    cases hdrop.symm.trans hdrop'

/-- A block is one too many only where it takes what is charged to its ledger beyond a
word. -/
theorem Exact.overfull (h : s.Exact)
    (houtcome : s.Outcome asked (.error (.violation .sumOverflow)) s') :
    ∃ i bytes, asked = some (.ledger i, bytes) ∧
      UInt64.size ≤ Lot.charged s.lots i + bytes := by
  cases houtcome with
  | refused hplain => exact hplain.elim
  | overfull hasked halloc =>
    obtain ⟨i, l, rfl, hl, hbreach⟩ := Bank.exists_of_breach halloc
    obtain ⟨_, hword, _⟩ := Ledger.alloc_eq_breach_iff.mp hbreach
    rw [(h.tallies i l hl).live] at hword
    exact ⟨i, _, hasked, hword⟩
  | undroppable hlot hdrop =>
    obtain ⟨k, hlot⟩ := List.getElem?_of_mem hlot
    obtain ⟨bank', hdrop', _⟩ := (h.of_perm (cons_eraseIdx_perm hlot)).dropped
    cases hdrop.symm.trans hdrop'

/-- Ledgers that have granted nothing, and no arrays. -/
def fresh (limits : List (Option UInt64)) : Stock α :=
  { bank := (limits.map ({ limit := · })).toArray }

/-- Every array of a run that is charged for can exist. -/
def Fits (s : Stock α) (commands : List (Command α)) : Prop :=
  ∀ front c, front ++ [c] <+: commands →
    ((s.after front).step c).1 ≠ .error (.violation .capacityOverflow)

theorem after_concat (s : Stock α) (commands : List (Command α)) (c : Command α) :
    s.after (commands ++ [c]) = ((s.after commands).step c).2 := List.foldl_concat ..

/-- The peak is the most that was live on a ledger after any part of a run. -/
def Peaks (s : Stock α) (commands : List (Command α)) (i : Nat) (l : Ledger) : Prop :=
  (∀ front, front <+: commands → ∀ m, (s.after front).bank[i]? = some m → m.live ≤ l.peak) ∧
  ∃ front, front <+: commands ∧ ∃ m, (s.after front).bank[i]? = some m ∧ m.live = l.peak

theorem Peaks.concat {commands : List (Command α)} {c : Command α} {i : Nat} {l l' : Ledger}
    (h : s.Peaks commands i l) (hl' : (s.after (commands ++ [c])).bank[i]? = some l')
    (hfollows : l.Follows l') : s.Peaks (commands ++ [c]) i l' := by
  have hpeak := hfollows.peak
  obtain ⟨hmost, front, hfront, m, hm, heq⟩ := h
  constructor
  · intro front hfront m hm
    rw [UInt64.le_iff_toNat_le, hpeak]
    rcases List.prefix_concat_iff.mp hfront with rfl | hfront
    · cases hm.symm.trans hl'
      exact Nat.le_max_right _ _
    · exact Nat.le_trans (UInt64.le_iff_toNat_le.mp (hmost front hfront m hm)) (Nat.le_max_left _ _)
  · by_cases hhigher : l.peak.toNat ≤ l'.live.toNat
    · rw [Nat.max_eq_right hhigher] at hpeak
      exact ⟨_, List.prefix_rfl, l', hl', (UInt64.toNat_inj.mp hpeak).symm⟩
    · rw [Nat.max_eq_left (Nat.le_of_not_le hhigher)] at hpeak
      refine ⟨front, hfront.trans (List.prefix_append _ _), m, hm, ?_⟩
      rw [heq, UInt64.toNat_inj.mp hpeak]

/-- What a run from fresh ledgers comes to. -/
structure Ran (limits : List (Option UInt64)) (commands : List (Command α)) : Prop where
  exact : ((fresh limits).after commands).Exact
  size : ((fresh limits).after commands).bank.size = limits.length
  ledger (i : Nat) (l : Ledger) : ((fresh limits).after commands).bank[i]? = some l →
    limits[i]? = some l.limit ∧ (fresh limits).Peaks commands i l

variable {limits : List (Option UInt64)} {commands : List (Command α)}

theorem Fits.front {front : List (Command α)} (h : s.Fits commands) (hfront : front <+: commands) :
    s.Fits front :=
  fun before c hbefore => h before c (hbefore.trans hfront)

theorem size_fresh (limits : List (Option UInt64)) :
    (fresh limits : Stock α).bank.size = limits.length := by
  rw [fresh, List.size_toArray, List.length_map]

theorem fresh_getElem? {i : Nat} {l : Ledger} (h : (fresh limits : Stock α).bank[i]? = some l) :
    ∃ limit, limits[i]? = some limit ∧ l = { limit } := by
  rw [fresh, List.getElem?_toArray, List.getElem?_map, Option.map_eq_some_iff] at h
  obtain ⟨limit, hlimit, heq⟩ := h
  exact ⟨limit, hlimit, heq.symm⟩

theorem exact_fresh (limits : List (Option UInt64)) : (fresh limits : Stock α).Exact where
  tallies i l hl := by
    obtain ⟨limit, _, rfl⟩ := fresh_getElem? hl
    exact ⟨rfl, rfl, rfl, Nat.le_refl _, fun _ _ => UInt64.le_iff_toNat_le.mpr (Nat.zero_le _)⟩
  priced lot hlot := absurd hlot List.not_mem_nil

theorem fits_nil (limits : List (Option UInt64)) : (fresh limits : Stock α).Fits [] :=
  fun _ _ h => absurd h (by simp)

theorem Fits.concat {c : Command α} (h : s.Fits commands)
    (hlast : ((s.after commands).step c).1 ≠ .error (.violation .capacityOverflow)) :
    s.Fits (commands ++ [c]) := by
  intro front d hfront
  rcases List.prefix_concat_iff.mp hfront with heq | hfront
  · obtain ⟨rfl, hd⟩ := List.append_inj' heq rfl
    obtain rfl := (List.cons.inj hd).1
    exact hlast
  · exact h front d hfront

theorem ran_nil (limits : List (Option UInt64)) : Ran limits ([] : List (Command α)) where
  exact := exact_fresh limits
  size := size_fresh limits
  ledger i l hl := by
    obtain ⟨limit, hlimit, rfl⟩ := fresh_getElem? hl
    refine ⟨hlimit, fun front hfront m hm => ?_, [], List.prefix_rfl, _, hl, rfl⟩
    obtain rfl := List.prefix_nil.mp hfront
    cases hm.symm.trans hl
    exact Nat.le_refl _

theorem Ran.concat {c : Command α} (h : Ran limits commands)
    (hfits : (fresh limits).Fits (commands ++ [c])) : Ran limits (commands ++ [c]) := by
  obtain ⟨hexact, hfollows⟩ :=
    h.exact.outcome (outcome_step _ c) (hfits commands c List.prefix_rfl)
  rw [← after_concat] at hexact hfollows
  refine ⟨hexact, hfollows.size.trans h.size, fun i l' hl' => ?_⟩
  obtain ⟨l, hl, hsame⟩ := hfollows.ledger i l' hl'
  obtain ⟨hlimit, hpeaks⟩ := h.ledger i l hl
  exact ⟨hsame.limit ▸ hlimit, hpeaks.concat hl' hsame⟩

theorem ran_of_fits (h : (fresh limits).Fits commands) : Ran limits commands := by
  induction commands using List.reverseRecOn with
  | nil => exact ran_nil limits
  | append_singleton front c ih => exact (ih (h.front (List.prefix_append _ _))).concat h

/-- A stock to which a run has led, in which nothing is counted twice or not at all. -/
structure CountsExactly (s : Stock α) (limits : List (Option UInt64))
    (commands : List (Command α)) : Prop where
  ledgers (i : Nat) (limit : Option UInt64) : limits[i]? = some limit →
    ∃ l, s.bank[i]? = some l ∧ l.limit = limit ∧ (fresh limits).Peaks commands i l ∧
      l.Tallies (Lot.charged s.lots i) (Lot.attached s.lots i).length
  charges (lot : Lot α) : lot ∈ s.lots → lot.array.chargedBytes.toNat =
    if lot.array.charge.isSome then lot.made * lot.elementSize else 0
  /-- No block that is given back is missing from its ledger. -/
  matched (c : Command α) (bytes : Nat) :
    (s.step c).1 ≠ .error (.violation (.unmatchedFree bytes))
  /-- An array is not counted only where its ledger has no word for it. -/
  overfull (c : Command α) : (s.step c).1 = .error (.violation .sumOverflow) →
    ∃ i bytes, s.asked c = some (.ledger i, bytes) ∧
      UInt64.size ≤ Lot.charged s.lots i + bytes
  refused (c : Command α) (refusal : Shelf.Refusal) : (s.step c).1 = .error refusal →
    refusal ≠ .violation .capacityOverflow → (s.step c).2 = s
  balanced : s.lots = [] → ∀ l ∈ s.bank, l.isBalanced = true

/-- Whatever is done with arrays, the ledgers count what is charged to them. -/
theorem counts_exactly (limits : List (Option UInt64)) (commands : List (Command α))
    (h : (fresh limits).Fits commands) :
    ((fresh limits).after commands).CountsExactly limits commands := by
  have hran := ran_of_fits h
  have hledger {i : Nat} {l : Ledger} (hl : ((fresh limits).after commands).bank[i]? = some l) :=
    And.intro (hran.ledger i l hl) (hran.exact.tallies i l hl)
  refine ⟨fun i limit hlimit => ?_, fun lot hlot => ?_, fun c bytes hbytes => ?_,
    fun c hoverfull => ?_, fun c refusal hrefusal hstorage => ?_, fun hempty l hl => ?_⟩
  · have hi : i < ((fresh limits).after commands).bank.size := by
      rw [hran.size]
      exact (List.getElem?_eq_some_iff.mp hlimit).1
    have hl := Array.getElem?_eq_getElem hi
    obtain ⟨⟨hsame, hpeaks⟩, htallies⟩ := hledger hl
    exact ⟨_, hl, Option.some.inj (hsame.symm.trans hlimit), hpeaks, htallies⟩
  · cases hcharge : lot.array.charge with
    | none =>
      rw [ChargedArray.chargedBytes, hcharge]
      rfl
    | some c =>
      refine (hran.exact.priced lot hlot ?_).trans (if_pos ?_).symm
      · rw [hcharge]
        rfl
      · rfl
  · have houtcome := outcome_step ((fresh limits).after commands) c
    rw [hbytes] at houtcome
    exact hran.exact.matched houtcome
  · have houtcome := outcome_step ((fresh limits).after commands) c
    rw [hoverfull] at houtcome
    exact hran.exact.overfull houtcome
  · have houtcome := outcome_step ((fresh limits).after commands) c
    rw [hrefusal] at houtcome
    exact houtcome.refused_eq hstorage
  · obtain ⟨i, hl⟩ := Array.mem_iff_getElem?.mp hl
    obtain ⟨_, htallies⟩ := hledger hl
    rw [hempty] at htallies
    have hlive : l.live = 0 := UInt64.toNat_inj.mp htallies.live
    rw [Ledger.isBalanced, htallies.blocks, hlive]
    rfl

/-- A copy of an array on one ledger is charged to another, and no room is left there. -/
def copiedAcross : List (Command Nat) :=
  [.make 4 #[7, 8] (some (.ledger 0)), .copy 0 (.ledger 1), .remove 1 0, .filled 4 1 0 (.ledger 1)]

theorem fits_copiedAcross : (fresh [none, some 10]).Fits copiedAcross := by
  have hmade := (fits_nil [none, some 10]).concat (c := .make 4 #[7, 8] (some (.ledger 0)))
    (fun h => by cases h)
  have hcopied := hmade.concat (c := .copy 0 (.ledger 1)) (fun h => by cases h)
  have hremoved := hcopied.concat (c := .remove 1 0) (fun h => by cases h)
  exact hremoved.concat (c := .filled 4 1 0 (.ledger 1)) (fun h => by cases h)

theorem counts_exactly_copiedAcross :
    (fresh [none, some 10]).Fits copiedAcross ∧
    (∃ l, ((fresh [none, some 10]).after copiedAcross).bank[1]? = some l ∧ l.live = 8) ∧
    (((fresh [none, some 10]).after copiedAcross).lots.map (·.array.items)) = [#[7, 8], #[8]] := by
  have hfits := fits_copiedAcross
  refine ⟨hfits, ?_, by rfl⟩
  obtain ⟨l, hl, _, _, htallies⟩ := (counts_exactly _ _ hfits).ledgers 1 (some 10) rfl
  exact ⟨l, hl, UInt64.toNat_inj.mp htallies.live⟩

/-- Not every array is charged for what it was made of. -/
theorem uncharged_of_no_account :
    (fresh []).Fits [Command.make 4 #[7] none] ∧
    ¬ ∀ lot ∈ ((fresh []).after [Command.make 4 #[7] none]).lots,
      lot.array.chargedBytes.toNat = lot.made * lot.elementSize := by
  constructor
  · exact (fits_nil []).concat (fun h => by cases h)
  · intro h
    have hcharged := h _ (List.mem_singleton.mpr rfl)
    revert hcharged
    decide

end Stock
end TypeAtlas
