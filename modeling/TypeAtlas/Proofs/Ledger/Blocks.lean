/-
Blocks of one ledger, granted and given up.

A run asks a ledger for blocks of any size and gives up blocks it was granted.  Whatever is
asked for, the counters come to the blocks that are out, and a block that is out is taken
back.  But the test against the limit stops at the largest word, and a block that takes what
is out beyond it is then neither granted nor refused.  A limit rules that out exactly where
it lies below the largest word.
-/
import Mathlib.Data.List.Induction
import Mathlib.Data.List.ReduceOption
import TypeAtlas.Ledger.Blocks
import TypeAtlas.Ledger.Shelf
import TypeAtlas.Proofs.Ledger.Tally

namespace TypeAtlas

namespace Ledger

variable {l l' : Ledger} {size : UInt64}

theorem limit_of_alloc (h : l.alloc size = .ok l') : l'.limit = l.limit := by
  obtain ⟨hroom, rfl⟩ := alloc_eq_ok_iff.mp h
  exact hroom.carries.limit

theorem limit_of_free (h : l.free size = .ok l') : l'.limit = l.limit := by
  rw [free] at h
  split at h
  · cases h
    rfl
  · cases h

/-- Counters that come to one block more carry it. -/
theorem Tallies.carries {bytes blocks : Nat} (h : l.Tallies bytes blocks)
    (h' : l'.Tallies (bytes + size.toNat) (blocks + 1)) (hlimit : l'.limit = l.limit) :
    l.Carries l' size.toNat 1 where
  limit := hlimit
  live := by rw [h'.live, h.live]
  blocks := by rw [h'.blocks, h.blocks]

end Ledger

namespace BlockTable

/-- Blocks are addressed by their numbers. -/
inductive Command where
  | alloc (size : UInt64)
  | free (i : Nat)

def step (t : BlockTable) : Command → Except Shelf.Refusal Unit × BlockTable
  | .alloc size =>
    match t.alloc size with
    | .ok (_, t) => (.ok (), t)
    | .error stop => (.error (.ofStop stop), t)
  | .free i =>
    match t.free? i with
    | some (.ok (), t) => (.ok (), t)
    | some (.error v, t) => (.error (.violation v), t)
    | none => (.error .missing, t)

/-- The table at the end of a run. -/
def after (t : BlockTable) (commands : List Command) : BlockTable :=
  commands.foldl (fun t c => (t.step c).2) t

def fresh (limit : Option UInt64) : BlockTable := { ledger := { limit } }

/-- The sizes of the blocks that are out. -/
def held (t : BlockTable) : List UInt64 := t.blocks.toList.reduceOption

/-- What the blocks that are out come to. -/
def outstanding (t : BlockTable) : Nat := (t.held.map (·.toNat)).sum

/-- The counters come to the blocks that are out. -/
def Counted (t : BlockTable) : Prop := t.ledger.Tallies t.outstanding t.held.length

/-- A block that is asked for is refused, which changes nothing, or counted whole, and one
that is out is taken back whole. -/
def Sound (t : BlockTable) : Command → Prop
  | .alloc size =>
    (∃ e, t.step (.alloc size) = (.error (.alloc e), t)) ∨
      ∃ t', t.step (.alloc size) = (.ok (), t') ∧ t.ledger.Carries t'.ledger size.toNat 1
  | .free i => ∀ size, t.blocks[i]? = some (some size) →
      ∃ t', t.step (.free i) = (.ok (), t') ∧ t'.ledger.Carries t.ledger size.toNat 1

/-- Every command of a run does what it should. -/
def Keeps (t : BlockTable) (commands : List Command) : Prop :=
  ∀ front c, front ++ [c] <+: commands → (t.after front).Sound c

variable {t : BlockTable} {c : Command} {commands : List Command} {l : Ledger} {size : UInt64}
  {i : Nat} {limit : Option UInt64}

/-! ## One command -/

theorem step_granted (h : t.ledger.alloc size = .ok l) :
    t.step (.alloc size) = (.ok (), ⟨l, t.blocks.push (some size)⟩) := by
  rw [step, alloc, h]
  rfl

theorem step_stopped {stop : Stop AllocError} (h : t.ledger.alloc size = .error stop) :
    t.step (.alloc size) = (.error (.ofStop stop), t) := by
  rw [step, alloc, h]
  rfl

theorem step_missing (h : t.blocks[i]?.join = none) : t.step (.free i) = (.error .missing, t) := by
  rw [step, free?, h]
  rfl

theorem step_matched (hi : t.blocks[i]? = some (some size)) (h : t.ledger.free size = .ok l) :
    t.step (.free i) = (.ok (), ⟨l, t.blocks.setIfInBounds i none⟩) := by
  rw [step, free?, hi]
  simp only [Option.join_some, Option.bind_eq_bind, Option.bind_some, h]
  rfl

theorem step_unmatched {v : Violation} (hi : t.blocks[i]? = some (some size))
    (h : t.ledger.free size = .error v) :
    t.step (.free i) =
      (.error (.violation v), { t with blocks := t.blocks.setIfInBounds i none }) := by
  rw [step, free?, hi]
  simp only [Option.join_some, Option.bind_eq_bind, Option.bind_some, h]
  rfl

theorem limit_step (t : BlockTable) (c : Command) :
    (t.step c).2.ledger.limit = t.ledger.limit := by
  cases c with
  | alloc size =>
    cases hgranted : t.ledger.alloc size with
    | ok l =>
      rw [step_granted hgranted]
      exact Ledger.limit_of_alloc hgranted
    | error stop => rw [step_stopped hgranted]
  | free i =>
    cases hi : t.blocks[i]?.join with
    | none => rw [step_missing hi]
    | some size =>
      have hout := Option.join_eq_some_iff.mp hi
      cases hfree : t.ledger.free size with
      | ok l =>
        rw [step_matched hout hfree]
        exact Ledger.limit_of_free hfree
      | error v => rw [step_unmatched hout hfree]

/-! ## Blocks that are out -/

theorem held_push (l : Ledger) (size : UInt64) :
    held ⟨l, t.blocks.push (some size)⟩ = t.held ++ [size] := by
  rw [held, Array.toList_push, List.reduceOption_append]
  rfl

theorem outstanding_push (l : Ledger) (size : UInt64) :
    outstanding ⟨l, t.blocks.push (some size)⟩ = t.outstanding + size.toNat := by
  rw [outstanding, held_push, List.map_append, List.sum_append_nat]
  rfl

theorem cons_reduceOption_set_perm {α : Type} {xs : List (Option α)} {i : Nat} {x : α}
    (h : xs[i]? = some (some x)) : (x :: (xs.set i none).reduceOption).Perm xs.reduceOption := by
  induction xs generalizing i with
  | nil => cases h
  | cons y ys ih =>
    cases i with
    | zero =>
      cases h
      exact List.Perm.refl _
    | succ i =>
      have hrest := ih h
      cases y with
      | none => exact hrest
      | some y => exact (List.Perm.swap _ _ _).trans (hrest.cons y)

theorem held_giveUp (l : Ledger) (hi : t.blocks[i]? = some (some size)) :
    (size :: held ⟨l, t.blocks.setIfInBounds i none⟩).Perm t.held := by
  rw [held, Array.toList_setIfInBounds]
  exact cons_reduceOption_set_perm ((Array.getElem?_toList ..).trans hi)

theorem outstanding_giveUp (l : Ledger) (hi : t.blocks[i]? = some (some size)) :
    t.outstanding = outstanding ⟨l, t.blocks.setIfInBounds i none⟩ + size.toNat := by
  rw [outstanding, ← ((held_giveUp l hi).map _).sum_nat, List.map_cons, List.sum_cons, Nat.add_comm]
  rfl

theorem length_giveUp (l : Ledger) (hi : t.blocks[i]? = some (some size)) :
    t.held.length = (held ⟨l, t.blocks.setIfInBounds i none⟩).length + 1 :=
  (held_giveUp l hi).length_eq.symm

/-- A command leaves the counters at what the blocks come to that are then out. -/
theorem Counted.step (h : t.Counted) (c : Command) : (t.step c).2.Counted := by
  cases c with
  | alloc size =>
    cases hgranted : t.ledger.alloc size with
    | error stop =>
      rw [step_stopped hgranted]
      exact h
    | ok l =>
      rw [step_granted hgranted, Counted, outstanding_push, held_push, List.length_append]
      exact (h.alloc hgranted).1
  | free i =>
    cases hi : t.blocks[i]?.join with
    | none =>
      rw [step_missing hi]
      exact h
    | some size =>
      have hout := Option.join_eq_some_iff.mp hi
      have hmore := h
      rw [Counted, outstanding_giveUp t.ledger hout, length_giveUp t.ledger hout] at hmore
      obtain ⟨l, hfree, hcounted, _⟩ := hmore.free
      rw [step_matched hout hfree]
      exact hcounted

theorem Counted.sound_free (h : t.Counted) (i : Nat) : t.Sound (.free i) := by
  intro size hout
  have hmore := h
  rw [Counted, outstanding_giveUp t.ledger hout, length_giveUp t.ledger hout] at hmore
  obtain ⟨l, hfree, hcounted, hfollows⟩ := hmore.free
  exact ⟨_, step_matched hout hfree, hcounted.carries hmore hfollows.limit.symm⟩

/-- A limit below the largest word. -/
def Limited (limit : Option UInt64) : Prop :=
  ∃ max, limit = some max ∧ max.toNat < UInt64.size - 1

/-- A block that is asked for is refused or counted whole where what is out then comes to a
word, or where the limit sees to it. -/
theorem Counted.sound_alloc_iff (h : t.Counted) : t.Sound (.alloc size) ↔
    t.outstanding + size.toNat < UInt64.size ∨ Limited t.ledger.limit := by
  rw [← h.live]
  cases hgranted : t.ledger.alloc size with
  | ok l =>
    obtain ⟨hroom, rfl⟩ := Ledger.alloc_eq_ok_iff.mp hgranted
    exact iff_of_true (.inr ⟨_, step_granted hgranted, hroom.carries⟩) (.inl hroom.word)
  | error stop =>
    have hstep := step_stopped hgranted
    cases stop with
    | fault e =>
      obtain ⟨max, hmax, hsmall, _⟩ := Ledger.exists_of_fault hgranted
      exact iff_of_true (.inl ⟨e, hstep⟩) (.inr ⟨max, hmax, hsmall⟩)
    | breach v =>
      obtain ⟨_, hword, hlargest⟩ := Ledger.alloc_eq_breach_iff.mp hgranted
      refine iff_of_false ?_ ?_
      · rintro (⟨e, hrefused⟩ | ⟨t', hok, _⟩)
        · cases hstep.symm.trans hrefused
        · cases hstep.symm.trans hok
      · rintro (hsmall | ⟨max, hmax, hsmall⟩)
        · exact Nat.not_le.mpr hsmall hword
        · exact Nat.ne_of_lt hsmall (hlargest max hmax)

/-- Otherwise it is a breach, which changes nothing. -/
theorem step_of_not_sound (h : ¬ t.Sound (.alloc size)) :
    t.step (.alloc size) = (.error (.violation .sumOverflow), t) := by
  cases hgranted : t.ledger.alloc size with
  | ok l =>
    obtain ⟨hroom, rfl⟩ := Ledger.alloc_eq_ok_iff.mp hgranted
    exact absurd (.inr ⟨_, step_granted hgranted, hroom.carries⟩) h
  | error stop =>
    have hstep := step_stopped hgranted
    cases stop with
    | fault e => exact absurd (.inl ⟨e, hstep⟩) h
    | breach v =>
      obtain ⟨rfl, _⟩ := Ledger.alloc_eq_breach_iff.mp hgranted
      exact hstep

/-! ## Runs -/

theorem after_concat (t : BlockTable) (commands : List Command) (c : Command) :
    t.after (commands ++ [c]) = ((t.after commands).step c).2 := List.foldl_concat ..

theorem limit_after (t : BlockTable) (commands : List Command) :
    (t.after commands).ledger.limit = t.ledger.limit := by
  induction commands using List.reverseRecOn with
  | nil => rfl
  | append_singleton front c ih =>
    rw [after_concat]
    exact (limit_step _ c).trans ih

theorem counted_fresh (limit : Option UInt64) : (fresh limit).Counted :=
  ⟨rfl, rfl, rfl, Nat.le_refl _, fun _ _ => UInt64.le_iff_toNat_le.mpr (Nat.zero_le _)⟩

theorem counted_after (limit : Option UInt64) (commands : List Command) :
    ((fresh limit).after commands).Counted := by
  induction commands using List.reverseRecOn with
  | nil => exact counted_fresh limit
  | append_singleton front c ih =>
    rw [after_concat]
    exact ih.step c

theorem sound_alloc_after_iff : ((fresh limit).after commands).Sound (.alloc size) ↔
    ((fresh limit).after commands).outstanding + size.toNat < UInt64.size ∨ Limited limit := by
  rw [(counted_after limit commands).sound_alloc_iff, limit_after]
  rfl

/-- No block is asked for in a run that takes what is out beyond a word. -/
def Fits (t : BlockTable) (commands : List Command) : Prop :=
  ∀ front size, front ++ [.alloc size] <+: commands →
    (t.after front).outstanding + size.toNat < UInt64.size

/-- The commands of a run do what they should exactly if no block is asked for that takes
what is out beyond a word, or the limit sees to it. -/
theorem keeps_iff_fits :
    (fresh limit).Keeps commands ↔ (fresh limit).Fits commands ∨ Limited limit := by
  constructor
  · intro hkeeps
    by_cases hlimited : Limited limit
    · exact .inr hlimited
    · refine .inl fun front size hfront => ?_
      exact (sound_alloc_after_iff.mp (hkeeps front _ hfront)).resolve_right hlimited
  · intro hfits front c hfront
    cases c with
    | alloc size => exact sound_alloc_after_iff.mpr (hfits.imp_left fun h => h front size hfront)
    | free i => exact (counted_after limit front).sound_free i

/-- A table of one block that takes as many bytes as a word can count. -/
def full (limit : Option UInt64) : BlockTable := (fresh limit).after [.alloc 0xffffffffffffffff]

/-- A block of the largest word is granted where the limit is not below it. -/
theorem outstanding_full (hlarge : ¬ Limited limit) :
    (full limit).outstanding = UInt64.size - 1 := by
  have hlargest : (0xffffffffffffffff : UInt64).toNat = UInt64.size - 1 := by decide
  have hlive : (fresh limit).ledger.live.toNat = 0 := rfl
  have hnone : (fresh limit).outstanding = 0 := rfl
  have hroom : (fresh limit).ledger.HasRoom (0xffffffffffffffff : UInt64).toNat := by
    refine ⟨?_, fun max hmax => ?_⟩
    · rw [hlive, Nat.zero_add]
      exact UInt64.toNat_lt_size _
    · by_contra hsmall
      exact hlarge ⟨max, hmax, by omega⟩
  show ((fresh limit).step (.alloc 0xffffffffffffffff)).2.outstanding = _
  rw [step_granted (Ledger.alloc_of_hasRoom hroom), outstanding_push, hnone, hlargest,
    Nat.zero_add]

theorem not_sound_full (hlarge : ¬ Limited limit) : ¬ (full limit).Sound (.alloc 1) := by
  intro hsound
  have hword := (sound_alloc_after_iff.mp hsound).resolve_right hlarge
  rw [← full, outstanding_full hlarge] at hword
  exact Nat.lt_irrefl _ hword

/-- As many bytes as a word can count, and one more. -/
def brimming : List Command := [.alloc 0xffffffffffffffff, .alloc 1]

theorem limited_of_keeps (hkeeps : (fresh limit).Keeps brimming) : Limited limit := by
  by_contra hlarge
  exact not_sound_full hlarge (hkeeps [.alloc 0xffffffffffffffff] _ List.prefix_rfl)

/-- What a ledger makes of a run of commands, and of the next one. -/
structure CountsBlocks (limit : Option UInt64) (commands : List Command) : Prop where
  counted : ((fresh limit).after commands).Counted
  freed (i : Nat) : ((fresh limit).after commands).Sound (.free i)
  granted_iff (size : UInt64) : ((fresh limit).after commands).Sound (.alloc size) ↔
    ((fresh limit).after commands).outstanding + size.toNat < UInt64.size ∨ Limited limit
  /-- What is neither granted nor refused is a breach, and nothing is counted. -/
  breach (size : UInt64) : ¬ ((fresh limit).after commands).Sound (.alloc size) →
    ((fresh limit).after commands).step (.alloc size) =
      (.error (.violation .sumOverflow), (fresh limit).after commands)

/-- In every run the counters come to the blocks that are out, and every block that is out can
be taken back.  Every block that is asked for is granted or refused, in all runs exactly
under a limit below the largest word, and under any other in a run exactly if none takes
what is out beyond a word. -/
theorem counts_blocks_iff (limit : Option UInt64) (commands : List Command) :
    CountsBlocks limit commands ∧
    ((∀ run, (fresh limit).Keeps run) ↔ Limited limit) ∧
    ((fresh limit).Keeps commands ↔ (fresh limit).Fits commands ∨ Limited limit) := by
  have hcounted := counted_after limit commands
  refine ⟨⟨hcounted, hcounted.sound_free, fun _ => sound_alloc_after_iff,
    fun _ => step_of_not_sound⟩, ⟨fun hkeeps => limited_of_keeps (hkeeps _), fun hlimited run => ?_⟩,
    keeps_iff_fits⟩
  exact keeps_iff_fits.mpr (.inr hlimited)

/-- Under a limit of a hundred bytes one block is granted, the next is refused, and the first
is taken back. -/
theorem counts_blocks_iff_hundred :
    (fresh (some 100)).Keeps [.alloc 60, .alloc 41, .free 0] ∧
    ((fresh (some 100)).after [.alloc 60, .alloc 41]).outstanding = 60 ∧
    ((fresh (some 100)).after [.alloc 60, .alloc 41, .free 0]).Counted := by
  obtain ⟨hcounts, hlimit, _⟩ := counts_blocks_iff (some 100) [.alloc 60, .alloc 41, .free 0]
  exact ⟨hlimit.mpr ⟨100, rfl, by decide⟩ _, rfl, hcounts.counted⟩

/-- Beside a block of the largest word another one is neither granted nor refused, under the
largest limit and under none. -/
theorem unsound_at_largest :
    (full (some 0xffffffffffffffff)).ledger.live = 0xffffffffffffffff ∧
      (full (some 0xffffffffffffffff)).step (.alloc 1) =
        (.error (.violation .sumOverflow), full (some 0xffffffffffffffff)) ∧
      ¬ (full (some 0xffffffffffffffff)).Sound (.alloc 1) ∧
      (full none).step (.alloc 1) = (.error (.violation .sumOverflow), full none) ∧
      ¬ (full none).Sound (.alloc 1) := by
  have hlargest : ¬ Limited (some 0xffffffffffffffff) := by
    rintro ⟨max, hmax, hsmall⟩
    cases hmax
    exact absurd hsmall (by decide)
  have hnone : ¬ Limited none := by
    rintro ⟨max, hmax, _⟩
    cases hmax
  exact ⟨rfl, rfl, not_sound_full hlargest, rfl, not_sound_full hnone⟩

end BlockTable
end TypeAtlas
