/-
Snapshots in the hands of readers.

A `Lending` is a publisher with the bank that images are charged to, while readers take
snapshots, copy them and let go of them.  It also notes for each reader how many commands
had been carried out when its snapshot was taken, which no command looks at.  A snapshot is
what the publisher had at that time, and two are of one image exactly if no image came in
between.
-/
import Mathlib.Data.List.Induction
import TypeAtlas.Proofs.Database.Publishing

namespace TypeAtlas

structure Lending where
  publisher : Publisher := {}
  bank : Bank
  /-- How many commands have been carried out. -/
  clock : Nat := 0
  /-- For each reader, when its snapshot was taken from the publisher. -/
  taken : List Nat := []

namespace Lending

inductive Command where
  | take (c : Intake)
  /-- Hands the current image to a reader, if there is one. -/
  | subscribe
  /-- Copies the snapshot of a reader for another one. -/
  | share (k : Nat)
  /-- Takes back the snapshot of a reader. -/
  | unsubscribe (k : Nat)
  /-- Drops the publisher, in place of which there is a new one. -/
  | close

/-- What becomes of a list with an entry for each reader, where `fresh` is the entry for what
is published. -/
def Command.deal {α : Type} (c : Command) (entries fresh : List α) : List α :=
  match c with
  | .subscribe => entries ++ fresh
  | .share k => entries ++ entries[k]?.toList
  | .unsubscribe k => entries.eraseIdx k
  | .take _ | .close => entries

/-- What a command that brings no image in leaves of what is published. -/
def Command.leave (c : Command) (current : Option Snapshot) : Option Snapshot :=
  match c with
  | .close => none
  | _ => current

/-- What a command does to the publisher and the bank. -/
def act (s : Lending) : Command → Publisher × Bank
  | .take c => ((s.publisher.take s.bank c).publisher, (s.publisher.take s.bank c).bank)
  | .subscribe => ((s.publisher.subscribe.map (·.2)).getD s.publisher, s.bank)
  | .share k => (((s.publisher.share k).map (·.2)).getD s.publisher, s.bank)
  | .unsubscribe k => s.publisher.unsubscribe k s.bank
  | .close => s.publisher.close s.bank

def step (s : Lending) (c : Command) : Lending where
  publisher := (s.act c).1
  bank := (s.act c).2
  clock := s.clock + 1
  taken := c.deal s.taken (s.publisher.current.toList.map fun _ => s.clock)

def after (s : Lending) (commands : List Command) : Lending := commands.foldl step s

def opened (settings : Settings) (bank : Bank) : Lending := { publisher := { settings }, bank }

/-- Whether a command brings an image in. -/
def brings (s : Lending) : Command → Bool
  | .take c => (s.publisher.take s.bank c).result.isOk
  | _ => false

/-- What is published before the command at a place of a run. -/
def shownAt (s : Lending) (commands : List Command) (n : Nat) : Option Snapshot :=
  (s.after (commands.take n)).publisher.current

/-- The command at a place of a run brings an image in. -/
def BringsAt (s : Lending) (commands : List Command) (n : Nat) : Prop :=
  ∃ c, commands[n]? = some c ∧ (s.after (commands.take n)).brings c = true

theorem after_concat (s : Lending) (commands : List Command) (c : Command) :
    s.after (commands ++ [c]) = (s.after commands).step c := by
  rw [after, List.foldl_append]
  rfl

namespace Command

variable {α β : Type} {c : Command} {entries fresh : List α}

theorem map_deal (f : α → β) (c : Command) (entries fresh : List α) :
    (c.deal entries fresh).map f = c.deal (entries.map f) (fresh.map f) := by
  cases c with
  | subscribe => exact List.map_append
  | share k =>
    show (entries ++ entries[k]?.toList).map f = entries.map f ++ (entries.map f)[k]?.toList
    rw [List.map_append, List.getElem?_map, Option.toList_map]
  | unsubscribe k => exact (List.eraseIdx_map f entries k).symm
  | take | close => rfl

theorem mem_of_mem_deal {x : α} (h : x ∈ c.deal entries fresh) : x ∈ entries ∨ x ∈ fresh := by
  cases c with
  | subscribe => exact List.mem_append.mp h
  | share k =>
    rcases List.mem_append.mp h with h | h
    · exact .inl h
    · exact .inl (List.mem_of_getElem? (Option.mem_toList.mp h))
  | unsubscribe k => exact .inl (List.mem_of_mem_eraseIdx h)
  | take | close => exact .inl h

theorem eq_some_of_leave {current : Option Snapshot} {x : Snapshot}
    (h : c.leave current = some x) : current = some x := by
  cases c with
  | close => cases h
  | _ => exact h

end Command
end Lending

/-! ## What a call leaves of a publisher -/

namespace Publisher

variable {p p' : Publisher} {s : Snapshot}

/-- Every snapshot that the publisher or a reader holds. -/
def holders (p : Publisher) : List Snapshot := p.current.toList ++ p.readers

theorem mem_holders : s ∈ p.holders ↔ p.current = some s ∨ s ∈ p.readers := by
  rw [holders, List.mem_append, Option.mem_toList]

/-- Generations are given out in turn, each to one image. -/
structure Sound (p : Publisher) : Prop where
  current : ∀ s, p.current = some s → s.generation + 1 = p.published
  readers : ∀ s ∈ p.readers, s.generation < p.published
  once : ∀ s ∈ p.holders, ∀ t ∈ p.holders, s.generation = t.generation → s = t

theorem Sound.issued (h : p.Sound) (hs : s ∈ p.holders) : s.generation < p.published := by
  rcases mem_holders.mp hs with hs | hs
  · have hlast := h.current s hs
    omega
  · exact h.readers s hs

theorem sound_opened (settings : Settings) : ({ settings } : Publisher).Sound where
  current _ hs := by cases hs
  readers _ hs := absurd hs List.not_mem_nil
  once _ hs := absurd hs List.not_mem_nil

theorem Sound.publish (h : p.Sound) (held : Holding) : (p.publish held).Sound where
  current s hs := by
    obtain rfl := Option.some.inj hs
    rfl
  readers s hs := Nat.lt_succ_of_lt (h.readers s hs)
  once := by
    have hnew (t : Snapshot) (ht : t ∈ p.readers) : t.generation ≠ p.published :=
      Nat.ne_of_lt (h.readers t ht)
    intro s hs t ht hst
    rcases mem_holders.mp hs with hs | hs <;> rcases mem_holders.mp ht with ht | ht
    · exact Option.some.inj (hs.symm.trans ht)
    · obtain rfl := Option.some.inj hs
      exact absurd hst.symm (hnew t ht)
    · obtain rfl := Option.some.inj ht
      exact absurd hst (hnew s hs)
    · exact h.once s (mem_holders.mpr (.inr hs)) t (mem_holders.mpr (.inr ht)) hst

/-- Nothing is published, and no one has a snapshot that was not there before. -/
theorem Sound.of_holders (h : p.Sound) (hpublished : p'.published = p.published)
    (hcurrent : ∀ s, p'.current = some s → p.current = some s)
    (hreaders : ∀ s ∈ p'.readers, s ∈ p.holders) : p'.Sound := by
  have hholders (s : Snapshot) (hs : s ∈ p'.holders) : s ∈ p.holders := by
    rcases mem_holders.mp hs with hs | hs
    · exact mem_holders.mpr (.inl (hcurrent s hs))
    · exact hreaders s hs
  refine ⟨fun s hs => ?_, fun s hs => ?_, fun s hs t ht => h.once s (hholders s hs) t (hholders t ht)⟩
  · rw [hpublished]
    exact h.current s (hcurrent s hs)
  · rw [hpublished]
    exact h.issued (hreaders s hs)

end Publisher

namespace Lending

open Publisher (Sound)

variable {s : Lending} {c : Command} {commands : List Command}

/-- What a command leaves of the publisher. -/
structure Leaves (s : Lending) (c : Command) (p : Publisher) : Prop where
  readers : p.readers = c.deal s.publisher.readers s.publisher.current.toList
  published : p.published = s.publisher.published + if s.brings c then 1 else 0
  current : s.brings c = false → p.current = c.leave s.publisher.current

theorem leaves_step (s : Lending) (c : Command) : s.Leaves c (s.step c).publisher := by
  cases c with
  | take c =>
    show s.Leaves (.take c) (s.publisher.take s.bank c).publisher
    have hbrings : s.brings (.take c) = (s.publisher.take s.bank c).result.isOk := rfl
    have htakes := s.publisher.takes_take s.bank c
    generalize s.publisher.take s.bank c = o at hbrings htakes ⊢
    generalize s.publisher.offered s.bank c = offered at htakes
    cases htakes with
    | failed => exact ⟨rfl, by rw [hbrings]; rfl, fun _ => rfl⟩
    | refused => exact ⟨rfl, by rw [hbrings]; rfl, fun _ => rfl⟩
    | published =>
      refine ⟨rfl, by rw [hbrings]; rfl, fun hnot => ?_⟩
      cases hbrings.symm.trans hnot
  | subscribe =>
    show s.Leaves .subscribe ((s.publisher.subscribe.map (·.2)).getD s.publisher)
    rw [Publisher.subscribe]
    cases hcurrent : s.publisher.current with
    | none =>
      refine ⟨?_, rfl, fun _ => rfl⟩
      rw [hcurrent]
      exact (List.append_nil _).symm
    | some x =>
      refine ⟨?_, rfl, fun _ => hcurrent.symm⟩
      rw [hcurrent]
      rfl
  | share k =>
    show s.Leaves (.share k) (((s.publisher.share k).map (·.2)).getD s.publisher)
    rw [Publisher.share]
    cases hk : s.publisher.readers[k]? with
    | none =>
      refine ⟨?_, rfl, fun _ => rfl⟩
      rw [Command.deal, hk]
      exact (List.append_nil _).symm
    | some x =>
      refine ⟨?_, rfl, fun _ => rfl⟩
      rw [Command.deal, hk]
      rfl
  | unsubscribe k =>
    show s.Leaves (.unsubscribe k) (s.publisher.unsubscribe k s.bank).1
    rw [Publisher.unsubscribe]
    cases hk : s.publisher.readers[k]? with
    | none =>
      exact ⟨(List.eraseIdx_of_length_le (List.getElem?_eq_none_iff.mp hk)).symm, rfl, fun _ => rfl⟩
    | some x => exact ⟨rfl, rfl, fun _ => rfl⟩
  | close =>
    show s.Leaves .close (s.publisher.close s.bank).1
    rw [Publisher.close]
    cases hcurrent : s.publisher.current with
    | none => exact ⟨rfl, rfl, fun _ => hcurrent⟩
    | some x => exact ⟨rfl, rfl, fun _ => rfl⟩

theorem sound_step (h : s.publisher.Sound) (c : Command) : (s.step c).publisher.Sound := by
  have hleaves := s.leaves_step c
  cases hbrings : s.brings c with
  | false =>
    refine h.of_holders ?_ (fun x hx => ?_) fun x hx => ?_
    · rw [hleaves.published, hbrings]
      rfl
    · rw [hleaves.current hbrings] at hx
      exact Command.eq_some_of_leave hx
    · rw [hleaves.readers] at hx
      rw [Publisher.mem_holders, ← Option.mem_toList]
      exact (Command.mem_of_mem_deal hx).symm
  | true =>
    cases c with
    | take c =>
      show (s.publisher.take s.bank c).publisher.Sound
      have hok : (s.publisher.take s.bank c).result.isOk = true := hbrings
      have htakes := s.publisher.takes_take s.bank c
      generalize s.publisher.take s.bank c = o at hok htakes ⊢
      generalize s.publisher.offered s.bank c = offered at htakes
      cases htakes with
      | failed => cases hok
      | refused => cases hok
      | published held => exact h.publish held
    | _ => cases hbrings

/-! ## A run -/

theorem sound_after (h : s.publisher.Sound) (commands : List Command) :
    (s.after commands).publisher.Sound := by
  induction commands using List.reverseRecOn with
  | nil => exact h
  | append_singleton commands c ih =>
    rw [after_concat]
    exact sound_step ih c

theorem shownAt_length (s : Lending) (commands : List Command) :
    s.shownAt commands commands.length = (s.after commands).publisher.current := by
  rw [shownAt, List.take_length]

/-- What was published stays as it is when more commands follow. -/
theorem shownAt_concat {n : Nat} (hn : n ≤ commands.length) (c : Command) :
    s.shownAt (commands ++ [c]) n = s.shownAt commands n := by
  rw [shownAt, shownAt, List.take_append_of_le_length hn]

/-- The snapshots that readers hold, by the times they were taken at. -/
structure Noted (s : Lending) (commands : List Command) : Prop where
  clock : (s.after commands).clock = commands.length
  past : ∀ n ∈ (s.after commands).taken, n ≤ commands.length
  readers : (s.after commands).publisher.readers.map some =
    (s.after commands).taken.map (s.shownAt commands)

theorem noted_after (hclock : s.clock = 0) (htaken : s.taken = [])
    (hreaders : s.publisher.readers = []) (commands : List Command) : s.Noted commands := by
  induction commands using List.reverseRecOn with
  | nil =>
    refine ⟨hclock, ?_, ?_⟩
    · intro n hn
      rw [after, List.foldl_nil, htaken] at hn
      cases hn
    · rw [after, List.foldl_nil, htaken, hreaders]
      rfl
  | append_singleton commands c ih =>
    have htaken' : (s.after (commands ++ [c])).taken = c.deal (s.after commands).taken
        ((s.after commands).publisher.current.toList.map fun _ => commands.length) := by
      rw [after_concat, step, ih.clock]
    have hpast : ∀ n ∈ (s.after (commands ++ [c])).taken, n ≤ commands.length := by
      intro n hn
      rw [htaken'] at hn
      rcases Command.mem_of_mem_deal hn with hn | hn
      · exact ih.past n hn
      · obtain ⟨_, _, rfl⟩ := List.mem_map.mp hn
        exact Nat.le_refl _
    refine ⟨?_, fun n hn => ?_, ?_⟩
    · rw [after_concat, step, ih.clock, List.length_append]
      rfl
    · have hle := hpast n hn
      rw [List.length_append]
      exact Nat.le_add_right_of_le hle
    · -- A snapshot that is taken now is what is published now, and all others are moved alike.
      have hfresh : (s.after commands).publisher.current.toList.map some =
          ((s.after commands).publisher.current.toList.map fun _ => commands.length).map
            (s.shownAt commands) := by
        rw [List.map_map]
        refine List.map_congr_left fun x hx => ?_
        rw [Function.comp_apply, shownAt_length]
        exact (Option.mem_toList.mp hx).symm
      have hmap : (s.after (commands ++ [c])).taken.map (s.shownAt (commands ++ [c])) =
          (s.after (commands ++ [c])).taken.map (s.shownAt commands) :=
        List.map_congr_left fun n hn => shownAt_concat (hpast n hn) c
      rw [hmap, htaken', Command.map_deal, ← ih.readers, ← hfresh, ← Command.map_deal,
        after_concat, (leaves_step _ c).readers]

/-! ### Snapshots of one image -/

/-- How many images have been published before the command at a place. -/
def publishedAt (s : Lending) (commands : List Command) (n : Nat) : Nat :=
  (s.after (commands.take n)).publisher.published

theorem publishedAt_succ (s : Lending) (commands : List Command) (n : Nat) :
    s.publishedAt commands n ≤ s.publishedAt commands (n + 1) ∧
      (s.publishedAt commands (n + 1) = s.publishedAt commands n ↔ ¬ s.BringsAt commands n) := by
  rw [publishedAt, publishedAt, BringsAt]
  cases hn : commands[n]? with
  | none =>
    have hlen := List.getElem?_eq_none_iff.mp hn
    rw [List.take_of_length_le (Nat.le_succ_of_le hlen), List.take_of_length_le hlen]
    simp
  | some c =>
    obtain ⟨hlt, rfl⟩ := List.getElem?_eq_some_iff.mp hn
    rw [List.take_succ_eq_append_getElem hlt, after_concat, (leaves_step _ _).published]
    cases hbrings : (s.after (commands.take n)).brings commands[n] <;> simp [hbrings]

theorem publishedAt_eq_iff (s : Lending) (commands : List Command) {m n : Nat} (hmn : m ≤ n) :
    s.publishedAt commands m ≤ s.publishedAt commands n ∧
      (s.publishedAt commands m = s.publishedAt commands n ↔
        ∀ k, m ≤ k → k < n → ¬ s.BringsAt commands k) := by
  induction n, hmn using Nat.le_induction with
  | base => exact ⟨Nat.le_refl _, iff_of_true rfl fun k hk hk' => absurd hk' (Nat.not_lt.mpr hk)⟩
  | succ n hmn ih =>
    obtain ⟨hle, hsame⟩ := ih
    obtain ⟨hnext, hbrings⟩ := s.publishedAt_succ commands n
    refine ⟨Nat.le_trans hle hnext, fun heq k hk hkn => ?_, fun hnone => ?_⟩
    · rcases Nat.lt_succ_iff_lt_or_eq.mp hkn with hlt | rfl
      · exact hsame.mp (by omega) k hk hlt
      · exact hbrings.mp (by omega)
    · rw [hbrings.mpr (hnone n hmn (Nat.lt_succ_self n))]
      exact hsame.mpr fun k hk hkn => hnone k hk (Nat.lt_succ_of_lt hkn)

/-- Two snapshots are of one image exactly if none came in between the times they were taken. -/
theorem sameImage_iff (h : s.publisher.Sound) {m n : Nat} (hmn : m ≤ n) {x y : Snapshot}
    (hx : s.shownAt commands m = some x) (hy : s.shownAt commands n = some y) :
    x.sameImage y = true ↔ ∀ k, m ≤ k → k < n → ¬ s.BringsAt commands k := by
  have hgeneration := (sound_after h (commands.take m)).current x hx
  have hgeneration' := (sound_after h (commands.take n)).current y hy
  rw [← (s.publishedAt_eq_iff commands hmn).2, Snapshot.sameImage, beq_iff_eq, publishedAt,
    publishedAt, ← hgeneration, ← hgeneration']
  exact Nat.succ_inj.symm

end Lending
end TypeAtlas
