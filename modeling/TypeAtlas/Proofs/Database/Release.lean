/-
Images go back to their accounts once.

What is at hand in a command are the images that someone holds and the one that the command
brings along.  Those that no one holds afterwards are dropped, and no others.  So over a run
every image that came along is either held still or has been dropped once, and a ledger
counts each image that is held once, however many snapshots there are of it.
-/
import Mathlib.Data.List.Pairwise
import TypeAtlas.Proofs.Database.Lending

namespace TypeAtlas

/-! ## Images that are held -/

namespace Publisher

variable {p : Publisher} {x : Snapshot}

/-- The images that the publisher or a reader holds, each of them once. -/
def images (p : Publisher) : List Snapshot :=
  p.holders.pwFilter fun s t => s.generation ≠ t.generation

theorem isHeld_iff {generation : Nat} :
    p.isHeld generation = true ↔ ∃ s ∈ p.holders, s.generation = generation := by
  rw [isHeld, List.any_eq_true]
  simp only [beq_iff_eq]
  rfl

theorem isHeld_of_mem (h : x ∈ p.holders) : p.isHeld x.generation = true :=
  isHeld_iff.mpr ⟨x, h, rfl⟩

/-- The next generation is no one's yet. -/
theorem Sound.not_isHeld (h : p.Sound) : p.isHeld p.published = false := by
  rw [← Bool.not_eq_true, isHeld_iff]
  rintro ⟨s, hs, heq⟩
  exact absurd (heq ▸ h.issued hs) (Nat.lt_irrefl _)

theorem Sound.mem_images (h : p.Sound) : x ∈ p.images ↔ x ∈ p.holders := by
  refine ⟨fun hx => List.pwFilter_subset _ hx, fun hx => ?_⟩
  by_contra hnot
  have hother : ∀ y ∈ p.images, x.generation ≠ y.generation := by
    intro y hy heq
    rw [h.once x hx y (List.pwFilter_subset _ hy) heq] at hnot
    exact hnot hy
  have hall : ∀ y ∈ p.holders, x.generation ≠ y.generation := by
    refine (List.forall_mem_pwFilter (fun {u v w} huw => ?_) x p.holders).mp hother
    by_contra hboth
    simp only [not_or, not_not] at hboth
    exact huw (hboth.1.trans hboth.2)
  exact hall x hx rfl

theorem nodup_images (p : Publisher) : p.images.Nodup :=
  (List.pairwise_pwFilter p.holders).imp fun hne heq => hne (congrArg Snapshot.generation heq)

end Publisher

/-! ## One command -/

namespace Lending

variable {s : Lending} {c : Command} {commands : List Command} {x y : Snapshot}

/-- The image that a command brings along, as the next generation. -/
def arrivals (s : Lending) : Command → List Snapshot
  | .take c => (s.publisher.offered s.bank c).1.toList.map (⟨s.publisher.published, ·⟩)
  | _ => []

/-- The bank once that image is charged. -/
def charged (s : Lending) : Command → Bank
  | .take c => (s.publisher.offered s.bank c).2
  | _ => s.bank

/-- The images that are held before a command or come along with it. -/
def atHand (s : Lending) (c : Command) : List Snapshot := s.arrivals c ++ s.publisher.images

/-- Those of them that no one holds afterwards. -/
def released (s : Lending) (c : Command) : List Snapshot :=
  (s.atHand c).filter fun x => !(s.step c).publisher.isHeld x.generation

def dropAll (bank : Bank) (images : List Snapshot) : Bank :=
  images.foldl (fun bank x => x.held.drop bank) bank

theorem generation_of_arrival (hx : x ∈ s.arrivals c) : x.generation = s.publisher.published := by
  cases c with
  | take c =>
    obtain ⟨_, _, rfl⟩ := List.mem_map.mp hx
    rfl
  | _ => cases hx

theorem arrival_unique (hx : x ∈ s.arrivals c) (hy : y ∈ s.arrivals c) : x = y := by
  cases c with
  | take c =>
    obtain ⟨held, hheld, rfl⟩ := List.mem_map.mp hx
    obtain ⟨held', hheld', rfl⟩ := List.mem_map.mp hy
    rw [Option.mem_toList] at hheld hheld'
    rw [Option.some.inj (hheld.symm.trans hheld')]
  | _ => cases hx

section sound

variable (h : s.publisher.Sound)
include h

theorem mem_atHand : x ∈ s.atHand c ↔ x ∈ s.arrivals c ∨ x ∈ s.publisher.holders := by
  rw [atHand, List.mem_append, h.mem_images]

theorem held_of_atHand (hnone : s.arrivals c = []) (hx : x ∈ s.atHand c) :
    s.publisher.current = some x ∨ x ∈ s.publisher.readers := by
  have hheld := (mem_atHand h).mp hx
  rw [hnone] at hheld
  exact Publisher.mem_holders.mp (hheld.resolve_left List.not_mem_nil)

theorem eq_of_generation (hx : x ∈ s.atHand c) (hy : y ∈ s.atHand c)
    (hxy : x.generation = y.generation) : x = y := by
  rcases (mem_atHand h).mp hx with hx | hx <;> rcases (mem_atHand h).mp hy with hy | hy
  · exact arrival_unique hx hy
  · have hold := h.issued hy
    rw [← hxy, generation_of_arrival hx] at hold
    exact absurd hold (Nat.lt_irrefl _)
  · have hold := h.issued hx
    rw [hxy, generation_of_arrival hy] at hold
    exact absurd hold (Nat.lt_irrefl _)
  · exact h.once x hx y hy hxy

theorem nodup_atHand (c : Command) : (s.atHand c).Nodup := by
  refine List.Nodup.append ?_ s.publisher.nodup_images fun x hx hx' => ?_
  · cases c with
    | take c =>
      cases hoffered : (s.publisher.offered s.bank c).1 with
      | none => simp [arrivals, hoffered]
      | some held => simp [arrivals, hoffered]
    | _ => exact List.nodup_nil
  · have hold := h.issued (h.mem_images.mp hx')
    rw [generation_of_arrival hx] at hold
    exact Nat.lt_irrefl _ hold

/-! ### Who lets go of what -/

omit h in
/-- Everyone keeps what is at hand. -/
theorem bank_of_keeps
    (hkeeps : ∀ y ∈ s.atHand c, (s.step c).publisher.isHeld y.generation = true)
    (hbank : (s.step c).bank = s.charged c) :
    (s.step c).bank = dropAll (s.charged c) (s.released c) := by
  have hnone : s.released c = [] := by
    refine List.filter_eq_nil_iff.mpr fun y hy => ?_
    rw [hkeeps y hy]
    exact Bool.false_ne_true
  rw [hnone]
  exact hbank

/-- Someone lets go of a snapshot, and of that one alone. -/
theorem bank_of_settles (hx : x ∈ s.atHand c)
    (hkeeps : ∀ y ∈ s.atHand c, y = x ∨ y ∈ (s.step c).publisher.holders)
    (hbank : (s.step c).bank = (s.step c).publisher.settle x (s.charged c)) :
    (s.step c).bank = dropAll (s.charged c) (s.released c) := by
  rw [Publisher.settle] at hbank
  cases hheld : (s.step c).publisher.isHeld x.generation with
  | true =>
    refine bank_of_keeps (fun y hy => ?_) (hbank.trans (if_pos hheld))
    rcases hkeeps y hy with rfl | hstill
    · exact hheld
    · exact Publisher.isHeld_of_mem hstill
  | false =>
    have hone : s.released c = [x] := by
      refine List.perm_singleton.mp ((List.perm_ext_iff_of_nodup ?_ (List.nodup_singleton x)).mpr ?_)
      · exact (nodup_atHand h c).filter _
      · intro y
        rw [released, List.mem_filter, List.mem_singleton]
        constructor
        · rintro ⟨hy, hnot⟩
          refine (hkeeps y hy).resolve_right fun hstill => ?_
          rw [Publisher.isHeld_of_mem hstill] at hnot
          cases hnot
        · rintro rfl
          rw [hheld]
          exact ⟨hx, rfl⟩
    rw [hone, hbank, hheld]
    rfl

theorem bank_take (c : Intake) :
    (s.step (.take c)).bank = dropAll (s.charged (.take c)) (s.released (.take c)) := by
  have hp : (s.step (.take c)).publisher = (s.publisher.take s.bank c).publisher := rfl
  have hbank : (s.step (.take c)).bank = (s.publisher.take s.bank c).bank := rfl
  have harrivals : s.arrivals (.take c) =
    (s.publisher.offered s.bank c).1.toList.map (⟨s.publisher.published, ·⟩) := rfl
  have hcharged : s.charged (.take c) = (s.publisher.offered s.bank c).2 := rfl
  have hathand (y : Snapshot) := mem_atHand h (c := .take c) (x := y)
  have htakes := s.publisher.takes_take s.bank c
  generalize s.publisher.take s.bank c = o at hp hbank htakes
  generalize s.publisher.offered s.bank c = offered at harrivals hcharged htakes
  cases htakes with
  | failed stop unread bank =>
    refine bank_of_keeps (fun y hy => Publisher.isHeld_of_mem ?_) (hbank.trans hcharged.symm)
    rw [hp]
    exact Publisher.mem_holders.mpr (held_of_atHand h harrivals hy)
  | refused held unread bank =>
    have hx : (⟨s.publisher.published, held⟩ : Snapshot) ∈ s.arrivals (.take c) := by
      rw [harrivals]
      exact List.mem_singleton_self _
    refine bank_of_settles h ((hathand _).mpr (.inl hx)) (fun y hy => ?_) ?_
    · rw [hp]
      exact ((hathand y).mp hy).imp_left fun hy => arrival_unique hy hx
    · rw [hp, hbank, hcharged]
      dsimp only
      rw [Publisher.settle, h.not_isHeld]
      rfl
  | published held unread bank =>
    have hnew (y : Snapshot) (hy : y ∈ s.arrivals (.take c)) :
        y ∈ (s.publisher.publish held).holders := by
      rw [harrivals] at hy
      obtain rfl := List.mem_singleton.mp hy
      exact Publisher.mem_holders.mpr (.inl rfl)
    have hreader (y : Snapshot) (hy : y ∈ s.publisher.readers) :
        y ∈ (s.publisher.publish held).holders := Publisher.mem_holders.mpr (.inr hy)
    cases hcurrent : s.publisher.current with
    | none =>
      rw [hcurrent] at hbank
      refine bank_of_keeps (fun y hy => Publisher.isHeld_of_mem ?_) (hbank.trans hcharged.symm)
      rw [hp]
      rcases (hathand y).mp hy with hy | hy
      · exact hnew y hy
      · rcases Publisher.mem_holders.mp hy with hy | hy
        · cases hcurrent.symm.trans hy
        · exact hreader y hy
    | some old =>
      rw [hcurrent] at hbank
      have hold : old ∈ s.publisher.holders := Publisher.mem_holders.mpr (.inl hcurrent)
      refine bank_of_settles h ((hathand old).mpr (.inr hold)) (fun y hy => ?_) ?_
      · rw [hp]
        rcases (hathand y).mp hy with hy | hy
        · exact .inr (hnew y hy)
        · rcases Publisher.mem_holders.mp hy with hy | hy
          · exact .inl (Option.some.inj (hy.symm.trans hcurrent))
          · exact .inr (hreader y hy)
      · rw [hp, hbank, hcharged]
        rfl

omit h in
theorem holders_step (hbrings : s.brings c = false) : (s.step c).publisher.holders =
    (c.leave s.publisher.current).toList ++
      c.deal s.publisher.readers s.publisher.current.toList := by
  have hleaves := s.leaves_step c
  rw [Publisher.holders, hleaves.current hbrings, hleaves.readers]

theorem bank_unsubscribe (k : Nat) : (s.step (.unsubscribe k)).bank =
    dropAll (s.charged (.unsubscribe k)) (s.released (.unsubscribe k)) := by
  have hholders : (s.step (.unsubscribe k)).publisher.holders =
      s.publisher.current.toList ++ s.publisher.readers.eraseIdx k := holders_step rfl
  have hbank : (s.step (.unsubscribe k)).bank = (s.publisher.unsubscribe k s.bank).2 := rfl
  have hp : (s.step (.unsubscribe k)).publisher = (s.publisher.unsubscribe k s.bank).1 := rfl
  rw [Publisher.unsubscribe] at hbank hp
  cases hk : s.publisher.readers[k]? with
  | none =>
    rw [hk] at hbank
    refine bank_of_keeps (fun y hy => Publisher.isHeld_of_mem ?_) hbank
    rw [hholders, List.eraseIdx_of_length_le (List.getElem?_eq_none_iff.mp hk)]
    exact Publisher.mem_holders.mpr (held_of_atHand h rfl hy)
  | some x =>
    rw [hk] at hbank hp
    have hx : x ∈ s.publisher.holders :=
      Publisher.mem_holders.mpr (.inr (List.mem_of_getElem? hk))
    refine bank_of_settles h ((mem_atHand h).mpr (.inr hx)) (fun y hy => ?_)
      (hbank.trans (by rw [hp]; rfl))
    rw [hholders, List.mem_append, Option.mem_toList, List.mem_eraseIdx_iff_getElem?]
    rcases held_of_atHand h rfl hy with hy | hy
    · exact .inr (.inl hy)
    · obtain ⟨i, hi⟩ := List.getElem?_of_mem hy
      by_cases hik : i = k
      · subst hik
        exact .inl (Option.some.inj (hi.symm.trans hk))
      · exact .inr (.inr ⟨i, hik, hi⟩)

theorem bank_close : (s.step .close).bank = dropAll (s.charged .close) (s.released .close) := by
  have hholders : (s.step .close).publisher.holders = s.publisher.readers := holders_step rfl
  have hbank : (s.step .close).bank = (s.publisher.close s.bank).2 := rfl
  have hp : (s.step .close).publisher = (s.publisher.close s.bank).1 := rfl
  rw [Publisher.close] at hbank hp
  cases hcurrent : s.publisher.current with
  | none =>
    rw [hcurrent] at hbank
    refine bank_of_keeps (fun y hy => Publisher.isHeld_of_mem ?_) hbank
    rw [hholders]
    rcases held_of_atHand h rfl hy with hy | hy
    · cases hcurrent.symm.trans hy
    · exact hy
  | some x =>
    rw [hcurrent] at hbank hp
    refine bank_of_settles h ((mem_atHand h).mpr (.inr (Publisher.mem_holders.mpr (.inl hcurrent))))
      (fun y hy => ?_) (hbank.trans (by rw [hp]; rfl))
    rw [hholders]
    rcases held_of_atHand h rfl hy with hy | hy
    · exact .inl (Option.some.inj (hy.symm.trans hcurrent))
    · exact .inr hy

/-- A command drops the images that it leaves without a holder, and no others. -/
theorem bank_step (c : Command) : (s.step c).bank = dropAll (s.charged c) (s.released c) := by
  cases c with
  | take c => exact bank_take h c
  | subscribe =>
    refine bank_of_keeps (fun y hy => Publisher.isHeld_of_mem ?_) rfl
    rw [holders_step rfl, List.mem_append, Option.mem_toList]
    exact (held_of_atHand h rfl hy).imp_right fun hy => List.mem_append_left _ hy
  | share k =>
    refine bank_of_keeps (fun y hy => Publisher.isHeld_of_mem ?_) rfl
    rw [holders_step rfl, List.mem_append, Option.mem_toList]
    exact (held_of_atHand h rfl hy).imp_right fun hy => List.mem_append_left _ hy
  | unsubscribe k => exact bank_unsubscribe h k
  | close => exact bank_close h

/-- What someone holds after a command was at hand in it. -/
theorem atHand_of_mem_holders (hx : x ∈ (s.step c).publisher.holders) : x ∈ s.atHand c := by
  rw [mem_atHand h]
  cases hbrings : s.brings c with
  | false =>
    rw [holders_step hbrings, List.mem_append, Option.mem_toList] at hx
    refine .inr ?_
    rcases hx with hx | hx
    · exact Publisher.mem_holders.mpr (.inl (Command.eq_some_of_leave hx))
    · rw [Publisher.mem_holders, ← Option.mem_toList]
      exact (Command.mem_of_mem_deal hx).symm
  | true =>
    cases c with
    | take c =>
      have hok : (s.publisher.take s.bank c).result.isOk = true := hbrings
      have hx : x ∈ (s.publisher.take s.bank c).publisher.holders := hx
      have harrivals : s.arrivals (.take c) =
        (s.publisher.offered s.bank c).1.toList.map (⟨s.publisher.published, ·⟩) := rfl
      have htakes := s.publisher.takes_take s.bank c
      generalize s.publisher.take s.bank c = o at hok hx htakes
      generalize s.publisher.offered s.bank c = offered at harrivals htakes
      cases htakes with
      | failed => cases hok
      | refused => cases hok
      | published held =>
        rcases Publisher.mem_holders.mp hx with hx | hx
        · obtain rfl := Option.some.inj hx
          rw [harrivals]
          exact .inl (List.mem_singleton_self _)
        · exact .inr (Publisher.mem_holders.mpr (.inr hx))
    | _ => cases hbrings

/-- What was at hand is dropped or still held, and not both. -/
theorem atHand_perm (c : Command) :
    (s.atHand c).Perm (s.released c ++ (s.step c).publisher.images) := by
  have himages : (s.step c).publisher.images.Perm
      ((s.atHand c).filter fun x => (s.step c).publisher.isHeld x.generation) := by
    refine (List.perm_ext_iff_of_nodup (Publisher.nodup_images _)
      ((nodup_atHand h c).filter _)).mpr fun x => ?_
    rw [(sound_step h c).mem_images, List.mem_filter]
    constructor
    · intro hx
      exact ⟨atHand_of_mem_holders h hx, Publisher.isHeld_of_mem hx⟩
    · rintro ⟨hx, hheld⟩
      obtain ⟨y, hy, hyx⟩ := Publisher.isHeld_iff.mp hheld
      rwa [← eq_of_generation h (atHand_of_mem_holders h hy) hx hyx]
  have hsplit := (s.atHand c).filter_append_perm
    fun x => (s.step c).publisher.isHeld x.generation
  exact hsplit.symm.trans (List.perm_append_comm.trans (himages.symm.append_left _))

end sound

/-! ## A run -/

/-- All images that come along in a run. -/
def arrivedIn (s : Lending) : List Command → List Snapshot
  | [] => []
  | c :: commands => s.arrivals c ++ (s.step c).arrivedIn commands

/-- All images that are dropped in a run. -/
def releasedIn (s : Lending) : List Command → List Snapshot
  | [] => []
  | c :: commands => s.released c ++ (s.step c).releasedIn commands

/-- Every image that came along or was held is dropped once or still held. -/
theorem arrived_perm (h : s.publisher.Sound) (commands : List Command) :
    (s.arrivedIn commands ++ s.publisher.images).Perm
      (s.releasedIn commands ++ (s.after commands).publisher.images) := by
  induction commands generalizing s with
  | nil => exact List.Perm.refl _
  | cons c commands ih =>
    have hrest := ih (sound_step h c)
    have hfirst := atHand_perm h c
    show (s.arrivals c ++ (s.step c).arrivedIn commands ++ s.publisher.images).Perm
      (s.released c ++ (s.step c).releasedIn commands ++
        ((s.step c).after commands).publisher.images)
    rw [List.append_assoc, List.append_assoc]
    have hnow : (s.arrivals c ++ ((s.step c).arrivedIn commands ++ s.publisher.images)).Perm
        ((s.step c).arrivedIn commands ++ (s.released c ++ (s.step c).publisher.images)) :=
      (List.perm_append_comm_assoc _ _ _).trans (hfirst.append_left _)
    exact hnow.trans ((List.perm_append_comm_assoc _ _ _).trans (hrest.append_left _))

/-! ## Accounts -/

open Holding (shares)

/-- The images that are given to the publisher and not loaded by it. -/
def Command.given : Command → List Holding
  | .take (.install h) => [h]
  | _ => []

variable {i : Nat} {cap : Option UInt64} {bank : Bank} {outside : List Holding}

theorem bears_fetched {p : Publisher} {policy : LoadPolicy} {input : List UInt8}
    {account : Option Account} (h : bank.Bears i cap (shares outside i)) :
    (p.fetched policy input account bank).2.Bears i cap
      (shares ((p.fetched policy input account bank).1.toList ++ outside) i) := by
  rw [Publisher.fetched]
  split
  · exact h
  · exact h.load policy input account

theorem held_arrivals (s : Lending) (c : Intake) :
    (s.arrivals (.take c)).map (·.held) = (s.publisher.offered s.bank c).1.toList := by
  rw [arrivals, List.map_map]
  exact List.map_id _

theorem bears_charged (h : s.bank.Bears i cap (shares (c.given ++ outside) i)) :
    (s.charged c).Bears i cap (shares ((s.arrivals c).map (·.held) ++ outside) i) := by
  cases c with
  | take c =>
    rw [held_arrivals]
    cases c with
    | load input account => exact bears_fetched h
    | loadWith policy input account => exact bears_fetched h
    | install held => exact h
  | _ => exact h

theorem bears_dropAll {images : List Snapshot}
    (h : bank.Bears i cap (shares (images.map (·.held) ++ outside) i)) :
    (dropAll bank images).Bears i cap (shares outside i) := by
  induction images generalizing bank with
  | nil => exact h
  | cons x images ih => exact ih (Bank.Bears.drop h)

/-- Whatever a command does, a ledger bears each image that is held once. -/
theorem bears_step (hsound : s.publisher.Sound)
    (h : s.bank.Bears i cap
      (shares (c.given ++ (s.publisher.images.map (·.held) ++ outside)) i)) :
    (s.step c).bank.Bears i cap
      (shares ((s.step c).publisher.images.map (·.held) ++ outside) i) := by
  have hcharged := bears_charged h
  rw [bank_step hsound]
  refine bears_dropAll (hcharged.of_holdings_perm ?_)
  rw [← List.append_assoc, ← List.append_assoc, ← List.map_append, ← List.map_append]
  exact ((atHand_perm hsound c).map _).append_right _

theorem bears_after (hsound : s.publisher.Sound) (hnone : s.publisher.images = [])
    (h : s.bank.Bears i cap (shares (commands.flatMap Command.given ++ outside) i)) :
    (s.after commands).bank.Bears i cap
      (shares ((s.after commands).publisher.images.map (·.held) ++ outside) i) := by
  induction commands using List.reverseRecOn generalizing outside with
  | nil =>
    rw [after, List.foldl_nil, hnone]
    exact h
  | append_singleton commands c ih =>
    rw [after_concat]
    rw [List.flatMap_append, List.append_assoc, List.flatMap_singleton] at h
    refine bears_step (sound_after hsound commands) ((ih h).of_holdings_perm ?_)
    exact List.perm_append_comm_assoc _ _ _

/-! ## The whole -/

/-- What is known of the readers and of the bank after a run of commands, and of the next
command. -/
structure Lends (settings : Settings) (bank : Bank) (commands : List Command) (s : Lending) :
    Prop where
  /-- A reader has what was published when its snapshot was taken. -/
  readers : s.publisher.readers.map some =
    s.taken.map ((opened settings bank).shownAt commands)
  past : ∀ n ∈ s.taken, n ≤ commands.length
  answers {k n : Nat} {x : Snapshot} : s.publisher.readers[k]? = some x → s.taken[k]? = some n →
    ∀ q, x.ask q = ((opened settings bank).after (commands.take n)).publisher.ask q
  sameImage {j k m n : Nat} {x y : Snapshot} :
    s.publisher.readers[j]? = some x → s.taken[j]? = some m →
    s.publisher.readers[k]? = some y → s.taken[k]? = some n → m ≤ n →
    (x.sameImage y = true ↔ ∀ l, m ≤ l → l < n → ¬ (opened settings bank).BringsAt commands l)
  released (c : Command) : (s.step c).bank = dropAll (s.charged c) (s.released c)
  once : ((opened settings bank).arrivedIn commands).Perm
    ((opened settings bank).releasedIn commands ++ s.publisher.images)
  counts {i : Nat} {cap : Option UInt64} {outside : List Holding} :
    bank.Bears i cap (shares (commands.flatMap Command.given ++ outside) i) →
    s.bank.Counts i (s.publisher.images.map (·.held) ++ outside)

theorem lends (settings : Settings) (bank : Bank) (commands : List Command) :
    Lends settings bank commands ((opened settings bank).after commands) := by
  have hsound : (opened settings bank).publisher.Sound := Publisher.sound_opened settings
  have hnoted := (opened settings bank).noted_after rfl rfl rfl commands
  have hshown {k n : Nat} {x : Snapshot}
      (hx : ((opened settings bank).after commands).publisher.readers[k]? = some x)
      (hn : ((opened settings bank).after commands).taken[k]? = some n) :
      (opened settings bank).shownAt commands n = some x := by
    have hat := congrArg (·[k]?) hnoted.readers
    simp only [List.getElem?_map, hx, hn, Option.map_some, Option.some.injEq] at hat
    exact hat.symm
  refine ⟨hnoted.readers, hnoted.past, fun hx hn q => ?_, fun hx hm hy hn hmn => ?_,
    bank_step (sound_after hsound commands), ?_, fun h => ?_⟩
  · have hcurrent := hshown hx hn
    rw [shownAt] at hcurrent
    rw [Publisher.ask, Publisher.image, hcurrent]
    rfl
  · exact sameImage_iff hsound hmn (hshown hx hm) (hshown hy hn)
  · have hperm := arrived_perm hsound commands
    have hnone : (opened settings bank).publisher.images = [] := rfl
    rwa [hnone, List.append_nil] at hperm
  · exact (bears_after hsound rfl h).counts

/-- To whoever loads, a publisher is a database with one owner.  Whatever comes in later, a
snapshot stays what was published when it was taken, and an image is dropped once no one
holds it any more, once. -/
theorem snapshots_stay (settings : Settings) (bank : Bank) :
    (∀ calls, ({ settings } : Publisher).seenOf bank calls =
      ({ settings } : Database).seenOf bank calls) ∧
    ∀ commands, Lends settings bank commands ((opened settings bank).after commands) :=
  ⟨(Publisher.alone_opened settings).seenOf bank, lends settings bank⟩

/-- An image that is charged to the first ledger of a bank. -/
def chargedClass : Holding := { image := Image.oneClass none, account := .ledger 0, blocks := [104] }

/-- Two images, with a snapshot of the first that is copied and let go of. -/
def twoImages : List Command :=
  [.take (.install chargedClass), .subscribe, .take (.install chargedClass), .subscribe, .share 0,
    .unsubscribe 0]

/-- A bank that both images are charged to. -/
def chargedTwice : Bank := #[{ limit := some 250, live := 208 }]

theorem snapshots_stay_twoImages :
    (∀ calls, ({ settings := { reload := .replace } } : Publisher).seenOf chargedTwice calls =
      ({ settings := { reload := .replace } } : Database).seenOf chargedTwice calls) ∧
    ∃ s x y, (opened { reload := .replace } chargedTwice).after twoImages = s ∧
      s.publisher.readers = [x, y] ∧ s.taken = [3, 1] ∧ y.sameImage x = false ∧
      s.bank.Counts 0 [chargedClass, chargedClass] ∧
      (s.step (.unsubscribe 1)).bank.Counts 0 [chargedClass] := by
  obtain ⟨hseen, hlends⟩ := snapshots_stay { reload := .replace } chargedTwice
  have hbears : chargedTwice.Bears 0 (some 250) (shares ([chargedClass, chargedClass] ++ []) 0) := by
    refine ⟨_, rfl, rfl, by decide, fun max hmax => ?_⟩
    obtain rfl := Option.some.inj hmax
    decide
  have htwo := (hlends twoImages).counts hbears
  have hone := (hlends (twoImages ++ [.unsubscribe 1])).counts hbears
  refine ⟨hseen, _, _, _, rfl, rfl, rfl, ?_, htwo, hone⟩
  -- The second image came in between the times the snapshots were taken.
  have hsame := (hlends twoImages).sameImage (j := 1) (k := 0) rfl rfl rfl rfl (by decide)
  rw [← Bool.not_eq_true, hsame]
  exact fun hnone => hnone 2 (by decide) (by decide) ⟨_, rfl, rfl⟩

end Lending
end TypeAtlas
