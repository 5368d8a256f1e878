/-
Databases and the images that are taken out of them.

A `Custody` is a database together with the images that were taken out of it and are not
dropped yet.  Whatever is loaded, installed and taken out, the database holds the image that
came in last, and a ledger counts the images that are in the database or at hand.
-/
import Mathlib.Data.List.Induction
import TypeAtlas.Proofs.Database.Reload

namespace TypeAtlas

structure Custody where
  database : Database := {}
  taken : List Holding := []
  bank : Bank

namespace Custody

inductive Command where
  | load (input : List UInt8) (account : Option Account)
  | loadWith (policy : LoadPolicy) (input : List UInt8) (account : Option Account)
  /-- Installs an image from elsewhere. -/
  | install (h : Holding)
  /-- Installs an image that was taken out. -/
  | reinstall (k : Nat)
  | unload
  /-- Drops an image that was taken out. -/
  | drop (k : Nat)

/-- Goes on with what a load came to. -/
def leave (s : Custody) (o : Database.Outcome) : Attempt LoadFault Unit × Custody :=
  (o.result, { s with database := o.database, bank := o.bank })

def accept (s : Custody) (h : Holding) : Attempt LoadFault Unit × Custody :=
  let (result, database, bank) := s.database.install h s.bank
  (result.mapError .fault, { s with database, bank })

def step (s : Custody) : Command → Attempt LoadFault Unit × Custody
  | .load input account => s.leave (s.database.load input account s.bank)
  | .loadWith policy input account => s.leave (s.database.loadWith policy input account s.bank)
  | .install h => s.accept h
  | .reinstall k =>
    match s.taken[k]? with
    | none => (.ok (), s)
    | some h => { s with taken := s.taken.eraseIdx k }.accept h
  | .unload =>
    let (held, database) := s.database.unload
    (.ok (), { s with database, taken := held.toList ++ s.taken })
  | .drop k =>
    match s.taken[k]? with
    | none => (.ok (), s)
    | some h => (.ok (), { s with taken := s.taken.eraseIdx k, bank := h.drop s.bank })

def after (s : Custody) (commands : List Command) : Custody :=
  commands.foldl (fun s c => (s.step c).2) s

def opened (settings : Settings) (bank : Bank) : Custody := { database := { settings }, bank }

/-- The image that is installed. -/
def shown (s : Custody) : Option Image := s.database.held.map (·.image)

/-- The images that are not dropped. -/
def images (s : Custody) : List Holding := s.database.held.toList ++ s.taken

/-- The bytes that these are charged together to a ledger. -/
def charged (s : Custody) (i : Nat) : Nat := Holding.chargedTo s.images i

/-- The image that a command offers to the database: the one that is read or given. -/
def offers (s : Custody) : Command → Option Image
  | .load input _ => (s.database.settings.policy.read input).1.toOption
  | .loadWith policy input _ => (policy.read input).1.toOption
  | .install h => some h.image
  | .reinstall k => s.taken[k]?.map (·.image)
  | .unload | .drop _ => none

/-- The image that comes in with a command, if it does not fail. -/
def brings (s : Custody) (c : Command) : Option Image :=
  match (s.step c).1 with
  | .ok () => s.offers c
  | .error _ => none

/-- An image came in with a command of a run, after which none came in and none was taken
out. -/
def LastBrought (s : Custody) (commands : List Command) (img : Image) : Prop :=
  ∃ before c rest, commands = before ++ c :: rest ∧ (s.after before).brings c = some img ∧
    ∀ between later more, rest = between ++ later :: more →
      (s.after (before ++ c :: between)).brings later = none ∧ later ≠ .unload

variable {s : Custody} {c : Command} {commands : List Command} {img : Image}

theorem after_concat (s : Custody) (commands : List Command) (c : Command) :
    s.after (commands ++ [c]) = ((s.after commands).step c).2 := by
  rw [after, List.foldl_append]
  rfl

/-! ## One command -/

theorem settings_step : (s.step c).2.database.settings = s.database.settings := by
  cases c with
  | load input account => exact Database.loadWith_settings
  | loadWith p input account => exact Database.loadWith_settings
  | install h => exact Database.install_settings
  | reinstall k =>
    rw [step]
    split
    · rfl
    · exact Database.install_settings
  | unload => rfl
  | drop k =>
    rw [step]
    split <;> rfl

theorem accept_of_error {held : Holding} {stop : Stop LoadFault}
    (h : (s.accept held).1 = .error stop) : (s.accept held).2.database = s.database := by
  cases hresult : (s.database.install held s.bank).1 with
  | error e => exact Database.install_of_error hresult
  | ok => cases (Check.mapError_eq_ok_iff.mpr hresult).symm.trans h

theorem accept_of_ok {held : Holding} (h : (s.accept held).1 = .ok ()) :
    (s.accept held).2.database.held = some held :=
  Database.install_of_ok (Check.mapError_eq_ok_iff.mp h)

/-- A call that fails leaves what is held as it was. -/
theorem database_of_error {stop : Stop LoadFault} (h : (s.step c).1 = .error stop) :
    (s.step c).2.database = s.database := by
  cases c with
  | load input account => exact Database.loadWith_of_error h
  | loadWith p input account => exact Database.loadWith_of_error h
  | install held => exact accept_of_error h
  | reinstall k =>
    rw [step] at h ⊢
    split at h
    · cases h
    · exact accept_of_error h
  | unload => cases h
  | drop k =>
    rw [step] at h
    split at h <;> cases h

theorem offers_of_load {p : LoadPolicy} {input : List UInt8} {account : Option Account}
    (h : (s.database.loadWith p input account s.bank).result = .ok ()) :
    ∃ held, (p.read input).1.toOption = some held.image ∧
      (s.database.loadWith p input account s.bank).database.held = some held := by
  obtain ⟨held, unread, bank', hload, hheld⟩ := Database.loadWith_of_ok h
  refine ⟨held, ?_, hheld⟩
  rw [LoadPolicy.read_of_load hload]
  rfl

/-- What comes of a call that does not fail. -/
theorem database_of_ok (h : (s.step c).1 = .ok ()) :
    (∃ held, s.offers c = some held.image ∧ (s.step c).2.database.held = some held) ∨
      (s.offers c = none ∧ (c = .unload ∧ (s.step c).2.database.held = none ∨
        c ≠ .unload ∧ (s.step c).2.database = s.database)) := by
  cases c with
  | load input account => exact .inl (offers_of_load h)
  | loadWith p input account => exact .inl (offers_of_load h)
  | install held => exact .inl ⟨held, rfl, accept_of_ok h⟩
  | reinstall k =>
    rw [offers]
    rw [step] at h ⊢
    split at h
    · next hmissing =>
      rw [hmissing]
      exact .inr ⟨rfl, .inr ⟨(fun heq => by cases heq), rfl⟩⟩
    · next held hfound =>
      rw [hfound]
      exact .inl ⟨held, rfl, accept_of_ok h⟩
  | unload => exact .inr ⟨rfl, .inl ⟨rfl, rfl⟩⟩
  | drop k =>
    refine .inr ⟨rfl, .inr ⟨(fun heq => by cases heq), ?_⟩⟩
    rw [step]
    split <;> rfl

theorem shown_of_brings (h : s.brings c = some img) : (s.step c).2.shown = some img := by
  cases hresult : (s.step c).1 with
  | error e =>
    rw [brings, hresult] at h
    cases h
  | ok =>
    rw [brings, hresult] at h
    obtain ⟨held, hoffers, hheld⟩ | ⟨hnone, _⟩ := database_of_ok hresult
    · rw [shown, hheld, ← h]
      exact hoffers.symm
    · cases hnone.symm.trans h

theorem database_of_not_brings (h : s.brings c = none) (hkeep : c ≠ .unload) :
    (s.step c).2.database = s.database := by
  cases hresult : (s.step c).1 with
  | error e => exact database_of_error hresult
  | ok =>
    rw [brings, hresult] at h
    obtain ⟨held, hoffers, _⟩ | ⟨_, ⟨hunload, _⟩ | ⟨_, hsame⟩⟩ := database_of_ok hresult
    · cases hoffers.symm.trans h
    · exact absurd hunload hkeep
    · exact hsame

/-- Where no image may come in, only taking one out changes what is held. -/
theorem database_of_not_open (h : ¬ s.database.Open) (hkeep : c ≠ .unload) :
    (s.step c).2.database = s.database := by
  refine database_of_not_brings ?_ hkeep
  cases hresult : (s.step c).1 with
  | error e => rw [brings, hresult]
  | ok =>
    rw [brings, hresult]
    cases c with
    | load input account =>
      rw [step, leave, Database.load, Database.loadWith_of_not_open h] at hresult
      cases hresult
    | loadWith p input account =>
      rw [step, leave, Database.loadWith_of_not_open h] at hresult
      cases hresult
    | install held =>
      rw [step, accept, Database.install_of_not_open h] at hresult
      cases hresult
    | reinstall k =>
      rw [step] at hresult
      split at hresult
      · next hmissing =>
        rw [offers, hmissing]
        rfl
      · rw [accept, Database.install_of_not_open h] at hresult
        cases hresult
    | unload => exact absurd rfl hkeep
    | drop k => rfl

/-! ## A run -/

theorem settings_after (s : Custody) (commands : List Command) :
    (s.after commands).database.settings = s.database.settings := by
  induction commands using List.reverseRecOn with
  | nil => rfl
  | append_singleton commands c ih =>
    rw [after_concat, settings_step, ih]

theorem lastBrought_concat : s.LastBrought (commands ++ [c]) img ↔
    (s.after commands).brings c = some img ∨
      ((s.after commands).brings c = none ∧ c ≠ .unload ∧ s.LastBrought commands img) := by
  constructor
  · intro h
    obtain ⟨before, first, rest, hsplit, hbrings, hkept⟩ := h
    -- Either nothing came after the image, or the last command is one of those that let it be.
    rcases List.eq_nil_or_concat rest with rfl | ⟨rest, last, rfl⟩
    · obtain ⟨rfl, hlast⟩ := List.append_inj' hsplit rfl
      obtain rfl := List.head_eq_of_cons_eq hlast
      exact .inl hbrings
    · rw [List.concat_eq_append, ← List.cons_append, ← List.append_assoc] at hsplit
      obtain ⟨rfl, hlast⟩ := List.append_inj' hsplit rfl
      obtain rfl := List.head_eq_of_cons_eq hlast
      obtain ⟨hnone, hkeep⟩ := hkept rest c [] (List.concat_eq_append)
      refine .inr ⟨hnone, hkeep, before, first, rest, rfl, hbrings, ?_⟩
      intro between later more hmore
      refine hkept between later (more ++ [c]) ?_
      rw [List.concat_eq_append, hmore, List.append_assoc]
      rfl
  · rintro (hbrings | ⟨hnone, hkeep, before, first, rest, rfl, hbrings, hkept⟩)
    · refine ⟨commands, c, [], rfl, hbrings, fun between later more hmore => ?_⟩
      exact absurd hmore.symm (List.append_ne_nil_of_right_ne_nil _ (List.cons_ne_nil _ _))
    · refine ⟨before, first, rest ++ [c], ?_, hbrings, fun between later more hmore => ?_⟩
      · rw [List.append_assoc, List.cons_append]
      · rcases List.eq_nil_or_concat more with rfl | ⟨more, last, rfl⟩
        · obtain ⟨rfl, hlast⟩ := List.append_inj' hmore rfl
          obtain rfl := List.head_eq_of_cons_eq hlast
          exact ⟨hnone, hkeep⟩
        · rw [List.concat_eq_append, ← List.cons_append, ← List.append_assoc] at hmore
          obtain ⟨rfl, _⟩ := List.append_inj' hmore rfl
          exact hkept between later more rfl

/-- The image that is installed is the one that came in last. -/
theorem shown_after (hstart : s.shown = none) :
    (s.after commands).shown = some img ↔ s.LastBrought commands img := by
  -- A command is judged in the state that those before it lead to, so the run grows at its end.
  induction commands using List.reverseRecOn with
  | nil =>
    refine ⟨fun h => absurd (hstart.symm.trans h) (Option.some_ne_none img).symm, fun h => ?_⟩
    obtain ⟨before, c, rest, hsplit, _⟩ := h
    exact absurd hsplit.symm (List.append_ne_nil_of_right_ne_nil _ (List.cons_ne_nil _ _))
  | append_singleton commands c ih =>
    rw [lastBrought_concat, after_concat]
    cases hbrings : (s.after commands).brings c with
    | some brought =>
      rw [shown_of_brings hbrings]
      simp
    | none =>
      by_cases hunload : c = .unload
      · subst hunload
        simp [shown, step, Database.unload]
      · rw [shown, database_of_not_brings hbrings hunload, ← shown, ih]
        simp [hunload]

/-! ## Accounts -/

open Holding (shares)

/-- No image that is charged to a ledger comes from elsewhere. -/
def Command.Spares (i : Nat) : Command → Prop
  | .install h => h.account ≠ .ledger i
  | _ => True

variable {i : Nat} {cap : Option UInt64} {held : Holding}

theorem images_perm {k : Nat} (h : s.taken[k]? = some held) :
    s.images.Perm (held :: (s.database.held.toList ++ s.taken.eraseIdx k)) := by
  obtain ⟨hk, rfl⟩ := List.getElem?_eq_some_iff.mp h
  exact ((List.getElem_cons_eraseIdx_perm hk).symm.append_left _).trans List.perm_middle

/-- Whatever a command does, a ledger bears what the images that are not dropped are charged
to it. -/
theorem bears_step (h : s.bank.Bears i cap (shares s.images i)) (hc : c.Spares i) :
    (s.step c).2.bank.Bears i cap (shares (s.step c).2.images i) := by
  cases c with
  | load input account => exact Database.bears_loadWith h
  | loadWith p input account => exact Database.bears_loadWith h
  | install held => exact Database.bears_install (h.enter hc)
  | reinstall k =>
    rw [step]
    split
    · exact h
    · next held hfound => exact Database.bears_install (h.of_holdings_perm (images_perm hfound))
  | unload => exact h
  | drop k =>
    rw [step]
    split
    · exact h
    · next held hfound => exact (h.of_holdings_perm (images_perm hfound)).drop

theorem bears_after (h : s.bank.Bears i cap (shares s.images i))
    (hspares : ∀ c ∈ commands, c.Spares i) :
    (s.after commands).bank.Bears i cap (shares (s.after commands).images i) := by
  induction commands using List.reverseRecOn with
  | nil => exact h
  | append_singleton commands c ih =>
    rw [List.forall_mem_append] at hspares
    rw [after_concat]
    exact bears_step (ih hspares.1) (hspares.2 c (List.mem_singleton_self c))

/-- The live bytes of a ledger are what the images are charged to it. -/
def Counts (s : Custody) (i : Nat) : Prop :=
  ∃ l, s.bank[i]? = some l ∧ l.live.toNat = s.charged i

theorem counts_of_bears (h : s.bank.Bears i cap (shares s.images i)) : s.Counts i := h.counts

/-- What a ledger says of the images that are not dropped.  A load is charged while the image
held so far still is, so both have to fit. -/
structure Accounts (s : Custody) (i : Nat) (cap : Option UInt64) : Prop where
  counts : s.Counts i
  within : ∀ max ∈ cap, s.charged i ≤ max.toNat
  fits {p : LoadPolicy} {input unread : List UInt8} {img : Image} :
    s.database.Open → p.read input = (.ok img, unread) →
    s.charged i + img.footprint < UInt64.size →
    (∀ max ∈ cap, s.charged i + img.footprint ≤ max.toNat) →
    ∃ next, s.step (.loadWith p input (some (.ledger i))) = (.ok (), next) ∧
      next.shown = some img ∧ next.taken = s.taken ∧
      next.charged i = img.footprint + Holding.chargedTo s.taken i
  exceeds {p : LoadPolicy} {input unread : List UInt8} {img : Image} :
    s.database.Open → p.read input = (.ok img, unread) →
    ∀ max ∈ cap, max.toNat < UInt64.size - 1 → max.toNat < s.charged i + img.footprint →
    ∃ refusal next,
      s.step (.loadWith p input (some (.ledger i))) = (.error (.fault (.alloc refusal)), next) ∧
      next.database = s.database ∧ next.taken = s.taken ∧ next.Counts i
  /-- What no word counts is not charged under any limit. -/
  overfull {p : LoadPolicy} {input unread : List UInt8} {img : Image} :
    s.database.Open → p.read input = (.ok img, unread) →
    UInt64.size ≤ s.charged i + img.footprint →
    ∃ stop next, s.step (.loadWith p input (some (.ledger i))) = (.error stop, next) ∧
      next.database = s.database ∧ next.taken = s.taken ∧ next.Counts i

/-- A load that is not charged leaves all but the counters of a ledger. -/
theorem loadWith_of_uncharged (h : s.bank.Bears i cap (shares s.images i))
    (hopen : s.database.Open) {p : LoadPolicy} {input unread : List UInt8}
    (hread : p.read input = (.ok img, unread))
    (hover : UInt64.size ≤ s.charged i + img.footprint ∨
      ∃ max ∈ cap, max.toNat < s.charged i + img.footprint) :
    ∃ stop next, (img.hold (some (.ledger i)) s.bank).1 = .error stop ∧
      s.step (.loadWith p input (some (.ledger i))) = (.error (stop.map .alloc), next) ∧
      next.database = s.database ∧ next.taken = s.taken ∧ next.Counts i := by
  obtain ⟨stop, bank, hhold, hback⟩ := h.hold_of_overfull hover
  have hload : p.load input (some (.ledger i)) s.bank =
      ⟨.error (stop.map .alloc), unread, bank⟩ := by
    rw [LoadPolicy.load_of_read _ _ hread, hhold]
    rfl
  have hfailed := Database.loadWith_of_failed hopen hload
  have hsame : ({ s with bank } : Custody).bank.Bears i cap (shares s.images i) := hback
  exact ⟨stop, { s with bank }, congrArg Prod.fst hhold, congrArg s.leave hfailed, rfl, rfl,
    counts_of_bears hsame⟩

theorem accounts_of_bears (h : s.bank.Bears i cap (shares s.images i)) : s.Accounts i cap where
  counts := counts_of_bears h
  within _ := h.chargedTo_le
  fits {p input unread img} hopen hread hword hcap := by
    obtain ⟨held, hheld⟩ := h.exists_hold hword hcap
    have hload : p.load input (some (.ledger i)) s.bank =
        ⟨.ok held, unread, (img.hold (some (.ledger i)) s.bank).2⟩ := by
      rw [LoadPolicy.load_of_read _ _ hread, hheld]
      rfl
    have hloaded := Database.loadWith_of_loaded hopen hload
    refine ⟨_, congrArg s.leave hloaded, ?_, rfl, Holding.chargedTo_of_hold hheld s.taken⟩
    exact congrArg some (Image.image_of_hold hheld)
  exceeds {p input unread img} hopen hread max hmax hsmall hexceeds := by
    obtain ⟨stop, next, hstop, hstep, hkept⟩ :=
      loadWith_of_uncharged h hopen hread (.inr ⟨max, hmax, hexceeds⟩)
    cases stop with
    | fault refusal => exact ⟨refusal, next, hstep, hkept⟩
    | breach v => exact absurd hstop (h.hold_ne_breach hmax hsmall v)
  overfull {p input unread img} hopen hread hover := by
    obtain ⟨stop, next, _, hstep, hkept⟩ := loadWith_of_uncharged h hopen hread (.inl hover)
    exact ⟨_, next, hstep, hkept⟩

/-! ## Trust -/

/-- Every image that a command offers is validated. -/
def Command.Trusted (settings : Settings) : Command → Prop
  | .load _ _ => settings.verify = true
  | .loadWith p _ _ => p.verify = true
  | .install h => h.image.validate = .ok ()
  | _ => True

def Valid (s : Custody) : Prop := ∀ h ∈ s.images, h.image.validate = .ok ()

theorem valid_loadWith {p : LoadPolicy} {input : List UInt8} {account : Option Account}
    (h : s.Valid) (hverify : p.verify = true) :
    (s.leave (s.database.loadWith p input account s.bank)).2.Valid := by
  rw [leave, Valid, images]
  cases hresult : (s.database.loadWith p input account s.bank).result with
  | error e =>
    rw [Database.loadWith_of_error hresult]
    exact h
  | ok =>
    obtain ⟨held, unread, bank', hload, hheld⟩ := Database.loadWith_of_ok hresult
    dsimp only
    rw [hheld]
    have hvalid := LoadPolicy.validate_of_load hload hverify
    exact List.forall_mem_cons.mpr ⟨hvalid, (List.forall_mem_append.mp h).2⟩

theorem valid_accept (h : s.Valid) (hheld : held.image.validate = .ok ()) :
    (s.accept held).2.Valid := by
  show ∀ h ∈ (s.database.install held s.bank).2.1.held.toList ++ s.taken, _
  cases hresult : (s.database.install held s.bank).1 with
  | error e =>
    rw [Database.install_of_error hresult]
    exact h
  | ok =>
    rw [Database.install_of_ok hresult]
    exact List.forall_mem_cons.mpr ⟨hheld, (List.forall_mem_append.mp h).2⟩

theorem valid_step (h : s.Valid) (hc : c.Trusted s.database.settings) : (s.step c).2.Valid := by
  cases c with
  | load input account => exact valid_loadWith h hc
  | loadWith p input account => exact valid_loadWith h hc
  | install held => exact valid_accept h hc
  | reinstall k =>
    rw [step]
    split
    · exact h
    · next held hfound =>
      obtain ⟨hheld, hothers⟩ := List.forall_mem_cons.mp fun g hg =>
        h g ((images_perm hfound).mem_iff.mpr hg)
      exact valid_accept hothers hheld
  | unload => exact h
  | drop k =>
    rw [step]
    split
    · exact h
    · next held hfound =>
      exact (List.forall_mem_cons.mp fun g hg => h g ((images_perm hfound).mem_iff.mpr hg)).2

theorem valid_after (h : s.Valid) (htrusted : ∀ c ∈ commands, c.Trusted s.database.settings) :
    (s.after commands).Valid := by
  induction commands using List.reverseRecOn with
  | nil => exact h
  | append_singleton commands c ih =>
    rw [List.forall_mem_append] at htrusted
    rw [after_concat]
    refine valid_step (ih htrusted.1) ?_
    rw [settings_after]
    exact htrusted.2 c (List.mem_singleton_self c)

/-! ## The whole -/

/-- What is known of a database after a run of commands, and of the next command. -/
structure Keeps (settings : Settings) (bank : Bank) (commands : List Command) (s : Custody) :
    Prop where
  configured : s.database.settings = settings
  last (img : Image) : s.shown = some img ↔ (opened settings bank).LastBrought commands img
  failed {c : Command} {stop : Stop LoadFault} :
    (s.step c).1 = .error stop → (s.step c).2.database = s.database
  rejects : settings.reload = .reject → s.database.isLoaded →
    s.database.Rejects ∧ ∀ c ≠ .unload, (s.step c).2.database = s.database
  replaces : settings.reload = .replace ∨ ¬ s.database.isLoaded → s.database.Replaces
  answers : s.database.Answers
  trusted : (∀ c ∈ commands, c.Trusted settings) →
    (s.database.isLoaded ↔ ∀ q, ∃ answer, s.database.ask q = .ok answer)
  accounts {i : Nat} {l : Ledger} : bank[i]? = some l → l.live = 0 →
    (∀ c ∈ commands, c.Spares i) → s.Accounts i l.limit

theorem bears_opened {settings : Settings} {bank : Bank} {l : Ledger} (hl : bank[i]? = some l)
    (hblank : l.live = 0) : (opened settings bank).bank.Bears i l.limit [] :=
  ⟨l, hl, rfl, congrArg UInt64.toNat hblank, fun _ _ => Nat.zero_le _⟩

/-- After any run the database holds the image that came in last, answers from that one
alone, and lets the next one in as its settings say, while a ledger that was blank to begin
with counts the images that are not dropped. -/
theorem keeps_last_image (settings : Settings) (bank : Bank) (commands : List Command) :
    Keeps settings bank commands ((opened settings bank).after commands) := by
  have hsettings : ((opened settings bank).after commands).database.settings = settings :=
    settings_after (opened settings bank) commands
  have hanswers := ((opened settings bank).after commands).database.answers
  refine ⟨hsettings, fun img => shown_after rfl, database_of_error, ?_, ?_, hanswers, ?_, ?_⟩
  · intro hreject hloaded
    have hclosed : ¬ ((opened settings bank).after commands).database.Open := by
      intro hopen
      have hreplace := hopen hloaded
      rw [hsettings, hreject] at hreplace
      cases hreplace
    exact ⟨Database.rejects_of_not_open hclosed, fun c => database_of_not_open hclosed⟩
  · intro hlets
    refine Database.replaces_of_open fun hloaded => ?_
    rw [hsettings]
    exact hlets.resolve_right (not_not_intro hloaded)
  · intro htrusted
    have hvalid : ((opened settings bank).after commands).Valid :=
      valid_after (fun h hh => absurd hh List.not_mem_nil) htrusted
    constructor
    · intro hloaded q
      obtain ⟨h, hheld⟩ := hanswers.loaded.mp hloaded
      refine hanswers.answered hheld q fun _ _ => hvalid h ?_
      rw [images, hheld]
      exact List.mem_cons_self
    · intro hall
      by_contra hunloaded
      obtain ⟨answer, hanswer⟩ := hall .root
      cases (hanswers.silent hunloaded .root).symm.trans hanswer
  · intro i l hl hblank hspares
    exact accounts_of_bears (bears_after (bears_opened hl hblank) hspares)

/-- A ledger with room for two images of one class, but not for three. -/
def roomForTwo : Bank := #[{ limit := some 250 }]

def loadOneClass : Command := .loadWith {} (Image.oneClass none).file (some (.ledger 0))

theorem read_oneClass :
    ({} : LoadPolicy).read (Image.oneClass none).file = (.ok (Image.oneClass none), []) :=
  Image.read_whole_file Image.validate_oneClass Image.length_encode_oneClass

theorem keeps_last_image_roomForTwo :
    ∃ s refusal next, (opened { reload := .replace } roomForTwo).after
        [loadOneClass, .unload, loadOneClass] = s ∧
      s.shown = some (Image.oneClass none) ∧ s.charged 0 = 208 ∧ s.Counts 0 ∧
      s.step loadOneClass = (.error (.fault (.alloc refusal)), next) ∧
      next.shown = some (Image.oneClass none) ∧ next.Counts 0 := by
  have hsize : (Image.oneClass none).footprint = 104 := by decide +kernel
  have hkeeps := keeps_last_image { reload := .replace } roomForTwo
  have hblank : roomForTwo[0]? = some { limit := some 250 } := rfl
  have haccounts (commands : List Command) (hspares : ∀ c ∈ commands, c.Spares 0) :=
    (hkeeps commands).accounts hblank rfl hspares
  have hcap {bytes : Nat} (h : bytes ≤ 250) : ∀ max ∈ some (250 : UInt64), bytes ≤ max.toNat := by
    intro max hmax
    obtain rfl := Option.some.inj hmax
    exact h
  -- The first load has the ledger for itself.
  obtain ⟨first, hfirst, _, _, hcharged⟩ := (haccounts [] (by simp)).fits (fun _ => rfl)
    read_oneClass (by rw [hsize]; decide) (hcap (by rw [hsize]; decide))
  have hone : first.charged 0 = 104 := by
    rw [hcharged, hsize]
    rfl
  have hunloaded : (opened { reload := .replace } roomForTwo).after [loadOneClass, .unload] =
      (first.step .unload).2 := congrArg (fun r => (r.2.step .unload).2) hfirst
  -- The second is charged beside the image that was taken out.
  have hroom := haccounts [loadOneClass, .unload] (by simp [loadOneClass, Command.Spares])
  rw [hunloaded] at hroom
  have hkept : (first.step .unload).2.charged 0 = 104 := hone
  have htaken : Holding.chargedTo (first.step .unload).2.taken 0 = 104 := hone
  obtain ⟨second, hsecond, hshown, _, hboth⟩ := hroom.fits (fun h => by cases h) read_oneClass
    (by rw [hkept, hsize]; decide) (hcap (by rw [hkept, hsize]; decide))
  rw [hsize, htaken] at hboth
  have hafter : (opened { reload := .replace } roomForTwo).after
      [loadOneClass, .unload, loadOneClass] = second :=
    calc (opened { reload := .replace } roomForTwo).after [loadOneClass, .unload, loadOneClass]
      _ = (((opened { reload := .replace } roomForTwo).after
            [loadOneClass, .unload]).step loadOneClass).2 := rfl
      _ = ((first.step .unload).2.step loadOneClass).2 := by rw [hunloaded]
      _ = second := congrArg Prod.snd hsecond
  -- A third does not fit.
  have hfull := haccounts [loadOneClass, .unload, loadOneClass]
    (by simp [loadOneClass, Command.Spares])
  have hconfigured := (hkeeps [loadOneClass, .unload, loadOneClass]).configured
  rw [hafter] at hfull hconfigured
  obtain ⟨refusal, next, hthird, hsame, _, hcounts⟩ := hfull.exceeds
    (fun _ => by rw [hconfigured]) read_oneClass 250 rfl (by decide)
    (by rw [hboth, hsize]; decide)
  refine ⟨second, refusal, next, hafter, hshown, hboth, hfull.counts, hthird, ?_, hcounts⟩
  rw [shown, hsame]
  exact hshown

/-- An image whose type index names a type that is not there. -/
def danglingType : Image := { Image.oneClass none with typeIndex := #[⟨.type, 7⟩] }

theorem length_encode_danglingType : danglingType.encode.length < UInt64.size := by
  simp only [Image.encode, Image.codec, Codec.imap, Codec.pair, List.length_append,
    Codec.length_text]
  decide +kernel

theorem getType_danglingType (hash : UInt32) :
    danglingType.getType hash = .error (.danglingId .types 7 0) := by
  have hindex : danglingType.typeIndex.size = 1 := rfl
  have hkey : danglingType.typeHashAt ⟨.type, 7⟩ = .error (.danglingId .types 7 0) := rfl
  rw [Image.getType, Search.byKeyM, Search.locate, dif_neg (by rw [hindex]; exact Nat.one_ne_zero),
    Search.narrow, dif_pos hindex]
  rfl

def unverified : Custody := (opened { verify := false } #[]).after [.load danglingType.file none]

theorem held_unverified : unverified.database.held = some { image := danglingType } := by
  have hread := Image.read_file_unverified length_encode_danglingType []
  rw [List.append_nil] at hread
  have hloaded := Database.loadWith_of_loaded (d := (opened { verify := false } #[]).database)
    (fun h => by cases h) (LoadPolicy.load_none_eq_ok (opened { verify := false } #[]).bank hread)
  rw [unverified, after, List.foldl_cons, List.foldl_nil, step, leave, Database.load]
  have hpolicy : (opened { verify := false } #[]).database.settings.policy = { verify := false } :=
    rfl
  rw [hpolicy, hloaded]

/-- Without validation a database can hold an image that does not answer a query, and an
image that is refused is given back. -/
theorem unanswered_of_unverified :
    (unverified.database.isLoaded ∧
      unverified.database.ask (.type 0) = .error (.danglingId .types 7 0)) ∧
    ∃ held bank, (Image.oneClass none).hold (some (.ledger 0)) #[{ limit := none }] =
        (.ok held, bank) ∧
      ((Database.ofImage { image := danglingType }).install held bank).1 = .error .alreadyLoaded ∧
      ((Database.ofImage { image := danglingType }).install held bank).2.2 ≠ bank := by
  constructor
  · rw [Database.ask_of_held held_unverified]
    exact ⟨Database.isLoaded_iff.mpr ⟨_, held_unverified⟩, getType_danglingType 0⟩
  · have hsize : (Image.oneClass none).footprint = 104 := by decide +kernel
    have hcharges : (Image.oneClass none).ChargesWhole #[{ limit := none }] 0 { limit := none } :=
      Image.chargesWhole rfl (by rw [hsize]; decide)
    obtain ⟨held, hheld⟩ := hcharges.ok_iff.mpr fun limit hlimit => by cases hlimit
    rcases hhold : (Image.oneClass none).hold (some (.ledger 0)) #[{ limit := none }] with ⟨_, full⟩
    rw [hhold] at hheld
    subst hheld
    have hclosed : ¬ (Database.ofImage { image := danglingType }).Open := fun h => by cases h rfl
    refine ⟨held, full, rfl, ?_⟩
    rw [Database.install_of_not_open hclosed]
    refine ⟨rfl, fun hsame : held.drop full = full => ?_⟩
    -- What was charged is live before and not after.
    have hcharged := hcharges.ok hhold
    obtain ⟨l, l', hl, hl', hlive⟩ := hcharged.charged.ledger
    obtain ⟨m, m', hm, hm', hback⟩ := hcharged.dropped.ledger
    obtain rfl := Option.some.inj (hl.symm.trans hm)
    rw [hsame] at hm'
    obtain rfl := Option.some.inj (hl'.symm.trans hm')
    have hmore := hlive.live
    have hnone := hback.live
    omega

end Custody
end TypeAtlas
