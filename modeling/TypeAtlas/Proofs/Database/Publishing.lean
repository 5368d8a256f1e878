/-
A publisher is a database to whoever loads.

`Publisher.database` is what a caller can tell of a publisher: its settings and the image
that is published.  Loads and installs answer alike on both and leave the same there.  As
long as no one else has a snapshot, old images are dropped alike too.
-/
import TypeAtlas.Proofs.Database.Reload

namespace TypeAtlas

/-- A call that brings an image to a database. -/
inductive Intake where
  | load (input : List UInt8) (account : Option Account)
  | loadWith (policy : LoadPolicy) (input : List UInt8) (account : Option Account)
  | install (h : Holding)

/-- What can be told after a call: its result, what is left of the input, the image that is
there and what is charged to each ledger. -/
structure Seen where
  result : Attempt LoadFault Unit
  unread : List UInt8
  held : Option Holding
  bank : Bank

namespace Database

def take (d : Database) (bank : Bank) : Intake → Outcome
  | .load input account => d.load input account bank
  | .loadWith policy input account => d.loadWith policy input account bank
  | .install h =>
    let (result, database, bank) := d.install h bank
    ⟨result.mapError .fault, database, [], bank⟩

def Outcome.seen (o : Outcome) : Seen := ⟨o.result, o.unread, o.database.held, o.bank⟩

/-- What is seen of calls that are made one after another. -/
def seenOf (d : Database) (bank : Bank) : List Intake → List Seen
  | [] => []
  | c :: calls =>
    let o := d.take bank c
    o.seen :: o.database.seenOf o.bank calls

end Database

namespace Publisher

def take (p : Publisher) (bank : Bank) : Intake → Outcome
  | .load input account => p.load input account bank
  | .loadWith policy input account => p.loadWith policy input account bank
  | .install h =>
    let (result, publisher, bank) := p.install h bank
    ⟨result.mapError .fault, publisher, [], bank⟩

def Outcome.seen (o : Outcome) : Seen :=
  ⟨o.result, o.unread, o.publisher.current.map (·.held), o.bank⟩

def seenOf (p : Publisher) (bank : Bank) : List Intake → List Seen
  | [] => []
  | c :: calls =>
    let o := p.take bank c
    o.seen :: o.publisher.seenOf o.bank calls

/-- A database with the image that is published. -/
def database (p : Publisher) : Database :=
  { settings := p.settings, held := p.current.map (·.held) }

/-- The publisher once it has published an image. -/
def publish (p : Publisher) (h : Holding) : Publisher :=
  { p with current := some ⟨p.published, h⟩, published := p.published + 1 }

/-- Lets go of a snapshot, if there was one. -/
def settle? (p : Publisher) (old : Option Snapshot) (bank : Bank) : Bank :=
  match old with
  | some s => p.settle s bank
  | none => bank

variable {p : Publisher} {policy : LoadPolicy} {input unread : List UInt8}
  {account : Option Account} {bank bank' : Bank} {held : Holding}

/-! ## One call -/

/-- Looking for an image first and at the settings then comes to the same as looking at both. -/
theorem checkPublish_eq (p : Publisher) : p.checkPublish = p.database.checkReload := by
  have hloaded : p.database.isLoaded = p.isLoaded := Option.isSome_map
  rw [checkPublish, checkReload, Database.checkReload, hloaded]
  cases p.isLoaded <;> rfl

theorem checkPublish_of_open (h : p.database.Open) : p.checkPublish = .ok () :=
  p.checkPublish_eq.trans (Database.checkReload_of_open h)

theorem checkPublish_of_not_open (h : ¬ p.database.Open) :
    p.checkPublish = .error .alreadyLoaded :=
  p.checkPublish_eq.trans (Database.checkReload_of_not_open h)

theorem install_of_open (h : p.database.Open) :
    p.install held bank = (.ok (), p.publish held, (p.publish held).settle? p.current bank) := by
  rw [install, checkPublish_of_open h]
  rfl

theorem install_of_not_open (h : ¬ p.database.Open) :
    p.install held bank = (.error .alreadyLoaded, p, held.drop bank) := by
  rw [install, checkPublish_of_not_open h]

theorem loadWith_of_not_open (h : ¬ p.database.Open) :
    p.loadWith policy input account bank = ⟨.error (.fault .alreadyLoaded), p, input, bank⟩ := by
  rw [loadWith, checkPublish_of_not_open h]

theorem loadWith_of_failed (h : p.database.Open) {stop : Stop LoadFault}
    (hload : policy.load input account bank = ⟨.error stop, unread, bank'⟩) :
    p.loadWith policy input account bank = ⟨.error stop, p, unread, bank'⟩ := by
  rw [loadWith, checkPublish_of_open h, hload]

/-- Nothing comes between the two looks at the settings, so an image that is loaded is
published. -/
theorem loadWith_of_loaded (h : p.database.Open)
    (hload : policy.load input account bank = ⟨.ok held, unread, bank'⟩) :
    p.loadWith policy input account bank =
      ⟨.ok (), p.publish held, unread, (p.publish held).settle? p.current bank'⟩ := by
  rw [loadWith, checkPublish_of_open h, hload]
  dsimp only
  rw [install_of_open h]
  rfl

/-! ### What comes of a call -/

/-- The image that a loader answers, if it is asked for one, and the bank that it is charged
to by then. -/
def fetched (p : Publisher) (policy : LoadPolicy) (input : List UInt8) (account : Option Account)
    (bank : Bank) : Option Holding × Bank :=
  match p.checkPublish with
  | .error _ => (none, bank)
  | .ok () => ((policy.load input account bank).result.toOption, (policy.load input account bank).bank)

/-- The image that a call brings along. -/
def offered (p : Publisher) (bank : Bank) : Intake → Option Holding × Bank
  | .load input account => p.fetched p.settings.policy input account bank
  | .loadWith policy input account => p.fetched policy input account bank
  | .install h => (some h, bank)

/-- How a call ends: it brings no image, its image is refused and dropped, or its image is
published and the one before is let go of. -/
inductive Takes (p : Publisher) : Option Holding × Bank → Outcome → Prop
  | failed (stop : Stop LoadFault) (unread : List UInt8) (bank : Bank) :
    Takes p (none, bank) ⟨.error stop, p, unread, bank⟩
  | refused (held : Holding) (unread : List UInt8) (bank : Bank) :
    Takes p (some held, bank) ⟨.error (.fault .alreadyLoaded), p, unread, held.drop bank⟩
  | published (held : Holding) (unread : List UInt8) (bank : Bank) :
    Takes p (some held, bank)
      ⟨.ok (), p.publish held, unread, (p.publish held).settle? p.current bank⟩

theorem takes_loadWith (p : Publisher) (policy : LoadPolicy) (input : List UInt8)
    (account : Option Account) (bank : Bank) :
    p.Takes (p.fetched policy input account bank) (p.loadWith policy input account bank) := by
  rw [fetched]
  by_cases hopen : p.database.Open
  · rw [checkPublish_of_open hopen]
    rcases hload : policy.load input account bank with ⟨stop | held, unread, bank'⟩
    · rw [loadWith_of_failed hopen hload]
      exact .failed stop unread bank'
    · rw [loadWith_of_loaded hopen hload]
      exact .published held unread bank'
  · rw [checkPublish_of_not_open hopen, loadWith_of_not_open hopen]
    exact .failed (.fault .alreadyLoaded) input bank

theorem takes_take (p : Publisher) (bank : Bank) (c : Intake) :
    p.Takes (p.offered bank c) (p.take bank c) := by
  cases c with
  | load input account => exact p.takes_loadWith p.settings.policy input account bank
  | loadWith policy input account => exact p.takes_loadWith policy input account bank
  | install held =>
    by_cases hopen : p.database.Open
    · rw [take, install_of_open hopen]
      exact .published held [] bank
    · rw [take, install_of_not_open hopen]
      exact .refused held [] bank

/-! ## As on a database -/

/-- No one but the publisher has the image that is published. -/
structure Alone (p : Publisher) : Prop where
  readers : p.readers = []
  current : ∀ s ∈ p.current, s.generation < p.published

/-- The image that is replaced is dropped where no one else has it. -/
theorem Alone.settle?_publish (h : p.Alone) :
    (p.publish held).settle? p.current bank = p.database.drop bank := by
  rw [Database.drop, database]
  cases hcurrent : p.current with
  | none => rfl
  | some old =>
    have hold := h.current old hcurrent
    have hnot : (p.publish held).isHeld old.generation = false := by
      have hreaders : (p.publish held).readers = [] := h.readers
      rw [isHeld, hreaders, List.append_nil]
      show ([(⟨p.published, held⟩ : Snapshot)].any fun s => s.generation == old.generation) = false
      simp only [List.any_cons, List.any_nil, Bool.or_false, beq_eq_false_iff_ne]
      omega
    show (p.publish held).settle old bank = old.held.drop bank
    rw [settle, hnot]
    rfl

theorem Alone.publish (h : p.Alone) (held : Holding) : (p.publish held).Alone where
  readers := h.readers
  current s hs := by
    obtain rfl := Option.some.inj hs
    exact Nat.lt_succ_self _

theorem Alone.install (h : p.Alone) (held : Holding) (bank : Bank) :
    p.database.install held bank =
      ((p.install held bank).1, (p.install held bank).2.1.database, (p.install held bank).2.2) ∧
    (p.install held bank).2.1.Alone := by
  by_cases hopen : p.database.Open
  · rw [install_of_open hopen, Database.install_of_open hopen, h.settle?_publish]
    exact ⟨rfl, h.publish held⟩
  · rw [install_of_not_open hopen, Database.install_of_not_open hopen]
    exact ⟨rfl, h⟩

theorem Alone.loadWith (h : p.Alone) (policy : LoadPolicy) (input : List UInt8)
    (account : Option Account) (bank : Bank) :
    p.database.loadWith policy input account bank =
      ⟨(p.loadWith policy input account bank).result,
        (p.loadWith policy input account bank).publisher.database,
        (p.loadWith policy input account bank).unread,
        (p.loadWith policy input account bank).bank⟩ ∧
    (p.loadWith policy input account bank).publisher.Alone := by
  by_cases hopen : p.database.Open
  · rcases hload : policy.load input account bank with ⟨stop | held, unread, bank'⟩
    · rw [loadWith_of_failed hopen hload, Database.loadWith_of_failed hopen hload]
      exact ⟨rfl, h⟩
    · rw [loadWith_of_loaded hopen hload, Database.loadWith_of_loaded hopen hload,
        h.settle?_publish]
      exact ⟨rfl, h.publish held⟩
  · rw [loadWith_of_not_open hopen, Database.loadWith_of_not_open hopen]
    exact ⟨rfl, h⟩

theorem Alone.take (h : p.Alone) (bank : Bank) (c : Intake) :
    p.database.take bank c =
      ⟨(p.take bank c).result, (p.take bank c).publisher.database, (p.take bank c).unread,
        (p.take bank c).bank⟩ ∧
    (p.take bank c).publisher.Alone := by
  cases c with
  | load input account => exact h.loadWith p.settings.policy input account bank
  | loadWith policy input account => exact h.loadWith policy input account bank
  | install held =>
    obtain ⟨hinstall, halone⟩ := h.install held bank
    refine ⟨?_, halone⟩
    rw [Database.take, hinstall]
    rfl

/-- Whatever is loaded and installed, the same is seen as on a database with one owner. -/
theorem Alone.seenOf (h : p.Alone) (bank : Bank) (calls : List Intake) :
    p.seenOf bank calls = p.database.seenOf bank calls := by
  induction calls generalizing p bank with
  | nil => rfl
  | cons c calls ih =>
    obtain ⟨htake, halone⟩ := h.take bank c
    rw [Publisher.seenOf, Database.seenOf, htake, ih halone]
    rfl

theorem alone_opened (settings : Settings) : ({ settings } : Publisher).Alone where
  readers := rfl
  current _ hs := by cases hs

end Publisher
end TypeAtlas
