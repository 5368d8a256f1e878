/-
How an image comes into a database.

One that holds no image takes any, and one that holds an image takes another under the
replacing policy only.  What a load and an install do is said once for a database that is
open to an image and once for one that is not.  In both cases every image that is charged to
a ledger stays charged to it for as long as someone has it.
-/
import TypeAtlas.Database.Query
import TypeAtlas.Proofs.Ledger.Bearing
import TypeAtlas.Proofs.Query.Navigation
import TypeAtlas.Proofs.Wire.File

namespace TypeAtlas

/-! ## Loading -/

namespace LoadPolicy

variable {p : LoadPolicy} {input unread : List UInt8} {account : Option Account}
  {bank bank' : Bank} {held : Holding}

/-- An image that is loaded is the one that was read. -/
theorem read_of_load (hload : p.load input account bank = ⟨.ok held, unread, bank'⟩) :
    p.read input = (.ok held.image, unread) := by
  cases hread : p.read input with
  | mk result left =>
    rw [load, hread] at hload
    cases result with
    | error e => cases hload
    | ok img =>
      obtain ⟨hresult, rfl, _⟩ := Loaded.mk.inj hload
      rw [Image.image_of_hold (Check.mapError_eq_ok_iff.mp hresult)]

theorem validate_of_load (hload : p.load input account bank = ⟨.ok held, unread, bank'⟩)
    (hverify : p.verify = true) : held.image.validate = .ok () := by
  obtain ⟨h, payload, _, hreads⟩ := read_eq_ok_iff.mp (read_of_load hload)
  exact hreads.valid hverify

end LoadPolicy

namespace Bank

open Holding (shares)

variable {bank : Bank} {i : Nat} {cap : Option UInt64} {holdings : List Holding}

theorem Bears.load (h : bank.Bears i cap (shares holdings i)) (p : LoadPolicy)
    (input : List UInt8) (account : Option Account) :
    (p.load input account bank).bank.Bears i cap
      (shares ((p.load input account bank).result.toOption.toList ++ holdings) i) := by
  cases hread : p.read input with
  | mk result unread =>
    rw [LoadPolicy.load, hread]
    cases result with
    | error e => exact h
    | ok img =>
      have hheld := h.hold (Prod.eta (img.hold account bank)).symm
      cases hresult : (img.hold account bank).1 with
      | error stop =>
        rw [hresult] at hheld
        dsimp only
        rw [hresult]
        exact hheld
      | ok held =>
        rw [hresult] at hheld
        dsimp only
        rw [hresult]
        exact hheld

end Bank

/-! ## Taking an image in -/

namespace Database

variable {d : Database} {p : LoadPolicy} {input unread : List UInt8} {account : Option Account}
  {bank bank' : Bank} {held : Holding}

/-- An image may come in. -/
def Open (d : Database) : Prop := d.isLoaded → d.settings.reload = .replace

theorem isLoaded_iff : d.isLoaded ↔ ∃ h, d.held = some h :=
  Option.isSome_iff_exists

theorem checkReload_of_open (h : d.Open) : d.checkReload = .ok () := by
  rw [checkReload]
  cases hloaded : d.isLoaded with
  | false => rfl
  | true =>
    rw [h hloaded]
    rfl

theorem checkReload_of_not_open (h : ¬ d.Open) : d.checkReload = .error .alreadyLoaded := by
  obtain ⟨hloaded, hkeep⟩ := Classical.not_imp.mp h
  have hreject : d.settings.reload = .reject := by
    cases hreload : d.settings.reload with
    | reject => rfl
    | replace => exact absurd hreload hkeep
  rw [checkReload, hloaded, hreject]
  rfl

theorem install_of_open (h : d.Open) :
    d.install held bank = (.ok (), { d with held := some held }, d.drop bank) := by
  rw [install, checkReload_of_open h]
  rfl

theorem install_of_not_open (h : ¬ d.Open) :
    d.install held bank = (.error .alreadyLoaded, d, held.drop bank) := by
  rw [install, checkReload_of_not_open h]

theorem loadWith_of_not_open (h : ¬ d.Open) :
    d.loadWith p input account bank = ⟨.error (.fault .alreadyLoaded), d, input, bank⟩ := by
  rw [loadWith, checkReload_of_not_open h]

/-- An image that is loaded is not refused any more, and the one held before is dropped
after it is charged. -/
theorem loadWith_of_loaded (h : d.Open)
    (hload : p.load input account bank = ⟨.ok held, unread, bank'⟩) :
    d.loadWith p input account bank =
      ⟨.ok (), { d with held := some held }, unread, d.drop bank'⟩ := by
  rw [loadWith, checkReload_of_open h, hload]
  dsimp only
  rw [install_of_open h]
  rfl

theorem loadWith_of_failed (h : d.Open) {stop : Stop LoadFault}
    (hload : p.load input account bank = ⟨.error stop, unread, bank'⟩) :
    d.loadWith p input account bank = ⟨.error stop, d, unread, bank'⟩ := by
  rw [loadWith, checkReload_of_open h, hload]

/-! ### What comes of a call -/

theorem install_cases (d : Database) (held : Holding) (bank : Bank) :
    d.install held bank = (.error .alreadyLoaded, d, held.drop bank) ∨
      d.install held bank = (.ok (), { d with held := some held }, d.drop bank) := by
  by_cases h : d.Open
  · exact .inr (install_of_open h)
  · exact .inl (install_of_not_open h)

theorem loadWith_cases (d : Database) (p : LoadPolicy) (input : List UInt8)
    (account : Option Account) (bank : Bank) :
    d.loadWith p input account bank = ⟨.error (.fault .alreadyLoaded), d, input, bank⟩ ∨
      (∃ stop unread bank', p.load input account bank = ⟨.error stop, unread, bank'⟩ ∧
        d.loadWith p input account bank = ⟨.error stop, d, unread, bank'⟩) ∨
      ∃ held unread bank', p.load input account bank = ⟨.ok held, unread, bank'⟩ ∧
        d.loadWith p input account bank =
          ⟨.ok (), { d with held := some held }, unread, d.drop bank'⟩ := by
  by_cases h : d.Open
  · rcases hload : p.load input account bank with ⟨stop | held, unread, bank'⟩
    · exact .inr (.inl ⟨stop, unread, bank', rfl, loadWith_of_failed h hload⟩)
    · exact .inr (.inr ⟨held, unread, bank', rfl, loadWith_of_loaded h hload⟩)
  · exact .inl (loadWith_of_not_open h)

theorem install_settings : (d.install held bank).2.1.settings = d.settings := by
  rcases d.install_cases held bank with h | h <;> rw [h]

theorem loadWith_settings :
    (d.loadWith p input account bank).database.settings = d.settings := by
  rcases d.loadWith_cases p input account bank with h | ⟨_, _, _, _, h⟩ | ⟨_, _, _, _, h⟩ <;> rw [h]

theorem install_of_error {e : LoadFault} (h : (d.install held bank).1 = .error e) :
    (d.install held bank).2.1 = d := by
  rcases d.install_cases held bank with hrefused | hheld
  · rw [hrefused]
  · rw [hheld] at h
    cases h

theorem loadWith_of_error {stop : Stop LoadFault}
    (h : (d.loadWith p input account bank).result = .error stop) :
    (d.loadWith p input account bank).database = d := by
  rcases d.loadWith_cases p input account bank with
    hrefused | ⟨_, _, _, _, hfailed⟩ | ⟨_, _, _, _, hheld⟩
  · rw [hrefused]
  · rw [hfailed]
  · rw [hheld] at h
    cases h

theorem install_of_ok (h : (d.install held bank).1 = .ok ()) :
    (d.install held bank).2.1.held = some held := by
  rcases d.install_cases held bank with hrefused | hheld
  · rw [hrefused] at h
    cases h
  · rw [hheld]

theorem loadWith_of_ok (h : (d.loadWith p input account bank).result = .ok ()) :
    ∃ held unread bank', p.load input account bank = ⟨.ok held, unread, bank'⟩ ∧
      (d.loadWith p input account bank).database.held = some held := by
  rcases d.loadWith_cases p input account bank with
    hrefused | ⟨_, _, _, _, hfailed⟩ | ⟨held, unread, bank', hload, hheld⟩
  · rw [hrefused] at h
    cases h
  · rw [hfailed] at h
    cases h
  · exact ⟨held, unread, bank', hload, by rw [hheld]⟩

/-! ### What stays charged -/

section bears

open Holding (shares)

variable {i : Nat} {cap : Option UInt64} {holdings : List Holding}

theorem bears_drop (h : bank.Bears i cap (shares (d.held.toList ++ holdings) i)) :
    (d.drop bank).Bears i cap (shares holdings i) := by
  rw [drop]
  cases hheld : d.held with
  | none =>
    rw [hheld] at h
    exact h
  | some old =>
    rw [hheld] at h
    exact Bank.Bears.drop h

theorem bears_install
    (h : bank.Bears i cap (shares (held :: (d.held.toList ++ holdings)) i)) :
    (d.install held bank).2.2.Bears i cap
      (shares ((d.install held bank).2.1.held.toList ++ holdings) i) := by
  rcases d.install_cases held bank with hrefused | hheld
  · rw [hrefused]
    exact h.drop
  · rw [hheld]
    exact bears_drop (h.of_holdings_perm List.perm_middle.symm)

theorem bears_loadWith (h : bank.Bears i cap (shares (d.held.toList ++ holdings) i)) :
    (d.loadWith p input account bank).bank.Bears i cap
      (shares ((d.loadWith p input account bank).database.held.toList ++ holdings) i) := by
  have hafter := h.load p input account
  rcases d.loadWith_cases p input account bank with
    hrefused | ⟨_, _, _, hload, hfailed⟩ | ⟨held, _, bank', hload, hheld⟩
  · rw [hrefused]
    exact h
  · rw [hload] at hafter
    rw [hfailed]
    exact hafter
  · rw [hload] at hafter
    -- Both images are charged until the old one is dropped.
    have hboth : bank'.Bears i cap (shares (held :: (d.held.toList ++ holdings)) i) := hafter
    rw [hheld]
    exact bears_drop (hboth.of_holdings_perm List.perm_middle.symm)

end bears

/-! ## Queries -/

theorem ask_of_held (h : d.held = some held) (q : Query) : d.ask q = q.answer held := by
  rw [ask, image, h]
  rfl

theorem ask_of_not_held (h : d.held = none) (q : Query) : d.ask q = .error .notLoaded := by
  rw [ask, image, h]
  rfl

end Database

/-- Only a look at the type index can go wrong, and not on a valid image. -/
theorem Query.exists_answer {held : Holding} (q : Query)
    (hvalid : ∀ hash, q = .type hash → held.image.validate = .ok ()) :
    ∃ answer, q.answer held = .ok answer := by
  cases q with
  | type hash =>
    exact Image.getType_of_holds (Image.regular_of_validate (hvalid hash rfl)).types hash
  | _ => exact ⟨_, rfl⟩

/-! ## What can be relied on -/

namespace Database

variable {d : Database}

/-- No image comes in over the one held: nothing is read, and nothing is charged.  An image
that is given and refused is dropped. -/
structure Rejects (d : Database) : Prop where
  load (p : LoadPolicy) (input : List UInt8) (account : Option Account) (bank : Bank) :
    d.loadWith p input account bank = ⟨.error (.fault .alreadyLoaded), d, input, bank⟩
  install (h : Holding) (bank : Bank) :
    d.install h bank = (.error .alreadyLoaded, d, h.drop bank)

/-- Every image that a loader answers comes in, and the one held before is dropped after
that.  Where a loader fails, that one stays. -/
structure Replaces (d : Database) : Prop where
  load {p : LoadPolicy} {input unread : List UInt8} {account : Option Account} {bank bank' : Bank}
    {h : Holding} : p.load input account bank = ⟨.ok h, unread, bank'⟩ →
    d.loadWith p input account bank = ⟨.ok (), { d with held := some h }, unread, d.drop bank'⟩
  failed {p : LoadPolicy} {input unread : List UInt8} {account : Option Account}
    {bank bank' : Bank} {stop : Stop LoadFault} :
    p.load input account bank = ⟨.error stop, unread, bank'⟩ →
    d.loadWith p input account bank = ⟨.error stop, d, unread, bank'⟩
  install (h : Holding) (bank : Bank) :
    d.install h bank = (.ok (), { d with held := some h }, d.drop bank)

/-- The image is there to be asked exactly when the database says so.  Of what it is asked
only a look at the type index can go wrong, and not on a valid image. -/
structure Answers (d : Database) : Prop where
  loaded : d.isLoaded ↔ ∃ h, d.held = some h
  image : d.isLoaded ↔ ∃ h, d.image = .ok h
  silent : ¬ d.isLoaded → ∀ q, d.ask q = .error .notLoaded
  asked {h : Holding} : d.held = some h → ∀ q, d.ask q = q.answer h
  answered {h : Holding} : d.held = some h → ∀ q : Query,
    (∀ hash, q = .type hash → h.image.validate = .ok ()) → ∃ answer, d.ask q = .ok answer

theorem rejects_of_not_open (h : ¬ d.Open) : d.Rejects where
  load _ _ _ _ := loadWith_of_not_open h
  install _ _ := install_of_not_open h

theorem replaces_of_open (h : d.Open) : d.Replaces where
  load := loadWith_of_loaded h
  failed := loadWith_of_failed h
  install _ _ := install_of_open h

theorem answers (d : Database) : d.Answers where
  loaded := isLoaded_iff
  image := by
    rw [isLoaded_iff, image]
    cases d.held <;> simp
  silent h := by
    rw [isLoaded, Bool.not_eq_true, Option.isSome_eq_false_iff, Option.isNone_iff_eq_none] at h
    exact ask_of_not_held h
  asked := ask_of_held
  answered h q hvalid := by
    rw [ask_of_held h]
    exact q.exists_answer hvalid

end Database

end TypeAtlas
