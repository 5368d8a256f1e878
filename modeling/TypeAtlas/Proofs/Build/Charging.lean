/-
Building and loading charge all of an image or nothing.

A load validates before it charges and a build after, so a build that fails on a cycle of
base classes has all of its image to give back.  In both the limit alone decides whether
the charge is granted, and what the image holds does not depend on it.
-/
import TypeAtlas.Proofs.Layout.Extent
import TypeAtlas.Proofs.Ledger.Charging
import TypeAtlas.Proofs.Wire.File

namespace TypeAtlas

open Relation (TransGen)

variable {bank : Bank} {i : Nat} {l : Ledger}

namespace Draft

variable {d : Draft} {log : Log}

/-- What becomes of a ledger that the image of a draft is charged to. -/
structure BuildCharges (d : Draft) (log : Log) (bank : Bank) (i : Nat) (l : Ledger) : Prop where
  ok_iff : (∃ held, (d.build (some (.ledger i)) bank).1 = .ok held) ↔
    (∀ c, ¬ TransGen log.Derives c c) ∧ l.Admits d.image.footprint
  ok {held : Holding} {full : Bank} : d.build (some (.ledger i)) bank = (.ok held, full) →
    d.image.ChargedTo bank i held full ∧ (d.build none bank).1 = .ok { image := d.image }
  error {stop : Stop DraftFault} {rest : Bank} :
    d.build (some (.ledger i)) bank = (.error stop, rest) → bank.Carries rest i 0 0 ∧
      ((∃ refusal, stop = .fault (.alloc refusal) ∧
          l.FirstRefused (blockSizes d.image.arrays) refusal) ∨
        (l.Admits d.image.footprint ∧
          ∃ j < (d.arena .classes).size, stop = .fault (.invalid (.inheritanceCycle j))))

theorem Sound.buildCharges (h : d.Sound) (haddr : d.raw.Addressable) (hagrees : d.Agrees log)
    (hcharges : d.image.ChargesWhole bank i l) : d.BuildCharges log bank i l := by
  obtain ⟨haccepts, hrefuses⟩ := h.validate_image haddr
  have hderives : d.raw.Derives = log.Derives :=
    funext fun c => funext fun b => propext hagrees.derives_iff
  rw [hderives] at haccepts
  refine ⟨?_, ?_, ?_⟩
  · rw [← haccepts, ← hcharges.ok_iff]
    constructor
    · intro hbuilds
      obtain ⟨held, hbuilt⟩ := hbuilds
      obtain ⟨hheld, hvalid⟩ := build_eq_ok_iff.mp (Prod.ext hbuilt rfl)
      rw [(hcharges.ok hheld).image] at hvalid
      exact ⟨hvalid, held, congrArg Prod.fst hheld⟩
    · intro hboth
      obtain ⟨hvalid, held, hheld⟩ := hboth
      have hcharged := hcharges.ok (Prod.ext hheld rfl)
      refine ⟨held, congrArg Prod.fst (build_eq_ok_iff.mpr ⟨Prod.ext hheld rfl, ?_⟩)⟩
      rw [hcharged.image]
      exact hvalid
  · intro held full hbuilt
    obtain ⟨hheld, hvalid⟩ := build_eq_ok_iff.mp hbuilt
    have hcharged := hcharges.ok hheld
    rw [hcharged.image] at hvalid
    exact ⟨hcharged, build_none_ok bank hvalid⟩
  · intro stop rest hfailed
    obtain ⟨refused, hrefused, rfl⟩ | ⟨held, full, fault, hheld, hinvalid, rfl, rfl⟩ :=
      build_eq_error_iff.mp hfailed
    · obtain ⟨⟨refusal, rfl, hfirst⟩, hback⟩ := hcharges.error hrefused
      exact ⟨hback, .inl ⟨refusal, rfl, hfirst⟩⟩
    · have hcharged := hcharges.ok hheld
      have hadmits := hcharges.ok_iff.mp ⟨held, congrArg Prod.fst hheld⟩
      rw [hcharged.image] at hinvalid
      obtain ⟨j, hj, rfl⟩ := hrefuses fault hinvalid
      exact ⟨hcharged.dropped, .inr ⟨hadmits, j, hj, rfl⟩⟩

end Draft

namespace LoadPolicy

variable {p : LoadPolicy} {input unread : List UInt8} {img : Image}

/-- What becomes of a ledger that an image is charged to once it is read. -/
structure LoadCharges (p : LoadPolicy) (input unread : List UInt8) (img : Image) (bank : Bank)
    (i : Nat) (l : Ledger) : Prop where
  ok_iff : (∃ held, (p.load input (some (.ledger i)) bank).result = .ok held) ↔
    l.Admits img.footprint
  ok {held : Holding} {left : List UInt8} {full : Bank} :
    p.load input (some (.ledger i)) bank = ⟨.ok held, left, full⟩ →
      img.ChargedTo bank i held full ∧
        p.load input none bank = ⟨.ok { image := img }, unread, bank⟩
  error {stop : Stop LoadFault} {left : List UInt8} {rest : Bank} :
    p.load input (some (.ledger i)) bank = ⟨.error stop, left, rest⟩ →
      bank.Carries rest i 0 0 ∧ ∃ refusal, stop = .fault (.alloc refusal) ∧
        l.FirstRefused (blockSizes img.arrays) refusal
  unread : (p.load input (some (.ledger i)) bank).unread = unread

theorem loadCharges (hread : p.read input = (.ok img, unread))
    (hcharges : img.ChargesWhole bank i l) : p.LoadCharges input unread img bank i l := by
  have hload := load_of_read (some (.ledger i)) bank hread
  refine ⟨?_, ?_, ?_, ?_⟩
  · rw [hload, ← hcharges.ok_iff]
    simp only [Check.mapError_eq_ok_iff]
  · intro held left full h
    obtain ⟨hok, _, rfl⟩ := Loaded.mk.inj (hload.symm.trans h)
    have hheld := Check.mapError_eq_ok_iff.mp hok
    exact ⟨hcharges.ok (Prod.ext hheld rfl), load_none_eq_ok bank hread⟩
  · intro stop left rest h
    obtain ⟨herror, _, rfl⟩ := Loaded.mk.inj (hload.symm.trans h)
    cases hheld : (img.hold (some (.ledger i)) bank).1 with
    | error refused =>
      rw [hheld] at herror
      obtain ⟨⟨refusal, rfl, hfirst⟩, hback⟩ := hcharges.error (Prod.ext hheld rfl)
      exact ⟨hback, refusal, (Except.error.inj herror).symm, hfirst⟩
    | ok held =>
      rw [hheld] at herror
      cases herror
  · rw [hload]

end LoadPolicy

/-! ## All or nothing -/

/-- However much is live and whatever the limit, as long as live bytes and image fit in a
word together, an image is charged whole or not at all when it is charged, built or loaded,
and a stream without an image leaves the bank alone.  An arena has fewer records than there
are words. -/
theorem charging_all_or_nothing (bank : Bank) (i : Nat) (l : Ledger) (hl : bank[i]? = some l) :
    (∀ img : Image, l.live.toNat + img.footprint < UInt64.size → img.ChargesWhole bank i l) ∧
    (∀ (p : Profile) (calls : List Draft.Call),
      (∀ a, ((Draft.made p calls).arena a).size < UInt32.size) →
      l.live.toNat + (Draft.made p calls).image.footprint < UInt64.size →
      (Draft.made p calls).BuildCharges (Draft.logOf p calls) bank i l) ∧
    (∀ (p : LoadPolicy) (input unread : List UInt8) (img : Image),
      p.read input = (.ok img, unread) → l.live.toNat + img.footprint < UInt64.size →
      p.LoadCharges input unread img bank i l) ∧
    ∀ (p : LoadPolicy) (input unread : List UInt8) (e : LoadFault),
      p.read input = (.error e, unread) →
      p.load input (some (.ledger i)) bank = ⟨.error (.fault e), unread, bank⟩ := by
  refine ⟨fun _ => Image.chargesWhole hl, ?_, ?_, fun _ _ _ _ => LoadPolicy.load_of_unreadable _ _⟩
  · intro p calls hcounts hfits
    have hnum := Draft.numbered_of_addressable hcounts
    exact (Draft.sound_made hnum).buildCharges hcounts (Draft.agrees_made hnum)
      (Image.chargesWhole hl hfits)
  · intro p input unread img hread hfits
    exact LoadPolicy.loadCharges hread (Image.chargesWhole hl hfits)

/-- A ledger with room for two classes, but not for many more. -/
def tightLedger : Ledger := { limit := some 300, live := 40, blocks := 3 }

theorem charging_all_or_nothing_tightLedger :
    (∃ j rest, (Draft.made .full Draft.mutualBases).build (some (.ledger 0)) #[tightLedger] =
      (.error (.fault (.invalid (.inheritanceCycle j))), rest) ∧
      Bank.Carries #[tightLedger] rest 0 0 0) ∧
    ∃ held full, ({} : LoadPolicy).load (Image.oneClass none).file (some (.ledger 0))
      #[tightLedger] = ⟨.ok held, [], full⟩ ∧
      (Image.oneClass none).ChargedTo #[tightLedger] 0 held full := by
  obtain ⟨_, hbuilds, hloads, _⟩ := charging_all_or_nothing #[tightLedger] 0 tightLedger rfl
  constructor
  · have hcounts : ∀ a, ((Draft.made .full Draft.mutualBases).arena a).size < UInt32.size := by
      decide
    have hsize : (Draft.made .full Draft.mutualBases).image.footprint ≤ 256 :=
      Nat.le_trans (Draft.footprint_image_le hcounts) (by decide +kernel)
    have hadmits : tightLedger.Admits 256 := by decide
    have hfits : tightLedger.live.toNat + 256 < UInt64.size := by decide
    have hcharges := hbuilds .full Draft.mutualBases hcounts
      (Nat.lt_of_le_of_lt (Nat.add_le_add_left hsize _) hfits)
    have hforth : (Draft.logOf .full Draft.mutualBases).Derives ⟨0⟩ ⟨1⟩ := by rfl
    have hback : (Draft.logOf .full Draft.mutualBases).Derives ⟨1⟩ ⟨0⟩ := by rfl
    rcases hbuilt : (Draft.made .full Draft.mutualBases).build (some (.ledger 0)) #[tightLedger]
      with ⟨_ | held, rest⟩
    case error stop =>
      obtain ⟨hrest, ⟨_, _, hrefused⟩ | ⟨_, j, _, rfl⟩⟩ := hcharges.error hbuilt
      · refine absurd ?_ hrefused.not_admits
        rw [← Image.footprint_eq_sum]
        exact hadmits.mono hsize
      · exact ⟨j, rest, rfl, hrest⟩
    case ok =>
      have hacyclic := (hcharges.ok_iff.mp ⟨held, congrArg Prod.fst hbuilt⟩).1
      exact absurd (.tail (.single hforth) hback) (hacyclic ⟨0⟩)
  · have hread := Image.read_file Image.validate_oneClass Image.length_encode_oneClass []
    rw [List.append_nil] at hread
    have hsize : (Image.oneClass none).footprint = 104 := by decide +kernel
    have hcharges := hloads {} _ _ _ hread (by rw [hsize]; decide)
    obtain ⟨held, hok⟩ := hcharges.ok_iff.mpr (by rw [hsize]; decide)
    have hunread := hcharges.unread
    cases hload : ({} : LoadPolicy).load (Image.oneClass none).file (some (.ledger 0))
      #[tightLedger] with
    | mk result left full =>
      rw [hload] at hok hunread
      dsimp only at hok hunread
      subst hok hunread
      exact ⟨held, full, rfl, (hcharges.ok hload).1⟩

end TypeAtlas
