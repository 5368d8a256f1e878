/-
Derivation orders the classes of a valid image.

The chain of base classes from a class on holds exactly the classes that following bases
leads to, so what the queries answer is the reflexive and transitive closure of stating a
base.  A class states one base at most, which makes any two classes that another derives
from comparable, and without cycles the closure is antisymmetric.
-/
import TypeAtlas.Proofs.Build.Renumbering
import TypeAtlas.Proofs.Query.Navigation

namespace TypeAtlas
namespace Image

open Check
open Relation (TransGen ReflTransGen)

variable {img : Image}

/-! ## Chains -/

/-- The base that a genuine class states is the one that is looked up. -/
theorem Genuine.derives_iff {c : Ref .classes} (h : img.Genuine c) {next : Option (Ref .classes)}
    (hnext : img.baseOf c = .ok next) {b : Id .classes} :
    img.Derives c.id b ↔ ∃ s ∈ next, s.id = b := by
  have hget := h.root_or_get.resolve_left id
  have hbase : img.Derives c.id b ↔ ClassBody.base c.record.body = some b := by
    constructor
    · rintro ⟨r, hr, hb⟩
      obtain rfl := Option.some.inj (hget.symm.trans hr)
      exact hb
    · exact fun hb => ⟨_, hget, hb⟩
  rw [hbase]
  rw [baseOf] at hnext
  cases hstated : ClassBody.base c.record.body with
  | none =>
    rw [hstated] at hnext
    obtain rfl := Except.ok.inj hnext
    simp
  | some id =>
    rw [hstated] at hnext
    obtain ⟨s, hs, hsome⟩ := bind_eq_ok_iff.mp hnext
    obtain rfl := Except.ok.inj hsome
    rw [← (ref_eq_ok_iff.mp hs).1]
    simp

/-- A chain holds what following bases leads to. -/
theorem BaseChain.mem_iff {next : Option (Ref .classes)} {bs : List (Ref .classes)}
    (h : img.BaseChain next bs) {c : Ref .classes} (hc : c ∈ next) (hgenuine : img.Genuine c)
    {b : Id .classes} : b ∈ bs.map (·.id) ↔ ReflTransGen img.Derives c.id b := by
  induction h generalizing c with
  | nil => cases hc
  | @cons d next bs hnext hchain ih =>
    obtain rfl := Option.some.inj hc
    rw [List.map_cons, List.mem_cons, ReflTransGen.cases_head_iff, eq_comm]
    refine or_congr_right ?_
    simp only [hgenuine.derives_iff hnext]
    cases next with
    | none =>
      cases hchain
      simp
    | some s =>
      rw [ih rfl (genuine_of_mapM_ref hnext)]
      simp

/-- Where no class derives from itself, a chain comes to no class twice. -/
theorem BaseChain.nodup (hacyclic : ∀ c, ¬ TransGen img.Derives c c) {next : Option (Ref .classes)}
    {bs : List (Ref .classes)} (h : img.BaseChain next bs) (hgenuine : ∀ c ∈ next, img.Genuine c) :
    (bs.map (·.id)).Nodup := by
  induction h with
  | nil => exact List.nodup_nil
  | @cons c next bs hnext hchain ih =>
    rw [List.map_cons, List.nodup_cons]
    have hrest : ∀ s ∈ next, img.Genuine s := by
      rintro s rfl
      exact genuine_of_mapM_ref hnext
    refine ⟨fun hmem => ?_, ih hrest⟩
    cases hchain with
    | nil => exact absurd hmem List.not_mem_nil
    | @cons s _ _ hs hrest' =>
      have hback := (BaseChain.cons hs hrest').mem_iff rfl (hrest s rfl) |>.mp hmem
      have hstep := (hgenuine c rfl).derives_iff hnext |>.mpr ⟨s, rfl, rfl⟩
      exact hacyclic _ (TransGen.head' hstep hback)

/-! ## The order -/

/-- Asked for one class, the query at another answers that it derives from it. -/
def DerivesFrom (img : Image) (c b : Id .classes) : Prop :=
  ∃ r, img.ref c = .ok r ∧ img.derivesFrom r b = .ok true

/-- What is answered of the bases of a class: they end, none comes twice, and a class derives
from those that following bases leads to, itself included. -/
structure DerivationSound (img : Image) (c : Ref .classes) (next : Option (Ref .classes))
    (bs : List (Ref .classes)) : Prop extends img.BasesSound c next bs where
  distinct : ((c :: bs).map (·.id)).Nodup
  stated : ∀ b, img.Derives c.id b ↔ ∃ s ∈ next, s.id = b
  closure : ∀ b, ∃ answer, img.derivesFrom c b = .ok answer ∧
    (answer ↔ ReflTransGen img.Derives c.id b)

theorem Genuine.derivationSound (hsafe : img.Safe) {c : Ref .classes} (h : img.Genuine c) :
    ∃ next bs, img.DerivationSound c next bs := by
  obtain ⟨next, bs, hbases⟩ := h.basesSound hsafe
  have hself : ∀ d ∈ some c, img.Genuine d := by
    intro d hd
    exact Option.some.inj hd ▸ h
  have hchain : img.BaseChain (some c) (c :: bs) := .cons hbases.base hbases.chain
  refine ⟨next, bs, hbases, hchain.nodup hsafe.wellFormed.acyclic hself,
    fun b => h.derives_iff hbases.base, fun b => ⟨_, hbases.derives b, ?_⟩⟩
  rw [decide_eq_true_eq]
  exact hchain.mem_iff rfl h

theorem derivesFrom_iff (hsafe : img.Safe) {c b : Id .classes} (hc : img.Holds c) :
    img.DerivesFrom c b ↔ ReflTransGen img.Derives c b := by
  obtain ⟨r, hr, rfl, _⟩ := genuine_of_holds hsafe.addressable hc
  obtain ⟨_, _, hsound⟩ := (genuine_of_ref hr).derivationSound hsafe
  obtain ⟨answer, hanswer, hiff⟩ := hsound.closure b
  rw [← hiff]
  constructor
  · rintro ⟨r', hr', htrue⟩
    obtain rfl := Except.ok.inj (hr.symm.trans hr')
    exact Except.ok.inj (hanswer.symm.trans htrue)
  · rintro rfl
    exact ⟨r, hr, hanswer⟩

/-- Only classes of the image are asked and answered. -/
theorem DerivesFrom.holds (hsafe : img.Safe) {c b : Id .classes} (h : img.DerivesFrom c b) :
    img.Holds c ∧ img.Holds b := by
  obtain ⟨r, hr, _⟩ := id h
  have hgenuine := genuine_of_ref hr
  have hget := hgenuine.root_or_get.resolve_left id
  rw [(ref_eq_ok_iff.mp hr).1] at hget
  have hc := holds_of_getElem? hget
  refine ⟨hc, ?_⟩
  rcases ((derivesFrom_iff hsafe hc).mp h).cases_tail with rfl | ⟨d, _, hd⟩
  · exact hc
  · exact hsafe.wellFormed.basesHold d b hd

/-- Deriving is a partial order of the classes, in which those above a class are a chain. -/
structure OrdersClasses (img : Image) : Prop where
  holds : ∀ {c b}, img.DerivesFrom c b → img.Holds c ∧ img.Holds b
  refl : ∀ {c}, img.Holds c → img.DerivesFrom c c
  trans : ∀ {a b c}, img.DerivesFrom a b → img.DerivesFrom b c → img.DerivesFrom a c
  antisymm : ∀ {a b}, img.DerivesFrom a b → img.DerivesFrom b a → a = b
  chain : ∀ {c a b}, img.DerivesFrom c a → img.DerivesFrom c b →
    img.DerivesFrom a b ∨ img.DerivesFrom b a

theorem Safe.ordersClasses (hsafe : img.Safe) : img.OrdersClasses where
  holds h := h.holds hsafe
  refl hc := (derivesFrom_iff hsafe hc).mpr .refl
  trans := by
    intro a b c hab hbc
    obtain ⟨ha, hb⟩ := hab.holds hsafe
    rw [derivesFrom_iff hsafe ha] at hab ⊢
    exact hab.trans ((derivesFrom_iff hsafe hb).mp hbc)
  antisymm := by
    intro a b hab hba
    obtain ⟨ha, hb⟩ := hab.holds hsafe
    rw [derivesFrom_iff hsafe ha] at hab
    rw [derivesFrom_iff hsafe hb] at hba
    rcases Relation.reflTransGen_iff_eq_or_transGen.mp hab with rfl | hab
    · rfl
    · exact absurd (hab.trans_left hba) (hsafe.wellFormed.acyclic a)
  chain := by
    intro c a b hca hcb
    obtain ⟨hc, ha⟩ := hca.holds hsafe
    obtain ⟨_, hb⟩ := hcb.holds hsafe
    rw [derivesFrom_iff hsafe hc] at hca hcb
    rw [derivesFrom_iff hsafe ha, derivesFrom_iff hsafe hb]
    exact ReflTransGen.total_of_right_unique (fun _ _ _ => Derives.unique) hca hcb

/-- In an image that validation accepts the bases of every class end, without coming to a
class twice or back to the first one, and deriving is the reflexive and transitive closure of
stating a base: a partial order, in which the classes that one derives from are a chain. -/
theorem derivation_is_order (img : Image) (haddr : img.Addressable)
    (hvalid : img.validate = .ok ()) :
    (∀ id : Id .classes, img.Holds id → ∃ c next bs, img.ref id = .ok c ∧
      img.DerivationSound c next bs) ∧ img.OrdersClasses := by
  have hsafe := safe_of_validate haddr hvalid
  refine ⟨fun id hid => ?_, hsafe.ordersClasses⟩
  obtain ⟨c, hc, _⟩ := genuine_of_holds haddr hid
  obtain ⟨next, bs, hsound⟩ := (genuine_of_ref hc).derivationSound hsafe
  exact ⟨c, next, bs, hc, hsound⟩

/-- What a log says of two classes makes one derive from the other in the image. -/
theorem exists_derives_of_log {p : Profile} {calls : List Draft.Call} {c b : Id .classes}
    (hcounts : ∀ a, ((Draft.made p calls).arena a).size < UInt32.size)
    (h : (Draft.logOf p calls).Derives c b) :
    (Draft.made p calls).image.Addressable ∧
      ∃ c' b', (Draft.made p calls).image.Derives c' b' := by
  have hagrees := Draft.agrees_made (Draft.numbered_of_addressable hcounts)
  exact ⟨Draft.addressable_image hcounts, _, _,
    Draft.derives_apply hcounts (hagrees.derives_iff.mpr h)⟩

theorem derivation_is_order_derivedClass :
    ∃ img : Image, img.Addressable ∧ img.validate = .ok () ∧ img.OrdersClasses ∧
      ∃ (c b : Id .classes) (r : Ref .classes), img.ref c = .ok r ∧
        (∃ next bs, img.DerivationSound r next bs) ∧
        img.DerivesFrom c b ∧ ¬ img.DerivesFrom b c := by
  have hvalid := Draft.validate_derivedClass
  obtain ⟨haddr, c, b, hstep⟩ :=
    exists_derives_of_log (c := ⟨1⟩) (b := ⟨0⟩) Draft.counts_derivedClass rfl
  have hsafe := safe_of_validate haddr hvalid
  have hheld : (Draft.made .full Draft.derivedClass).image.Holds c := by
    obtain ⟨_, hr, _⟩ := hstep
    exact holds_of_getElem? hr
  obtain ⟨hclasses, horder⟩ := derivation_is_order _ haddr hvalid
  obtain ⟨r, next, bs, hr, hsound⟩ := hclasses c hheld
  have hup := (derivesFrom_iff hsafe hheld).mpr (.single hstep)
  refine ⟨_, haddr, hvalid, horder, c, b, r, hr, ⟨next, bs, hsound⟩, hup, fun hdown => ?_⟩
  obtain rfl := horder.antisymm hup hdown
  exact hsafe.wellFormed.acyclic c (.single hstep)

end Image
end TypeAtlas
