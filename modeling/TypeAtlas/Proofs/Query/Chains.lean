/-
Queries that follow a chain.

A walk over base classes, or over owners, takes as many steps as the chain is
long, and a limit only keeps one over an invalid image from going on for ever.
On a valid image every chain ends, within the limits that `bases`, `derivesFrom`
and `scopesOf` set, so that the limits change nothing.
-/
import TypeAtlas.Image.Scope
import TypeAtlas.Proofs.Query.Genuine

namespace TypeAtlas
namespace Image

open Check
open Relation (TransGen)

variable {img : Image}

/-! ## Base classes -/

/-- The whole chain of base classes from a class on. -/
inductive BaseChain (img : Image) : Option (Ref .classes) → List (Ref .classes) → Prop
  | nil : BaseChain img none []
  | cons {c : Ref .classes} {next : Option (Ref .classes)} {bs : List (Ref .classes)} :
      img.baseOf c = .ok next → BaseChain img next bs → BaseChain img (some c) (c :: bs)

theorem BaseChain.basesFrom {next : Option (Ref .classes)} {bs : List (Ref .classes)}
    (h : img.BaseChain next bs) (limit : Nat) : img.basesFrom limit next = .ok (bs.take limit) := by
  induction h generalizing limit with
  | nil => cases limit <;> rfl
  | cons hnext _ ih =>
    cases limit with
    | zero => rfl
    | succ limit =>
      rw [Image.basesFrom, hnext, List.take_succ_cons]
      show (img.basesFrom limit _ >>= _) = _
      rw [ih limit]
      rfl

theorem BaseChain.derivesWithin {next : Option (Ref .classes)} {bs : List (Ref .classes)}
    (h : img.BaseChain next bs) (other : Id .classes) {limit : Nat} (hlimit : bs.length ≤ limit) :
    img.derivesWithin other limit next = .ok (decide (other ∈ bs.map (·.id))) := by
  induction h generalizing limit with
  | nil => cases limit <;> rfl
  | @cons c next bs hnext _ ih =>
    cases limit with
    | zero => exact absurd hlimit (Nat.not_succ_le_zero _)
    | succ limit =>
      rw [Image.derivesWithin, hnext]
      show (if c.id = other then _ else _) = _
      by_cases hc : c.id = other
      · simp only [hc, if_true, List.map_cons, List.mem_cons, true_or, decide_true]
        rfl
      · rw [if_neg hc]
        show img.derivesWithin other limit next = _
        rw [ih (Nat.le_of_succ_le_succ hlimit)]
        simp [Ne.symm hc]

/-- A walk that `descend` accepts has come to an end. -/
theorem baseChain_of_descend (hsafe : img.Safe) {index steps : Nat} {next : Option (Id .classes)}
    (h : img.descend index steps next = .ok ()) :
    ∃ r bs, next.mapM img.ref = .ok r ∧ img.BaseChain r bs ∧
      bs.length ≤ (img.arena .classes).size - steps := by
  fun_induction descend img index steps next with
  | case1 => exact ⟨none, [], rfl, .nil, Nat.zero_le _⟩
  | case2 => cases h
  | case3 steps base hgo ih =>
    obtain ⟨c, hc, hrest⟩ := bind_eq_ok_iff.mp h
    obtain ⟨r, bs, hr, hchain, hlen⟩ := ih c hrest
    refine ⟨some ⟨base, c⟩, ⟨base, c⟩ :: bs, ?_, .cons hr hchain, ?_⟩
    · show (img.ref base >>= fun x => pure (some x)) = _
      rw [ref_of_lookup hsafe.addressable hc]
      rfl
    · rw [List.length_cons]
      omega

/-- The chain of base classes of a genuine class is not longer than there are
classes. -/
theorem Genuine.baseChain (hsafe : img.Safe) {c : Ref .classes} (h : img.Genuine c) :
    ∃ next bs, img.baseOf c = .ok next ∧ img.BaseChain next bs ∧
      bs.length ≤ (img.arena .classes).size := by
  have hget := h.root_or_get.resolve_left id
  have hbases := basesHold_of_members (hsafe.wellFormed.members .classType)
  have haccept := (checkInheritance_eq_ok_iff hsafe.addressable hbases).mpr hsafe.wellFormed.acyclic
  exact baseChain_of_descend hsafe (forM_zipIdx_eq_ok_iff.mp haccept _ _ hget)

/-! ## Scopes -/

/-- The whole chain of owners from a declaration on, up to the root namespace,
which is not part of it. -/
inductive OwnerChain (img : Image) : Option DeclRef → List DeclRef → Prop
  | nil : OwnerChain img none []
  | root {d : DeclRef} : d.id = .root → OwnerChain img (some d) []
  | cons {d : DeclRef} {next : Option DeclRef} {ds : List DeclRef} :
      d.id ≠ .root → img.parentOf d.ref = .ok next → OwnerChain img next ds →
        OwnerChain img (some d) (d :: ds)

theorem OwnerChain.enclosing {next : Option DeclRef} {ds : List DeclRef}
    (h : img.OwnerChain next ds) (limit : Nat) : img.enclosing limit next = .ok (ds.take limit) := by
  induction h generalizing limit with
  | nil => cases limit <;> rfl
  | root hroot =>
    cases limit with
    | zero => rfl
    | succ limit => rw [Image.enclosing, if_pos (isRoot_iff.mpr hroot), List.take_nil]
  | @cons d next ds hroot hnext _ ih =>
    cases limit with
    | zero => rfl
    | succ limit =>
      rw [Image.enclosing, if_neg fun h => hroot (isRoot_iff.mp h), hnext, List.take_succ_cons]
      show (img.enclosing limit next >>= _) = _
      rw [ih limit]
      rfl

theorem Genuine.parentOf? {d : DeclRef} (h : img.Genuine d.ref) :
    img.parentOf? d.id = d.ref.record.parent := by
  have hrecord : img.record? d.id.id = some d.ref.record := (ref_eq_ok_iff.mp h).2
  rw [Image.parentOf?, header?, hrecord]
  rfl

/-- A chain of owners comes to no declaration twice. -/
theorem ownerChain_of_rooted (hsafe : img.Safe) {p : DeclId} (hp : img.Rooted p) :
    ∀ d : DeclRef, d.id = p → img.Genuine d.ref →
      ∃ ds, img.OwnerChain (some d) ds ∧ (ds.map (·.id)).Nodup ∧
        ∀ e ∈ ds.map (·.id), img.Holds e.id ∧ (e = p ∨ TransGen img.OwnedBy p e) := by
  induction hp with
  | root =>
    intro d hd _
    exact ⟨[], .root hd, List.nodup_nil, fun _ he => absurd he List.not_mem_nil⟩
  | @owned p q hq hrooted ih =>
    intro d hd hgenuine
    subst hd
    by_cases hroot : d.id = .root
    · exact ⟨[], .root hroot, List.nodup_nil, fun _ he => absurd he List.not_mem_nil⟩
    · have hstep : img.OwnedBy d.id q := ⟨hroot, hq⟩
      rw [hgenuine.parentOf?] at hq
      rcases hgenuine.parent hsafe with ⟨_, hnone⟩ | ⟨_, e, he, hegenuine, hparent, _⟩
      · rw [Image.parentOf, hq] at hnone
        obtain ⟨_, _, h⟩ := bind_eq_ok_iff.mp hnone
        cases h
      · have hid : e.id = q := Option.some.inj (hparent.symm.trans hq)
        obtain ⟨ds, hchain, hnodup, hds⟩ := ih e hid hegenuine
        have hloop := (hrooted.owned hstep.2).not_transGen
        refine ⟨d :: ds, .cons hroot he hchain, ?_, ?_⟩
        · refine List.nodup_cons.mpr ⟨fun hmem => ?_, hnodup⟩
          rcases (hds _ hmem).2 with heq | hreach
          · have hq : q = d.id := heq.symm
            exact hloop (TransGen.single (hq ▸ hstep))
          · exact hloop (TransGen.head hstep hreach)
        · intro f hf
          rcases List.mem_cons.mp hf with rfl | hf
          · exact ⟨holds_of_parentOf? hroot hstep.2, Or.inl rfl⟩
          · refine ⟨(hds f hf).1, Or.inr ?_⟩
            rcases (hds f hf).2 with rfl | hreach
            · exact TransGen.single hstep
            · exact TransGen.head hstep hreach

theorem Genuine.rooted (hsafe : img.Safe) {d : DeclRef} (h : img.Genuine d.ref) :
    img.Rooted d.id := by
  by_cases hroot : d.id = .root
  · exact hroot ▸ .root
  · have hrecord := (ref_eq_ok_iff.mp h).2
    rw [record?_of_ne_root img (show d.ref.id.decl ≠ .root from hroot)] at hrecord
    have hlt : d.ref.id.index < (img.arena (.decl d.kind)).size := holds_of_getElem? hrecord
    have hrooted := hsafe.wellFormed.rooted d.kind d.ref.id.index hlt
    rw [show UInt32.ofNat d.ref.id.index = d.ref.id.raw from d.ref.id.raw.ofNat_toNat] at hrooted
    exact hrooted

/-- The scopes of a genuine declaration are not more than there are records. -/
theorem Genuine.ownerChain (hsafe : img.Safe) {d : DeclRef} (h : img.Genuine d.ref) :
    ∃ next ds, img.parentOf d.ref = .ok next ∧ img.OwnerChain next ds ∧
      ds.length ≤ img.recordCount := by
  rcases h.parent hsafe with ⟨_, hnone⟩ | ⟨_, p, hp, hgenuine, _, _⟩
  · exact ⟨none, [], hnone, .nil, Nat.zero_le _⟩
  · obtain ⟨ds, hchain, hnodup, hds⟩ :=
      ownerChain_of_rooted hsafe (hgenuine.rooted hsafe) p rfl hgenuine
    refine ⟨some p, ds, hp, hchain, ?_⟩
    have hsize := size_le_of_nodup hnodup fun e he => (hds e (Array.mem_toList_iff.mpr he)).1
    simpa using hsize

theorem OwnerChain.scopesOf {d : DeclRef} {next : Option DeclRef} {ds : List DeclRef}
    (hnext : img.parentOf d.ref = .ok next) (h : img.OwnerChain next ds)
    (hlen : ds.length ≤ img.recordCount) : img.scopesOf d = .ok ds := by
  rw [Image.scopesOf, hnext]
  show img.enclosing img.recordCount next = _
  rw [h.enclosing, List.take_of_length_le hlen]

end Image
end TypeAtlas
