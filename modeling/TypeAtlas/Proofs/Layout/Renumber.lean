/-
Records in their new places.

Laying a draft out moves every record, and sends every reference to where the
record it names has gone.  Member lists and flags are filled in afterwards and
touch neither headers nor links.
-/
import TypeAtlas.Proofs.Draft.Sound
import TypeAtlas.Proofs.Layout.Order

namespace TypeAtlas

/-! ## Bodies -/

namespace Body

variable {a : Arena}

/-- What is renamed in a body are its links, one by one. -/
theorem links_mapLinks (f : {k : DeclKind} → Id (.decl k) → Id (.decl k)) (body : Body a) :
    (body.mapLinks f).links = body.links.map fun e => (f e.id).decl := by
  cases a with
  | attributes => rfl
  | decl k =>
    cases k with
    | field =>
      show (Option.map _ (FieldBody.type body)).toList.map _ = List.map _ (List.map _ _)
      cases FieldBody.type body <;> rfl
    | templateType =>
      show List.filterMap _ (Vector.map _ (TemplateTypeBody.types body)).toList = _
      rw [Vector.toList_map, List.filterMap_map]
      show _ = List.map _ (List.filterMap _ _)
      rw [List.map_filterMap]
      refine congrArg (List.filterMap · _) (funext fun slot => ?_)
      cases slot <;> rfl
    | classType =>
      show (Option.map _ (ClassBody.base body)).toList.map _
          ++ (Option.map _ (ClassBody.constructor body)).toList.map _
          ++ (Option.map _ (ClassBody.destructor body)).toList.map _ =
        List.map _ (List.map _ _ ++ List.map _ _ ++ List.map _ _)
      rw [List.map_append, List.map_append]
      cases ClassBody.base body <;> cases ClassBody.constructor body <;>
        cases ClassBody.destructor body <;> rfl
    | _ => rfl

theorem links_withFlags (flags : FlagBits) (body : Body a) :
    (body.withFlags flags).links = body.links := by
  rcases a with k | _
  · cases k <;> rfl
  · rfl

theorem links_withMembers (f : (b : Arena) → IdList b) (body : Body a) :
    (body.withMembers f).links = body.links := by
  rcases a with k | _
  · cases k <;> rfl
  · rfl

theorem members_withFlags (flags : FlagBits) (body : Body a) (b : Arena) :
    (body.withFlags flags).members b = body.members b := by
  cases a with
  | attributes => rfl
  | decl k =>
    cases b with
    | attributes => cases k <;> rfl
    | decl j => cases k <;> cases j <;> rfl

theorem flags_withFlags (flags : FlagBits) {k : DeclKind} (hk : k.isAttributed = true)
    (body : Body (.decl k)) : (body.withFlags flags).flags = flags := by
  cases k <;> first | rfl | cases hk

theorem members_withMembers {k : DeclKind} (f : (b : Arena) → IdList b) (body : Body (.decl k))
    {b : Arena} (hb : b ∈ k.memberArenas) : (body.withMembers f).members b = f b := by
  cases b with
  | attributes => cases k <;> first | rfl | exact absurd hb (by decide)
  | decl j => cases k <;> cases j <;> first | rfl | exact absurd hb (by decide)

end Body

namespace Record

variable {a : Arena}

theorem returnField?_withFlags (flags : FlagBits) (r : Record a) :
    ({ r with body := r.body.withFlags flags } : Record a).returnField? = r.returnField? := by
  rcases a with k | _
  · cases k <;> rfl
  · rfl

theorem returnField?_withMembers (f : (b : Arena) → IdList b) (r : Record a) :
    ({ r with body := r.body.withMembers f } : Record a).returnField? = r.returnField? := by
  rcases a with k | _
  · cases k <;> rfl
  · rfl

end Record

namespace Renumbering

variable {a : Arena} (t : Renumbering)

theorem links_applyRecord (r : Record a) : (t.applyRecord r).links = r.links.map t.applyDecl :=
  Body.links_mapLinks t.apply r.body

theorem returnField?_applyRecord (r : Record a) :
    (t.applyRecord r).returnField? = r.returnField?.map t.apply := by
  rcases a with k | _
  · cases k <;> rfl
  · rfl

theorem expectedKind_applyRecord (r : Record a) :
    (t.applyRecord r).expectedKind = r.expectedKind := by
  rcases a with k | _
  · cases k <;> rfl
  · rfl

end Renumbering

namespace Draft

variable {d : Draft} {a : Arena}

/-! ## New positions -/

theorem positions_getElem? {i : Nat} (h : i < (d.arena a).size) :
    (d.positions a)[i]? = some (d.place a i) := by
  rw [positions, Array.getElem?_ofFn, dif_pos h]
  rfl

theorem apply_of_holds {k : DeclKind} {id : Id (.decl k)} (hroot : id.decl ≠ .root)
    (h : d.raw.Holds id) : d.renumbering.apply id = .ofIndex (d.place (.decl k) id.index) := by
  have hne : id.decl.isRoot = false := by
    rw [Bool.eq_false_iff]
    exact fun e => hroot (Image.isRoot_iff.mp e)
  have hget : (d.renumbering.get (.decl k))[id.index]? = some (d.place (.decl k) id.index) := by
    rw [renumbering, PerArena.get_ofFn]
    exact positions_getElem? h
  rw [Renumbering.apply, hne, hget]
  rfl

theorem apply_of_not_holds {k : DeclKind} {id : Id (.decl k)} (hroot : id.decl ≠ .root)
    (h : ¬ id.index < (d.arena (.decl k)).size) : d.renumbering.apply id = id := by
  have hnone : (d.renumbering.get (.decl k))[id.index]? = none := by
    rw [renumbering, PerArena.get_ofFn, positions, Array.getElem?_ofFn, dif_neg h]
  rw [Renumbering.apply, if_neg fun heq => hroot (Image.isRoot_iff.mp heq), hnone]

theorem index_apply (hnum : d.Numbered) {k : DeclKind} {id : Id (.decl k)}
    (hroot : id.decl ≠ .root) (h : d.raw.Holds id) :
    (d.renumbering.apply id).index = d.place (.decl k) id.index := by
  rw [apply_of_holds hroot h]
  exact Id.index_ofIndex (Nat.lt_of_lt_of_le (place_lt h) (hnum _))

theorem apply_injective (haddr : d.raw.Addressable) {k : DeclKind} {id id' : Id (.decl k)}
    (h : d.raw.Holds id) (h' : d.raw.Holds id')
    (heq : d.renumbering.apply id = d.renumbering.apply id') : id = id' := by
  have hnum := numbered_of_addressable haddr
  have hindex := congrArg Id.index heq
  rw [index_apply hnum (Image.ne_root_of_holds haddr (d := id.decl) h) h,
    index_apply hnum (Image.ne_root_of_holds haddr (d := id'.decl) h') h'] at hindex
  exact Id.eq_of_index_eq (place_injective h h' hindex)

/-! ## Records in place -/

theorem renumbered_get (d : Draft) (a : Arena) :
    d.renumbered.get a =
      ((d.sorted a).map fun entry => d.renumbering.applyRecord entry.1).toArray := by
  rw [renumbered, PerArena.get_ofFn]

theorem size_renumbered (d : Draft) (a : Arena) : (d.renumbered.get a).size = (d.arena a).size := by
  rw [renumbered_get, List.size_toArray, List.length_map, length_sorted]

theorem renumbered_getElem?_place {i : Nat} {r : Record a} (h : (d.arena a)[i]? = some r) :
    (d.renumbered.get a)[d.place a i]? = some (d.renumbering.applyRecord r) := by
  rw [renumbered_get, List.getElem?_toArray, List.getElem?_map, sorted_getElem?_place h]
  rfl

theorem exists_of_renumbered {j : Nat} {s : Record a} (h : (d.renumbered.get a)[j]? = some s) :
    ∃ i r, (d.arena a)[i]? = some r ∧ d.place a i = j ∧ s = d.renumbering.applyRecord r := by
  have hj := (Array.getElem?_eq_some_iff.mp h).1
  rw [size_renumbered] at hj
  obtain ⟨i, hi, rfl⟩ := exists_place hj
  have hr := Array.getElem?_eq_getElem hi
  refine ⟨i, _, hr, rfl, ?_⟩
  rw [renumbered_getElem?_place hr] at h
  exact (Option.some.inj h).symm

theorem renumbered_sorted (d : Draft) (a : Arena) :
    ((d.renumbered.get a).toList.map (·.hash)).Pairwise (· ≤ ·) := by
  rw [renumbered_get, List.map_map, List.pairwise_map]
  refine (d.sorted_pairwise a).imp fun h => ?_
  rcases h with hlt | ⟨heq, _⟩
  · exact UInt32.le_of_lt hlt
  · exact UInt32.le_of_eq heq

end Draft

/-! ## Completed records -/

namespace Records

variable {a : Arena}

/-- A record with the member lists and flags of its place. -/
def finish (rs : Records) (t : Spans) : {a : Arena} → Nat → Record a → Record a
  | .attributes, _, r => r
  | .decl k, j, r =>
    let owner : DeclId := ⟨k, .ofNat j⟩
    { r with body := Body.withFlags (rs.flagsOf owner) (Body.withMembers (t.of owner) r.body) }

theorem complete_getElem? (rs : Records) (t : Spans) (a : Arena) (j : Nat) :
    (rs.complete t a)[j]? = ((rs.get a)[j]?).map (rs.finish t j) := by
  cases a with
  | attributes =>
    show rs.attributes[j]? = (rs.attributes[j]?).map id
    rw [Option.map_id]
    rfl
  | decl k =>
    rw [complete, Array.getElem?_mapIdx]
    rfl

variable (rs : Records) (t : Spans) (j : Nat)

@[simp] theorem header_finish (r : Record a) : (rs.finish t j r).header = r.header := by
  cases a <;> rfl

@[simp] theorem links_finish (r : Record a) : (rs.finish t j r).links = r.links := by
  cases a with
  | attributes => rfl
  | decl k => exact (Body.links_withFlags _ _).trans (Body.links_withMembers _ _)

@[simp] theorem returnField?_finish (r : Record a) :
    (rs.finish t j r).returnField? = r.returnField? := by
  cases a with
  | attributes => rfl
  | decl k =>
    exact (Record.returnField?_withFlags _ _).trans (Record.returnField?_withMembers _ _)

@[simp] theorem expectedKind_finish (r : Record a) :
    (rs.finish t j r).expectedKind = r.expectedKind := by
  cases a <;> rfl

theorem members_finish {k : DeclKind} (r : Record (.decl k)) {b : Arena}
    (hb : b ∈ k.memberArenas) : (rs.finish t j r).members b = t.of ⟨k, .ofNat j⟩ b :=
  (Body.members_withFlags _ _ _).trans (Body.members_withMembers _ _ hb)

theorem flags_finish {k : DeclKind} (hk : k.isAttributed = true)
    (r : Record (.decl k)) : (rs.finish t j r).flags = rs.flagsOf ⟨k, .ofNat j⟩ :=
  Body.flags_withFlags _ hk _

end Records
end TypeAtlas
