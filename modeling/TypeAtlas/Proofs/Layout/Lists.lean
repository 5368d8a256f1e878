/-
Member lists and their pools.

The pool of an arena is cut into the lists of its possible owners, one after
another.  Every record is listed by at most one owner and no owner occurs twice,
so a pool is no longer than its arena, and positions in it fit in 32 bits.
-/
import Mathlib.Data.List.Nodup
import TypeAtlas.Proofs.Validity.WellFormed
import TypeAtlas.Draft.Layout

namespace TypeAtlas
namespace Records

variable (rs : Records) {b : Arena}

/-- The members that an owner lists, in the order of their arena. -/
def listedBy (b : Arena) (owner : DeclId) : List (Id b) :=
  ((rs.listers b).filter fun entry => entry.2 == some owner).map (·.1)

theorem memberships_eq : rs.memberships b = (rs.ownersOf b).map fun o => (o, rs.listedBy b o) := rfl

/-! ## Cutting the pool -/

theorem lookup_map_of_mem {α β : Type} [BEq α] [LawfulBEq α] (f : α → β) {xs : List α} {x : α}
    (h : x ∈ xs) : (xs.map fun y => (y, f y)).lookup x = some (f x) := by
  induction xs with
  | nil => exact absurd h List.not_mem_nil
  | cons y xs ih =>
    rw [List.map_cons, List.lookup_cons]
    by_cases hxy : x = y
    · rw [hxy, beq_self_eq_true]
    · rw [beq_false_of_ne hxy]
      exact ih ((List.mem_cons.mp h).resolve_left hxy)

/-- The list of an owner starts where those before it end. -/
theorem lookup_spansFrom {ms : List (DeclId × List (Id b))} {owner : DeclId} {ids : List (Id b)}
    (h : ms.lookup owner = some ids) (start : Nat) :
    ∃ before after, ms.flatMap (·.2) = before ++ ids ++ after ∧
      (spansFrom start ms).lookup owner =
        some ⟨.ofNat (start + before.length), .ofNat ids.length⟩ := by
  induction ms generalizing start with
  | nil => cases h
  | cons m ms ih =>
    obtain ⟨o, own⟩ := m
    rw [List.lookup_cons] at h
    rw [List.flatMap_cons, spansFrom, List.lookup_cons]
    cases hoo : owner == o with
    | true =>
      rw [hoo] at h
      obtain rfl := Option.some.inj h
      exact ⟨[], ms.flatMap (·.2), rfl, rfl⟩
    | false =>
      rw [hoo] at h
      obtain ⟨before, after, hflat, hspan⟩ := ih h (start + own.length)
      refine ⟨own ++ before, after, ?_, ?_⟩
      · rw [hflat]
        simp only [List.append_assoc]
      · show (spansFrom (start + own.length) ms).lookup owner = _
        rw [hspan, List.length_append, Nat.add_assoc]

/-! ## Owners -/

theorem mem_ownersOf {owner : DeclId} (hk : owner.kind ∈ b.owners)
    (h : owner = .root ∨ owner.index < (rs.get (.decl owner.kind)).size) :
    owner ∈ rs.ownersOf b := by
  refine List.mem_flatMap.mpr ⟨owner.kind, hk, ?_⟩
  rw [List.mem_append]
  rcases h with rfl | h
  · exact Or.inr List.mem_cons_self
  · refine Or.inl (List.mem_map.mpr ⟨owner.index, List.mem_range.mpr h, ?_⟩)
    exact congrArg (DeclId.mk owner.kind) owner.raw.ofNat_toNat

/-- The owners of one kind. -/
def ownersOfKind (k : DeclKind) : List DeclId :=
  (List.range (rs.get (.decl k)).size).map (fun i => ⟨k, .ofNat i⟩)
    ++ if k = .nameSpace then [.root] else []

theorem kind_of_mem_ownersOfKind {k : DeclKind} {owner : DeclId}
    (h : owner ∈ rs.ownersOfKind k) : owner.kind = k := by
  rcases List.mem_append.mp h with h | h
  · obtain ⟨i, _, rfl⟩ := List.mem_map.mp h
    rfl
  · by_cases hk : k = .nameSpace
    · rw [if_pos hk] at h
      rw [List.mem_singleton.mp h, hk]
      rfl
    · rw [if_neg hk] at h
      exact absurd h List.not_mem_nil

theorem nodup_ownersOfKind {k : DeclKind} (hsize : (rs.get (.decl k)).size < UInt32.size) :
    (rs.ownersOfKind k).Nodup := by
  have hraw {i : Nat} (hi : i < (rs.get (.decl k)).size) : (UInt32.ofNat i).toNat = i :=
    UInt32.toNat_ofNat_of_lt' (Nat.lt_trans hi hsize)
  rw [ownersOfKind, List.nodup_append]
  refine ⟨?_, ?_, ?_⟩
  · refine List.Nodup.map_on (fun i hi j hj h => ?_) List.nodup_range
    have hij := congrArg UInt32.toNat (DeclId.mk.inj h).2
    rwa [hraw (List.mem_range.mp hi), hraw (List.mem_range.mp hj)] at hij
  · split
    · exact List.nodup_singleton _
    · exact List.nodup_nil
  · intro o ho p hp heq
    obtain ⟨i, hi, rfl⟩ := List.mem_map.mp ho
    have hi := List.mem_range.mp hi
    by_cases hk : k = .nameSpace
    · rw [if_pos hk] at hp
      rw [List.mem_singleton.mp hp] at heq
      have hroot : (UInt32.ofNat i).toNat = 4294967295 := congrArg (fun d => d.raw.toNat) heq
      rw [hraw hi] at hroot
      simp only [UInt32.size] at hsize
      omega
    · rw [if_neg hk] at hp
      exact absurd hp List.not_mem_nil

theorem owners_of_memberArenas {k : DeclKind} {b : Arena} (h : b ∈ k.memberArenas) :
    k ∈ b.owners := by
  have hall : ∀ b ∈ k.memberArenas, k ∈ b.owners := by
    cases k <;> decide
  exact hall b h

theorem nodup_owners (b : Arena) : b.owners.Nodup := by
  cases b with
  | attributes => decide
  | decl k => cases k <;> decide

theorem nodup_ownersOf (hsizes : ∀ k, (rs.get (.decl k)).size < UInt32.size) :
    (rs.ownersOf b).Nodup := by
  refine List.nodup_flatMap.mpr ⟨fun k _ => rs.nodup_ownersOfKind (hsizes k), ?_⟩
  refine (nodup_owners b).imp fun {k j} hkj => ?_
  intro o hk hj
  exact hkj ((rs.kind_of_mem_ownersOfKind hk).symm.trans (rs.kind_of_mem_ownersOfKind hj))

/-! ## Size of the pool -/

/-- What distinct owners pick from a list is not more than there is. -/
theorem length_flatMap_filter_le {α β : Type} [BEq β] [LawfulBEq β] (key : α → Option β)
    {owners : List β} (h : owners.Nodup) (xs : List α) :
    (owners.flatMap fun o => xs.filter fun x => key x == some o).length ≤ xs.length := by
  induction owners generalizing xs with
  | nil => exact Nat.zero_le _
  | cons o owners ih =>
    -- What the others pick is picked from what the first one leaves.
    have hothers : ∀ p ∈ owners, (xs.filter fun x => key x == some p) =
        (xs.filter fun x => !(key x == some o)).filter fun x => key x == some p := by
      intro p hp
      rw [List.filter_filter]
      refine List.filter_congr fun x _ => ?_
      have hne : p ≠ o := fun e => (List.nodup_cons.mp h).1 (e ▸ hp)
      cases hk : key x == some p with
      | false => rfl
      | true =>
        have hkey : key x = some p := beq_iff_eq.mp hk
        simp [hkey, hne]
    rw [List.flatMap_cons, List.length_append, List.flatMap_congr hothers]
    have hrest := ih (List.nodup_cons.mp h).2 (xs.filter fun x => !(key x == some o))
    have hsplit := List.length_eq_length_filter_add (l := xs) fun x => key x == some o
    omega

theorem length_pool_le (hsizes : ∀ k, (rs.get (.decl k)).size < UInt32.size) (b : Arena) :
    (rs.pool b).size ≤ (rs.get b).size := by
  have h := length_flatMap_filter_le (fun entry : Id b × Option DeclId => entry.2)
    (rs.nodup_ownersOf hsizes (b := b)) (rs.listers b)
  rw [pool, List.size_toArray, memberships_eq, List.flatMap_map]
  simp only [listedBy, ← List.map_flatMap, List.length_map]
  refine Nat.le_trans h ?_
  simp [listers]

/-! ## Lists -/

/-- The list of an owner lies in the pool and holds the members it lists. -/
theorem span_of_owner (hsizes : ∀ a, (rs.get a).size < UInt32.size) {owner : DeclId}
    (howner : owner ∈ rs.ownersOf b) :
    (rs.spans.of owner b).stop ≤ (rs.pool b).size ∧
      ((rs.pool b).extract (rs.spans.of owner b).start.toNat (rs.spans.of owner b).stop).toList =
        rs.listedBy b owner := by
  have hlookup : (rs.memberships b).lookup owner = some (rs.listedBy b owner) := by
    rw [memberships_eq]
    exact lookup_map_of_mem _ howner
  obtain ⟨before, after, hflat, hspan⟩ := lookup_spansFrom hlookup 0
  have hof : rs.spans.of owner b =
      ⟨.ofNat before.length, .ofNat (rs.listedBy b owner).length⟩ := by
    rw [Spans.of, spans, PerArena.get_ofFn, hspan, Nat.zero_add]
    rfl
  have hpool : (rs.pool b).toList = before ++ rs.listedBy b owner ++ after := hflat
  have hsize : (rs.pool b).size = before.length + (rs.listedBy b owner).length + after.length := by
    rw [← Array.length_toList, hpool, List.length_append, List.length_append]
  have hlt := Nat.lt_of_le_of_lt (rs.length_pool_le (fun k => hsizes _) b) (hsizes b)
  have hstart : (UInt32.ofNat before.length).toNat = before.length :=
    UInt32.toNat_ofNat_of_lt' (by omega)
  have hlen : (UInt32.ofNat (rs.listedBy b owner).length).toNat = (rs.listedBy b owner).length :=
    UInt32.toNat_ofNat_of_lt' (by omega)
  rw [hof, IdList.stop, hstart, hlen]
  refine ⟨by omega, ?_⟩
  rw [Array.toList_extract, hpool, List.extract_eq_take_drop, List.append_assoc,
    List.drop_left, Nat.add_sub_cancel_left, List.take_left]

/-- A member is listed by the owner that its record says lists it. -/
theorem mem_listedBy {owner : DeclId} {id : Id b} (h : id ∈ rs.listedBy b owner) :
    ∃ (j : Nat) (r : Record b), (rs.get b)[j]? = some r ∧ id = .ofIndex j ∧
      rs.lister id r = some owner := by
  obtain ⟨entry, hentry, rfl⟩ := List.mem_map.mp h
  obtain ⟨hmem, howner⟩ := List.mem_filter.mp hentry
  obtain ⟨⟨r, j⟩, hrecord, rfl⟩ := List.mem_map.mp hmem
  refine ⟨j, r, ?_, rfl, beq_iff_eq.mp howner⟩
  simpa using List.mem_zipIdx_iff_getElem?.mp hrecord

/-- Only its owner lists a record. -/
theorem parent_of_lister {owner : DeclId} {id : Id b} {r : Record b}
    (h : rs.lister id r = some owner) : r.parent = some owner := by
  cases b with
  | attributes => exact h
  | decl k =>
    cases k with
    | field =>
      have h : (if rs.isReturn id r then none else r.parent) = some owner := h
      split at h
      · cases h
      · exact h
    | _ => exact h

theorem lister_of_returnField {f : DeclId} {function : Record .functions} {id : Id .fields}
    {r : Record .fields} (hparent : r.parent = some f) (hkind : f.kind = .function)
    (hfunction : (rs.get .functions)[f.index]? = some function)
    (hreturn : function.returnField? = some id) : rs.lister id r = none := by
  have howner : r.parent.bind (·.to? .function) = some ⟨f.raw⟩ := by
    rw [hparent, Option.bind_some, DeclId.to?, if_pos hkind]
  have hreturns : FunctionBody.returnField function.body = some id := hreturn
  have his : rs.isReturn id r = true := by
    have hget : rs.functions[(⟨f.raw⟩ : Id .functions).index]? = some function := hfunction
    rw [isReturn, howner]
    dsimp only
    rw [hget]
    exact beq_iff_eq.mpr hreturns
  show (if rs.isReturn id r then none else r.parent) = none
  rw [if_pos his]

theorem listedBy_hashes {owner : DeclId} {hash? : Id b → Option UInt32}
    (hhash : ∀ j r, (rs.get b)[j]? = some r → hash? (.ofIndex j) = some r.hash)
    (hsorted : ((rs.get b).toList.map (·.hash)).Pairwise (· ≤ ·)) :
    ((rs.listedBy b owner).filterMap hash?).Pairwise (· ≤ ·) := by
  refine List.Pairwise.sublist ?_ hsorted
  have hall : (rs.get b).toList.map (·.hash) =
      ((rs.listers b).map (·.1)).filterMap hash? := by
    have hentry : ∀ entry ∈ (rs.get b).toList.zipIdx,
        hash? (.ofIndex entry.2) = some entry.1.hash := by
      rintro ⟨r, j⟩ hmem
      exact hhash j r (by simpa using List.mem_zipIdx_iff_getElem?.mp hmem)
    rw [listers, List.map_map, List.filterMap_map]
    show _ = (rs.get b).toList.zipIdx.filterMap fun entry => hash? (.ofIndex entry.2)
    rw [List.filterMap_congr hentry, List.filterMap_eq_map']
    show _ = (rs.get b).toList.zipIdx.map ((fun r : Record b => r.hash) ∘ Prod.fst)
    rw [← List.map_map, List.zipIdx_map_fst]
  rw [hall]
  exact (List.filter_sublist.map _).filterMap _

end Records
end TypeAtlas
