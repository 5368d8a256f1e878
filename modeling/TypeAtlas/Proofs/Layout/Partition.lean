/-
The lists over an arena partition it.

Laying the lists of the owners one after another leaves no position of the pool out and
takes none twice.  A list holds the records that its owner lists, in the order of their
arena, so where a record is found depends on nothing but who lists it.
-/
import TypeAtlas.Proofs.Layout.Lists

namespace TypeAtlas
namespace Records

variable {rs : Records} {b : Arena}

/-! ## Owners -/

theorem memberArenas_of_owners {k : DeclKind} {b : Arena} (h : k ∈ b.owners) :
    b ∈ k.memberArenas := by
  have hall : ∀ k ∈ b.owners, b ∈ k.memberArenas := by
    cases b with
    | attributes => decide
    | decl j => cases j <;> decide
  exact hall k h

theorem mem_ownersOf_iff (hsizes : ∀ a, (rs.get a).size < UInt32.size) {owner : DeclId} :
    owner ∈ rs.ownersOf b ↔ owner.kind ∈ b.owners ∧
      (owner = .root ∨ owner.index < (rs.get (.decl owner.kind)).size) := by
  constructor
  · intro hmem
    obtain ⟨k, hk, hmem⟩ := List.mem_flatMap.mp hmem
    rcases List.mem_append.mp hmem with h | h
    · obtain ⟨i, hi, rfl⟩ := List.mem_map.mp h
      have hi := List.mem_range.mp hi
      refine ⟨hk, Or.inr ?_⟩
      show (UInt32.ofNat i).toNat < _
      rwa [UInt32.toNat_ofNat_of_lt' (Nat.lt_trans hi (hsizes _))]
    · by_cases hroot : k = .nameSpace
      · rw [if_pos hroot, List.mem_singleton] at h
        subst hroot
        exact ⟨h ▸ hk, Or.inl h⟩
      · rw [if_neg hroot] at h
        exact absurd h List.not_mem_nil
  · intro h
    exact rs.mem_ownersOf h.1 h.2

/-! ## Positions of the pool -/

section spansFrom

variable {start : Nat} {m : DeclId × List (Id b)} {ms : List (DeclId × List (Id b))}

/-- Laid out from a position on, lists end below the largest that can be stated. -/
def FitsFrom (start : Nat) (ms : List (DeclId × List (Id b))) : Prop :=
  start + (ms.flatMap (·.2)).length < UInt32.size

theorem FitsFrom.tail (h : FitsFrom start (m :: ms)) : FitsFrom (start + m.2.length) ms := by
  unfold FitsFrom at *
  rw [List.flatMap_cons, List.length_append] at h
  omega

theorem FitsFrom.head (h : FitsFrom start (m :: ms)) {l : IdList b}
    (hl : l = ⟨.ofNat start, .ofNat m.2.length⟩) :
    l.start.toNat = start ∧ l.stop = start + m.2.length := by
  unfold FitsFrom at h
  rw [List.flatMap_cons, List.length_append] at h
  have hstart : (UInt32.ofNat start).toNat = start := UInt32.toNat_ofNat_of_lt' (by omega)
  have hlen : (UInt32.ofNat m.2.length).toNat = m.2.length := UInt32.toNat_ofNat_of_lt' (by omega)
  rw [hl, IdList.stop, hstart, hlen]
  exact ⟨rfl, rfl⟩

theorem le_start_of_mem (h : FitsFrom start ms) {span : DeclId × IdList b}
    (hspan : span ∈ spansFrom start ms) : start ≤ span.2.start.toNat := by
  induction ms generalizing start with
  | nil => exact absurd hspan List.not_mem_nil
  | cons m ms ih =>
    rcases List.mem_cons.mp hspan with rfl | hspan
    · exact Nat.le_of_eq (h.head rfl).1.symm
    · have hrest := ih h.tail hspan
      omega

/-- No list reaches into one that is laid after it. -/
theorem spansFrom_pairwise (h : FitsFrom start ms) :
    (spansFrom start ms).Pairwise fun x y => x.2.stop ≤ y.2.start.toNat := by
  induction ms generalizing start with
  | nil => exact .nil
  | cons m ms ih =>
    refine .cons (fun span hspan => ?_) (ih h.tail)
    rw [(h.head rfl).2]
    exact le_start_of_mem h.tail hspan

/-- Every position up to the end of the last list lies in one of them. -/
theorem exists_spansFrom_at (h : FitsFrom start ms) {i : Nat} (hi : start ≤ i)
    (hend : i < start + (ms.flatMap (·.2)).length) :
    ∃ span ∈ spansFrom start ms, span.2.start.toNat ≤ i ∧ i < span.2.stop := by
  induction ms generalizing start with
  | nil => exact absurd hend (Nat.not_lt.mpr hi)
  | cons m ms ih =>
    obtain ⟨hstart, hstop⟩ := h.head rfl
    by_cases hfirst : i < start + m.2.length
    · exact ⟨_, List.mem_cons_self, by rw [hstart]; exact hi, by rw [hstop]; exact hfirst⟩
    · rw [List.flatMap_cons, List.length_append, ← Nat.add_assoc] at hend
      obtain ⟨span, hspan, hat⟩ := ih h.tail (Nat.le_of_not_lt hfirst) hend
      exact ⟨span, List.mem_cons_of_mem _ hspan, hat⟩

theorem map_fst_spansFrom (start : Nat) (ms : List (DeclId × List (Id b))) :
    (spansFrom start ms).map (·.1) = ms.map (·.1) := by
  induction ms generalizing start with
  | nil => rfl
  | cons m ms ih => exact congrArg (m.1 :: ·) (ih (start + m.2.length))

end spansFrom

/-! ## Lists of owners -/

theorem lookup_of_mem {α β : Type} [BEq α] [LawfulBEq α] {xs : List (α × β)} {x : α} {y : β}
    (hnodup : (xs.map (·.1)).Nodup) (h : (x, y) ∈ xs) : xs.lookup x = some y := by
  obtain ⟨before, after, rfl⟩ := List.append_of_mem h
  refine List.lookup_eq_some_iff.mpr ⟨before, after, rfl, fun entry hentry => ?_⟩
  rw [List.map_append, List.map_cons, List.nodup_middle, List.nodup_cons] at hnodup
  refine bne_iff_ne.mpr fun heq => hnodup.1 (List.mem_append_left _ ?_)
  exact List.mem_map.mpr ⟨entry, hentry, heq.symm⟩

theorem map_fst_spans : (rs.spans.get b).map (·.1) = rs.ownersOf b := by
  rw [spans, PerArena.get_ofFn, map_fst_spansFrom, memberships_eq, List.map_map]
  exact List.map_id _

theorem mem_spans_iff (hnodup : (rs.ownersOf b).Nodup) {owner : DeclId} {l : IdList b} :
    (owner, l) ∈ rs.spans.get b ↔ owner ∈ rs.ownersOf b ∧ l = rs.spans.of owner b := by
  rw [← map_fst_spans] at hnodup ⊢
  constructor
  · intro h
    refine ⟨List.mem_map_of_mem h, ?_⟩
    rw [Spans.of, lookup_of_mem hnodup h]
    rfl
  · intro h
    obtain ⟨howner, rfl⟩ := h
    obtain ⟨⟨_, l⟩, hspan, rfl⟩ := List.mem_map.mp howner
    rw [Spans.of, lookup_of_mem hnodup hspan]
    exact hspan

variable (hsizes : ∀ a, (rs.get a).size < UInt32.size)
include hsizes

theorem fitsFrom_memberships : FitsFrom 0 (rs.memberships b) := by
  have hpool := rs.length_pool_le (fun k => hsizes _) b
  rw [pool, List.size_toArray] at hpool
  rw [FitsFrom, Nat.zero_add]
  exact Nat.lt_of_le_of_lt hpool (hsizes b)

theorem spans_apart {owner other : DeclId} (howner : owner ∈ rs.ownersOf b)
    (hother : other ∈ rs.ownersOf b) (hne : owner ≠ other) :
    (rs.spans.of owner b).stop ≤ (rs.spans.of other b).start.toNat ∨
      (rs.spans.of other b).stop ≤ (rs.spans.of owner b).start.toNat := by
  have hnodup := rs.nodup_ownersOf (fun k => hsizes _) (b := b)
  have hmem := (mem_spans_iff hnodup).mpr ⟨howner, rfl⟩
  have hmem' := (mem_spans_iff hnodup).mpr ⟨hother, rfl⟩
  have hpairwise : (rs.spans.get b).Pairwise fun x y => x.2.stop ≤ y.2.start.toNat := by
    rw [spans, PerArena.get_ofFn]
    exact spansFrom_pairwise (fitsFrom_memberships hsizes)
  obtain ⟨i, hi, hat⟩ := List.getElem_of_mem hmem
  obtain ⟨j, hj, hat'⟩ := List.getElem_of_mem hmem'
  rw [List.pairwise_iff_getElem] at hpairwise
  rcases Nat.lt_trichotomy i j with hlt | heq | hgt
  · have hleft := hpairwise i j hi hj hlt
    rw [hat, hat'] at hleft
    exact Or.inl hleft
  · subst heq
    exact absurd (congrArg Prod.fst (hat.symm.trans hat')) hne
  · have hright := hpairwise j i hj hi hgt
    rw [hat, hat'] at hright
    exact Or.inr hright

/-- No position of the pool is left out. -/
theorem exists_span_at {i : Nat} (hi : i < (rs.pool b).size) :
    ∃ owner ∈ rs.ownersOf b, (rs.spans.of owner b).start.toNat ≤ i ∧
      i < (rs.spans.of owner b).stop := by
  have hnodup := rs.nodup_ownersOf (fun k => hsizes _) (b := b)
  rw [pool, List.size_toArray] at hi
  obtain ⟨⟨owner, l⟩, hspan, hat⟩ := exists_spansFrom_at (fitsFrom_memberships hsizes)
    (Nat.zero_le i) (by rwa [Nat.zero_add])
  have hspans : (owner, l) ∈ rs.spans.get b := by
    rw [spans, PerArena.get_ofFn]
    exact hspan
  obtain ⟨howner, rfl⟩ := (mem_spans_iff hnodup).mp hspans
  exact ⟨owner, howner, hat⟩

omit hsizes

/-! ## Who lists a record -/

theorem map_fst_listers : (rs.listers b).map (·.1) = (List.range (rs.get b).size).map .ofIndex := by
  have hindices : (rs.get b).toList.zipIdx.map (·.2) = List.range (rs.get b).size := by
    rw [List.zipIdx_map_snd, Array.length_toList, List.range_eq_range']
  rw [← hindices, listers, List.map_map, List.map_map]
  rfl

/-- A list goes by positions in the arena. -/
theorem listedBy_ascending (hsize : (rs.get b).size < UInt32.size) (owner : DeclId) :
    (rs.listedBy b owner).Pairwise fun x y => x.index < y.index := by
  have hall : ((rs.listers b).map (·.1)).Pairwise fun x y => x.index < y.index := by
    rw [map_fst_listers, List.pairwise_map]
    refine List.pairwise_lt_range.imp_of_mem fun {i j} hi hj hlt => ?_
    have hi := Nat.lt_trans (List.mem_range.mp hi) hsize
    have hj := Nat.lt_trans (List.mem_range.mp hj) hsize
    rwa [Id.index_ofIndex hi, Id.index_ofIndex hj]
  exact hall.sublist (List.filter_sublist.map _)

theorem mem_listedBy_of_lister {owner : DeclId} {j : Nat} {r : Record b}
    (hr : (rs.get b)[j]? = some r) (h : rs.lister (.ofIndex j) r = some owner) :
    .ofIndex j ∈ rs.listedBy b owner := by
  refine List.mem_map.mpr ⟨(.ofIndex j, some owner), List.mem_filter.mpr ⟨?_, ?_⟩, rfl⟩
  · refine List.mem_map.mpr ⟨(r, j), ?_, by rw [h]⟩
    rw [List.mem_zipIdx_iff_getElem?, Array.getElem?_toList]
    exact hr
  · exact beq_self_eq_true _

/-- A field that its parent does not list is the return value of a function. -/
theorem exists_returnField_of_isReturn {id : Id .fields} {r : Record .fields}
    (h : rs.isReturn id r = true) :
    ∃ function ∈ rs.get .functions, function.returnField? = some id := by
  unfold isReturn at h
  split at h
  · cases h
  · next f hf =>
    split at h
    · cases h
    · next function hfunction =>
      exact ⟨function, Array.mem_of_getElem? hfunction, beq_iff_eq.mp h⟩

end Records
end TypeAtlas
