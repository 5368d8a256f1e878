/-
Laying out a draft under contract.

`Draft.image` keeps an id that names nothing and drops a member whose owner has no
list.  `Draft.trustImage` breaks off there, and also where a position is too large
for an id, and reports a pool that has outgrown 32-bit positions.  On a sound draft
it does none of this and makes the same image.
-/
import TypeAtlas.Proofs.Draft.Step
import TypeAtlas.Proofs.Layout.Regular

namespace TypeAtlas

open Check (bind_eq_ok_iff mapM_eq_ok_map)
open Trusting

/-- One value for each arena, in their order, by a program for each. -/
def PerArena.ofFnM {F : Arena → Type} {m : Type → Type} [Monad m] (f : (a : Arena) → m (F a)) :
    m (PerArena F) := do
  let types ← f .types
  let enumConstants ← f .enumConstants
  let enums ← f .enums
  let fields ← f .fields
  let functions ← f .functions
  let templateTypes ← f .templateTypes
  let templates ← f .templates
  let classes ← f .classes
  let namespaces ← f .namespaces
  let attributes ← f .attributes
  return {
    types, enumConstants, enums, fields, functions, templateTypes, templates, classes, namespaces,
    attributes }

theorem PerArena.ofFnM_pure {F : Arena → Type} {m : Type → Type} [Monad m] [LawfulMonad m]
    {f : (a : Arena) → m (F a)} {g : (a : Arena) → F a} (h : ∀ a, f a = pure (g a)) :
    ofFnM f = pure (ofFn g) := by
  simp only [ofFnM, h, pure_bind]
  rfl

/-! ## References -/

namespace Renumbering

/-- The new id of a record that has to be in the table. -/
def trustId (t : Renumbering) {k : DeclKind} (id : Id (.decl k)) : Contract (Id (.decl k)) :=
  if id.decl.isRoot then .ok id
  else
    match (t.get (.decl k))[id.index]? with
    | some i => Id.ofIndexChecked i
    | none => .error (.arrayIndex id.index (t.get (.decl k)).size)

def trustType (t : Renumbering) (type : TypeId) : Contract TypeId := do
  let id ← t.trustId type.id
  return ⟨type.kind, id.raw⟩

def trustDecl (t : Renumbering) (e : DeclId) : Contract DeclId := do
  let id ← t.trustId e.id
  return id.decl

def trustBody (t : Renumbering) : {a : Arena} → Body a → Contract (Body a)
  | .fields, d => do
    let type ← (FieldBody.type d).mapM t.trustType
    return { (d : FieldBody) with type }
  | .functions, d => do
    let returnField ← (FunctionBody.returnField d).mapM fun id => t.trustId id
    return { (d : FunctionBody) with returnField }
  | .templateTypes, d => do
    let types ← (TemplateTypeBody.types d).mapM fun slot => slot.mapM t.trustType
    return { (d : TemplateTypeBody) with types }
  | .classes, c => do
    let base ← (ClassBody.base c).mapM fun id => t.trustId id
    let constructor ← (ClassBody.constructor c).mapM fun id => t.trustId id
    let destructor ← (ClassBody.destructor c).mapM fun id => t.trustId id
    return { (c : ClassBody) with base, constructor, destructor }
  | .types, b => .ok b
  | .enumConstants, b => .ok b
  | .enums, b => .ok b
  | .templates, b => .ok b
  | .namespaces, b => .ok b
  | .attributes, b => .ok b

def trustRecord (t : Renumbering) {a : Arena} (r : Record a) : Contract (Record a) := do
  let parent ← r.header.parent.mapM t.trustDecl
  let body ← t.trustBody r.body
  return ⟨{ r.header with parent }, body⟩

end Renumbering

/-! ## Member lists and flags -/

namespace Records

variable (rs : Records)

/-- An owner that has to lie in its arena, if it is one of the kinds that may own. -/
def trustOwner (kinds : List DeclKind) (owner : DeclId) : Contract Unit :=
  if owner.kind ∈ kinds ∧ ¬ owner.isRoot ∧ (rs.get owner.arena).size ≤ owner.index then
    .error (.arrayIndex owner.index (rs.get owner.arena).size)
  else .ok ()

def trustLister : {b : Arena} → Id b → Record b → Contract (Option DeclId)
  | .fields, id, r =>
    match r.parent.bind (·.to? .function) with
    | none => .ok r.parent
    | some f =>
      match rs.functions[f.index]? with
      | none => .error (.arrayIndex f.index rs.functions.size)
      | some function =>
        .ok (if FunctionBody.returnField function.body == some id then none else r.parent)
  | _, _, r => .ok r.parent

def trustListers (b : Arena) : Contract (List (Id b × Option DeclId)) :=
  (rs.get b).toList.zipIdx.mapM fun entry => do
    let id : Id b ← Id.ofIndexChecked entry.2
    let owner ← rs.trustLister id entry.1
    owner.forM (rs.trustOwner b.owners)
    return (id, owner)

/-- Lists one after another, in a pool that has to have 32-bit positions. -/
def trustSpans {b : Arena} (start : Nat) :
    List (DeclId × List (Id b)) → Except DraftFault (List (DeclId × IdList b))
  | [] => .ok []
  | (owner, ids) :: rest =>
    if start < UInt32.size ∧ ids.length < UInt32.size then do
      let spans ← trustSpans (start + ids.length) rest
      return (owner, ⟨.ofNat start, .ofNat ids.length⟩) :: spans
    else .error (.overflow "pooled ids")

/-- The lists of an arena and its pool. -/
def trustLists (b : Arena) : Trusting DraftFault (List (DeclId × IdList b) × Array (Id b)) := do
  let listers ← read (rs.trustListers b)
  let memberships := (rs.ownersOf b).map fun owner =>
    (owner, (listers.filter fun entry => entry.2 == some owner).map (·.1))
  let spans ← test (trustSpans 0 memberships)
  return (spans, (memberships.flatMap (·.2)).toArray)

/-- A flag goes to an owner that has to be there. -/
def trustFlags : Contract Unit :=
  rs.attributes.toList.forM fun r =>
    if r.flagBit = .none then .ok () else r.parent.forM (rs.trustOwner attributeOwners)

def trustTypes : Contract (List (UInt32 × TypeId)) := do
  let types ← TypeKind.all.mapM fun k =>
    (rs.get (.decl k.toDecl)).toList.zipIdx.mapM fun entry => do
      let id : Id (.decl k.toDecl) ← Id.ofIndexChecked entry.2
      return (entry.1.hash, (⟨k, id.raw⟩ : TypeId))
  return types.flatten

end Records

/-! ## The image -/

namespace Draft

variable (d : Draft)

def trustPositions (a : Arena) : Contract (Array Nat) := do
  let _ ← (List.range (d.arena a).size).mapM fun i => (Id.ofIndexChecked i : Contract (Id a))
  return d.positions a

def trustRecords (t : Renumbering) (a : Arena) : Contract (Array (Record a)) := do
  let records ← (d.sorted a).mapM fun entry => t.trustRecord entry.1
  return records.toArray

def trustImage : Trusting DraftFault Image := do
  let t : Renumbering ← read (PerArena.ofFnM d.trustPositions)
  let rs : Records ← read (PerArena.ofFnM (d.trustRecords t))
  let lists ← PerArena.ofFnM rs.trustLists
  let spans : Records.Spans := .ofFn fun b => (lists.get b).1
  read rs.trustFlags
  let types ← read rs.trustTypes
  return {
    profile := d.profile
    nameBlob := d.names.texts.blob
    textBlob := d.texts.blob
    names := d.nameIndex
    records := .ofFn (rs.complete spans)
    typeIndex := ((types.mergeSort fun x y => x.1 ≤ y.1).map (·.2)).toArray
    pools := .ofFn fun b => (lists.get b).2
    root := { Record.root with body := Body.withMembers (spans.of .root) (Record.root.body) } }

/-- Makes the image of a draft that is charged to nobody. -/
def buildTrusting : Trusting DraftFault Image := do
  let img ← d.trustImage
  img.validateTrusting.adapt .invalid
  return img

/-! ## No breach -/

section mapM

variable {ε α β : Type}

theorem option_mapM_eq_ok {x : Option α} {f : α → Except ε β} {g : α → β}
    (h : ∀ y, x = some y → f y = .ok (g y)) : x.mapM f = .ok (x.map g) := by
  cases x with
  | none => rfl
  | some y =>
    show (f y >>= fun z => pure (some z)) = _
    rw [h y rfl]
    rfl

theorem vector_mapM_eq_ok {n : Nat} {xs : Vector α n} {f : α → Except ε β} {g : α → β}
    (h : ∀ x ∈ xs.toList, f x = .ok (g x)) : xs.mapM f = .ok (xs.map g) := by
  have hlist : xs.toArray.toList.mapM f = .ok (xs.toArray.toList.map g) := mapM_eq_ok_map h
  have harray : xs.toArray.mapM f = .ok (xs.toArray.map g) := by
    rw [Array.mapM_eq_mapM_toList, hlist]
    show Except.ok (xs.toArray.toList.map g).toArray = _
    rw [← Array.toList_map, Array.toArray_toList]
  rw [← Vector.toArray_mapM] at harray
  cases hxs : xs.mapM f with
  | error e =>
    rw [hxs] at harray
    cases harray
  | ok ys =>
    rw [hxs] at harray
    exact congrArg Except.ok (Vector.toArray_inj.mp (Except.ok.inj harray))

end mapM

variable {d : Draft}

theorem trustId_eq (haddr : d.raw.Addressable) {k : DeclKind} {id : Id (.decl k)}
    (h : d.raw.Knows id.decl) : d.renumbering.trustId id = .ok (d.renumbering.apply id) := by
  by_cases hroot : id.decl = .root
  · have his : id.decl.isRoot = true := Image.isRoot_iff.mpr hroot
    rw [Renumbering.trustId, Renumbering.apply, if_pos his, if_pos his]
  · have his : id.decl.isRoot ≠ true := fun e => hroot (Image.isRoot_iff.mp e)
    have hholds : id.index < (d.arena (.decl k)).size := h.resolve_left hroot
    have hget : (d.renumbering.get (.decl k))[id.index]? = some (d.place (.decl k) id.index) := by
      rw [renumbering, PerArena.get_ofFn]
      exact positions_getElem? hholds
    rw [Renumbering.trustId, Renumbering.apply, if_neg his, if_neg his, hget]
    exact if_pos (Nat.lt_trans (place_lt hholds) (haddr _))

theorem trustType_eq (haddr : d.raw.Addressable) {type : TypeId} (h : d.raw.Holds type.decl.id) :
    d.renumbering.trustType type = .ok ⟨type.kind, (d.renumbering.apply type.id).raw⟩ := by
  have hid : d.renumbering.trustId type.id = .ok (d.renumbering.apply type.id) :=
    trustId_eq haddr (Or.inr h)
  rw [Renumbering.trustType, hid]
  rfl

theorem trustDecl_eq (haddr : d.raw.Addressable) {e : DeclId} (h : d.raw.Knows e) :
    d.renumbering.trustDecl e = .ok (d.renumbering.applyDecl e) := by
  have hid : d.renumbering.trustId e.id = .ok (d.renumbering.apply e.id) := trustId_eq haddr h
  rw [Renumbering.trustDecl, hid]
  rfl

theorem trustBody_eq (haddr : d.raw.Addressable) {a : Arena} {r : Record a}
    (hlinks : ∀ e ∈ r.links, d.raw.Holds e.id)
    (hreturn : ∀ id, r.returnField? = some id → d.raw.Holds id) :
    d.renumbering.trustBody r.body = .ok (Body.mapLinks d.renumbering.apply r.body) := by
  cases a with
  | attributes => rfl
  | decl k =>
    cases k with
    | field =>
      have htype : (FieldBody.type r.body).mapM d.renumbering.trustType = .ok
          ((FieldBody.type r.body).map fun t => ⟨t.kind, (d.renumbering.apply t.id).raw⟩) := by
        refine option_mapM_eq_ok fun t ht => trustType_eq haddr (hlinks _ ?_)
        exact FieldBody.mem_links.mpr ⟨t, ht, rfl⟩
      show ((FieldBody.type r.body).mapM d.renumbering.trustType >>= _) = _
      rw [htype]
      rfl
    | function =>
      have hfield : (FunctionBody.returnField r.body).mapM (fun id => d.renumbering.trustId id) =
          .ok ((FunctionBody.returnField r.body).map fun id => d.renumbering.apply id) :=
        option_mapM_eq_ok fun id hid => trustId_eq haddr (Or.inr (hreturn id hid))
      show ((FunctionBody.returnField r.body).mapM (fun id => d.renumbering.trustId id) >>= _) = _
      rw [hfield]
      rfl
    | templateType =>
      have htypes : (TemplateTypeBody.types r.body).mapM
          (fun slot => slot.mapM d.renumbering.trustType) = .ok ((TemplateTypeBody.types r.body).map
            fun slot => slot.map fun t => ⟨t.kind, (d.renumbering.apply t.id).raw⟩) := by
        refine vector_mapM_eq_ok fun slot hslot => option_mapM_eq_ok fun t ht => ?_
        obtain rfl := ht
        have hmem := Vector.mem_toList_iff.mp hslot
        exact trustType_eq haddr (hlinks _ (TemplateTypeBody.mem_links.mpr ⟨t, hmem, rfl⟩))
      show ((TemplateTypeBody.types r.body).mapM _ >>= _) = _
      rw [htypes]
      rfl
    | classType =>
      have hid {k : DeclKind} {x : Option (Id (.decl k))}
          (hx : ∀ id, x = some id → id.decl ∈ r.links) :
          x.mapM (fun id => d.renumbering.trustId id) =
            .ok (x.map fun id => d.renumbering.apply id) :=
        option_mapM_eq_ok fun id h => trustId_eq haddr (Or.inr (hlinks _ (hx id h)))
      have hbase := hid (x := ClassBody.base r.body)
        fun id h => ClassBody.mem_links.mpr (Or.inl ⟨id, h, rfl⟩)
      have hconstructor := hid (x := ClassBody.constructor r.body)
        fun id h => ClassBody.mem_links.mpr (Or.inr (Or.inl ⟨id, h, rfl⟩))
      have hdestructor := hid (x := ClassBody.destructor r.body)
        fun id h => ClassBody.mem_links.mpr (Or.inr (Or.inr ⟨id, h, rfl⟩))
      unfold Renumbering.trustBody
      simp only [hbase, hconstructor, hdestructor]
      rfl
    | _ => rfl

theorem trustRecord_eq (h : d.Sound) (haddr : d.raw.Addressable) {a : Arena} {i : Nat}
    {r : Record a} (hr : (d.arena a)[i]? = some r) :
    d.renumbering.trustRecord r = .ok (d.renumbering.applyRecord r) := by
  have hmem := Array.mem_of_getElem? hr
  have hparent : r.header.parent.mapM d.renumbering.trustDecl =
      .ok (r.header.parent.map d.renumbering.applyDecl) := by
    refine option_mapM_eq_ok fun p hp => ?_
    obtain ⟨q, hq, hknown, _⟩ := (h.records a r hmem).owner
    obtain rfl := Option.some.inj (hp.symm.trans hq)
    exact trustDecl_eq haddr hknown
  have hreturn : ∀ id, r.returnField? = some id → d.raw.Holds id := by
    cases a with
    | attributes =>
      intro id hid
      cases hid
    | decl k =>
      cases k with
      | function =>
        intro id hid
        obtain ⟨field, hfield, _⟩ := h.returned i r hr id hid
        exact (Array.getElem?_eq_some_iff.mp hfield).1
      | _ =>
        intro id hid
        cases hid
  unfold Renumbering.trustRecord
  simp only [hparent, trustBody_eq haddr (h.links a r hmem) hreturn]
  rfl

theorem trustRecords_eq (h : d.Sound) (haddr : d.raw.Addressable) (a : Arena) :
    d.trustRecords d.renumbering a = .ok (d.renumbered.get a) := by
  have hrecords : (d.sorted a).mapM (fun entry => d.renumbering.trustRecord entry.1) =
      .ok ((d.sorted a).map fun entry => d.renumbering.applyRecord entry.1) :=
    mapM_eq_ok_map fun entry hentry => trustRecord_eq h haddr (mem_sorted.mp hentry)
  unfold trustRecords
  simp only [hrecords, renumbered_get]
  rfl

theorem ofIndexChecked_eq {a : Arena} {i : Nat} (h : i < UInt32.size) :
    (Id.ofIndexChecked i : Contract (Id a)) = .ok (.ofIndex i) := if_pos h

theorem trustPositions_eq (haddr : d.raw.Addressable) (a : Arena) :
    d.trustPositions a = .ok (d.positions a) := by
  have hids : (List.range (d.arena a).size).mapM (fun i => (Id.ofIndexChecked i : Contract (Id a))) =
      .ok ((List.range (d.arena a).size).map Id.ofIndex) :=
    mapM_eq_ok_map fun i hi => ofIndexChecked_eq (Nat.lt_trans (List.mem_range.mp hi) (haddr a))
  unfold trustPositions
  simp only [hids]
  rfl

/-! ### Owners -/

theorem knows_of_renumbered (h : d.Sound) (haddr : d.raw.Addressable) {a : Arena} {j : Nat}
    {s : Record a} (hs : (d.renumbered.get a)[j]? = some s) {p : DeclId} (hp : s.parent = some p) :
    d.image.Knows p := by
  obtain ⟨i, r, hr, _, rfl⟩ := exists_of_renumbered hs
  obtain ⟨q, hq, hknown, _⟩ := (h.records a r (Array.mem_of_getElem? hr)).owner
  have hp : r.parent.map d.renumbering.applyDecl = some p := hp
  rw [hq] at hp
  obtain rfl := Option.some.inj hp
  exact knows_applyDecl haddr hknown

theorem trustOwner_eq {kinds : List DeclKind} {p : DeclId} (h : d.image.Knows p) :
    Records.trustOwner d.renumbered kinds p = .ok () := by
  refine if_neg ?_
  rintro ⟨_, hroot, hsize⟩
  rcases h with rfl | h
  · exact hroot rfl
  · rw [size_renumbered, ← size_image] at hsize
    exact Nat.lt_irrefl _ (Nat.lt_of_lt_of_le h hsize)

theorem forM_trustOwner_eq {kinds : List DeclKind} {x : Option DeclId}
    (h : ∀ p, x = some p → d.image.Knows p) :
    x.forM (Records.trustOwner d.renumbered kinds) = .ok () := by
  cases x with
  | none => rfl
  | some p => exact trustOwner_eq (h p rfl)

theorem trustLister_eq (h : d.Sound) (haddr : d.raw.Addressable) {b : Arena} {j : Nat}
    {s : Record b} (hs : (d.renumbered.get b)[j]? = some s) (id : Id b) :
    Records.trustLister d.renumbered id s = .ok (Records.lister d.renumbered id s) := by
  cases b with
  | attributes => rfl
  | decl k =>
    cases k with
    | field =>
      show Records.trustLister d.renumbered id s =
        .ok (if Records.isReturn d.renumbered id s then none else s.parent)
      unfold Records.trustLister
      dsimp only
      cases hf : s.parent.bind (·.to? .function) with
      | none =>
        have hreturn : Records.isReturn d.renumbered id s = false := by
          rw [Records.isReturn, hf]
        rw [hreturn]
        rfl
      | some f =>
        obtain ⟨p, hp, hfunction⟩ := Option.bind_eq_some_iff.mp hf
        obtain rfl := DeclId.to?_eq_some_iff.mp hfunction
        have hknown := knows_of_renumbered h haddr hs hp
        have hholds : d.image.Holds f := hknown.resolve_left (DeclId.decl_ne_root f (by decide))
        have hlt : f.index < (d.renumbered.get .functions).size := by
          rw [size_renumbered, ← size_image]
          exact hholds
        obtain ⟨function, hget⟩ : ∃ function, d.renumbered.functions[f.index]? = some function :=
          ⟨_, Array.getElem?_eq_getElem hlt⟩
        have hreturn : Records.isReturn d.renumbered id s =
            (FunctionBody.returnField function.body == some id) := by
          rw [Records.isReturn, hf]
          dsimp only
          rw [hget]
        rw [hreturn]
        dsimp only
        rw [hget]
    | _ => rfl

theorem trustListers_eq (h : d.Sound) (haddr : d.raw.Addressable) (b : Arena) :
    Records.trustListers d.renumbered b = .ok (Records.listers d.renumbered b) := by
  refine mapM_eq_ok_map fun entry hentry => ?_
  have hs : (d.renumbered.get b)[entry.2]? = some entry.1 := by
    simpa using List.mem_zipIdx_iff_getElem?.mp hentry
  have hlt := Nat.lt_trans (Array.getElem?_eq_some_iff.mp hs).1 (sizes_renumbered haddr b)
  have howner : (Records.lister d.renumbered (.ofIndex entry.2) entry.1).forM
      (Records.trustOwner d.renumbered b.owners) = .ok () :=
    forM_trustOwner_eq fun p hp =>
      knows_of_renumbered h haddr hs (Records.parent_of_lister d.renumbered hp)
  exact bind_eq_ok_iff.mpr ⟨_, ofIndexChecked_eq hlt, bind_eq_ok_iff.mpr
    ⟨_, trustLister_eq h haddr hs _, bind_eq_ok_iff.mpr ⟨(), howner, rfl⟩⟩⟩

theorem trustSpans_eq {b : Arena} {ms : List (DeclId × List (Id b))} {start : Nat}
    (h : start + (ms.flatMap (·.2)).length < UInt32.size) :
    Records.trustSpans start ms = .ok (Records.spansFrom start ms) := by
  induction ms generalizing start with
  | nil => rfl
  | cons m ms ih =>
    obtain ⟨owner, ids⟩ := m
    rw [List.flatMap_cons, List.length_append] at h
    dsimp only at h
    have hfits : start < UInt32.size ∧ ids.length < UInt32.size := by omega
    rw [Records.trustSpans, if_pos hfits, ih (by omega)]
    rfl

theorem trustLists_eq (h : d.Sound) (haddr : d.raw.Addressable) (b : Arena) :
    Records.trustLists d.renumbered b =
      pure (Records.spansFrom 0 (Records.memberships d.renumbered b),
        Records.pool d.renumbered b) := by
  have hpool := Nat.lt_of_le_of_lt
    (Records.length_pool_le d.renumbered (fun k => sizes_renumbered haddr _) b)
    (sizes_renumbered haddr b)
  have hspans : Records.trustSpans 0 (Records.memberships d.renumbered b) =
      .ok (Records.spansFrom 0 (Records.memberships d.renumbered b)) := by
    refine trustSpans_eq ?_
    rw [Nat.zero_add, ← List.size_toArray]
    exact hpool
  unfold Records.trustLists
  rw [read_bind (trustListers_eq h haddr b)]
  show (test (Records.trustSpans 0 (Records.memberships d.renumbered b)) >>= _) = _
  rw [hspans]
  rfl

theorem trustFlags_eq (h : d.Sound) (haddr : d.raw.Addressable) :
    Records.trustFlags d.renumbered = .ok () := by
  refine Check.forM_eq_ok_iff.mpr fun r hr => ?_
  obtain ⟨j, hj⟩ := List.mem_iff_getElem?.mp hr
  have hj : (d.renumbered.get .attributes)[j]? = some r := by
    rwa [Array.getElem?_toList] at hj
  by_cases hflag : r.flagBit = .none
  · rw [if_pos hflag]
  · rw [if_neg hflag]
    exact forM_trustOwner_eq fun p hp => knows_of_renumbered h haddr hj hp

theorem trustTypes_eq (haddr : d.raw.Addressable) :
    Records.trustTypes d.renumbered = .ok (Records.types d.renumbered) := by
  have hkind (k : TypeKind) :
      ((d.renumbered.get (.decl k.toDecl)).toList.zipIdx.mapM fun entry => do
        let id : Id (.decl k.toDecl) ← Id.ofIndexChecked entry.2
        return (entry.1.hash, (⟨k, id.raw⟩ : TypeId)) : Contract _) =
      .ok ((d.renumbered.get (.decl k.toDecl)).toList.zipIdx.map fun entry =>
        (entry.1.hash, ⟨k, .ofNat entry.2⟩)) := by
    refine mapM_eq_ok_map fun entry hentry => ?_
    have hs : (d.renumbered.get (.decl k.toDecl))[entry.2]? = some entry.1 := by
      simpa using List.mem_zipIdx_iff_getElem?.mp hentry
    have hlt := Nat.lt_trans (Array.getElem?_eq_some_iff.mp hs).1 (sizes_renumbered haddr _)
    exact bind_eq_ok_iff.mpr ⟨_, ofIndexChecked_eq hlt, rfl⟩
  exact bind_eq_ok_iff.mpr ⟨_, mapM_eq_ok_map fun k _ => hkind k, rfl⟩

theorem trustImage_eq (h : d.Sound) (haddr : d.raw.Addressable) :
    d.trustImage = pure d.image := by
  have hpositions : PerArena.ofFnM d.trustPositions = .ok d.renumbering :=
    PerArena.ofFnM_pure (trustPositions_eq haddr)
  have hrecords : PerArena.ofFnM (d.trustRecords d.renumbering) = .ok d.renumbered :=
    PerArena.ofFnM_pure (trustRecords_eq h haddr)
  have hlists := PerArena.ofFnM_pure (trustLists_eq h haddr)
  unfold trustImage
  rw [read_bind hpositions, read_bind hrecords, hlists, pure_bind, read_bind (trustFlags_eq h haddr),
    read_bind (trustTypes_eq haddr)]
  simp only [PerArena.get_ofFn]
  rfl

/-- Nothing breaks off, and the image is the one that is built. -/
theorem buildTrusting_eq (h : d.Sound) (haddr : d.raw.Addressable) :
    d.buildTrusting = test (do (d.image.validate).mapError .invalid; return d.image) := by
  unfold buildTrusting
  rw [trustImage_eq h haddr, pure_bind, Image.validateTrusting_eq (addressable_image haddr)]
  cases d.image.validate <;> rfl

end Draft
end TypeAtlas
