/-
Building renumbers what was added.

The image that is built from a draft holds, arena by arena, what the accepted calls
have added, no more and no less.  Records are in ascending order of their hashes,
those of equal hash in the order they were added, and every reference is the one
that was given, with the number that was answered for a record replaced by its new
position.  `Log.Restates` says so of one record, `Log.RenumberedIn` of a whole
image.  Both speak of the log and the image only.
-/
import TypeAtlas.Proofs.Build.Outcome

namespace TypeAtlas

/-- A body without the member lists and the flags that laying out fills in. -/
def Body.bare {a : Arena} (body : Body a) : Body a :=
  (body.withMembers fun _ => .empty).withFlags .none

namespace Draft
namespace Log

variable (log : Log)

/-- For each arena, where the numbers that were answered go. -/
abbrev Placement : Type := (a : Arena) → Equiv.Perm (Fin (log.added a).length)

/-- A number that was answered for a record. -/
def Answered {a : Arena} (id : Id a) : Prop := id.index < (log.added a).length

instance {a : Arena} (id : Id a) : Decidable (log.Answered id) :=
  inferInstanceAs (Decidable (id.index < _))

variable {log}

/-- The new id of a record, by its number.  The root namespace stays what it is. -/
def rename (place : log.Placement) {k : DeclKind} (id : Id (.decl k)) : Id (.decl k) :=
  if id.decl.isRoot then id
  else if h : log.Answered id then .ofIndex (place (.decl k) ⟨id.index, h⟩)
  else id

def renameDecl (place : log.Placement) (e : DeclId) : DeclId := (rename place e.id).decl

variable (log)

/-- The body of a record is the one that was given, with its references renamed. -/
def BodyRestates (place : log.Placement) (img : Image) :
    {a : Arena} → Nat → Entry a → Record a → Prop
  | .attributes, _, e, r => ValueInput.StoredAs img e.content r.body
  | .decl _, i, e, r =>
    Body.bare r.body = Body.bare (Body.mapLinks (rename place) (log.body (.ofIndex i) e))

/-- What an entry refers to beside its owner. -/
def references : {a : Arena} → Nat → Entry a → List DeclId
  | .attributes, _, _ => []
  | .functions, i, _ => (log.returnOf (.ofIndex i)).toList.map (·.decl)
  | .decl _, i, e => Body.links (log.body (.ofIndex i) e)

/-- A record restates an entry that was added under a number. -/
structure Restates (place : log.Placement) (img : Image) {a : Arena} (i : Nat) (e : Entry a)
    (r : Record a) : Prop where
  kind : r.kind = r.expectedKind
  name : e.name.StoredAs img.nameBlob r.name
  parent : r.parent = some (renameDecl place e.parent)
  body : log.BodyRestates place img i e r
  /-- Whatever is renamed is a number that was answered. -/
  owner : e.parent = .root ∨ log.Answered e.parent.id
  references : ∀ l ∈ log.references i e, log.Answered l.id

structure RenumberedIn (place : log.Placement) (img : Image) : Prop where
  /-- Calls answer 0, 1, 2 and so on for each arena. -/
  numbers : ∀ a, (log.added a).map (·.1) = (List.range (log.added a).length).map .ofNat
  /-- No record is lost and none is there twice. -/
  sizes : ∀ a, (img.arena a).size = (log.added a).length
  /-- Places go by hash, and by number where hashes are equal. -/
  ordered : ∀ a (i j : Fin (log.added a).length), place a i < place a j ↔
    (log.added a)[i].2.name.hash < (log.added a)[j].2.name.hash ∨
      (log.added a)[i].2.name.hash = (log.added a)[j].2.name.hash ∧ i < j
  records : ∀ a (i : Fin (log.added a).length), ∃ r, (img.arena a)[(place a i).val]? = some r ∧
    log.Restates place img i.val (log.added a)[i].2 r

end Log
variable {d : Draft} {log : Log} {a : Arena}

/-! ## Places of a draft -/

/-- The places of the numbers are those of the positions they stand for. -/
def Agrees.placement (h : d.Agrees log) : log.Placement := fun a =>
  { toFun := fun i =>
      (d.placement a (i.cast (h.length_added a))).cast (h.length_added a).symm
    invFun := fun j =>
      ((d.placement a).symm (j.cast (h.length_added a))).cast (h.length_added a).symm
    left_inv := fun i => by simp
    right_inv := fun j => by simp }

theorem Agrees.coe_placement (h : d.Agrees log) (i : Fin (log.added a).length) :
    (h.placement a i).val = d.place a i.val := rfl

theorem Agrees.answered_iff (h : d.Agrees log) {id : Id a} :
    log.Answered id ↔ d.raw.Holds id := by
  unfold Log.Answered
  rw [h.length_added]
  rfl

theorem Agrees.rename_eq (h : d.Agrees log) :
    @Log.rename log h.placement = @Renumbering.apply d.renumbering := by
  funext k id
  unfold Log.rename
  by_cases hroot : id.decl = .root
  · have his : id.decl.isRoot = true := Image.isRoot_iff.mpr hroot
    rw [if_pos his, Renumbering.apply, if_pos his]
  · have his : id.decl.isRoot ≠ true := fun e => hroot (Image.isRoot_iff.mp e)
    rw [if_neg his]
    by_cases hid : log.Answered id
    · rw [dif_pos hid, apply_of_holds hroot (h.answered_iff.mp hid)]
      rfl
    · rw [dif_neg hid, apply_of_not_holds hroot fun hlt => hid (h.answered_iff.mpr hlt)]

/-! ## Records -/

theorem bare_laidOut {k : DeclKind} (j : Nat) (r : Record (.decl k)) :
    Body.bare (d.laidOut j r).body = Body.bare (Body.mapLinks d.renumbering.apply r.body) := by
  cases k <;> rfl

theorem Agrees.references_answered (h : d.Agrees log) (hd : d.Sound) {i : Nat} {e : Entry a}
    {r : Record a} (hr : (d.arena a)[i]? = some r) (hrecorded : d.Recorded log i e r) :
    ∀ l ∈ log.references i e, log.Answered l.id := by
  intro l hl
  rw [h.answered_iff]
  cases a with
  | attributes => exact absurd hl List.not_mem_nil
  | decl k =>
    have hbody : r.body = log.body (.ofIndex i) e := hrecorded.body
    have hlinks : ∀ l ∈ Body.links (log.body (.ofIndex i) e), d.raw.Holds l.id := by
      rw [← hbody]
      exact hd.links _ r (Array.mem_of_getElem? hr)
    cases k with
    | function =>
      obtain ⟨id, hid, rfl⟩ := List.mem_map.mp hl
      have hreturn : r.returnField? = some id := by
        show FunctionBody.returnField r.body = some id
        rw [hbody]
        exact Option.mem_toList.mp hid
      obtain ⟨field, hfield, _⟩ := hd.returned i r hr id hreturn
      exact (Array.getElem?_eq_some_iff.mp hfield).1
    | _ => exact hlinks l hl

theorem Agrees.restates (h : d.Agrees log) (hd : d.Sound) {i : Nat} {e : Entry a} {r : Record a}
    (hr : (d.arena a)[i]? = some r) (hrecorded : d.Recorded log i e r) :
    log.Restates h.placement d.image i e (d.laidOut (d.place a i) r) := by
  have hfits := hd.records a r (Array.mem_of_getElem? hr)
  constructor
  case kind =>
    rw [kind_laidOut, expectedKind_laidOut]
    exact hfits.kind
  case name =>
    rw [name_laidOut]
    exact hrecorded.name
  case parent =>
    unfold Log.renameDecl
    rw [parent_laidOut, hrecorded.parent, h.rename_eq]
    rfl
  case body =>
    cases a with
    | attributes => exact hrecorded.body
    | decl k =>
      have hbody : r.body = log.body (.ofIndex i) e := hrecorded.body
      unfold Log.BodyRestates
      dsimp only
      rw [bare_laidOut, hbody, h.rename_eq]
  case owner =>
    obtain ⟨p, hp, hknown, _⟩ := hfits.owner
    obtain rfl := Option.some.inj (hp.symm.trans hrecorded.parent)
    exact hknown.imp_right h.answered_iff.mpr
  case references => exact h.references_answered hd hr hrecorded

theorem Agrees.renumberedIn_image (h : d.Agrees log) (hd : d.Sound) :
    log.RenumberedIn h.placement d.image where
  numbers a := by
    rw [h.numbers, h.length_added]
  sizes a := by
    rw [size_image, h.length_added]
  ordered a i j := by
    obtain ⟨r, hr, hri⟩ := h.records a i _ (List.getElem?_eq_getElem i.isLt)
    obtain ⟨s, hs, hsj⟩ := h.records a j _ (List.getElem?_eq_getElem j.isLt)
    have hi : r.hash = (log.added a)[i].2.name.hash := hri.name.1
    have hj : s.hash = (log.added a)[j].2.name.hash := hsj.name.1
    rw [Fin.lt_def, h.coe_placement, h.coe_placement, place_lt_place_iff hr hs, ← hi, ← hj]
    rfl
  records a i := by
    obtain ⟨r, hr, hrecorded⟩ := h.records a i _ (List.getElem?_eq_getElem i.isLt)
    exact ⟨_, image_getElem?_place hr, h.restates hd hr hrecorded⟩

/-! ## Building -/

theorem image_of_build {account : Option Account} {bank : Bank} {held : Holding}
    (h : (d.build account bank).1 = .ok held) : held.image = d.image :=
  Image.image_of_hold (congrArg Prod.fst (build_eq_ok_iff.mp (Prod.ext h rfl)).1)

/-- Whatever was done to a draft, an image that is built from it holds the records
that were added, renumbered by a stable sort, and nothing else.  Numbers are 32-bit
words, so an arena has no more records than there are words. -/
theorem build_renumbers (p : Profile) (calls : List Call) (account : Option Account) (bank : Bank)
    {held : Holding} (hnumbers : ∀ a, ((made p calls).arena a).size ≤ UInt32.size)
    (hbuilt : ((made p calls).build account bank).1 = .ok held) :
    ∃ place : (logOf p calls).Placement, (logOf p calls).RenumberedIn place held.image := by
  have hagrees := agrees_made hnumbers
  rw [image_of_build hbuilt]
  exact ⟨hagrees.placement, hagrees.renumberedIn_image (sound_made hnumbers)⟩

/-- Two classes, the second of them first by its hash and derived from the other. -/
def derivedClass : List Call :=
  [.addClass (.hashed 2 "") .root 4, .addClass (.hashed 1 "") .root 8, .setBase ⟨1⟩ ⟨0⟩]

theorem derives_derivedClass {c b : Id .classes} (h : (logOf .full derivedClass).Derives c b) :
    c = ⟨1⟩ ∧ b = ⟨0⟩ := by
  have hlog : logOf .full derivedClass =
      [(.addClass (.hashed 2 "") .root 4, .added 0), (.addClass (.hashed 1 "") .root 8, .added 1),
        (.setBase ⟨1⟩ ⟨0⟩, .done)] := by rfl
  rw [Log.Derives, hlog] at h
  by_cases hc : (⟨1⟩ : Id .classes) = c
  · simp [Log.baseOf, Log.last, Log.givesBase, hc] at h
    exact ⟨hc.symm, h.symm⟩
  · simp [Log.baseOf, Log.last, Log.givesBase, hc] at h
    cases h

theorem counts_derivedClass : ∀ a, ((made .full derivedClass).arena a).size < UInt32.size := by
  decide

theorem numbers_derivedClass (a : Arena) : ((made .full derivedClass).arena a).size ≤ UInt32.size :=
  Nat.le_of_lt (counts_derivedClass a)

theorem validate_derivedClass : (made .full derivedClass).image.validate = .ok () := by
  refine validate_of_bases_before counts_derivedClass fun c b hstep => ?_
  obtain ⟨rfl, rfl⟩ :=
    derives_derivedClass ((agrees_made numbers_derivedClass).derives_iff.mp hstep)
  decide

theorem build_renumbers_derivedClass :
    ∃ held, ((made .full derivedClass).build none {}).1 = .ok held ∧
      ∃ place : (logOf .full derivedClass).Placement,
        (logOf .full derivedClass).RenumberedIn place held.image := by
  have hbuilt := build_none_ok {} validate_derivedClass
  exact ⟨_, hbuilt, build_renumbers .full derivedClass none {} numbers_derivedClass hbuilt⟩

end Draft
end TypeAtlas
