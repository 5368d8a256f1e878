/-
The scopes that were declared.

A log gives every declaration the names of what was declared around it, `Log.Spells`.
Renumbering takes a chain of owners in the log to one in the image, and names are stored
as they were given, so that the qualified name of a record is made up of these very texts:
in the image that is built, and in whatever a loader gets from the file of it.
-/
import TypeAtlas.Proofs.Query.Navigation
import TypeAtlas.Proofs.Wire.Derived

namespace TypeAtlas

/-! ## Texts -/

/-- What a name puts into a qualified name.  Under hash zero every text is lost. -/
def NameInput.part (name : NameInput) : String := if name.hash = 0 then "" else name.string

theorem NameInput.StoredAs.textOrEmpty_resolve {name : NameInput} {blob : String} {n : NameSpan}
    (h : name.StoredAs blob n) : (n.resolve blob).textOrEmpty = name.part := by
  obtain ⟨hhash, htext⟩ := h
  rw [NameInput.part, NameSpan.resolve, NameSpan.isEmpty, ← hhash]
  by_cases hzero : n.hash = 0
  · rw [if_pos hzero, if_pos (beq_iff_eq.mpr hzero)]
    rfl
  · rw [if_neg hzero, if_neg fun h => hzero (beq_iff_eq.mp h), Name.textOrEmpty, htext]
    rfl

namespace Draft

namespace Log

/-- The texts that were given for a declaration and for what encloses it, outermost first
and without the root namespace. -/
inductive Spells (log : Log) : DeclId → List String → Prop
  | root : log.Spells .root []
  | added {k : DeclKind} {number : UInt32} {e : Entry (.decl k)} {texts : List String} :
      (number, e) ∈ log.added (.decl k) → log.Spells e.parent texts →
        log.Spells ⟨k, number⟩ (texts ++ [e.name.part])

open Check (bind_eq_ok_iff)

variable {log : Log} {d : DeclId} {texts others : List String}

theorem spells_iff : log.Spells d texts ↔ d = .root ∧ texts = [] ∨
    ∃ (e : Entry (.decl d.kind)) (outer : List String), (d.raw, e) ∈ log.added (.decl d.kind) ∧
      log.Spells e.parent outer ∧ texts = outer ++ [e.name.part] := by
  constructor
  · intro h
    cases h with
    | root => exact Or.inl ⟨rfl, rfl⟩
    | added hadded houter => exact Or.inr ⟨_, _, hadded, houter, rfl⟩
  · rintro (⟨rfl, rfl⟩ | ⟨e, outer, hadded, houter, rfl⟩)
    · exact .root
    · exact .added hadded houter

section
variable {place : log.Placement} {img : Image} {a : Arena} (h : log.RenumberedIn place img)
  (haddr : img.Addressable)

include h

/-! ## Numbers -/

theorem RenumberedIn.number_eq {i : Nat} {number : UInt32} {e : Entry a}
    (hget : (log.added a)[i]? = some (number, e)) : number = .ofNat i := by
  have hi : i < (log.added a).length := (List.getElem?_eq_some_iff.mp hget).1
  have hnumber : ((log.added a).map (·.1))[i]? = _ := congrArg (·[i]?) (h.numbers a)
  rw [List.getElem?_map, hget, List.getElem?_map, List.getElem?_range hi] at hnumber
  exact Option.some.inj hnumber

include haddr

/-- What was added under a number stands where the number says. -/
theorem RenumberedIn.getElem?_of_mem {number : UInt32} {e : Entry a}
    (hmem : (number, e) ∈ log.added a) : (log.added a)[number.toNat]? = some (number, e) := by
  obtain ⟨i, hget⟩ := List.getElem?_of_mem hmem
  have hi : i < (log.added a).length := (List.getElem?_eq_some_iff.mp hget).1
  have hfits : i < UInt32.size := Nat.lt_trans (h.sizes a ▸ hi) (haddr a)
  have hindex : number.toNat = i := by rw [h.number_eq hget, UInt32.toNat_ofNat_of_lt' hfits]
  rw [hindex]
  exact hget

theorem RenumberedIn.ne_root_of_answered (hd : log.Answered d.id) : d ≠ .root :=
  Image.ne_root_of_holds haddr (show d.id.index < (img.arena _).size from h.sizes _ ▸ hd)

theorem RenumberedIn.ne_root_of_mem {k : DeclKind} {number : UInt32} {e : Entry (.decl k)}
    (hmem : (number, e) ∈ log.added (.decl k)) : (⟨k, number⟩ : DeclId) ≠ .root :=
  h.ne_root_of_answered haddr (List.getElem?_eq_some_iff.mp (h.getElem?_of_mem haddr hmem)).1

/-- There is only one way to spell a declaration. -/
theorem RenumberedIn.spells_unique (hspells : log.Spells d texts) (hothers : log.Spells d others) :
    others = texts := by
  induction hspells generalizing others with
  | root =>
    rcases spells_iff.mp hothers with ⟨_, rfl⟩ | ⟨_, _, hadded, _⟩
    · rfl
    · exact absurd rfl (h.ne_root_of_mem haddr hadded)
  | @added k number e outer hadded _ ih =>
    rcases spells_iff.mp hothers with ⟨hroot, _⟩ | ⟨e', outer', hadded', houter', rfl⟩
    · exact absurd hroot (h.ne_root_of_mem haddr hadded)
    · have hsame := (h.getElem?_of_mem haddr hadded).symm.trans (h.getElem?_of_mem haddr hadded')
      obtain rfl : e = e' := congrArg Prod.snd (Option.some.inj hsame)
      rw [ih houter']

/-! ## Renaming -/

theorem RenumberedIn.rename_eq_ofIndex {k : DeclKind} {id : Id (.decl k)} (hid : log.Answered id) :
    rename place id = .ofIndex (place (.decl k) ⟨id.index, hid⟩).val := by
  have hroot : ¬ id.decl.isRoot = true := fun hroot =>
    h.ne_root_of_answered haddr (d := id.decl) hid (Image.isRoot_iff.mp hroot)
  rw [rename, if_neg hroot, dif_pos hid]

theorem RenumberedIn.index_ofIndex {k : DeclKind} (i : Fin (log.added (.decl k)).length) :
    (Id.ofIndex i.val : Id (.decl k)).index = i.val :=
  Id.index_ofIndex (Nat.lt_trans (Nat.lt_of_lt_of_eq i.isLt (h.sizes _).symm) (haddr (.decl k)))

theorem RenumberedIn.answered_ofIndex {k : DeclKind} (i : Fin (log.added (.decl k)).length) :
    log.Answered (Id.ofIndex i.val : Id (.decl k)) := by
  rw [Answered, h.index_ofIndex haddr i]
  exact i.isLt

theorem RenumberedIn.rename_ofIndex {k : DeclKind} (i : Fin (log.added (.decl k)).length) :
    rename place (Id.ofIndex i.val : Id (.decl k)) = .ofIndex (place (.decl k) i).val := by
  rw [h.rename_eq_ofIndex haddr (h.answered_ofIndex haddr i)]
  simp only [h.index_ofIndex haddr i]

theorem RenumberedIn.index_rename {k : DeclKind} {id : Id (.decl k)} (hid : log.Answered id) :
    (rename place id).index = (place (.decl k) ⟨id.index, hid⟩).val := by
  rw [h.rename_eq_ofIndex haddr hid]
  exact h.index_ofIndex haddr _

/-- Whatever is renamed is held under its new id. -/
theorem RenumberedIn.holds_rename {k : DeclKind} {id : Id (.decl k)} (hid : log.Answered id) :
    img.Holds (rename place id) := by
  rw [Image.Holds, h.index_rename haddr hid, h.sizes]
  exact (place (.decl k) ⟨id.index, hid⟩).isLt

/-- The record under a new id restates what was added. -/
theorem RenumberedIn.exists_restates {k : DeclKind} {r : Ref (.decl k)} {id : Id (.decl k)}
    (hid : log.Answered id) (hr : img.Genuine r) (hrenamed : r.id = rename place id) :
    ∃ e, (id.raw, e) ∈ log.added (.decl k) ∧ log.Restates place img id.index e r.record := by
  obtain ⟨s, hs, hrestates⟩ := h.records (.decl k) ⟨id.index, hid⟩
  have hget := hr.getElem? haddr (hrenamed ▸ h.holds_rename haddr hid)
  rw [hrenamed, h.index_rename haddr hid, hs] at hget
  obtain rfl := Option.some.inj hget
  have hnumber : (log.added (.decl k))[id.index].1 = id.raw :=
    (h.number_eq (List.getElem?_eq_getElem hid)).trans id.raw.ofNat_toNat
  refine ⟨_, ?_, hrestates⟩
  rw [← hnumber]
  exact List.getElem_mem hid

end

/-! ## Chains of owners -/

/-- A record stands for the declaration that was answered with a number. -/
structure StandsFor (log : Log) (place : log.Placement) (img : Image) (d : DeclRef)
    (p : DeclId) : Prop where
  genuine : img.Genuine d.ref
  known : p = .root ∨ log.Answered p.id
  renamed : d.id = renameDecl place p

section
variable {place : log.Placement} {img : Image} {owned : DeclRef} {p : DeclId}
  (h : log.RenumberedIn place img) (hsafe : img.Safe)

include h hsafe

theorem StandsFor.root_iff (hd : log.StandsFor place img owned p) :
    owned.id = .root ↔ p = .root := by
  rw [hd.renamed]
  constructor
  · intro hroot
    rcases hd.known with hp | hp
    · exact hp
    · have hheld := h.holds_rename hsafe.addressable hp
      exact absurd hroot
        (Image.ne_root_of_holds hsafe.addressable (d := renameDecl place p) hheld)
  · rintro rfl
    rfl

/-- What stands for a declaration has the name that was given, and as its owner what stands
for the owner that was given. -/
theorem StandsFor.owner (hd : log.StandsFor place img owned p) (hroot : p ≠ .root) :
    ∃ (e : Entry (.decl p.kind)) (owner : DeclRef), (p.raw, e) ∈ log.added (.decl p.kind) ∧
      (img.nameOf owned.ref).textOrEmpty = e.name.part ∧
      img.parentOf owned.ref = .ok (some owner) ∧ log.StandsFor place img owner e.parent := by
  obtain ⟨k, r⟩ := owned
  obtain ⟨k', raw⟩ := p
  obtain ⟨rfl, hraw⟩ := DeclId.mk.inj hd.renamed
  obtain ⟨e, hadded, hrestates⟩ := h.exists_restates hsafe.addressable
    (hd.known.resolve_left hroot) hd.genuine (congrArg Id.mk hraw)
  rcases hd.genuine.parent hsafe with ⟨_, hnone⟩ | ⟨_, owner, howner, hgenuine, hparent, _⟩
  · rw [Image.parentOf, hrestates.parent] at hnone
    obtain ⟨_, _, hsome⟩ := bind_eq_ok_iff.mp hnone
    cases hsome
  · exact ⟨e, owner, hadded, hrestates.name.textOrEmpty_resolve, howner, hgenuine,
      hrestates.owner, Option.some.inj (hparent.symm.trans hrestates.parent)⟩

/-- A chain of owners spells what was declared. -/
theorem StandsFor.spells {next : Option DeclRef} {ds : List DeclRef}
    (hchain : img.OwnerChain next ds) :
    ∀ d ∈ next, ∀ p, log.StandsFor place img d p →
      log.Spells p (ds.reverse.map fun e => (img.nameOf e.ref).textOrEmpty) := by
  induction hchain with
  | nil =>
    intro d hd
    cases hd
  | root hroot =>
    intro d hd p hstands
    obtain rfl := Option.some.inj hd
    obtain rfl := (hstands.root_iff h hsafe).mp hroot
    exact .root
  | cons hroot hnext _ ih =>
    intro d hd p hstands
    obtain rfl := Option.some.inj hd
    obtain ⟨e, owner, hadded, hname, howner, hownerStands⟩ :=
      hstands.owner h hsafe fun hp => hroot ((hstands.root_iff h hsafe).mpr hp)
    obtain rfl := Except.ok.inj (hnext.symm.trans howner)
    have houter := ih owner rfl e.parent hownerStands
    rw [List.reverse_cons, List.map_append, List.map_singleton, hname]
    exact Spells.added hadded houter

/-- What the record of a declaration that was added shows of its scope. -/
structure ShowsScope (log : Log) (img : Image) (p : DeclId) (d : DeclRef)
    (texts : List String) : Prop where
  /-- The owners come to an end. -/
  scopes : ∃ next ds, img.ScopesSound d next ds
  spells : ∀ others, log.Spells p others ↔ others = texts
  qualified : img.qualifiedName d = .ok ("::".intercalate texts)

theorem StandsFor.showsScope (hd : log.StandsFor place img owned p) (hroot : p ≠ .root) :
    ∃ texts, log.ShowsScope img p owned texts := by
  obtain ⟨next, ds, hscopes⟩ := hd.genuine.scopesSound hsafe
  have hown := (hd.root_iff h hsafe).not.mpr hroot
  have hspells := StandsFor.spells h hsafe (.cons hown hscopes.parent hscopes.chain) owned rfl p hd
  refine ⟨_, ⟨next, ds, hscopes⟩, fun others => ⟨?_, ?_⟩, hscopes.qualified⟩
  · exact h.spells_unique hsafe.addressable hspells
  · rintro rfl
    exact hspells

/-- What was added stands at its new position and shows its scope. -/
theorem RenumberedIn.showsScope (k : DeclKind) (i : Fin (log.added (.decl k)).length) :
    ∃ (r : Ref (.decl k)) (texts : List String),
      img.ref (.ofIndex (place (.decl k) i).val) = .ok r ∧
      log.ShowsScope img (Id.ofIndex i.val : Id (.decl k)).decl r.decl texts := by
  have hid := h.answered_ofIndex hsafe.addressable i
  obtain ⟨r, hr, hrid, _⟩ := Image.genuine_of_holds hsafe.addressable
    (h.holds_rename hsafe.addressable hid)
  have hstands : log.StandsFor place img r.decl (Id.ofIndex i.val : Id (.decl k)).decl :=
    ⟨Image.genuine_of_ref hr, Or.inr hid, congrArg Id.decl hrid⟩
  obtain ⟨texts, hshows⟩ := hstands.showsScope h hsafe
    (h.ne_root_of_answered hsafe.addressable (d := (Id.ofIndex i.val).decl) hid)
  rw [h.rename_ofIndex hsafe.addressable i] at hr
  exact ⟨r, texts, hr, hshows⟩

end

end Log

/-- Qualified names spell the scopes that were declared.  The file of an image that was built
is accepted, and in whatever a loader gets from it every record is found at its new position,
with the texts that were given for what encloses it and for itself.  An arena has fewer
records than there are words, and a file states the length of its payload in 64 bits. -/
theorem qualified_names_spell_scopes (p : Profile) (calls : List Call)
    (account : Option Account) (bank : Bank) {held : Holding}
    (hcounts : ∀ a, ((made p calls).arena a).size < UInt32.size)
    (hbuilt : ((made p calls).build account bank).1 = .ok held)
    (hlength : held.image.encode.length < UInt64.size) :
    ∃ place : (logOf p calls).Placement, (logOf p calls).RenumberedIn place held.image ∧
      (∀ rest bank, ∃ loaded, ({} : LoadPolicy).load (held.image.file ++ rest) none bank =
        ⟨.ok loaded, rest, bank⟩) ∧
      ∀ (policy : LoadPolicy) (rest : List UInt8) (account : Option Account) (bank : Bank)
        (loaded : Holding),
        (policy.load (held.image.file ++ rest) account bank).result = .ok loaded →
        ∀ (k : DeclKind) (i : Fin ((logOf p calls).added (.decl k)).length),
          ∃ (r : Ref (.decl k)) (texts : List String),
          loaded.image.ref (.ofIndex (place (.decl k) i).val) = .ok r ∧
          (logOf p calls).ShowsScope loaded.image (Id.ofIndex i.val : Id (.decl k)).decl r.decl
            texts := by
  have hnum := numbered_of_addressable hcounts
  have hsafe := Image.safe_of_build hcounts hbuilt
  have hrenumbered := (agrees_made hnum).renumberedIn_image (sound_made hnum)
  rw [← image_of_build hbuilt] at hrenumbered
  refine ⟨_, hrenumbered, fun rest bank => ?_, fun policy rest account bank loaded hload => ?_⟩
  · have hread := Image.read_file (validate_of_build hbuilt) hlength rest
    exact ⟨_, LoadPolicy.load_none_eq_ok bank hread⟩
  · obtain ⟨_, hread⟩ := LoadPolicy.exists_read_of_load hload
    rw [LoadPolicy.eq_of_read_file hlength hread]
    exact hrenumbered.showsScope hsafe

/-- A function named like its namespace, with a parameter whose name is lost. -/
def namedAlike : List Call :=
  [.addNamespace (.hashed 1 "log") .root, .addFunction (.hashed 1 "log") ⟨.nameSpace, 0⟩ 0 0,
    .addParameter (.hashed 0 "lost") ⟨0⟩ none .plain 0]

theorem added_namedAlike :
    (logOf .full namedAlike).added .namespaces =
      [(0, ⟨.hashed 1 "log", .root, ({} : NamespaceBody)⟩)] ∧
    (logOf .full namedAlike).added .functions =
      [(0, ⟨.hashed 1 "log", ⟨.nameSpace, 0⟩, ({ address := 0, uid := 0 } : FunctionBody)⟩)] ∧
    (logOf .full namedAlike).added .fields =
      [(0, ⟨.hashed 0 "lost", ⟨.function, 0⟩,
        ({ type := none, qualifier := .plain, offset := 0 } : FieldBody)⟩)] := by
  have hlog : logOf .full namedAlike =
      [(.addNamespace (.hashed 1 "log") .root, .added 0),
        (.addFunction (.hashed 1 "log") ⟨.nameSpace, 0⟩ 0 0, .added 0),
        (.addParameter (.hashed 0 "lost") ⟨0⟩ none .plain 0, .added 0)] := by rfl
  rw [hlog]
  exact ⟨rfl, rfl, rfl⟩

theorem spells_namedAlike :
    (logOf .full namedAlike).Spells ⟨.field, 0⟩ ["log", "log", ""] := by
  obtain ⟨hnamespaces, hfunctions, hfields⟩ := added_namedAlike
  have hnamespace := Log.Spells.added (hnamespaces ▸ List.mem_cons_self) .root
  have hfunction := Log.Spells.added (hfunctions ▸ List.mem_cons_self) hnamespace
  exact Log.Spells.added (hfields ▸ List.mem_cons_self) hfunction

theorem counts_namedAlike : ∀ a, ((made .full namedAlike).arena a).size < UInt32.size := by
  decide +kernel

theorem length_encode_namedAlike : (made .full namedAlike).image.encode.length < UInt64.size :=
  Nat.lt_of_le_of_lt (length_encode_image_le counts_namedAlike) (by decide +kernel)

theorem qualified_names_spell_scopes_namedAlike : ∃ held loaded,
    ((made .full namedAlike).build none {}).1 = .ok held ∧
    (({} : LoadPolicy).load (held.image.file ++ []) none {}).result = .ok loaded ∧
    ∃ r : Ref .fields, loaded.image.ref ⟨0⟩ = .ok r ∧
      loaded.image.qualifiedName r.decl = .ok "log::log::" := by
  have hbuilt := build_of_no_classes .full namedAlike {} counts_namedAlike (by decide +kernel)
  obtain ⟨place, _, haccepted, hnames⟩ := qualified_names_spell_scopes .full namedAlike none {}
    counts_namedAlike hbuilt length_encode_namedAlike
  obtain ⟨loaded, hload⟩ := haccepted [] {}
  have hresult := congrArg Loaded.result hload
  have hone : ((logOf .full namedAlike).added .fields).length = 1 := by
    rw [added_namedAlike.2.2]
    rfl
  have hpos : 0 < ((logOf .full namedAlike).added .fields).length :=
    Nat.lt_of_lt_of_eq Nat.zero_lt_one hone.symm
  obtain ⟨r, texts, hr, hshows⟩ := hnames {} [] none {} loaded hresult .field ⟨0, hpos⟩
  have hplace : (place .fields ⟨0, hpos⟩).val = 0 :=
    Nat.lt_one_iff.mp (Nat.lt_of_lt_of_eq (place .fields ⟨0, hpos⟩).isLt hone)
  rw [hplace] at hr
  obtain rfl := (hshows.spells _).mp spells_namedAlike
  exact ⟨_, loaded, hbuilt, hresult, r, hr, hshows.qualified⟩

end Draft
end TypeAtlas
