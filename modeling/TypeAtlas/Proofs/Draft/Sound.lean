/-
What holds of every draft.

`Draft.Sound` is the invariant that calls keep: whatever a record refers to was
there before it, so that owners lead to the root namespace, and every span
resolves in its blob.  It says nothing of chains of base classes, which can be
closed to a cycle by a later call.

A draft only grows.  Records stay where they are with the headers they have, and
blobs are added to at their ends, so a reference or a span that was good once
stays good.
-/
import TypeAtlas.Draft.Call
import TypeAtlas.Proofs.Text
import TypeAtlas.Proofs.Validity.WellFormed

namespace TypeAtlas

def TextTable.Sound (t : TextTable) : Prop :=
  ∀ text span, t.spans.lookup text = some span → span.resolve? t.blob = some text

namespace Draft

/-- The records of a draft as they were added, as an image that is not laid out. -/
def raw (d : Draft) : Image :=
  { Image.empty d.profile with
    nameBlob := d.names.texts.blob
    textBlob := d.texts.blob
    names := d.names.listed
    records := d.records }

/-- Every record has an id of its own, as far as ids go. -/
def Numbered (d : Draft) : Prop := ∀ a, (d.arena a).size ≤ UInt32.size

theorem numbered_of_addressable {d : Draft} (h : d.raw.Addressable) : d.Numbered :=
  fun a => Nat.le_of_lt (h a)

structure TextsSound (d : Draft) : Prop where
  nameTexts : d.names.texts.Sound
  attributeTexts : d.texts.Sound
  names : ∀ n ∈ d.names.listed, (n.text.resolve? d.names.texts.blob).isSome

/-- A reduced draft has neither attributes nor templates nor their instances. -/
def FitsProfile (d : Draft) : Prop :=
  d.profile = .reduced → d.arena .attributes = #[] ∧ d.arena .templates = #[] ∧
    d.arena .templateTypes = #[]

structure Sound (d : Draft) : Prop extends d.TextsSound where
  profile : d.profile = .reduced → d.arena .attributes = #[] ∧ d.arena .templates = #[] ∧
    d.arena .templateTypes = #[]
  records : ∀ a, ∀ r ∈ d.arena a, d.raw.RecordFits r
  values : ∀ r ∈ d.arena .attributes, d.raw.ValueFits r.body
  links : ∀ a, ∀ r ∈ d.arena a, ∀ e ∈ r.links, d.raw.Holds e.id
  /-- The return field of a function is a field that it owns. -/
  returned : ∀ (i : Nat) (r : Record .functions), (d.arena .functions)[i]? = some r →
    ∀ id : Id .fields, r.returnField? = some id → ∃ field : Record .fields,
      (d.arena .fields)[id.index]? = some field ∧ field.parent = some ⟨.function, .ofNat i⟩
  rooted : ∀ k i, i < (d.arena (.decl k)).size → d.raw.Rooted ⟨k, .ofNat i⟩

theorem Sound.basesHold {d : Draft} (h : d.Sound) (c b : Id .classes) (hb : d.raw.Derives c b) :
    d.raw.Holds b := by
  obtain ⟨r, hr, hbase⟩ := hb
  have hlink := ClassBody.mem_links.mpr (.inl ⟨b, hbase, rfl⟩)
  exact h.links .classes r (Array.mem_of_getElem? hr) b.decl hlink

/-! ## Growth -/

/-- One draft comes after another. -/
structure Grows (d d' : Draft) : Prop where
  nameBlob : ∃ more, d'.names.texts.blob = d.names.texts.blob ++ more
  textBlob : ∃ more, d'.texts.blob = d.texts.blob ++ more
  headers : ∀ (a : Arena) (i : Nat) (r : Record a), (d.arena a)[i]? = some r →
    ∃ r' : Record a, (d'.arena a)[i]? = some r' ∧ r'.header = r.header

namespace Grows

variable {d d' : Draft}

theorem refl (d : Draft) : d.Grows d where
  nameBlob := ⟨"", by simp⟩
  textBlob := ⟨"", by simp⟩
  headers _ _ r hr := ⟨r, hr, rfl⟩

theorem trans {d'' : Draft} (h : d.Grows d') (h' : d'.Grows d'') : d.Grows d'' where
  nameBlob := by
    obtain ⟨more, hmore⟩ := h.nameBlob
    obtain ⟨more', hmore'⟩ := h'.nameBlob
    exact ⟨more ++ more', by rw [hmore', hmore, String.append_assoc]⟩
  textBlob := by
    obtain ⟨more, hmore⟩ := h.textBlob
    obtain ⟨more', hmore'⟩ := h'.textBlob
    exact ⟨more ++ more', by rw [hmore', hmore, String.append_assoc]⟩
  headers a i r hr := by
    obtain ⟨r', hr', hheader⟩ := h.headers a i r hr
    obtain ⟨r'', hr'', hheader'⟩ := h'.headers a i r' hr'
    exact ⟨r'', hr'', hheader'.trans hheader⟩

theorem size_le (h : d.Grows d') (a : Arena) : (d.arena a).size ≤ (d'.arena a).size := by
  apply Nat.le_of_not_lt
  intro hlt
  obtain ⟨_, hr', _⟩ := h.headers a _ _ (Array.getElem?_eq_getElem hlt)
  exact absurd (Array.getElem?_eq_some_iff.mp hr').1 (Nat.lt_irrefl _)

theorem owned (h : d.Grows d') {a : Arena} {i : Nat} {owner : DeclId}
    (hr : ∃ r : Record a, (d.arena a)[i]? = some r ∧ r.parent = some owner) :
    ∃ r : Record a, (d'.arena a)[i]? = some r ∧ r.parent = some owner := by
  obtain ⟨r, hr, hparent⟩ := hr
  obtain ⟨r', hr', hheader⟩ := h.headers a i r hr
  exact ⟨r', hr', (congrArg Header.parent hheader).trans hparent⟩

theorem numbered (h : d.Grows d') (hnum : d'.Numbered) : d.Numbered :=
  fun a => Nat.le_trans (h.size_le a) (hnum a)

theorem holds (h : d.Grows d') {a : Arena} {id : Id a} (hid : d.raw.Holds id) :
    d'.raw.Holds id :=
  Nat.lt_of_lt_of_le hid (h.size_le a)

theorem knows (h : d.Grows d') {e : DeclId} (he : d.raw.Knows e) : d'.raw.Knows e :=
  he.imp_right fun he => h.holds he

theorem resolve_name (h : d.Grows d') {s : TextSpan} {text : String}
    (hs : s.resolve? d.names.texts.blob = some text) :
    s.resolve? d'.names.texts.blob = some text := by
  obtain ⟨more, hmore⟩ := h.nameBlob
  rw [hmore]
  exact TextSpan.resolve?_append hs more

theorem resolve_text (h : d.Grows d') {s : TextSpan} {text : String}
    (hs : s.resolve? d.texts.blob = some text) : s.resolve? d'.texts.blob = some text := by
  obtain ⟨more, hmore⟩ := h.textBlob
  rw [hmore]
  exact TextSpan.resolve?_append hs more

theorem isSome_name (h : d.Grows d') {s : TextSpan}
    (hs : (s.resolve? d.names.texts.blob).isSome) : (s.resolve? d'.names.texts.blob).isSome := by
  obtain ⟨text, htext⟩ := Option.isSome_iff_exists.mp hs
  exact Option.isSome_iff_exists.mpr ⟨text, h.resolve_name htext⟩

theorem recordFits (h : d.Grows d') {a : Arena} {r : Record a} (hr : d.raw.RecordFits r) :
    d'.raw.RecordFits r where
  kind := hr.kind
  owner := by
    obtain ⟨p, hp, hknown, hallows⟩ := hr.owner
    exact ⟨p, hp, h.knows hknown, hallows⟩
  name := h.isSome_name hr.name

theorem valueFits (h : d.Grows d') {value : AttributeValue} (hv : d.raw.ValueFits value) :
    d'.raw.ValueFits value := by
  cases value with
  | name n => exact h.isSome_name hv
  | text s =>
    obtain ⟨text, htext⟩ := Option.isSome_iff_exists.mp hv
    exact Option.isSome_iff_exists.mpr ⟨text, h.resolve_text htext⟩
  | _ => trivial

theorem parentOf? (h : d.Grows d') {e p : DeclId} (he : d.raw.parentOf? e = some p) :
    d'.raw.parentOf? e = some p := by
  have hroot : e ≠ .root := by
    intro heq
    subst heq
    cases he
  exact (Image.parentOf?_eq_some_iff hroot).mpr (h.owned ((Image.parentOf?_eq_some_iff hroot).mp he))

theorem rooted (h : d.Grows d') {e : DeclId} (he : d.raw.Rooted e) : d'.raw.Rooted e := by
  induction he with
  | root => exact .root
  | owned hp _ ih => exact .owned (h.parentOf? hp) ih

end Grows
end Draft
end TypeAtlas
