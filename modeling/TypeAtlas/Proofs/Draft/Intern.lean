/-
What interning answers.

A span that interning answers resolves to the text it was answered for, in the
blob as it then is and therefore in every later one.  Interning touches no
record.
-/
import TypeAtlas.Proofs.Check
import TypeAtlas.Proofs.Draft.Sound

namespace TypeAtlas

open Check (bind_eq_ok_iff)

/-! ## Tables -/

theorem TextTable.intern_spec {t t' : TextTable} {what text : String} {span : TextSpan}
    (ht : t.Sound) (h : t.intern what text = .ok (span, t')) :
    t'.Sound ∧ span.resolve? t'.blob = some text ∧ ∃ more, t'.blob = t.blob ++ more := by
  unfold TextTable.intern at h
  cases hlookup : t.spans.lookup text with
  | some known =>
    rw [hlookup] at h
    obtain ⟨rfl, rfl⟩ := Prod.mk.inj (Except.ok.inj h)
    exact ⟨ht, ht text known hlookup, "", by simp⟩
  | none =>
    rw [hlookup] at h
    dsimp only at h
    by_cases hfits : t.blob.utf8ByteSize + text.utf8ByteSize < UInt32.size
    · rw [if_pos hfits] at h
      obtain ⟨rfl, rfl⟩ := Prod.mk.inj (Except.ok.inj h)
      have happended := TextSpan.resolve?_appended hfits
      refine ⟨fun other span hother => ?_, happended, text, rfl⟩
      rw [List.lookup_cons] at hother
      by_cases heq : other = text
      · subst heq
        rw [beq_self_eq_true] at hother
        obtain rfl := Option.some.inj hother
        exact happended
      · rw [beq_false_of_ne heq] at hother
        exact TextSpan.resolve?_append (ht other span hother) text
    · rw [if_neg hfits] at h
      cases h

/-- A name is stored under its hash, with a span that resolves to its text. -/
def NameInput.StoredAs (blob : String) (name : NameInput) (n : NameSpan) : Prop :=
  n.hash = name.hash ∧ n.text.resolve? blob = some name.string

theorem NameInput.storedAs_empty {name : NameInput} (blob : String) (hhash : name.hash = 0)
    (hstring : name.string = "") : name.StoredAs blob .empty := by
  refine ⟨hhash.symm, ?_⟩
  rw [hstring]
  exact TextSpan.resolve?_empty blob

theorem NameTable.intern_spec {t t' : NameTable} {name : NameInput} {n : NameSpan}
    (ht : t.texts.Sound) (hlisted : ∀ m ∈ t.listed, (m.text.resolve? t.texts.blob).isSome)
    (h : t.intern name = .ok (n, t')) :
    t'.texts.Sound ∧ (∀ m ∈ t'.listed, (m.text.resolve? t'.texts.blob).isSome) ∧
      name.StoredAs t'.texts.blob n ∧ ∃ more, t'.texts.blob = t.texts.blob ++ more := by
  unfold NameTable.intern at h
  by_cases hempty : (name.hash == 0 && name.string.isEmpty) = true
  · rw [if_pos hempty] at h
    obtain ⟨rfl, rfl⟩ := Prod.mk.inj (Except.ok.inj h)
    rw [Bool.and_eq_true, beq_iff_eq, String.isEmpty_iff] at hempty
    exact ⟨ht, hlisted, NameInput.storedAs_empty _ hempty.1 hempty.2, "", by simp⟩
  · rw [if_neg hempty] at h
    obtain ⟨⟨span, texts⟩, hintern, h⟩ := bind_eq_ok_iff.mp h
    obtain ⟨rfl, rfl⟩ := Prod.mk.inj (Except.ok.inj h)
    obtain ⟨hsound, hspan, more, hmore⟩ := TextTable.intern_spec ht hintern
    have hkept : ∀ m ∈ t.listed, (m.text.resolve? texts.blob).isSome := by
      intro m hm
      obtain ⟨text, htext⟩ := Option.isSome_iff_exists.mp (hlisted m hm)
      rw [hmore]
      exact Option.isSome_iff_exists.mpr ⟨text, TextSpan.resolve?_append htext more⟩
    refine ⟨hsound, fun m hm => ?_, ⟨rfl, hspan⟩, more, hmore⟩
    dsimp only at hm
    split at hm
    · exact hkept m hm
    · rcases Array.mem_push.mp hm with hm | rfl
      · exact hkept m hm
      · exact Option.isSome_iff_exists.mpr ⟨_, hspan⟩

namespace Draft

/-! ## Drafts -/

/-- Texts have been interned, and nothing else has happened. -/
structure Interns (d d' : Draft) : Prop extends d'.TextsSound where
  profile : d'.profile = d.profile
  records : d'.records = d.records
  nameBlob : ∃ more, d'.names.texts.blob = d.names.texts.blob ++ more
  textBlob : ∃ more, d'.texts.blob = d.texts.blob ++ more

variable {d d' : Draft}

theorem Interns.refl (h : d.TextsSound) : d.Interns d where
  toTextsSound := h
  profile := rfl
  records := rfl
  nameBlob := ⟨"", by simp⟩
  textBlob := ⟨"", by simp⟩

theorem Interns.arena_eq (h : d.Interns d') (a : Arena) : d'.arena a = d.arena a :=
  congrArg (·.get a) h.records

theorem Interns.grows (h : d.Interns d') : d.Grows d' where
  nameBlob := h.nameBlob
  textBlob := h.textBlob
  headers a i r hr := ⟨r, by rw [h.arena_eq]; exact hr, rfl⟩

theorem Interns.trans {d'' : Draft} (h : d.Interns d') (h' : d'.Interns d'') : d.Interns d'' where
  toTextsSound := h'.toTextsSound
  profile := h'.profile.trans h.profile
  records := h'.records.trans h.records
  nameBlob := (h.grows.trans h'.grows).nameBlob
  textBlob := (h.grows.trans h'.grows).textBlob

theorem internName_spec (hd : d.TextsSound) {name : NameInput} {n : NameSpan}
    (h : d.internName name = .ok (n, d')) :
    d.Interns d' ∧ name.StoredAs d'.names.texts.blob n := by
  obtain ⟨⟨span, names⟩, hintern, h⟩ := bind_eq_ok_iff.mp h
  obtain ⟨rfl, rfl⟩ := Prod.mk.inj (Except.ok.inj h)
  obtain ⟨hsound, hlisted, hstored, hmore⟩ := NameTable.intern_spec hd.nameTexts hd.names hintern
  exact ⟨⟨⟨hsound, hd.attributeTexts, hlisted⟩, rfl, rfl, hmore, ⟨"", by simp⟩⟩, hstored⟩

/-- How an image stores a value that was given with its texts. -/
def ValueInput.StoredAs (img : Image) : ValueInput → AttributeValue → Prop
  | .flag, .flag => True
  | .int x, .int y => y = x
  | .float x, .float y => y = x
  | .name given, .name n => given.StoredAs img.nameBlob n
  | .text given, .text span => span.resolve? img.textBlob = some given
  | _, _ => False

theorem ValueInput.kind_of_storedAs {img : Image} {value : ValueInput} {v : AttributeValue}
    (h : value.StoredAs img v) : v.kind = value.kind := by
  cases value <;> cases v <;> first | rfl | exact h.elim

theorem internValue_spec (hd : d.TextsSound) {value : ValueInput} {v : AttributeValue}
    (h : d.internValue value = .ok (v, d')) : d.Interns d' ∧ value.StoredAs d'.raw v := by
  cases value with
  | flag =>
    obtain ⟨rfl, rfl⟩ := Prod.mk.inj (Except.ok.inj h)
    exact ⟨.refl hd, trivial⟩
  | int x =>
    obtain ⟨rfl, rfl⟩ := Prod.mk.inj (Except.ok.inj h)
    exact ⟨.refl hd, rfl⟩
  | float x =>
    obtain ⟨rfl, rfl⟩ := Prod.mk.inj (Except.ok.inj h)
    exact ⟨.refl hd, rfl⟩
  | name name =>
    obtain ⟨⟨span, d₁⟩, hintern, h⟩ := bind_eq_ok_iff.mp h
    obtain ⟨rfl, rfl⟩ := Prod.mk.inj (Except.ok.inj h)
    exact internName_spec hd hintern
  | text text =>
    obtain ⟨⟨span, texts⟩, hintern, h⟩ := bind_eq_ok_iff.mp h
    obtain ⟨rfl, rfl⟩ := Prod.mk.inj (Except.ok.inj h)
    obtain ⟨hsound, hspan, hmore⟩ := TextTable.intern_spec hd.attributeTexts hintern
    exact ⟨⟨⟨hd.nameTexts, hsound, hd.names⟩, rfl, rfl, ⟨"", by simp⟩, hmore⟩, hspan⟩

end Draft
end TypeAtlas
