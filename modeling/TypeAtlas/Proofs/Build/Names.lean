/-
Names survive building.

Laying a draft out sorts its names and moves its records, but leaves its blobs as they
are.  Every span that interning has answered therefore still stands for its text, and
`Log.KeepsNames` says so of the calls and the built image only.
-/
import TypeAtlas.Proofs.Build.Renumbering
import TypeAtlas.Proofs.Draft.Names
import TypeAtlas.Proofs.Query.Lookup

namespace TypeAtlas
namespace Draft

variable {d : Draft} {log : Log} {a : Arena}

/-! ## The name table -/

theorem mem_names_image {n : NameSpan} :
    n ∈ d.image.names ↔ n ∈ d.names.listed ∧ n.hash ≠ 0 := by
  show n ∈ List.toArray _ ↔ _
  rw [List.mem_toArray, List.mem_mergeSort, List.mem_filter, Array.mem_toList_iff, NameSpan.isEmpty,
    Bool.not_eq_true', beq_eq_false_iff_ne]

theorem nodup_names_image (h : d.names.listed.toList.Nodup) : d.image.names.toList.Nodup := by
  have hperm := List.mergeSort_perm (d.names.listed.toList.filter fun n => !n.isEmpty)
    fun x y => x.hash ≤ y.hash
  exact hperm.nodup_iff.mpr (h.filter _)

theorem InternedBy.mem_names_iff (h : d.InternedBy log) {n : NameSpan} :
    n ∈ d.image.names ↔ ∃ name ∈ log.names, name.hash ≠ 0 ∧ d.names.span name = n := by
  rw [mem_names_image, h.names.mem_listed]
  constructor
  · rintro ⟨⟨name, hname, _, rfl⟩, hhash⟩
    rw [(h.names.storedAs_span hname).1] at hhash
    exact ⟨name, hname, hhash, rfl⟩
  · rintro ⟨name, hname, hhash, rfl⟩
    have hkept : name.isEmpty = false := by
      rw [Bool.eq_false_iff]
      exact fun hempty => hhash (NameInput.isEmpty_iff.mp hempty).1
    refine ⟨⟨name, hname, hkept, rfl⟩, ?_⟩
    rw [(h.names.storedAs_span hname).1]
    exact hhash

/-- What a lookup of a hash answers, by the names that were interned. -/
theorem InternedBy.getName_cases (h : d.InternedBy log) {hash : UInt32} (hne : hash ≠ 0) :
    (d.image.getName hash = .empty ∧ ∀ name ∈ log.names, name.hash ≠ hash) ∨
      ∃ name ∈ log.names, name.hash = hash ∧ d.image.getName hash = .ofText hash name.string := by
  have hresolves : ∀ n ∈ d.image.names, (n.text.resolve? d.image.nameBlob).isSome := by
    intro n hn
    obtain ⟨name, hname, _, rfl⟩ := h.mem_names_iff.mp hn
    exact Option.isSome_iff_exists.mpr ⟨_, (h.names.storedAs_span hname).2⟩
  rcases Image.getName_cases hresolves (nameIndex_sorted d) hne with
    ⟨hempty, hnone⟩ | ⟨n, hn, text, hhash, htext, hget⟩
  · refine .inl ⟨hempty, fun name hname hhash => ?_⟩
    have hmem := h.mem_names_iff.mpr ⟨name, hname, hhash ▸ hne, rfl⟩
    exact hnone _ hmem ((h.names.storedAs_span hname).1.trans hhash)
  · obtain ⟨name, hname, _, rfl⟩ := h.mem_names_iff.mp hn
    obtain ⟨hstored, hstring⟩ := h.names.storedAs_span hname
    obtain rfl := Option.some.inj (htext.symm.trans hstring)
    exact .inr ⟨name, hname, hstored.symm.trans hhash, hget⟩

/-! ## Records -/

theorem names_laidOut (j : Nat) (r : Record a) : (d.laidOut j r).names = r.names := by
  cases a with
  | attributes => rfl
  | decl k => exact congrArg (fun n => [n]) (name_laidOut j r)

/-- The names that a value is stored with are the spans of those it was given with. -/
theorem names_of_storedAs {names : List NameInput} {value : ValueInput} {v : AttributeValue}
    (hnames : d.names.Interned names) (h : value.StoredAs d.raw v)
    (hhas : ∀ n ∈ v.names, d.names.Has n) : v.names = value.names.map d.names.span := by
  cases value <;> cases v <;> first | rfl | exact h.elim | skip
  exact congrArg (fun n => [n]) (hnames.span_eq (hhas _ (List.mem_singleton.mpr rfl)) h).symm

/-- A record states the names that were given for it. -/
theorem Recorded.names_eq {i : Nat} {e : Entry a} {r : Record a} (h : d.Recorded log i e r)
    {names : List NameInput} (hnames : d.names.Interned names)
    (hhas : ∀ n ∈ r.names, d.names.Has n) : r.names = e.names.map d.names.span := by
  cases a with
  | decl k =>
    have hself := hnames.span_eq (hhas _ (List.mem_singleton.mpr rfl)) h.name
    exact congrArg (fun n => [n]) hself.symm
  | attributes =>
    have hself := hnames.span_eq (hhas _ List.mem_cons_self) h.name
    have hbody : ValueInput.StoredAs d.raw e.content r.body := h.body
    have hvalue := names_of_storedAs hnames hbody fun n hn => hhas n (List.mem_cons_of_mem _ hn)
    show r.name :: AttributeValue.names r.body =
      d.names.span e.name :: (ValueInput.names e.content).map d.names.span
    rw [hself, hvalue]

theorem textValue_of_storedAs {img : Image} {r : Ref .attributes} {text : String}
    (h : ValueInput.StoredAs img (.text text) r.record.body) :
    img.textValue r = .ok (some text) := by
  rw [Image.textValue, Record.expectText]
  cases hbody : r.record.body with
  | text span =>
    rw [hbody] at h
    exact congrArg Except.ok h
  | _ =>
    rw [hbody] at h
    exact h.elim

namespace Log

/-- The names and texts that the calls of a log give stand in an image as they were
given, each under one span. -/
structure KeepsNames (log : Log) (place : log.Placement) (span : NameInput → NameSpan)
    (img : Image) : Prop where
  stored : ∀ name ∈ log.names, name.StoredAs img.nameBlob (span name)
  shared : ∀ name ∈ log.names, ∀ other ∈ log.names, name.isEmpty = false → other.isEmpty = false →
    ((span name).text = (span other).text ↔ name.string = other.string)
  replies : ∀ name reply, (.internName name, reply) ∈ log → reply = .name (span name)
  records : ∀ a (i : Fin (log.added a).length) (r : Record a),
    (img.arena a)[(place a i).val]? = some r → r.names = ((log.added a).get i).2.names.map span
  values : ∀ (i : Fin (log.added .attributes).length) (r : Ref .attributes) (text : String),
    (img.arena .attributes)[(place .attributes i).val]? = some r.record →
      ((log.added .attributes).get i).2.content = .text text → img.textValue r = .ok (some text)
  sorted : (img.names.toList.map (·.hash)).Pairwise (· ≤ ·)
  once : ∀ name ∈ log.names, name.hash ≠ 0 → img.names.toList.count (span name) = 1 ∧
    ∀ n ∈ img.names, name.StoredAs img.nameBlob n → n = span name
  only : ∀ n ∈ img.names, ∃ name ∈ log.names, name.hash ≠ 0 ∧ span name = n
  /-- The blob is the distinct texts in the order of their first use. -/
  blob : img.nameBlob = String.join (NameInput.texts log.names).eraseDups
  size : img.nameBlob.utf8ByteSize =
    ((NameInput.texts log.names).eraseDups.map String.utf8ByteSize).sum
  byText : ∀ text, hashText text ≠ 0 → (∃ name ∈ log.names, name.hash = hashText text) →
    (∀ name ∈ log.names, name.hash = hashText text → name.string = text) →
      img.getNameByText text = .ofText (hashText text) text
  absent : ∀ text, (hashText text ≠ 0 → ∀ name ∈ log.names, name.hash ≠ hashText text) →
    img.getNameByText text = .empty

end Log

theorem Agrees.keepsNames (ha : d.Agrees log) (hi : d.InternedBy log) :
    log.KeepsNames ha.placement d.names.span d.image := by
  have hlaid {a : Arena} (i : Fin (log.added a).length) {s : Record a}
      (hs : (d.image.arena a)[(ha.placement a i).val]? = some s) :
      ∃ r, s = d.laidOut (d.place a i.val) r ∧ r ∈ d.arena a ∧
        d.Recorded log i.val ((log.added a).get i).2 r := by
    obtain ⟨r, hr, hrecorded⟩ := ha.records a i _ (List.getElem?_eq_getElem i.isLt)
    rw [ha.coe_placement, image_getElem?_place hr] at hs
    exact ⟨r, (Option.some.inj hs).symm, Array.mem_of_getElem? hr, hrecorded⟩
  constructor
  case stored => exact fun name hname => hi.names.storedAs_span hname
  case shared => exact fun name hname other hother => hi.names.span_text_eq_iff hname hother
  case replies =>
    intro name reply hmem
    obtain ⟨n, rfl, hhas, hstored⟩ := hi.replies name reply hmem
    rw [hi.names.span_eq hhas hstored]
  case records =>
    intro a i s hs
    obtain ⟨r, rfl, hr, hrecorded⟩ := hlaid i hs
    rw [names_laidOut]
    exact hrecorded.names_eq hi.names (hi.records a r hr)
  case values =>
    intro i s text hs htext
    obtain ⟨r, heq, _, hrecorded⟩ := hlaid i hs
    have hbody : ValueInput.StoredAs d.raw ((log.added .attributes).get i).2.content r.body :=
      hrecorded.body
    rw [htext] at hbody
    refine textValue_of_storedAs ?_
    rw [heq]
    exact hbody
  case sorted => exact nameIndex_sorted d
  case once =>
    intro name hname hhash
    have hmem := hi.mem_names_iff.mpr ⟨name, hname, hhash, rfl⟩
    refine ⟨List.count_eq_one_of_mem (nodup_names_image hi.names.nodup)
      (Array.mem_toList_iff.mpr hmem), fun n hn hstored => ?_⟩
    exact (hi.names.span_eq (.inr (mem_names_image.mp hn).1) hstored).symm
  case only => exact fun n hn => hi.mem_names_iff.mp hn
  case blob => exact hi.names.texts.blob
  case size => exact hi.names.texts.size_blob
  case byText =>
    intro text hne hinterned halone
    rw [Image.getNameByText]
    obtain ⟨other, hother, hhash⟩ := hinterned
    rcases hi.getName_cases hne with ⟨_, hnone⟩ | ⟨name, hname, hhash, hget⟩
    · exact absurd hhash (hnone other hother)
    · rw [hget, halone name hname hhash]
  case absent =>
    intro text hnone
    rw [Image.getNameByText]
    by_cases hzero : hashText text = 0
    · rw [hzero]
      exact d.image.getName_zero
    · rcases hi.getName_cases hzero with ⟨hempty, _⟩ | ⟨name, hname, hhash, _⟩
      · exact hempty
      · exact absurd hhash (hnone hzero name hname)

/-- Whatever was done to a draft, as long as its blobs have room, the image that is built
from it keeps the names and texts of the calls that were accepted, and no others.  Numbers
are 32-bit words, so an arena has no more records than there are words. -/
theorem build_keeps_names (p : Profile) (calls : List Call) (account : Option Account)
    (bank : Bank) {held : Holding} (hnumbers : ∀ a, ((made p calls).arena a).size ≤ UInt32.size)
    (hroom : HasRoom (({ profile := p } : Draft).run calls).1)
    (hbuilt : ((made p calls).build account bank).1 = .ok held) :
    ∃ (place : (logOf p calls).Placement) (span : NameInput → NameSpan),
      (logOf p calls).RenumberedIn place held.image ∧
      (logOf p calls).KeepsNames place span held.image := by
  have hagrees := agrees_made hnumbers
  rw [image_of_build hbuilt]
  exact ⟨_, _, hagrees.renumberedIn_image (sound_made hnumbers),
    hagrees.keepsNames (internedBy_made hroom)⟩

/-- A type and an enum of one text, which two attributes of the enum share, and a name
under hash zero. -/
def namedEnum : List Call :=
  [.addEnum (.hashed 2 "A") .root 4, .addType (.hashed 1 "A") .root 4,
    .addAttribute (.hashed 3 "B") ⟨.enum, 0⟩ (.name (.hashed 4 "A")),
    .addAttribute (.hashed 3 "B") ⟨.enum, 0⟩ (.text "A"), .internName (.hashed 0 "C"),
    .addType (.hashed 5 "D") ⟨.enum, 0⟩ 4]

theorem replies_namedEnum : (({ profile := .full } : Draft).run namedEnum).1 =
    [.ok (.added 0), .ok (.added 0), .ok (.added 0), .ok (.added 1), .ok (.name ⟨0, ⟨2, 1⟩⟩),
      .error (.invalidParent (.decl .type) .enum)] := by rfl

theorem build_keeps_names_namedEnum :
    ∃ held, ((made .full namedEnum).build none {}).1 = .ok held ∧
      ∃ (place : (logOf .full namedEnum).Placement) (span : NameInput → NameSpan),
        (logOf .full namedEnum).KeepsNames place span held.image := by
  have hcounts : ∀ a, ((made .full namedEnum).arena a).size < UInt32.size := by decide +kernel
  have hroom : HasRoom (({ profile := .full } : Draft).run namedEnum).1 := by
    rw [replies_namedEnum]
    intro reply hreply what heq
    subst heq
    simp at hreply
  have hbuilt := build_of_no_classes .full namedEnum {} hcounts (by decide +kernel)
  obtain ⟨place, span, _, hkeeps⟩ := build_keeps_names .full namedEnum none {}
    (fun a => Nat.le_of_lt (hcounts a)) hroom hbuilt
  exact ⟨_, hbuilt, place, span, hkeeps⟩

end Draft
end TypeAtlas
