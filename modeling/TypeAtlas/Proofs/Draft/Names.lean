/-
What a draft has interned.

A table of texts keeps each text it was given once, so its blob is the distinct texts in
the order of their first use, and a name is listed once under each of its hashes.
`Draft.InternedBy` says that a draft has interned what its log gives, and that no record
states a name but those.  Only a blob that is full leaves a name of a refused call behind.
-/
import Mathlib.Algebra.Order.Ring.Nat
import TypeAtlas.Proofs.Draft.Run

namespace TypeAtlas

open Check (bind_eq_ok_iff)

/-! ## Tables of texts -/

theorem eraseDups_concat {α : Type} [DecidableEq α] (xs : List α) (x : α) :
    (xs ++ [x]).eraseDups = if x ∈ xs then xs.eraseDups else xs.eraseDups ++ [x] := by
  rw [List.eraseDups_append, List.removeAll]
  by_cases hx : x ∈ xs
  · simp [hx]
  · simp [hx, List.eraseDups_cons]

namespace TextTable

/-- A table as interning some texts one after another leaves it. -/
structure Interned (t : TextTable) (texts : List String) : Prop where
  sound : t.Sound
  isSome_iff : ∀ text, (t.spans.lookup text).isSome ↔ text ∈ texts
  blob : t.blob = String.join texts.eraseDups

variable {t t' : TextTable} {what text : String} {span : TextSpan} {texts : List String}

theorem interned_empty : ({} : TextTable).Interned [] where
  sound := Draft.textTable_sound_empty
  isSome_iff text := by simp
  blob := rfl

theorem Interned.intern (ht : t.Interned texts) (h : t.intern what text = .ok (span, t')) :
    t'.Interned (texts ++ [text]) ∧ t'.spans.lookup text = some span ∧
      ∀ other ∈ texts, t'.spans.lookup other = t.spans.lookup other := by
  have hsound := (intern_spec ht.sound h).1
  rw [TextTable.intern] at h
  cases hlookup : t.spans.lookup text with
  | some known =>
    rw [hlookup] at h
    obtain ⟨rfl, rfl⟩ := Prod.mk.inj (Except.ok.inj h)
    have hmem : text ∈ texts := (ht.isSome_iff text).mp (by rw [hlookup]; rfl)
    refine ⟨⟨hsound, fun other => ?_, ?_⟩, hlookup, fun _ _ => rfl⟩
    · rw [ht.isSome_iff, List.mem_append, List.mem_singleton]
      exact (or_iff_left_of_imp fun heq => heq ▸ hmem).symm
    · rw [eraseDups_concat, if_pos hmem]
      exact ht.blob
  | none =>
    rw [hlookup] at h
    dsimp only at h
    have hnew : text ∉ texts := by
      rw [← ht.isSome_iff, hlookup]
      exact Bool.false_ne_true
    by_cases hfits : t.blob.utf8ByteSize + text.utf8ByteSize < UInt32.size
    · rw [if_pos hfits] at h
      obtain ⟨rfl, rfl⟩ := Prod.mk.inj (Except.ok.inj h)
      refine ⟨⟨hsound, fun other => ?_, ?_⟩, ?_, fun other hother => ?_⟩
      · rw [List.lookup_cons, List.mem_append, List.mem_singleton, ← ht.isSome_iff]
        by_cases heq : other = text
        · rw [beq_iff_eq.mpr heq]
          exact iff_of_true rfl (.inr heq)
        · rw [beq_false_of_ne heq]
          exact (or_iff_left heq).symm
      · rw [eraseDups_concat, if_neg hnew, String.join_append, ← ht.blob]
        simp
      · rw [List.lookup_cons, beq_self_eq_true]
      · have hne : other ≠ text := fun heq => hnew (heq ▸ hother)
        rw [List.lookup_cons, beq_false_of_ne hne]
    · rw [if_neg hfits] at h
      cases h

theorem Interned.size_blob (ht : t.Interned texts) :
    t.blob.utf8ByteSize = (texts.eraseDups.map String.utf8ByteSize).sum := by
  rw [ht.blob]
  induction texts.eraseDups with
  | nil => rfl
  | cons text rest ih =>
    rw [String.join_cons, String.utf8ByteSize_append, ih, List.map_cons, List.sum_cons]

theorem intern_error {e : DraftFault} (h : t.intern what text = .error e) :
    e = .overflow what := by
  rw [TextTable.intern] at h
  split at h
  · cases h
  · dsimp only at h
    split at h
    · cases h
    · exact (Except.error.inj h).symm

end TextTable

/-! ## Tables of names -/

namespace NameInput

/-- The empty text under hash zero stands for no name and is kept nowhere. -/
def isEmpty (name : NameInput) : Bool := name.hash == 0 && name.string.isEmpty

/-- The texts of the names that are kept. -/
def texts (names : List NameInput) : List String :=
  (names.filter fun name => !name.isEmpty).map (·.string)

variable {name : NameInput}

theorem isEmpty_iff : name.isEmpty = true ↔ name.hash = 0 ∧ name.string = "" := by
  rw [isEmpty, Bool.and_eq_true, beq_iff_eq, String.isEmpty_iff]

theorem mem_texts {names : List NameInput} {text : String} :
    text ∈ texts names ↔ ∃ name ∈ names, name.isEmpty = false ∧ name.string = text := by
  simp only [texts, List.mem_map, List.mem_filter, Bool.not_eq_true', and_assoc]

theorem texts_concat_of_empty {names : List NameInput} (h : name.isEmpty = true) :
    texts (names ++ [name]) = texts names := by
  rw [texts, List.filter_append, List.filter_singleton, h]
  simp [texts]

theorem texts_concat {names : List NameInput} (h : name.isEmpty = false) :
    texts (names ++ [name]) = texts names ++ [name.string] := by
  rw [texts, List.filter_append, List.filter_singleton, h]
  simp [texts]

end NameInput

namespace NameTable

/-- The span that a table has for a name. -/
def span (t : NameTable) (name : NameInput) : NameSpan :=
  if name.isEmpty then .empty
  else ⟨name.hash, (t.texts.spans.lookup name.string).getD .empty⟩

/-- A table as interning some names one after another leaves it. -/
structure Interned (t : NameTable) (names : List NameInput) : Prop where
  texts : t.texts.Interned (NameInput.texts names)
  mem_listed : ∀ n, n ∈ t.listed ↔ ∃ name ∈ names, name.isEmpty = false ∧ t.span name = n
  nodup : t.listed.toList.Nodup

/-- A span is that of the empty name or listed. -/
def Has (t : NameTable) (n : NameSpan) : Prop := n = .empty ∨ n ∈ t.listed

variable {t t' : NameTable} {name : NameInput} {n : NameSpan} {names : List NameInput}

theorem interned_empty : ({} : NameTable).Interned [] where
  texts := TextTable.interned_empty
  mem_listed n := by simp
  nodup := .nil

theorem intern_of_empty (hempty : name.isEmpty = true) : t.intern name = .ok (.empty, t) :=
  if_pos hempty

/-- A name that is kept has its text interned, and its span is listed once. -/
theorem exists_span_of_intern (hname : name.isEmpty = false) (h : t.intern name = .ok (n, t')) :
    ∃ span, t.texts.intern "name bytes" name.string = .ok (span, t'.texts) ∧
      n = ⟨name.hash, span⟩ ∧ t'.listed = if n ∈ t.listed then t.listed else t.listed.push n := by
  have hcond : ¬ (name.hash == 0 && name.string.isEmpty) = true := by
    show ¬ name.isEmpty = true
    rw [hname]
    exact Bool.false_ne_true
  rw [NameTable.intern, if_neg hcond] at h
  obtain ⟨⟨span, texts⟩, hintern, h⟩ := bind_eq_ok_iff.mp h
  obtain ⟨rfl, rfl⟩ := Prod.mk.inj (Except.ok.inj h)
  exact ⟨span, hintern, rfl, by simp⟩

theorem mem_listed_of_intern (hname : name.isEmpty = false) (h : t.intern name = .ok (n, t'))
    (m : NameSpan) : m ∈ t'.listed ↔ m ∈ t.listed ∨ n = m := by
  obtain ⟨_, _, _, hlisted⟩ := exists_span_of_intern hname h
  rw [hlisted]
  split
  · next hmem => exact (or_iff_left_of_imp fun heq => heq ▸ hmem).symm
  · rw [Array.mem_push, eq_comm]

theorem nodup_of_intern (hname : name.isEmpty = false) (h : t.intern name = .ok (n, t'))
    (hnodup : t.listed.toList.Nodup) : t'.listed.toList.Nodup := by
  obtain ⟨_, _, _, hlisted⟩ := exists_span_of_intern hname h
  rw [hlisted]
  split
  · exact hnodup
  · next hmem =>
    rw [Array.toList_push, List.nodup_append]
    refine ⟨hnodup, List.pairwise_singleton _ n, fun x hx y hy => ?_⟩
    obtain rfl := List.mem_singleton.mp hy
    exact fun heq => hmem (heq ▸ Array.mem_toList_iff.mp hx)

theorem has_intern (h : t.intern name = .ok (n, t')) : t'.Has n ∧ ∀ m, t.Has m → t'.Has m := by
  cases hname : name.isEmpty with
  | true =>
    rw [intern_of_empty hname] at h
    obtain ⟨rfl, rfl⟩ := Prod.mk.inj (Except.ok.inj h)
    exact ⟨.inl rfl, fun _ hm => hm⟩
  | false =>
    have hmem := mem_listed_of_intern hname h
    exact ⟨.inr ((hmem n).mpr (.inr rfl)), fun m hm => hm.imp_right fun hm => (hmem m).mpr (.inl hm)⟩

/-- Interning a name gives it the span that is answered, and leaves the spans of others. -/
theorem Interned.span_of_intern (ht : t.Interned names) (hname : name.isEmpty = false)
    (h : t.intern name = .ok (n, t')) :
    t'.span name = n ∧ ∀ other ∈ names, t'.span other = t.span other := by
  obtain ⟨span, hintern, hn, _⟩ := exists_span_of_intern hname h
  obtain ⟨_, hspan, hkept⟩ := ht.texts.intern hintern
  constructor
  · rw [NameTable.span, hname, hn, hspan]
    rfl
  · intro other hother
    rw [NameTable.span, NameTable.span]
    cases hempty : other.isEmpty with
    | true => rfl
    | false => rw [hkept _ (NameInput.mem_texts.mpr ⟨other, hother, hempty, rfl⟩)]

theorem Interned.intern (ht : t.Interned names) (h : t.intern name = .ok (n, t')) :
    t'.Interned (names ++ [name]) := by
  cases hname : name.isEmpty with
  | true =>
    rw [intern_of_empty hname] at h
    obtain ⟨rfl, rfl⟩ := Prod.mk.inj (Except.ok.inj h)
    constructor
    case texts =>
      rw [NameInput.texts_concat_of_empty hname]
      exact ht.texts
    case mem_listed =>
      intro m
      rw [ht.mem_listed]
      simp [hname, or_and_right, exists_or]
    case nodup => exact ht.nodup
  | false =>
    obtain ⟨_, hintern, _⟩ := exists_span_of_intern hname h
    obtain ⟨hself, hsame⟩ := ht.span_of_intern hname h
    constructor
    case texts =>
      rw [NameInput.texts_concat hname]
      exact (ht.texts.intern hintern).1
    case mem_listed =>
      intro m
      have hold : m ∈ t.listed ↔ ∃ other ∈ names, other.isEmpty = false ∧ t'.span other = m := by
        rw [ht.mem_listed]
        refine exists_congr fun other => and_congr_right fun hother => ?_
        rw [hsame other hother]
      rw [mem_listed_of_intern hname h, hold]
      simp [or_and_right, exists_or, hname, hself]
    case nodup => exact nodup_of_intern hname h ht.nodup

theorem Interned.storedAs_span (ht : t.Interned names) (hname : name ∈ names) :
    name.StoredAs t.texts.blob (t.span name) := by
  rw [span]
  cases hempty : name.isEmpty with
  | true =>
    obtain ⟨hhash, hstring⟩ := NameInput.isEmpty_iff.mp hempty
    exact NameInput.storedAs_empty _ hhash hstring
  | false =>
    have hmem := NameInput.mem_texts.mpr ⟨name, hname, hempty, rfl⟩
    obtain ⟨s, hs⟩ := Option.isSome_iff_exists.mp ((ht.texts.isSome_iff _).mpr hmem)
    rw [hs]
    exact ⟨rfl, ht.texts.sound _ _ hs⟩

/-- A span that a table has is its span of the name that is stored under it. -/
theorem Interned.span_eq (ht : t.Interned names) (hn : t.Has n)
    (hstored : name.StoredAs t.texts.blob n) : t.span name = n := by
  rcases hn with rfl | hn
  · have htext := hstored.2
    rw [show NameSpan.empty.text = TextSpan.empty from rfl, TextSpan.resolve?_empty] at htext
    have hempty := NameInput.isEmpty_iff.mpr ⟨hstored.1.symm, (Option.some.inj htext).symm⟩
    rw [span, if_pos hempty]
  · obtain ⟨other, hother, hkept, rfl⟩ := (ht.mem_listed n).mp hn
    obtain ⟨hhash, htext⟩ := ht.storedAs_span hother
    have hhash : name.hash = other.hash := hstored.1.symm.trans hhash
    have hstring : name.string = other.string := Option.some.inj (hstored.2.symm.trans htext)
    rw [span, span, NameInput.isEmpty, NameInput.isEmpty, hhash, hstring]

/-- Two names share a span of text exactly when their texts are equal. -/
theorem Interned.span_text_eq_iff (ht : t.Interned names) {other : NameInput} (hname : name ∈ names)
    (hother : other ∈ names) (hkept : name.isEmpty = false) (hkept' : other.isEmpty = false) :
    (t.span name).text = (t.span other).text ↔ name.string = other.string := by
  constructor
  · intro h
    have htext := (ht.storedAs_span hname).2
    rw [h, (ht.storedAs_span hother).2] at htext
    exact (Option.some.inj htext).symm
  · intro h
    rw [span, span, hkept, hkept', h]
    rfl

end NameTable

/-! ## Names of calls and records -/

namespace Draft

def ValueInput.names : ValueInput → List NameInput
  | .name value => [value]
  | _ => []

def ValueInput.texts : ValueInput → List String
  | .text value => [value]
  | _ => []

/-- The names given for a record, its own first. -/
def Entry.names : {a : Arena} → Entry a → List NameInput
  | .attributes, e => e.name :: ValueInput.names e.content
  | .decl _, e => [e.name]

def Entry.texts : {a : Arena} → Entry a → List String
  | .attributes, e => ValueInput.texts e.content
  | .decl _, _ => []

namespace Call

/-- The names that a call interns, in this order. -/
def names : Call → List NameInput
  | addNamespace name _ | addType name _ _ | addEnum name _ _ | addEnumConstant name _ _
  | addClass name _ _ | addField name _ _ _ _ | addParameter name _ _ _ _
  | addFunction name _ _ _ | addTemplate name _ | addTemplateType name _ _ _
  | internName name => [name]
  | addAttribute name _ value => name :: value.names
  | setReturn _ _ _ => [.text "return"]
  | setBase _ _ | setConstructor _ _ | setDestructor _ _ => []

/-- The texts of attributes that a call interns. -/
def texts : Call → List String
  | addAttribute _ _ value => value.texts
  | _ => []

theorem names_of_entry {c : Call} {a : Arena} {e : Entry a} (h : c.entry a = some e) :
    c.names = e.names ∧ c.texts = e.texts := by
  cases a with
  | attributes =>
    cases c <;> first
      | (obtain rfl := Option.some.inj h; exact ⟨rfl, rfl⟩)
      | cases h
  | decl k =>
    cases k <;> cases c <;> first
      | (obtain rfl := Option.some.inj h; exact ⟨rfl, rfl⟩)
      | cases h

end Call

namespace Log

def names (log : Log) : List NameInput := log.flatMap (·.1.names)

def texts (log : Log) : List String := log.flatMap (·.1.texts)

theorem names_concat (log : Log) (c : Call) (reply : Reply) :
    names (log ++ [(c, reply)]) = log.names ++ c.names := by
  simp [names]

theorem texts_concat (log : Log) (c : Call) (reply : Reply) :
    texts (log ++ [(c, reply)]) = log.texts ++ c.texts := by
  simp [texts]

end Log
end Draft

def AttributeValue.names : AttributeValue → List NameSpan
  | name value => [value]
  | _ => []

/-- The names that a record states, its own first. -/
def Record.names : {a : Arena} → Record a → List NameSpan
  | .attributes, r => r.name :: AttributeValue.names r.body
  | .decl _, r => [r.name]

/-! ## Drafts -/

namespace Draft

variable {d d' d₁ : Draft} {log : Log} {c : Call} {reply : Reply} {a : Arena}

/-- Names and texts have been interned one after another. -/
structure InternsAll (d d' : Draft) (names : List NameInput) (texts : List String) : Prop where
  names : ∀ before, d.names.Interned before → d'.names.Interned (before ++ names)
  texts : ∀ before, d.texts.Interned before → d'.texts.Interned (before ++ texts)
  has : ∀ n, d.names.Has n → d'.names.Has n

theorem InternsAll.refl (d : Draft) : d.InternsAll d [] [] where
  names before h := by rwa [List.append_nil]
  texts before h := by rwa [List.append_nil]
  has _ h := h

theorem InternsAll.trans {d'' : Draft} {names names' : List NameInput} {texts texts' : List String}
    (h : d.InternsAll d' names texts) (h' : d'.InternsAll d'' names' texts') :
    d.InternsAll d'' (names ++ names') (texts ++ texts') where
  names before hb := by
    rw [← List.append_assoc]
    exact h'.names _ (h.names before hb)
  texts before hb := by
    rw [← List.append_assoc]
    exact h'.texts _ (h.texts before hb)
  has n hn := h'.has n (h.has n hn)

theorem internsAll_internName {name : NameInput} {n : NameSpan}
    (h : d.internName name = .ok (n, d')) : d.InternsAll d' [name] [] ∧ d'.names.Has n := by
  obtain ⟨⟨span, names⟩, hintern, h⟩ := bind_eq_ok_iff.mp h
  obtain ⟨rfl, rfl⟩ := Prod.mk.inj (Except.ok.inj h)
  obtain ⟨hself, hhas⟩ := NameTable.has_intern hintern
  refine ⟨⟨fun before hb => hb.intern hintern, fun before hb => ?_, hhas⟩, hself⟩
  rwa [List.append_nil]

theorem internsAll_internValue {value : ValueInput} {v : AttributeValue}
    (h : d.internValue value = .ok (v, d')) :
    d.InternsAll d' value.names value.texts ∧ ∀ n ∈ v.names, d'.names.Has n := by
  cases value with
  | name name =>
    obtain ⟨⟨span, d₁⟩, hintern, h⟩ := bind_eq_ok_iff.mp h
    obtain ⟨rfl, rfl⟩ := Prod.mk.inj (Except.ok.inj h)
    obtain ⟨hinterns, hhas⟩ := internsAll_internName hintern
    refine ⟨hinterns, fun n hn => ?_⟩
    obtain rfl := List.mem_singleton.mp hn
    exact hhas
  | text text =>
    obtain ⟨⟨span, texts⟩, hintern, h⟩ := bind_eq_ok_iff.mp h
    obtain ⟨rfl, rfl⟩ := Prod.mk.inj (Except.ok.inj h)
    refine ⟨⟨fun before hb => ?_, fun before hb => (hb.intern hintern).1, fun _ hn => hn⟩, ?_⟩
    · rwa [show before ++ (ValueInput.text text).names = before from List.append_nil before]
    · exact fun n hn => absurd hn List.not_mem_nil
  | _ =>
    obtain ⟨rfl, rfl⟩ := Prod.mk.inj (Except.ok.inj h)
    exact ⟨.refl d, fun n hn => absurd hn List.not_mem_nil⟩

theorem internsAll_of_interned {e : Entry a} {r : Record a} (h : e.Interned d d₁ r) :
    d.InternsAll d₁ e.names e.texts ∧ ∀ n ∈ r.names, d₁.names.Has n := by
  cases a with
  | attributes =>
    obtain ⟨d₀, hname, hvalue⟩ := h
    obtain ⟨hnamed, hself⟩ := internsAll_internName hname
    obtain ⟨hvalued, hbody⟩ := internsAll_internValue hvalue
    refine ⟨hnamed.trans hvalued, fun n hn => ?_⟩
    rcases List.mem_cons.mp hn with rfl | hn
    · exact hvalued.has _ hself
    · exact hbody n hn
  | decl k =>
    obtain ⟨hnamed, hself⟩ := internsAll_internName h
    refine ⟨hnamed, fun n hn => ?_⟩
    obtain rfl := List.mem_singleton.mp hn
    exact hself

/-- A draft has interned what its log gives, and states no other names. -/
structure InternedBy (d : Draft) (log : Log) : Prop where
  names : d.names.Interned log.names
  texts : d.texts.Interned log.texts
  records : ∀ a, ∀ r ∈ d.arena a, ∀ n ∈ r.names, d.names.Has n
  replies : ∀ name reply, (.internName name, reply) ∈ log →
    ∃ n, reply = .name n ∧ d.names.Has n ∧ name.StoredAs d.names.texts.blob n

theorem internedBy_empty (p : Profile) : ({ profile := p } : Draft).InternedBy [] where
  names := NameTable.interned_empty
  texts := TextTable.interned_empty
  records a r hr := by
    rw [arena_empty] at hr
    exact absurd hr (Array.not_mem_empty r)
  replies _ _ h := absurd h List.not_mem_nil

theorem InternedBy.replies_concat (h : d.InternedBy log) (hgrows : d.Grows d')
    (hhas : ∀ n, d.names.Has n → d'.names.Has n)
    (hnew : ∀ name, c = .internName name →
      ∃ n, reply = .name n ∧ d'.names.Has n ∧ name.StoredAs d'.names.texts.blob n) :
    ∀ name r, (.internName name, r) ∈ log ++ [(c, reply)] →
      ∃ n, r = .name n ∧ d'.names.Has n ∧ name.StoredAs d'.names.texts.blob n := by
  intro name r hmem
  rcases List.mem_append.mp hmem with hmem | hmem
  · obtain ⟨n, hr, hn, hstored⟩ := h.replies name r hmem
    exact ⟨n, hr, hhas n hn, hgrows.nameStoredAs hstored⟩
  · obtain ⟨hc, rfl⟩ := Prod.mk.inj (List.mem_singleton.mp hmem)
    exact hnew name hc.symm

theorem InternedBy.push (h : d.InternedBy log) {e : Entry a} {r : Record a} (ht : d.Takes d₁ e r)
    (hentry : c.entry a = some e) : (d₁.push r).2.InternedBy (log ++ [(c, reply)]) := by
  obtain ⟨hinterns, hnames⟩ := internsAll_of_interned ht.interned
  obtain ⟨hcnames, hctexts⟩ := Call.names_of_entry hentry
  refine ⟨?_, ?_, ?_, h.replies_concat ht.grows hinterns.has fun name hc => ?_⟩
  · rw [Log.names_concat, hcnames]
    exact hinterns.names _ h.names
  · rw [Log.texts_concat, hctexts]
    exact hinterns.texts _ h.texts
  · exact forall_push ht (fun b s hs n hn => hinterns.has n (h.records b s hs n hn)) hnames
  · subst hc
    have hnone : (Call.internName name).entry a = none :=
      Call.entry_eq_none (Option.some_ne_none a).symm
    rw [hnone] at hentry
    cases hentry

theorem names_changed {k : DeclKind} {id : Id (.decl k)} {f : Body (.decl k) → Body (.decl k)}
    {b : Arena} {s : Record b} (hs : s ∈ (d.changed id f).arena b) :
    ∃ r ∈ d.arena b, s.names = r.names := by
  by_cases hb : b = .decl k
  · subst hb
    obtain ⟨i, hi⟩ := Array.getElem?_of_mem hs
    rw [changed_getElem?] at hi
    obtain ⟨r, hr, rfl⟩ := Option.map_eq_some_iff.mp hi
    refine ⟨r, Array.mem_of_getElem? hr, ?_⟩
    split <;> rfl
  · rw [changed_arena_of_ne hb] at hs
    exact ⟨s, hs, rfl⟩

theorem InternedBy.changed (h : d.InternedBy log) {k : DeclKind} (id : Id (.decl k))
    (f : Body (.decl k) → Body (.decl k)) : (d.changed id f).InternedBy log where
  names := h.names
  texts := h.texts
  records b s hs := by
    obtain ⟨r, hr, hnames⟩ := names_changed hs
    rw [hnames]
    exact h.records b r hr
  replies := h.replies

/-- A call that changes a class interns nothing. -/
theorem InternedBy.concat (h : d.InternedBy log) (hnames : c.names = []) (htexts : c.texts = [])
    (hc : ∀ name, c ≠ .internName name) : d.InternedBy (log ++ [(c, reply)]) where
  names := by
    rw [Log.names_concat, hnames, List.append_nil]
    exact h.names
  texts := by
    rw [Log.texts_concat, htexts, List.append_nil]
    exact h.texts
  records := h.records
  replies := h.replies_concat (.refl d) (fun _ hn => hn) fun name heq => absurd heq (hc name)

theorem Effect.internedBy (h : Effect d c reply d') (hd : d.TextsSound) (hi : d.InternedBy log) :
    d'.InternedBy (log ++ [(c, reply)]) := by
  cases h with
  | @interned name n _ h hintern =>
    obtain ⟨hinterns, hself⟩ := internsAll_internName hintern
    refine ⟨?_, ?_, fun a r hr m hm => ?_, hi.replies_concat h.grows hinterns.has fun other hc => ?_⟩
    · rw [Log.names_concat]
      exact hinterns.names _ hi.names
    · rw [Log.texts_concat]
      exact hinterns.texts _ hi.texts
    · rw [h.arena_eq] at hr
      exact hinterns.has m (hi.records a r hr m hm)
    · obtain rfl := Call.internName.inj hc
      exact ⟨n, rfl, hself, (internName_spec hd hintern).2⟩
  | added hentry _ h => exact hi.push h hentry
  | base => exact (hi.changed _ _).concat rfl rfl fun _ h => by cases h
  | constructor => exact (hi.changed _ _).concat rfl rfl fun _ h => by cases h
  | destructor => exact (hi.changed _ _).concat rfl rfl fun _ h => by cases h
  | returned _ _ hentry h => exact (hi.push h hentry).changed _ _

/-! ## Sequences of calls -/

theorem internName_error {name : NameInput} {e : DraftFault} (h : d.internName name = .error e) :
    ∃ what, e = .overflow what := by
  rw [internName] at h
  cases hintern : d.names.intern name with
  | ok answer =>
    rw [hintern] at h
    cases h
  | error e' =>
    rw [hintern] at h
    obtain rfl := Except.error.inj h
    rw [NameTable.intern] at hintern
    split at hintern
    · cases hintern
    · cases htexts : d.names.texts.intern "name bytes" name.string with
      | ok answer =>
        rw [htexts] at hintern
        cases hintern
      | error e =>
        rw [htexts] at hintern
        obtain rfl := Except.error.inj hintern
        exact ⟨_, TextTable.intern_error htexts⟩

theorem internValue_error {value : ValueInput} {e : DraftFault}
    (h : d.internValue value = .error e) : ∃ what, e = .overflow what := by
  cases value with
  | name name =>
    cases hintern : d.internName name with
    | ok answer =>
      rw [internValue, hintern] at h
      cases h
    | error e' =>
      rw [internValue, hintern] at h
      obtain rfl := Except.error.inj h
      exact internName_error hintern
  | text text =>
    cases hintern : d.texts.intern "attribute text bytes" text with
    | ok answer =>
      rw [internValue, hintern] at h
      cases h
    | error e' =>
      rw [internValue, hintern] at h
      obtain rfl := Except.error.inj h
      exact ⟨_, TextTable.intern_error hintern⟩
  | _ => cases h

/-- A call that is refused leaves the draft as it was, unless a blob is full. -/
theorem refused_eq {e : DraftFault} (h : d.call c = .error e) (hroom : ∀ what, e ≠ .overflow what) :
    d.refused c = d := by
  cases c with
  | addAttribute name owner value =>
    cases hnamed : d.nameAttribute value.kind name owner with
    | error e' =>
      rw [refused, hnamed]
    | ok answer =>
      obtain ⟨span, d₁⟩ := answer
      cases hvalue : d₁.internValue value with
      | ok answer =>
        rw [call, addAttribute, hnamed] at h
        dsimp only [bind, Except.bind] at h
        rw [hvalue] at h
        cases h
      | error e' =>
        rw [call, addAttribute, hnamed] at h
        dsimp only [bind, Except.bind] at h
        rw [hvalue] at h
        obtain rfl := Except.error.inj h
        obtain ⟨what, rfl⟩ := internValue_error hvalue
        exact absurd rfl (hroom what)
  | _ => rfl

/-- No call was refused because a blob is full. -/
def HasRoom (replies : List (Except DraftFault Reply)) : Prop :=
  ∀ reply ∈ replies, ∀ what, reply ≠ .error (.overflow what)

theorem internedBy_run (hd : d.TextsSound) (hi : d.InternedBy log) (calls : List Call)
    (hroom : HasRoom (d.run calls).1) :
    (d.run calls).2.InternedBy (log ++ Log.of calls (d.run calls).1) := by
  induction calls generalizing d log with
  | nil =>
    have hnil : Log.of [] (d.run []).1 = [] := rfl
    rw [hnil, List.append_nil]
    exact hi
  | cons c calls ih =>
    cases h : d.call c with
    | error e =>
      rw [run_cons_error h] at hroom ⊢
      obtain ⟨hfirst, hrest⟩ := List.forall_mem_cons.mp hroom
      have hsame := refused_eq h fun what he => hfirst what (congrArg Except.error he)
      rw [hsame] at hrest ⊢
      exact ih hd hi hrest
    | ok answer =>
      obtain ⟨reply, d'⟩ := answer
      have heffect := effect_of_call hd h
      rw [run_cons_ok h] at hroom ⊢
      have hrest := ih (heffect.textsSound hd) (heffect.internedBy hd hi)
        (List.forall_mem_cons.mp hroom).2
      have hlog : log ++ Log.of (c :: calls) (.ok reply :: (d'.run calls).1) =
          log ++ [(c, reply)] ++ Log.of calls (d'.run calls).1 := by
        rw [List.append_assoc]
        rfl
      rw [hlog]
      exact hrest

theorem internedBy_made {p : Profile} {calls : List Call}
    (hroom : HasRoom (({ profile := p } : Draft).run calls).1) :
    (made p calls).InternedBy (logOf p calls) :=
  internedBy_run (sound_empty p).toTextsSound (internedBy_empty p) calls hroom

end Draft
end TypeAtlas
