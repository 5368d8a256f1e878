/-
What lies under a span.

A span resolves to a text exactly when the blob is that text with something
before and something after it, of the right sizes.  A blob that grows at its end
therefore keeps every text it has, and a text lies under the span that it was
appended at.
-/
import TypeAtlas.Name.Span

namespace TypeAtlas
namespace TextSpan

theorem pos?_eq_some_iff {s : String} {off : String.Pos.Raw} {p : s.Pos} :
    s.pos? off = some p ↔ p.offset = off := by
  constructor
  · intro h
    simp only [String.pos?, String.Slice.pos?] at h
    split at h
    · simp only [Option.map_some, Option.some.injEq] at h
      subst h
      simp
    · simp at h
  · intro h
    subst h
    have hv : p.offset.isValidForSlice s.toSlice = true := by
      simpa using p.isValid
    simp [String.pos?, String.Slice.pos?, hv]
    rfl

theorem resolve?_eq_some_iff_extract {s : TextSpan} {blob text : String} :
    s.resolve? blob = some text ↔
      ∃ first last : blob.Pos, first.offset.byteIdx = s.start.toNat ∧
        last.offset.byteIdx = s.stop ∧ String.extract first last = text := by
  have hraw (p : String.Pos.Raw) (n : Nat) : p = ⟨n⟩ ↔ p.byteIdx = n := by
    rw [String.Pos.Raw.ext_iff]
  simp only [resolve?, Option.bind_eq_bind, Option.bind_eq_some_iff, pos?_eq_some_iff, hraw]
  constructor
  · rintro ⟨first, hf, last, hl, ht⟩
    exact ⟨first, last, hf, hl, Option.some.inj ht⟩
  · rintro ⟨first, last, hf, hl, ht⟩
    exact ⟨first, hf, last, hl, congrArg some ht⟩

/-- A text lies under a span exactly when the blob can be cut around it there. -/
theorem resolve?_eq_some_iff {s : TextSpan} {blob text : String} :
    s.resolve? blob = some text ↔
      ∃ before after, blob = before ++ text ++ after ∧
        before.utf8ByteSize = s.start.toNat ∧ text.utf8ByteSize = s.len.toNat := by
  rw [resolve?_eq_some_iff_extract]
  constructor
  · rintro ⟨first, last, hf, hl, htext⟩
    subst htext
    have hfl : first.offset.byteIdx ≤ last.offset.byteIdx := by rw [hf, hl, stop]; omega
    have hend : last.offset.byteIdx ≤ blob.toByteArray.size := by
      rw [String.size_toByteArray]
      exact last.isValid.le_rawEndPos
    refine ⟨String.extract blob.startPos first, String.extract last blob.endPos, ?_, ?_, ?_⟩
    · apply String.toByteArray_inj.mp
      simp only [String.toByteArray_append, String.toByteArray_extract, String.offset_startPos,
        String.offset_endPos, String.Pos.Raw.byteIdx_zero, String.byteIdx_rawEndPos,
        ByteArray.extract_append_extract, Nat.zero_min, Nat.max_eq_right hfl]
      rw [← String.size_toByteArray, Nat.max_eq_right hend, ByteArray.extract_zero_size]
    · rw [← String.size_toByteArray, String.toByteArray_extract, ByteArray.size_extract, ← hf]
      simp only [String.offset_startPos, String.Pos.Raw.byteIdx_zero]
      omega
    · rw [← String.size_toByteArray, String.toByteArray_extract, ByteArray.size_extract]
      rw [hl, stop] at hend ⊢
      omega
  · rintro ⟨before, after, hblob, hb, ht⟩
    subst hblob
    have hfirst : String.Pos.Raw.IsValid (before ++ text ++ after) before.rawEndPos :=
      String.Pos.Raw.isValid_iff_exists_append.mpr
        ⟨before, text ++ after, String.append_assoc, rfl⟩
    have hlast : String.Pos.Raw.IsValid (before ++ text ++ after) (before ++ text).rawEndPos :=
      String.Pos.Raw.isValid_iff_exists_append.mpr ⟨before ++ text, after, rfl, rfl⟩
    refine ⟨⟨_, hfirst⟩, ⟨_, hlast⟩, by simpa using hb, by simp [stop, hb, ht], ?_⟩
    apply String.toByteArray_inj.mp
    simp only [String.toByteArray_extract, String.toByteArray_append, String.byteIdx_rawEndPos]
    rw [ByteArray.append_assoc, String.utf8ByteSize_append, ← String.size_toByteArray,
      ← String.size_toByteArray]
    have hcut : (before.toByteArray ++ (text.toByteArray ++ after.toByteArray)).extract
        before.toByteArray.size (before.toByteArray.size + text.toByteArray.size) =
        (text.toByteArray ++ after.toByteArray).extract 0 text.toByteArray.size := by
      have h := @ByteArray.extract_append_size_add before.toByteArray
        (text.toByteArray ++ after.toByteArray) 0 text.toByteArray.size
      rwa [Nat.add_zero] at h
    rw [hcut, ByteArray.extract_append_eq_left rfl]

theorem resolve?_append {s : TextSpan} {blob text : String} (h : s.resolve? blob = some text)
    (more : String) : s.resolve? (blob ++ more) = some text := by
  obtain ⟨before, after, rfl, hb, ht⟩ := resolve?_eq_some_iff.mp h
  exact resolve?_eq_some_iff.mpr ⟨before, after ++ more, by simp only [String.append_assoc], hb, ht⟩

theorem resolve?_appended {blob text : String}
    (h : blob.utf8ByteSize + text.utf8ByteSize < UInt32.size) :
    resolve? ⟨.ofNat blob.utf8ByteSize, .ofNat text.utf8ByteSize⟩ (blob ++ text) = some text := by
  refine resolve?_eq_some_iff.mpr ⟨blob, "", by simp, ?_, ?_⟩
  · exact (UInt32.toNat_ofNat_of_lt' (by omega)).symm
  · exact (UInt32.toNat_ofNat_of_lt' (by omega)).symm

theorem resolve?_empty (blob : String) : TextSpan.empty.resolve? blob = some "" :=
  resolve?_eq_some_iff.mpr ⟨"", blob, by simp, rfl, rfl⟩

end TextSpan
end TypeAtlas
