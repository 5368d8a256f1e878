/-
The format of an image is exact.

Part by part.  Nothing in a record has a length of its own, so every record can be
written; of an image only the lengths of its arrays and blobs have to fit in 64 bits.
-/
import Mathlib.Algebra.Order.BigOperators.Group.List
import Mathlib.Algebra.Order.Ring.Nat
import TypeAtlas.Codec.Image
import TypeAtlas.Image.Holding
import TypeAtlas.Proofs.Codec.Exact

namespace TypeAtlas

open Codec (u32_exact i32_exact bool_exact unit_exact choice_exact text_exactOn)

/-! ## References and names -/

theorem TextSpan.codec_exact : TextSpan.codec.Exact :=
  (u32_exact.pair u32_exact).imap (fun _ => rfl) fun _ => rfl

theorem NameSpan.codec_exact : NameSpan.codec.Exact :=
  (u32_exact.pair TextSpan.codec_exact).imap (fun _ => rfl) fun _ => rfl

theorem Id.codec_exact {a : Arena} : (Id.codec : Codec (Id a)).Exact :=
  u32_exact.imap (fun _ => rfl) fun _ => rfl

theorem IdList.codec_exact {a : Arena} : (IdList.codec : Codec (IdList a)).Exact :=
  (u32_exact.pair u32_exact).imap (fun _ => rfl) fun _ => rfl

theorem DeclId.codec_exact : DeclId.codec.Exact :=
  ((choice_exact DeclKind.mem_all (by decide) (by decide)).pair u32_exact).imap
    (fun _ => rfl) fun _ => rfl

theorem TypeId.codec_exact : TypeId.codec.Exact :=
  ((choice_exact TypeKind.mem_all (by decide) (by decide)).pair u32_exact).imap
    (fun _ => rfl) fun _ => rfl

theorem FlagBits.codec_exact : FlagBits.codec.Exact :=
  u32_exact.imap (fun _ => rfl) fun _ => rfl

theorem Qualifier.codec_exact : Qualifier.codec.Exact :=
  ((choice_exact Operator.mem_all (by decide) (by decide)).pair bool_exact).imap
    (fun _ => rfl) fun _ => rfl

theorem Header.codec_exact : Header.codec.Exact :=
  ((choice_exact Kind.mem_all (by decide) (by decide)).pair
    (NameSpan.codec_exact.pair DeclId.codec_exact.option)).imap (fun _ => rfl) fun _ => rfl

/-! ## Records -/

namespace Body

variable {a : Arena}

theorem typeCodec_exact : typeCodec.Exact := u32_exact.imap (fun _ => rfl) fun _ => rfl

theorem enumConstantCodec_exact : enumConstantCodec.Exact :=
  i32_exact.imap (fun _ => rfl) fun _ => rfl

theorem enumCodec_exact : enumCodec.Exact :=
  (u32_exact.pair (IdList.codec_exact.pair (IdList.codec_exact.pair FlagBits.codec_exact))).imap
    (fun _ => rfl) fun _ => rfl

theorem fieldCodec_exact : fieldCodec.Exact :=
  (TypeId.codec_exact.option.pair (Qualifier.codec_exact.pair (i32_exact.pair (u32_exact.pair
    (IdList.codec_exact.pair FlagBits.codec_exact))))).imap (fun _ => rfl) fun _ => rfl

theorem functionCodec_exact : functionCodec.Exact :=
  (u32_exact.pair (u32_exact.pair (Id.codec_exact.option.pair (IdList.codec_exact.pair
    (IdList.codec_exact.pair FlagBits.codec_exact))))).imap (fun _ => rfl) fun _ => rfl

theorem templateTypeCodec_exact : templateTypeCodec.Exact :=
  (u32_exact.pair ((TypeId.codec_exact.option.vector _).pair (bool_exact.vector _))).imap
    (fun _ => rfl) fun _ => rfl

theorem templateCodec_exact : templateCodec.Exact :=
  IdList.codec_exact.imap (fun _ => rfl) fun _ => rfl

theorem classCodec_exact : classCodec.Exact :=
  (u32_exact.pair (Id.codec_exact.option.pair (Id.codec_exact.option.pair
    (Id.codec_exact.option.pair (IdList.codec_exact.pair (IdList.codec_exact.pair
    (IdList.codec_exact.pair (IdList.codec_exact.pair (IdList.codec_exact.pair
    (IdList.codec_exact.pair FlagBits.codec_exact)))))))))).imap (fun _ => rfl) fun _ => rfl

theorem namespaceCodec_exact : namespaceCodec.Exact :=
  (IdList.codec_exact.pair (IdList.codec_exact.pair (IdList.codec_exact.pair
    (IdList.codec_exact.pair (IdList.codec_exact.pair IdList.codec_exact))))).imap
    (fun _ => rfl) fun _ => rfl

theorem codec_exact (k : DeclKind) : (codec k).Exact := by
  cases k with
  | type => exact typeCodec_exact
  | enumConstant => exact enumConstantCodec_exact
  | enum => exact enumCodec_exact
  | field => exact fieldCodec_exact
  | function => exact functionCodec_exact
  | templateType => exact templateTypeCodec_exact
  | template => exact templateCodec_exact
  | classType => exact classCodec_exact
  | nameSpace => exact namespaceCodec_exact

end Body

theorem AttributeKind.payloadCodec_exact (k : AttributeKind) : k.payloadCodec.Exact := by
  cases k with
  | flag => exact unit_exact
  | int => exact i32_exact
  | float => exact u32_exact
  | name => exact NameSpan.codec_exact
  | text => exact TextSpan.codec_exact

theorem Record.attributeCodec_exact : Record.attributeCodec.Exact := by
  have hkind : (Codec.choice AttributeKind.all).Exact :=
    choice_exact AttributeKind.mem_all (by decide) (by decide)
  refine (hkind.sigma fun k => Header.codec_exact.pair k.payloadCodec_exact).imap ?_ ?_
  · intro r
    obtain ⟨header, body⟩ := r
    cases body <;> rfl
  · intro x
    obtain ⟨k, header, payload⟩ := x
    cases k <;> rfl

theorem Record.codec_exact (a : Arena) : (Record.codec a).Exact := by
  cases a with
  | attributes => exact Record.attributeCodec_exact
  | decl k =>
    rw [Record.codec]
    exact (Header.codec_exact.pair (Body.codec_exact k)).imap (fun _ => rfl) fun _ => rfl

/-! ## Images -/

theorem Arena.mem_poolOrder (a : Arena) : a ∈ Arena.poolOrder := by
  rcases a with k | _
  · cases k <;> decide
  · decide

theorem Arena.forall_iff {p : Arena → Prop} :
    (∀ a, p a) ↔ p .types ∧ p .enumConstants ∧ p .enums ∧ p .fields ∧ p .functions ∧
      p .templateTypes ∧ p .templates ∧ p .classes ∧ p .namespaces ∧ p .attributes := by
  have hall : (∀ a, p a) ↔ ∀ a ∈ Arena.all, p a :=
    ⟨fun h a _ => h a, fun h a => h a a.mem_all⟩
  simp [hall, Arena.all]

namespace Image

/-- The lengths of all arrays and blobs fit in 64 bits. -/
structure Countable (img : Image) : Prop where
  nameBlob : img.nameBlob.utf8ByteSize < UInt64.size
  textBlob : img.textBlob.utf8ByteSize < UInt64.size
  names : img.names.size < UInt64.size
  arenas : ∀ a, (img.arena a).size < UInt64.size
  typeIndex : img.typeIndex.size < UInt64.size
  pools : ∀ a, (img.pool a).size < UInt64.size

theorem recordsCodec_exactOn : recordsCodec.ExactOn fun t => ∀ a, (t.get a).size < UInt64.size := by
  have each (a : Arena) := (Record.codec_exact a).array
  have hparts := (each .types).pair ((each .enumConstants).pair ((each .enums).pair
    ((each .fields).pair ((each .functions).pair ((each .templateTypes).pair
    ((each .templates).pair ((each .classes).pair ((each .namespaces).pair
    (each .attributes)))))))))
  unfold recordsCodec
  dsimp only
  refine (hparts.imap (fun _ => rfl) fun _ _ => rfl).congr fun t => ?_
  exact (Arena.forall_iff (p := fun a => (t.get a).size < UInt64.size)).symm

theorem poolsCodec_exactOn : poolsCodec.ExactOn fun t => ∀ a, (t.get a).size < UInt64.size := by
  have each (a : Arena) := (Id.codec_exact (a := a)).array
  have hparts := (each .namespaces).pair ((each .types).pair ((each .enumConstants).pair
    ((each .enums).pair ((each .fields).pair ((each .functions).pair ((each .templateTypes).pair
    ((each .templates).pair ((each .classes).pair (each .attributes)))))))))
  unfold poolsCodec
  dsimp only
  refine (hparts.imap (fun _ => rfl) fun _ _ => rfl).congr fun t => ?_
  rw [Arena.forall_iff]
  dsimp only [PerArena.get]
  grind

theorem codec_exactOn : codec.ExactOn Countable := by
  have hprofile : (Codec.choice Profile.all).Exact :=
    choice_exact Profile.mem_all (by decide) (by decide)
  have hparts := Codec.ExactOn.pair hprofile (text_exactOn.pair (text_exactOn.pair
    (NameSpan.codec_exact.array.pair (recordsCodec_exactOn.pair (TypeId.codec_exact.array.pair
    (poolsCodec_exactOn.pair (Record.codec_exact .namespaces)))))))
  refine (hparts.imap (fun _ => rfl) fun _ _ => rfl).congr fun img => ?_
  constructor
  · intro h
    obtain ⟨_, hnameBlob, htextBlob, hnames, hrecords, htypes, hpools, _⟩ := h
    exact ⟨hnameBlob, htextBlob, hnames, hrecords, htypes, hpools⟩
  · intro h
    exact ⟨trivial, h.nameBlob, h.textBlob, h.names, h.arenas, h.typeIndex, h.pools, trivial⟩

/-! ## Lengths -/

theorem nameSpan_takesBytes : NameSpan.codec.TakesBytes := fun _ => List.cons_ne_nil _ _

theorem id_takesBytes {a : Arena} : (Id.codec : Codec (Id a)).TakesBytes :=
  fun _ => List.cons_ne_nil _ _

theorem typeId_takesBytes : TypeId.codec.TakesBytes := fun _ => List.cons_ne_nil _ _

/-- A record starts with a tag. -/
theorem record_takesBytes (a : Arena) : (Record.codec a).TakesBytes := by
  cases a with
  | attributes => exact fun _ => List.cons_ne_nil _ _
  | decl k => exact fun _ => List.cons_ne_nil _ _

theorem length_recordsCodec (t : PerArena fun a => Array (Record a)) :
    (recordsCodec.encode t).length =
      (Arena.all.map fun a => ((Codec.array (Record.codec a)).encode (t.get a)).length).sum := by
  simp only [recordsCodec, Codec.imap, Codec.pair, List.length_append, Arena.all, List.map_cons,
    List.map_nil, List.sum_cons, List.sum_nil, Nat.add_zero]
  rfl

theorem length_poolsCodec (t : PerArena fun a => Array (Id a)) :
    (poolsCodec.encode t).length =
      (Arena.poolOrder.map fun a => ((Codec.array Id.codec).encode (t.get a)).length).sum := by
  simp only [poolsCodec, Codec.imap, Codec.pair, List.length_append, Arena.poolOrder,
    List.map_cons, List.map_nil, List.sum_cons, List.sum_nil, Nat.add_zero]
  rfl

theorem size_le_recordsCodec (t : PerArena fun a => Array (Record a)) (a : Arena) :
    (t.get a).size ≤ (recordsCodec.encode t).length := by
  rw [length_recordsCodec]
  refine Nat.le_trans ((record_takesBytes a).size_le (t.get a)) ?_
  exact List.le_sum_of_mem (List.mem_map_of_mem a.mem_all)

theorem size_le_poolsCodec (t : PerArena fun a => Array (Id a)) (a : Arena) :
    (t.get a).size ≤ (poolsCodec.encode t).length := by
  rw [length_poolsCodec]
  refine Nat.le_trans (id_takesBytes.size_le (t.get a)) ?_
  exact List.le_sum_of_mem (List.mem_map_of_mem (Arena.mem_poolOrder a))

/-- An image whose payload has a length that can be stated has no lengths that cannot. -/
theorem countable_of_length {img : Image} (h : img.encode.length < UInt64.size) :
    img.Countable := by
  simp only [encode, codec, Codec.imap, Codec.pair, List.length_append] at h
  have hnameBlob := Codec.length_text img.nameBlob
  have htextBlob := Codec.length_text img.textBlob
  have hnames := nameSpan_takesBytes.size_le img.names
  have htypes := typeId_takesBytes.size_le img.typeIndex
  constructor
  case arenas =>
    intro a
    have ha : (img.arena a).size ≤ _ := size_le_recordsCodec img.records a
    omega
  case pools =>
    intro a
    have ha : (img.pool a).size ≤ _ := size_le_poolsCodec img.pools a
    omega
  all_goals omega

end Image
end TypeAtlas
