/-
How long an image is when it is written.

Nothing in a record has a length of its own, so what is written for a record is bounded by
its arena.  Tags and options take more room in a file than in memory, though never twice as
much, and an image is bounded by what it takes when it is charged.
-/
import TypeAtlas.Proofs.Codec.Image

namespace TypeAtlas
namespace Codec

variable {α β : Type} {c : Codec α} {m n : Nat}

/-- No value is written in more bytes. -/
structure AtMost (c : Codec α) (n : Nat) : Prop where
  length_le : ∀ x, (c.encode x).length ≤ n

theorem AtMost.mono (h : c.AtMost m) (hle : m ≤ n) : c.AtMost n where
  length_le x := Nat.le_trans (h.length_le x) hle

theorem AtMost.imap (h : c.AtMost n) {forth : α → β} {back : β → α} :
    (c.imap forth back).AtMost n where
  length_le x := h.length_le (back x)

theorem AtMost.pair (h : c.AtMost m) {d : Codec β} (h' : d.AtMost n) :
    (c.pair d).AtMost (m + n) where
  length_le x := by
    show (c.encode x.1 ++ d.encode x.2).length ≤ m + n
    rw [List.length_append]
    exact Nat.add_le_add (h.length_le x.1) (h'.length_le x.2)

theorem AtMost.sigma {β : α → Type} {d : (x : α) → Codec (β x)} (h : c.AtMost m)
    (h' : ∀ x, (d x).AtMost n) : (c.sigma d).AtMost (m + n) where
  length_le x := by
    show (c.encode x.1 ++ (d x.1).encode x.2).length ≤ m + n
    rw [List.length_append]
    exact Nat.add_le_add (h.length_le x.1) ((h' x.1).length_le x.2)

theorem AtMost.option (h : c.AtMost n) : (Codec.option c).AtMost (n + 1) where
  length_le x := by
    cases x with
    | none => exact Nat.succ_le_succ (Nat.zero_le n)
    | some x => exact Nat.succ_le_succ (h.length_le x)

theorem AtMost.length_flatMap_le (h : c.AtMost n) (xs : List α) :
    (xs.flatMap c.encode).length ≤ n * xs.length := by
  induction xs with
  | nil => exact Nat.zero_le _
  | cons x xs ih =>
    rw [List.flatMap_cons, List.length_append, List.length_cons, Nat.mul_succ, Nat.add_comm]
    exact Nat.add_le_add ih (h.length_le x)

theorem AtMost.vector (h : c.AtMost m) (n : Nat) : (c.vector n).AtMost (m * n) where
  length_le xs := by
    have hitems := h.length_flatMap_le xs.toList
    rwa [Vector.length_toList] at hitems

theorem AtMost.length_array_le (h : c.AtMost n) (xs : Array α) :
    ((Codec.array c).encode xs).length ≤ 8 + n * xs.size := by
  have hitems := h.length_flatMap_le xs.toList
  rw [Array.length_toList] at hitems
  show (littleEndian 8 xs.size ++ xs.toList.flatMap c.encode).length ≤ _
  rw [List.length_append, length_littleEndian]
  exact Nat.add_le_add_left hitems 8

theorem u32_atMost : u32.AtMost 4 := ⟨fun _ => Nat.le_refl 4⟩

theorem i32_atMost : i32.AtMost 4 := u32_atMost.imap

theorem bool_atMost : bool.AtMost 1 := ⟨fun _ => Nat.le_refl 1⟩

theorem unit_atMost : unit.AtMost 0 := ⟨fun _ => Nat.le_refl 0⟩

theorem choice_atMost [BEq α] (cases : List α) : (choice cases).AtMost 4 :=
  ⟨fun _ => Nat.le_refl 4⟩

end Codec

open Codec (u32_atMost i32_atMost bool_atMost unit_atMost choice_atMost)

/-! ## References and names -/

theorem TextSpan.codec_atMost : TextSpan.codec.AtMost 8 := (u32_atMost.pair u32_atMost).imap

theorem NameSpan.codec_atMost : NameSpan.codec.AtMost 12 :=
  (u32_atMost.pair TextSpan.codec_atMost).imap

theorem Id.codec_atMost {a : Arena} : (Id.codec : Codec (Id a)).AtMost 4 := u32_atMost.imap

theorem IdList.codec_atMost {a : Arena} : (IdList.codec : Codec (IdList a)).AtMost 8 :=
  (u32_atMost.pair u32_atMost).imap

theorem DeclId.codec_atMost : DeclId.codec.AtMost 8 := ((choice_atMost _).pair u32_atMost).imap

theorem TypeId.codec_atMost : TypeId.codec.AtMost 8 := ((choice_atMost _).pair u32_atMost).imap

theorem FlagBits.codec_atMost : FlagBits.codec.AtMost 4 := u32_atMost.imap

theorem Qualifier.codec_atMost : Qualifier.codec.AtMost 5 :=
  ((choice_atMost _).pair bool_atMost).imap

theorem Header.codec_atMost : Header.codec.AtMost 25 :=
  ((choice_atMost _).pair (NameSpan.codec_atMost.pair DeclId.codec_atMost.option)).imap

/-! ## Records -/

/-- The most that is written for the body of a record. -/
def DeclKind.bodyLength : DeclKind → Nat
  | type => 4
  | enumConstant => 4
  | enum => 24
  | field => 34
  | function => 33
  | templateType => 44
  | template => 8
  | classType => 71
  | nameSpace => 48

namespace Body

theorem typeCodec_atMost : typeCodec.AtMost 4 := u32_atMost.imap

theorem enumConstantCodec_atMost : enumConstantCodec.AtMost 4 := i32_atMost.imap

theorem enumCodec_atMost : enumCodec.AtMost 24 :=
  (u32_atMost.pair (IdList.codec_atMost.pair (IdList.codec_atMost.pair
    FlagBits.codec_atMost))).imap

theorem fieldCodec_atMost : fieldCodec.AtMost 34 :=
  (TypeId.codec_atMost.option.pair (Qualifier.codec_atMost.pair (i32_atMost.pair (u32_atMost.pair
    (IdList.codec_atMost.pair FlagBits.codec_atMost))))).imap

theorem functionCodec_atMost : functionCodec.AtMost 33 :=
  (u32_atMost.pair (u32_atMost.pair (Id.codec_atMost.option.pair (IdList.codec_atMost.pair
    (IdList.codec_atMost.pair FlagBits.codec_atMost))))).imap

theorem templateTypeCodec_atMost : templateTypeCodec.AtMost 44 :=
  (u32_atMost.pair ((TypeId.codec_atMost.option.vector _).pair (bool_atMost.vector _))).imap

theorem templateCodec_atMost : templateCodec.AtMost 8 := IdList.codec_atMost.imap

theorem classCodec_atMost : classCodec.AtMost 71 :=
  (u32_atMost.pair (Id.codec_atMost.option.pair (Id.codec_atMost.option.pair
    (Id.codec_atMost.option.pair (IdList.codec_atMost.pair (IdList.codec_atMost.pair
    (IdList.codec_atMost.pair (IdList.codec_atMost.pair (IdList.codec_atMost.pair
    (IdList.codec_atMost.pair FlagBits.codec_atMost)))))))))).imap

theorem namespaceCodec_atMost : namespaceCodec.AtMost 48 :=
  (IdList.codec_atMost.pair (IdList.codec_atMost.pair (IdList.codec_atMost.pair
    (IdList.codec_atMost.pair (IdList.codec_atMost.pair IdList.codec_atMost))))).imap

theorem codec_atMost (k : DeclKind) : (codec k).AtMost k.bodyLength := by
  cases k with
  | type => exact typeCodec_atMost
  | enumConstant => exact enumConstantCodec_atMost
  | enum => exact enumCodec_atMost
  | field => exact fieldCodec_atMost
  | function => exact functionCodec_atMost
  | templateType => exact templateTypeCodec_atMost
  | template => exact templateCodec_atMost
  | classType => exact classCodec_atMost
  | nameSpace => exact namespaceCodec_atMost

end Body

theorem AttributeKind.payloadCodec_atMost (k : AttributeKind) : k.payloadCodec.AtMost 12 := by
  cases k with
  | flag => exact unit_atMost.mono (by decide)
  | int => exact i32_atMost.mono (by decide)
  | float => exact u32_atMost.mono (by decide)
  | name => exact NameSpan.codec_atMost
  | text => exact TextSpan.codec_atMost.mono (by decide)

/-- A record takes less than twice the room in a file that it takes in memory. -/
theorem Record.codec_atMost (a : Arena) : (Record.codec a).AtMost (2 * a.recordSize) := by
  cases a with
  | attributes =>
    have hparts := (choice_atMost AttributeKind.all).sigma fun k =>
      Header.codec_atMost.pair k.payloadCodec_atMost
    have hwhole : attributeCodec.AtMost (4 + (25 + 12)) := hparts.imap
    exact hwhole.mono (by decide)
  | decl k =>
    have hparts : (Record.codec (.decl k)).AtMost (25 + k.bodyLength) := by
      rw [Record.codec]
      exact (Header.codec_atMost.pair (Body.codec_atMost k)).imap
    refine hparts.mono ?_
    cases k <;> decide

/-! ## Images -/

namespace Image

theorem footprint_eq (img : Image) : img.footprint =
    12 * img.names.size + (Arena.all.map fun a => a.recordSize * (img.arena a).size).sum +
      8 * img.typeIndex.size + (Arena.poolOrder.map fun a => 4 * (img.pool a).size).sum := by
  simp only [footprint, arrays, List.foldr_append, List.foldr_cons, List.foldr_nil, Arena.all,
    Arena.poolOrder, List.map_cons, List.map_nil, List.sum_cons, List.sum_nil]
  omega

theorem sum_map_le_double {α : Type} (xs : List α) {f g : α → Nat}
    (h : ∀ x, f x ≤ 8 + 2 * g x) :
    (xs.map f).sum ≤ 8 * xs.length + 2 * (xs.map g).sum := by
  induction xs with
  | nil => exact Nat.zero_le _
  | cons x xs ih =>
    have hx := h x
    rw [List.map_cons, List.map_cons, List.sum_cons, List.sum_cons, List.length_cons]
    omega

/-- Beside its texts an image takes less than twice the room in a file that it takes in
memory, a little for the lengths of its arrays apart. -/
theorem length_encode_le (img : Image) : img.encode.length ≤
    2 * img.footprint + img.nameBlob.utf8ByteSize + img.textBlob.utf8ByteSize + 340 := by
  have hprofile := (choice_atMost Profile.all).length_le img.profile
  have hnames := NameSpan.codec_atMost.length_array_le img.names
  have htypes := TypeId.codec_atMost.length_array_le img.typeIndex
  have hroot : _ ≤ 144 := (Record.codec_atMost .namespaces).length_le img.root
  have hrecords : (recordsCodec.encode img.records).length ≤
      80 + 2 * (Arena.all.map fun a => a.recordSize * (img.arena a).size).sum := by
    rw [length_recordsCodec]
    refine sum_map_le_double Arena.all fun a => ?_
    rw [← Nat.mul_assoc]
    exact (Record.codec_atMost a).length_array_le (img.arena a)
  have hpools : (poolsCodec.encode img.pools).length ≤
      80 + 2 * (Arena.poolOrder.map fun a => 4 * (img.pool a).size).sum := by
    rw [length_poolsCodec]
    refine sum_map_le_double Arena.poolOrder fun a => ?_
    have hpool : _ ≤ 8 + 4 * (img.pool a).size := Id.codec_atMost.length_array_le (img.pool a)
    exact Nat.le_trans hpool (by omega)
  rw [footprint_eq]
  simp only [encode, codec, Codec.imap, Codec.pair, List.length_append, Codec.length_text]
  omega

end Image
end TypeAtlas
