/-
What the image of a draft takes.

Laying out adds nothing that the draft does not count already.  The type index and the pools
hold a record at most once each, so what an image takes in memory and in a file is bounded by
the names and records that were added.
-/
import TypeAtlas.Proofs.Codec.Length
import TypeAtlas.Proofs.Layout.Image

namespace TypeAtlas

theorem Records.length_types_le (rs : Records) :
    rs.types.length ≤ (Arena.all.map fun a => (rs.get a).size).sum := by
  simp only [types, TypeKind.all, TypeKind.toDecl, Arena.all, Arena.types, Arena.enums,
    Arena.classes, Arena.templateTypes, List.flatMap_cons, List.flatMap_nil,
    List.length_append, List.length_map, List.length_zipIdx, Array.length_toList, List.length_nil,
    List.map_cons, List.map_nil, List.sum_cons, List.sum_nil]
  omega

namespace Draft

variable {d : Draft}

/-- The most that the image of a draft takes when it is charged. -/
def extent (d : Draft) : Nat :=
  12 * d.names.listed.size + (Arena.all.map fun a => (a.recordSize + 12) * (d.arena a).size).sum

theorem size_nameIndex_le (d : Draft) : d.nameIndex.size ≤ d.names.listed.size := by
  rw [nameIndex, List.size_toArray, List.length_mergeSort, ← Array.length_toList]
  exact List.length_filter_le _ _

theorem footprint_image_le (hcounts : ∀ a, (d.arena a).size < UInt32.size) :
    d.image.footprint ≤ d.extent := by
  have hnames := d.size_nameIndex_le
  have htypes := Records.length_types_le d.renumbered
  have hpool (a : Arena) : (d.image.pool a).size ≤ (d.arena a).size := by
    have hle := Records.length_pool_le d.renumbered (fun k => sizes_renumbered hcounts _) a
    have hpool : d.image.pool a = Records.pool d.renumbered a := PerArena.get_ofFn _ a
    rwa [size_renumbered, ← hpool] at hle
  have himage : d.image.names.size = d.nameIndex.size := rfl
  have hindex : d.image.typeIndex.size = (Records.types d.renumbered).length := by
    show (Records.typeIndex d.renumbered).size = _
    rw [Records.typeIndex, List.size_toArray, List.length_map, List.length_mergeSort]
  simp only [size_renumbered, Arena.all, List.map_cons, List.map_nil, List.sum_cons,
    List.sum_nil] at htypes
  rw [Image.footprint_eq, extent, himage, hindex]
  simp only [size_image, Arena.all, Arena.poolOrder, Arena.recordSize, List.map_cons, List.map_nil,
    List.sum_cons, List.sum_nil]
  have hpools := Arena.forall_iff.mp hpool
  omega

/-- A draft without too many names and texts is one whose image a file can hold. -/
theorem length_encode_image_le (hcounts : ∀ a, (d.arena a).size < UInt32.size) :
    d.image.encode.length ≤
      2 * d.extent + d.names.texts.blob.utf8ByteSize + d.texts.blob.utf8ByteSize + 340 := by
  have hle := footprint_image_le hcounts
  have hlength : d.image.encode.length ≤ 2 * d.image.footprint +
      d.names.texts.blob.utf8ByteSize + d.texts.blob.utf8ByteSize + 340 := d.image.length_encode_le
  omega

end Draft
end TypeAtlas
