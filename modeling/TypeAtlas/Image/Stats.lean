/-
Counts and sizes of an image.
-/
import TypeAtlas.Image.Holding
import TypeAtlas.Json

namespace TypeAtlas

structure ImageStats where
  profile : Profile
  names : Nat
  records : PerArena fun _ => Nat
  nameBytes : Nat
  textBytes : Nat
  chargedBytes : Nat

def Holding.stats (h : Holding) : ImageStats where
  profile := h.image.profile
  names := h.image.names.size
  records := .ofFn fun a => (h.image.arena a).size
  nameBytes := h.image.nameBlob.utf8ByteSize
  textBytes := h.image.textBlob.utf8ByteSize
  chargedBytes := h.chargedBytes

namespace ImageStats

def recordCount (s : ImageStats) : Nat :=
  Arena.all.foldr (fun a n => s.records.get a + n) 0

/-- The records that are counted are all but the root namespace. -/
theorem recordCount_stats (h : Holding) : h.stats.recordCount = h.image.recordCount := by
  simp [recordCount, Holding.stats, Image.recordCount]

def toJson (s : ImageStats) : Json :=
  let count (n : Nat) : Json := .num n
  .obj ([("profile", .str s.profile.label), ("names", count s.names)]
    ++ Arena.all.map (fun a => (a.label, count (s.records.get a)))
    ++ [("name_bytes", count s.nameBytes), ("text_bytes", count s.textBytes),
      ("charged_bytes", count s.chargedBytes)])

/-- One line for each count, without a line break at the end. -/
def render (s : ImageStats) : String :=
  "\n".intercalate [
    "profile:        " ++ s.profile.label,
    s!"namespaces:     {s.records.namespaces}",
    s!"types:          {s.records.types}",
    s!"enums:          {s.records.enums}",
    s!"enum constants: {s.records.enumConstants}",
    s!"classes:        {s.records.classes}",
    s!"fields:         {s.records.fields}",
    s!"functions:      {s.records.functions}",
    s!"templates:      {s.records.templates}",
    s!"template types: {s.records.templateTypes}",
    s!"attributes:     {s.records.attributes}",
    s!"names:          {s.names} ({s.nameBytes} bytes)",
    s!"text:           {s.textBytes} bytes"]

end ImageStats
end TypeAtlas
