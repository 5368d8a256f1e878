/-
Masks of well-known flags.

A flag attribute with one of two well-known names sets a bit in a mask kept by
its owner.  Bits beyond those two survive in a mask and are never set by an
attribute.
-/
import TypeAtlas.Name.Span

namespace TypeAtlas

structure FlagBits where
  bits : UInt32
deriving DecidableEq

namespace FlagBits

def none : FlagBits := ⟨0⟩

/-- Not kept when the value is saved elsewhere. -/
def transient : FlagBits := ⟨1⟩

/-- A text that may be absent. -/
def nullstr : FlagBits := ⟨2⟩

/-- A well-known flag: the attribute it is set by and the word it shows as. -/
structure WellKnown where
  setBy : String
  label : String
  flag : FlagBits

/-- The well-known flags, lowest bit first. -/
def wellKnown : List WellKnown :=
  [⟨"transient", "TRANSIENT", transient⟩, ⟨"nullstr", "NULLSTR", nullstr⟩]

/-- The flag of the attribute whose name has this hash, or no flag. -/
def ofHash (hash : UInt32) : FlagBits :=
  match wellKnown.find? fun known => hashText known.setBy == hash with
  | some known => known.flag
  | Option.none => none

def ofName (name : String) : FlagBits := ofHash (hashText name)

def union (a b : FlagBits) : FlagBits := ⟨a.bits ||| b.bits⟩

/-- Whether every bit of `b` is set in `a`. -/
def contains (a b : FlagBits) : Bool := a.bits &&& b.bits == b.bits

/-- The well-known flags that are set, then the other bits as one
hexadecimal number, joined by bars. -/
def render (f : FlagBits) : String :=
  let named := wellKnown.filter fun known => f.contains known.flag
  let rest := f.bits &&& ~~~(transient.union nullstr).bits
  let other := if rest == 0 then [] else ["0x" ++ hexPadded 1 rest.toNat]
  " | ".intercalate (named.map (·.label) ++ other)

instance : Inhabited FlagBits := ⟨none⟩

end FlagBits
end TypeAtlas
