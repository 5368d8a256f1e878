/-
The two profiles an image can have.

A full image may hold every kind of record.  A reduced one holds no attributes,
templates or instances of templates.
-/
import TypeAtlas.Kind

namespace TypeAtlas

inductive Profile where
  | full
  | reduced
deriving DecidableEq

namespace Profile

def all : List Profile := [full, reduced]

theorem mem_all (p : Profile) : p ∈ all := by cases p <;> decide

def label : Profile → String
  | full => "full"
  | reduced => "reduced"

/-- Whether records of this kind may occur. -/
def allows : Profile → Kind → Bool
  | full, _ => true
  | reduced, .attr _ => false
  | reduced, .decl .template => false
  | reduced, .decl .templateType => false
  | reduced, .decl _ => true

/-- Whether an image of this profile will do where `required` is asked for.
Asking for the full profile asks for nothing. -/
def satisfies (p required : Profile) : Bool := required == full || p == reduced

/-- The byte that stands for a profile in a file header. -/
def tag : Profile → UInt8
  | full => 0
  | reduced => 1

def ofTag? : UInt8 → Option Profile
  | 0 => some full
  | 1 => some reduced
  | _ => none

@[simp] theorem ofTag?_tag (p : Profile) : ofTag? p.tag = some p := by cases p <;> rfl

end Profile
end TypeAtlas
