/-
How a field holds its type: as a value, through a pointer or by reference, and
whether constant.
-/
namespace TypeAtlas

inductive Operator where
  | value
  | pointer
  | reference
deriving DecidableEq

namespace Operator

def all : List Operator := [value, pointer, reference]

theorem mem_all (o : Operator) : o ∈ all := by cases o <;> decide

end Operator

structure Qualifier where
  op : Operator
  isConst : Bool
deriving DecidableEq

/-- A plain value that is not constant. -/
def Qualifier.plain : Qualifier := ⟨.value, false⟩

/-- An operator, or none stated. -/
inductive Modifier where
  | none
  | value
  | pointer
  | reference
deriving DecidableEq

namespace Modifier

/-- The modifier of a qualifier, beside its constness.  It is always stated. -/
def ofQualifier (q : Qualifier) : Modifier × Bool :=
  match q.op with
  | .value => (value, q.isConst)
  | .pointer => (pointer, q.isConst)
  | .reference => (reference, q.isConst)

/-- The qualifier of a modifier.  None stated means a value. -/
def toQualifier : Modifier → Bool → Qualifier
  | none, isConst | value, isConst => ⟨.value, isConst⟩
  | pointer, isConst => ⟨.pointer, isConst⟩
  | reference, isConst => ⟨.reference, isConst⟩

end Modifier
end TypeAtlas
