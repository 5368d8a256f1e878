/-
Scopes: the declarations that enclose another, and the qualified names they give.
-/
import TypeAtlas.Image.Query

namespace TypeAtlas
namespace Image

variable (img : Image)

/-- The owners of a declaration from `next` on, innermost first, up to the root
namespace, which is not among them.  No more than `limit` are passed. -/
def enclosing : Nat → Option DeclRef → Contract (List DeclRef)
  | 0, _ | _ + 1, none => .ok []
  | limit + 1, some d =>
    if d.id.isRoot then .ok []
    else do
      let next ← img.parentOf d.ref
      return d :: (← enclosing limit next)

/-- The declarations that enclose one, innermost first, the root namespace left
out.  Where chains of owners do not repeat there are no more than records. -/
def scopesOf (d : DeclRef) : Contract (List DeclRef) := do
  img.enclosing img.recordCount (← img.parentOf d.ref)

/-- The names of the enclosing scopes and of the declaration itself, outermost
first, joined by double colons. -/
def qualifiedName (d : DeclRef) : Contract String := do
  let scopes ← img.scopesOf d
  return "::".intercalate ((d :: scopes).reverse.map fun d => (img.nameOf d.ref).textOrEmpty)

end Image
end TypeAtlas
