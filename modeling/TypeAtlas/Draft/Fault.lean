/-
Why an addition to a draft, or the image made from it, is refused.
-/
import TypeAtlas.Image.Fault
import TypeAtlas.Ledger.Basic

namespace TypeAtlas

inductive DraftFault where
  | unknownId (id : DeclId)
  | invalidParent (child : Kind) (parent : DeclKind)
  | tooManyTemplateArgs (name : String) (count : Nat)
  | profileViolation (kind : Kind) (profile : Profile)
  | returnAlreadySet (function : UInt32)
  /-- A blob has outgrown 32-bit positions. -/
  | overflow (what : String)
  | alloc (fault : AllocError)
  | invalid (fault : ImageFault)
deriving DecidableEq

namespace DraftFault

def label : DraftFault → String
  | unknownId _ => "UnknownId"
  | invalidParent _ _ => "InvalidParent"
  | tooManyTemplateArgs _ _ => "TooManyTemplateArgs"
  | profileViolation _ _ => "ProfileViolation"
  | returnAlreadySet _ => "ReturnAlreadySet"
  | overflow _ => "Overflow"
  | alloc _ => "Alloc"
  | invalid _ => "Invalid"

def message : DraftFault → String
  | unknownId id => "unknown " ++ id.kind.label ++ s!" id {id.raw}"
  | invalidParent child parent => child.label ++ " cannot be owned by " ++ parent.label
  | tooManyTemplateArgs name count =>
    "template type '" ++ name ++ s!"' has {count} arguments, at most {maxTemplateArgs} are recorded"
  | profileViolation kind profile =>
    kind.label ++ " records are not allowed in the " ++ profile.label ++ " profile"
  | returnAlreadySet function => s!"function {function} already has a return value"
  | overflow what => "too many " ++ what ++ " for 32-bit indices"
  | alloc fault => "allocation failed: " ++ fault.message
  | invalid fault => "invalid image: " ++ fault.message

end DraftFault
end TypeAtlas
