/-
A directory as a value.

A run of a program depends on the files it can reach.  Where these are a value,
the run is a function of it.
-/
import TypeAtlas.Wire.Fault

namespace TypeAtlas

/-- A directory that holds files and nothing else. -/
structure Directory where
  files : List (String × List UInt8)
deriving DecidableEq

namespace Directory

/-- The longest name of a file, in bytes. -/
def maxName : Nat := 255

/-- The longest path, in bytes. -/
def maxPath : Nat := 4095

/-- Follows the names of a path from the directory, or from a place outside of
it, where no file is known.  A file ends a path, and no name at all is a directory. -/
def follow (d : Directory) (inside : Bool) : List String → FileContent
  | [] => .error .isDirectory
  | name :: rest =>
    if name = "" ∨ name = "." then d.follow inside rest
    else if name = ".." then d.follow false rest
    else if maxName < name.utf8ByteSize then .error .nameTooLong
    else
      match if inside then d.files.lookup name else none with
      | none => .error .notFound
      | some content => if rest.isEmpty then .ok content else .error .notDirectory

/-- The content of the file at a path.  A path that starts with a slash leads
outside. -/
def read (d : Directory) (path : String) : FileContent :=
  if maxPath < path.utf8ByteSize then .error .nameTooLong
  else d.follow (!path.startsWith "/") (path.splitOn "/")

end Directory
end TypeAtlas
