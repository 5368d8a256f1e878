/-
The command line.

The files that a request names are read whole, and everything else is
`Inspect.run`.
-/
import TypeAtlas.Inspect

namespace TypeAtlas
namespace Inspect

/-- The content of a file.  What cannot be read counts as missing. -/
def contentOf (path : String) : IO FileContent := do
  try
    return .ok (← IO.FS.readBinFile path).toList
  catch
    | .inappropriateType _ 20 _ => return .error .notDirectory
    | .inappropriateType .. => return .error .isDirectory
    | .invalidArgument _ 36 _ => return .error .nameTooLong
    | _ => return .error .notFound

/-- Reads the files of a request and prints its output. -/
def perform (r : Request) : IO UInt32 := do
  let contents ← (r.file :: r.settings.toList).mapM fun path => return (path, ← contentOf path)
  let out := run r fun path => (contents.lookup path).getD (.error .notFound)
  IO.print out.stdout
  IO.eprint out.stderr
  return out.code

end Inspect
end TypeAtlas

def main (args : List String) : IO UInt32 :=
  match TypeAtlas.Inspect.request? args with
  | some r => TypeAtlas.Inspect.perform r
  | none => do
    IO.eprint TypeAtlas.Inspect.usage
    return 2
