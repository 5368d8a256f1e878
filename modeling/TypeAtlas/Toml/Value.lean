/-
What a TOML document says.

Settings are read from TOML.  Of floats and dates only their being there is
kept, since no setting is one.
-/
namespace TypeAtlas
namespace Toml

inductive Value where
  | string (s : String)
  | integer (n : Int)
  | float
  | boolean (b : Bool)
  | datetime
  | array (items : List Value)
  | table (entries : List (String × Value))

/-- The entries of a table, in order. -/
abbrev Table : Type := List (String × Value)

/-- Reads something off the front of a text, or refuses. -/
abbrev Parser (α : Type) : Type := List Char → Option (α × List Char)

/-- Reads as often as possible.  Reading nothing ends it too. -/
def many {α : Type} (p : Parser α) (s : List Char) : List α × List Char :=
  match p s with
  | none => ([], s)
  | some (x, rest) =>
    if rest.length < s.length then
      let (xs, rest) := many p rest
      (x :: xs, rest)
    else ([], s)
termination_by s.length

/-- Blanks within a line. -/
def skipBlanks (s : List Char) : List Char := s.dropWhile fun c => c == ' ' || c == '\t'

def newline : Parser Unit
  | '\n' :: rest => some ((), rest)
  | '\r' :: '\n' :: rest => some ((), rest)
  | _ => none

/-- A character that needs no escape in a comment or text.  Of the control
characters only the tab is one. -/
def isPlain (c : Char) : Bool := c == '\t' || (0x20 ≤ c.toNat && c.toNat != 0x7f)

/-- A comment up to the end of its line. -/
def skipComment : List Char → List Char
  | '#' :: rest => rest.dropWhile isPlain
  | s => s

/-- Blanks, comments and line breaks. -/
def skipLines (s : List Char) : List Char :=
  let line : Parser Unit := fun s =>
    match newline (skipComment (skipBlanks s)) with
    | some x => some x
    | none => none
  skipComment (skipBlanks (many line s).2)

def char (c : Char) : Parser Unit
  | d :: rest => if d == c then some ((), rest) else none
  | [] => none

end Toml
end TypeAtlas
