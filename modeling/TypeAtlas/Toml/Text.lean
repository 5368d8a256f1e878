/-
Texts and keys.

A text stands between quotes or apostrophes, one of them for a text on one line
and three for a text over several.  Only between quotes are there escapes.
-/
import TypeAtlas.Toml.Scalar

namespace TypeAtlas
namespace Toml

/-- A code point in `n` hexadecimal digits. -/
def codePoint (n : Nat) (s : List Char) : Option (Char × List Char) :=
  let ds := s.take n
  let code := numberOf 16 ds
  if ds.length == n && ds.all isHexDigit && code.isValidChar then some (Char.ofNat code, s.drop n)
  else none

/-- What follows a backslash. -/
def escape : Parser Char
  | 'b' :: rest => some ('\x08', rest)
  | 't' :: rest => some ('\t', rest)
  | 'n' :: rest => some ('\n', rest)
  | 'f' :: rest => some ('\x0c', rest)
  | 'r' :: rest => some ('\r', rest)
  | '"' :: rest => some ('"', rest)
  | '\\' :: rest => some ('\\', rest)
  | 'u' :: rest => codePoint 4 rest
  | 'U' :: rest => codePoint 8 rest
  | _ => none

/-- A character of a text between single quotes. -/
def basicChar : Parser Char
  | '\\' :: rest => escape rest
  | '"' :: _ => none
  | c :: rest => if isPlain c then some (c, rest) else none
  | [] => none

/-- A character of a text between single apostrophes. -/
def literalChar : Parser Char
  | '\x27' :: _ => none
  | c :: rest => if isPlain c then some (c, rest) else none
  | [] => none

/-- A text on one line, between two marks. -/
def lineText (mark : Char) (c : Parser Char) : Parser String := fun s => do
  let ((), s) ← char mark s
  let (cs, s) := many c s
  let ((), s) ← char mark s
  some (String.ofList cs, s)

/-- Blanks and line breaks. -/
def skipSpace (s : List Char) : List Char :=
  let piece : Parser Unit := fun s =>
    match newline s with
    | some x => some x
    | none =>
      match s with
      | ' ' :: rest | '\t' :: rest => some ((), rest)
      | _ => none
  (many piece s).2

/-- One or two marks that do not belong to the three that end a text. -/
def looseMarks (mark : Char) : Parser (List Char) := fun s =>
  let count := (s.takeWhile (· == mark)).length
  let next := s.drop count
  if count == 1 || count == 2 then
    if next.isEmpty then none else some (List.replicate count mark, next)
  else none

/-- A piece of a text over several lines, between quotes.  A backslash at the end
of a line takes the break and all space after it away. -/
def basicPiece : Parser (List Char) := fun s =>
  match newline s with
  | some ((), rest) => some (['\n'], rest)
  | none =>
    match s with
    | '\\' :: rest =>
      match newline (skipBlanks rest) with
      | some ((), rest) => some ([], skipSpace rest)
      | none => (escape rest).map fun x => ([x.1], x.2)
    | '"' :: _ => looseMarks '"' s
    | _ => (basicChar s).map fun x => ([x.1], x.2)

/-- The same between apostrophes. -/
def literalPiece : Parser (List Char) := fun s =>
  match newline s with
  | some ((), rest) => some (['\n'], rest)
  | none =>
    match s with
    | '\x27' :: _ => looseMarks '\x27' s
    | _ => (literalChar s).map fun x => ([x.1], x.2)

/-- A text over several lines.  A line break right after the first marks is not
part of it, and up to two marks before the last three are. -/
def blockText (mark : Char) (piece : Parser (List Char)) : Parser String := fun s => do
  let ((), s) ← char mark s
  let ((), s) ← char mark s
  let ((), s) ← char mark s
  let s := ((newline s).map (·.2)).getD s
  let (pieces, s) := many piece s
  let count := min 5 (s.takeWhile (· == mark)).length
  if count < 3 then none
  else some (String.ofList (pieces.flatten ++ List.replicate (count - 3) mark), s.drop count)

def text : Parser String := fun s =>
  match s with
  | '"' :: '"' :: '"' :: _ => blockText '"' basicPiece s
  | '\x27' :: '\x27' :: '\x27' :: _ => blockText '\x27' literalPiece s
  | '"' :: _ => lineText '"' basicChar s
  | '\x27' :: _ => lineText '\x27' literalChar s
  | _ => none

/-- One part of a key, bare or as a text on one line. -/
def keyPart : Parser String := fun s =>
  match s with
  | '"' :: _ => lineText '"' basicChar s
  | '\x27' :: _ => lineText '\x27' literalChar s
  | _ =>
    let bare := s.takeWhile fun c => c.isAlphanum || c == '_' || c == '-'
    if bare.isEmpty then none else some (String.ofList bare, s.drop bare.length)

/-- How deep arrays, tables and keys may be nested, less one. -/
def nestingLimit : Nat := 80

/-- A key: parts joined by points.  Blanks may surround every part. -/
def key : Parser (List String) := fun s => do
  let (first, s) ← keyPart (skipBlanks s)
  let next : Parser String := fun s => do
    let ((), s) ← char '.' s
    let (part, s) ← keyPart (skipBlanks s)
    some (part, skipBlanks s)
  let (parts, s) := many next (skipBlanks s)
  if parts.length + 1 < nestingLimit then some (first :: parts, s) else none

end Toml
end TypeAtlas
