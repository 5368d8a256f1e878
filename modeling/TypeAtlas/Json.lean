/-
JSON values and their two printed forms.

The compact form has no blanks.  The pretty form puts each element on a line of
its own, indented by two blanks a level, and leaves empty arrays and objects on
one line.
-/
import TypeAtlas.Name.Span

namespace TypeAtlas

inductive Json where
  | null
  | bool (b : Bool)
  | num (n : Int)
  | str (s : String)
  | arr (items : List Json)
  /-- The fields keep their order. -/
  | obj (fields : List (String × Json))

namespace Json

/-- A character as it stands between quotes. -/
def escape (c : Char) : String :=
  match c with
  | '"' => "\\\""
  | '\\' => "\\\\"
  | '\n' => "\\n"
  | '\r' => "\\r"
  | '\t' => "\\t"
  | '\x08' => "\\b"
  | '\x0c' => "\\f"
  | c => if c.toNat < 0x20 then "\\u" ++ hexPadded 4 c.toNat else c.toString

def quote (s : String) : String := "\"" ++ String.join (s.toList.map escape) ++ "\""

/-- A line break and the blanks of a level. -/
def newline (level : Nat) : String := "\n" ++ String.ofList (List.replicate (2 * level) ' ')

mutual

def compact : Json → String
  | null => "null"
  | bool b => if b then "true" else "false"
  | num n => toString n
  | str s => quote s
  | arr items => "[" ++ ",".intercalate (compactItems items) ++ "]"
  | obj fields => "\x7b" ++ ",".intercalate (compactFields fields) ++ "\x7d"

def compactItems : List Json → List String
  | [] => []
  | x :: xs => compact x :: compactItems xs

def compactFields : List (String × Json) → List String
  | [] => []
  | (key, x) :: xs => (quote key ++ ":" ++ compact x) :: compactFields xs

end

mutual

/-- The pretty form of a value that starts at a level. -/
def prettyAt (level : Nat) : Json → String
  | null => "null"
  | bool b => if b then "true" else "false"
  | num n => toString n
  | str s => quote s
  | arr items =>
    if items.isEmpty then "[]"
    else "[" ++ ",".intercalate (prettyItems (level + 1) items) ++ newline level ++ "]"
  | obj fields =>
    if fields.isEmpty then "\x7b\x7d"
    else "\x7b" ++ ",".intercalate (prettyFields (level + 1) fields) ++ newline level ++ "\x7d"

def prettyItems (level : Nat) : List Json → List String
  | [] => []
  | x :: xs => (newline level ++ prettyAt level x) :: prettyItems level xs

def prettyFields (level : Nat) : List (String × Json) → List String
  | [] => []
  | (key, x) :: xs =>
    (newline level ++ quote key ++ ": " ++ prettyAt level x) :: prettyFields level xs

end

def pretty (x : Json) : String := prettyAt 0 x

end Json
end TypeAtlas
