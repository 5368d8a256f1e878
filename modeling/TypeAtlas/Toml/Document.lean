/-
Values that nest, and documents.

A table may be written in pieces: by its own header, by the headers of tables
inside it and by keys with points.  What has been written in one way cannot be
taken up in every other, so a table being read keeps how it came about.
-/
import TypeAtlas.Toml.Text

namespace TypeAtlas
namespace Toml

/-- Part of a document being read. -/
inductive Node where
  | value (v : Value)
  /-- A table.  It is implicit until it has a header of its own, and dotted if a
  key with points has brought it about. -/
  | table (implicit dotted : Bool) (entries : List (String × Node))
  /-- Tables under one header in double brackets, the latest first. -/
  | tables (elements : List (List (String × Node)))

abbrev Entries : Type := List (String × Node)

namespace Entries

/-- Replaces the value of a key that is there. -/
def replace (es : Entries) (key : String) (n : Node) : Entries :=
  es.map fun e => if e.1 == key then (key, n) else e

/-- Changes the entries of the table at a path and makes tables on the way where
there are none.  Of several tables under one header the latest is meant.  By a
key with points, no table that has a header can be entered. -/
def update (dotted : Bool) (f : Bool → Entries → Option Entries) :
    List String → Bool → Entries → Option Entries
  | [], isDotted, es => f isDotted es
  | key :: path, _, es =>
    match es.lookup key with
    | none => do
      let inner ← update dotted f path dotted []
      some (es ++ [(key, .table true dotted inner)])
    | some (.table implicit isDotted inner) =>
      if dotted && !implicit then none
      else do
        let inner ← update dotted f path isDotted inner
        some (replace es key (.table implicit isDotted inner))
    | some (.tables (latest :: earlier)) => do
      let latest ← update dotted f path false latest
      some (replace es key (.tables (latest :: earlier)))
    | some (.tables []) | some (.value _) => none

/-- Adds a key that is not there yet. -/
def insertNew (key : String) (n : Node) (es : Entries) : Option Entries :=
  if (es.lookup key).isSome then none else some (es ++ [(key, n)])

/-- Adds a value under a key with points to a table.  A table brought about by
such keys takes no plain key, and no other table takes one with points twice. -/
def insertValue (path : List String) (key : String) (v : Value) (isDotted : Bool) (es : Entries) :
    Option Entries :=
  update true (fun isDotted es =>
    if isDotted == path.isEmpty then none else insertNew key (.value v) es) path isDotted es

/-- Opens the table of a header. -/
def openTable (path : List String) (key : String) (es : Entries) : Option Entries :=
  update false (fun _ es =>
    match es.lookup key with
    | none => insertNew key (.table false false []) es
    | some (.table true false inner) => some (replace es key (.table false false inner))
    | some _ => none) path false es

/-- Opens one more table under a header in double brackets. -/
def openElement (path : List String) (key : String) (es : Entries) : Option Entries :=
  update false (fun _ es =>
    match es.lookup key with
    | none => insertNew key (.tables [[]]) es
    | some (.tables elements) => some (replace es key (.tables ([] :: elements)))
    | some _ => none) path false es

end Entries

mutual

/-- What a finished part of a document says. -/
def Node.toValue : Node → Value
  | .value v => v
  | .table _ _ entries => .table (tableOf entries)
  | .tables elements => .array (tablesOf elements)

def tableOf : List (String × Node) → Table
  | [] => []
  | (key, n) :: es => (key, n.toValue) :: tableOf es

def tablesOf : List (List (String × Node)) → List Value
  | [] => []
  | es :: rest => .table (tableOf es) :: tablesOf rest

end

/-! ## Values -/

/-- Values separated by commas, the last of which may be followed by one too. -/
def items (value : Parser Value) : Parser (List Value) := fun s =>
  let item : Parser Value := fun s => do
    let (v, s) ← value (skipLines s)
    some (v, skipLines s)
  match item s with
  | none => some ([], skipLines s)
  | some (first, s) =>
    let next : Parser Value := fun s => do
      let ((), s) ← char ',' s
      item s
    let (rest, s) := many next s
    match s with
    | ',' :: s => some (first :: rest, skipLines s)
    | s => some (first :: rest, s)

/-- A key with its value, and how it is cut into path and last part. -/
def assignment (value : Parser Value) : Parser (List String × String × Value) := fun s => do
  let (parts, s) ← key s
  let last ← parts.getLast?
  let ((), s) ← char '=' s
  let (v, s) ← value (skipBlanks s)
  some ((parts.dropLast, last, v), skipBlanks s)

/-- Assignments separated by commas. -/
def assignments (value : Parser Value) : Parser (List (List String × String × Value)) := fun s =>
  match assignment value s with
  | none => some ([], skipBlanks s)
  | some (first, s) =>
    let next : Parser (List String × String × Value) := fun s => do
      let ((), s) ← char ',' s
      assignment value s
    let (rest, s) := many next s
    some (first :: rest, skipBlanks s)

/-- A value nested no deeper than `depth`. -/
def valueWithin (depth : Nat) : Parser Value := fun s =>
  match s, depth with
  | '[' :: s, depth + 1 => do
    let (vs, s) ← items (valueWithin depth) s
    let ((), s) ← char ']' s
    some (.array vs, s)
  | '\x7b' :: s, depth + 1 => do
    let (as, s) ← assignments (valueWithin depth) s
    let ((), s) ← char '\x7d' s
    let entries ← as.foldlM (fun (es : Entries) a => es.insertValue a.1 a.2.1 a.2.2 false) []
    some (.table (tableOf entries), s)
  | '"' :: _, _ | '\x27' :: _, _ => (text s).map fun x => (.string x.1, x.2)
  | _, _ => scalar s

def value : Parser Value := valueWithin (nestingLimit - 1)

/-! ## Documents -/

/-- A document up to some line of it. -/
structure Document where
  entries : Entries := []
  /-- The header under which the next lines stand. -/
  current : List String := []

namespace Document

/-- The end of a line, which a comment may come before. -/
def lineEnd : Parser Unit := fun s =>
  match skipComment (skipBlanks s) with
  | [] => some ((), [])
  | s => newline s

def headerLine (d : Document) (element : Bool) (s : List Char) : Option (Document × List Char) := do
  let (parts, s) ← key s
  let last ← parts.getLast?
  let ((), s) ← char ']' s
  let ((), s) ← if element then char ']' s else some ((), s)
  let ((), s) ← lineEnd s
  let openIt := if element then Entries.openElement else Entries.openTable
  let entries ← openIt parts.dropLast last d.entries
  some (⟨entries, parts⟩, s)

def assignmentLine (d : Document) (s : List Char) : Option (Document × List Char) := do
  let ((path, last, v), s) ← assignment value s
  let ((), s) ← lineEnd s
  let entries ← d.entries.update false (Entries.insertValue path last v) d.current false
  some ({ d with entries }, s)

def line (d : Document) (s : List Char) : Option (Document × List Char) :=
  match skipComment (skipBlanks s) with
  | '[' :: '[' :: s => d.headerLine true s
  | '[' :: s => d.headerLine false s
  | s =>
    match newline s with
    | some ((), s) => some (d, s)
    | none => d.assignmentLine s

def lines (d : Document) (s : List Char) : Option Document :=
  if (skipComment (skipBlanks s)).isEmpty then some d
  else
    match d.line s with
    | none => none
    | some (d, rest) => if rest.length < s.length then lines d rest else none
termination_by s.length

end Document

/-- Reads a document, which a byte order mark may come before. -/
def parse? (text : String) : Option Table :=
  let s := match text.toList with
    | '\ufeff' :: s => s
    | s => s
  (Document.lines {} s).map fun d => tableOf d.entries

end Toml
end TypeAtlas
