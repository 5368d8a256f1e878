/-
Inspecting a file from the command line.

A command loads a database file under some settings and describes one part of
it.  `Inspect.request?` reads the arguments, and `Inspect.run` is the whole
program on the contents of its files.
-/
import TypeAtlas.Database.Basic
import TypeAtlas.Image.Scope

namespace TypeAtlas
namespace Inspect

inductive Command where
  | stats (json : Bool)
  | name (text : String)
  | type (name : String)
  | function (name : String)
  | nameSpace (name : String)
  | hash (text : String)
deriving DecidableEq

/-- What is asked for, and whether settings are read from a file. -/
structure Request where
  file : String
  settings : Option String := none
  command : Command
deriving DecidableEq

/-! ## Arguments

A dash starts an option unless it stands alone or comes after `--`, which ends
the options of a command. -/

def isOption (arg : String) : Bool := arg.startsWith "-" && arg != "-"

/-- The arguments of a command that takes one text. -/
def textArgument? : List String → Option String
  | ["--", text] => some text
  | [text] | [text, "--"] => if isOption text then none else some text
  | _ => none

/-- The arguments of a command that takes nothing but an option. -/
def optionArgument? (option : String) : List String → Option Bool
  | [] | ["--"] => some false
  | [arg] | [arg, "--"] => if arg == option then some true else none
  | _ => none

/-- A command with its arguments, none if there is no command of that name. -/
def command? (name : String) (args : List String) : Option (Option Command) :=
  match name with
  | "stats" => some ((optionArgument? "--json" args).map .stats)
  | "name" => some ((textArgument? args).map .name)
  | "type" => some ((textArgument? args).map .type)
  | "function" => some ((textArgument? args).map .function)
  | "namespace" => some ((textArgument? args).map .nameSpace)
  | "hash" => some ((textArgument? args).map .hash)
  | _ => none

/-- A path is not empty. -/
def path? (arg : String) : Option String := if arg.isEmpty then none else some arg

/-- The arguments of the program: a file, before or after it maybe settings, and
a command with arguments of its own. -/
def requestFrom (file settings : Option String) : List String → Option Request
  | [] => none
  | "--config" :: path :: rest =>
    if settings.isSome || isOption path then none
    else (path? path).bind fun path => requestFrom file (some path) rest
  | arg :: rest =>
    match command? arg rest with
    | some command => return { file := ← file, settings, command := ← command }
    | none =>
      match arg.dropPrefix? "--config=" with
      | some path =>
        if settings.isSome then none
        else (path? path.toString).bind fun path => requestFrom file (some path) rest
      | none =>
        if file.isSome || isOption arg then none
        else (path? arg).bind fun path => requestFrom (some path) settings rest

def request? (args : List String) : Option Request := requestFrom none none args

/-! ## Descriptions -/

variable (img : Image)

/-- How a field spells its type. -/
def spelling (f : Ref .fields) : Contract String := do
  let body : FieldBody := f.record.body
  let base ← match body.type with
    | none => pure "?"
    | some t => img.qualifiedName (← img.resolve t.decl)
  let op := match body.qualifier.op with
    | .value => ""
    | .pointer => "*"
    | .reference => "&"
  return (if body.qualifier.isConst then "const " else "") ++ base ++ op

/-- The fields of a list by ascending offset, those of equal offset in order. -/
def byOffset (fields : List (Ref .fields)) : List (Ref .fields) :=
  fields.mergeSort fun f g => FieldBody.offset f.record.body ≤ FieldBody.offset g.record.body

def classLines (c : Ref .classes) : Contract (List String) := do
  let bases := (← img.bases c).map fun b => "  base: " ++ (img.nameOf b).render
  let fields ← (byOffset (← img.refs (← img.members c .fields))).mapM fun f => do
    return s!"  field +{(FieldBody.offset f.record.body).toInt}: " ++ (← spelling img f) ++ " "
      ++ (img.nameOf f).render
  let methods := (← img.refs (← img.members c .functions)).map fun m =>
    "  method: " ++ (img.nameOf m).render
  return bases ++ fields ++ methods

/-- Constants by ascending value. -/
def enumLines (e : Ref .enums) : Contract (List String) := do
  let value (c : Ref .enumConstants) : Int32 := EnumConstantBody.value c.record.body
  let constants := (← img.refs (← img.members e .enumConstants)).mergeSort fun c d =>
    value c ≤ value d
  return constants.map fun c => "  " ++ (img.nameOf c).render ++ s!" = {(value c).toInt}"

def instanceLines (t : Ref .templateTypes) : Contract (List String) := do
  return (← img.argumentsOf t).map fun arg =>
    "  argument: " ++ (img.nameOf arg.1.ref).render ++ if arg.2 then "*" else ""

def describeType (t : TypeRef) : Contract (List String) := do
  let head := [t.header.kind.label ++ " " ++ (← img.qualifiedName (← img.resolve t.id.decl)),
    "  hash: 0x" ++ hexPadded 8 (img.nameOf t.ref).hash.toNat, s!"  size: {t.size}"]
  let rest ← match t with
    | ⟨.classType, c⟩ => classLines img c
    | ⟨.enum, e⟩ => enumLines img e
    | ⟨.templateType, i⟩ => instanceLines img i
    | ⟨.type, _⟩ => pure []
  return head ++ rest

def describeFunction (f : Ref .functions) : Contract (List String) := do
  let body : FunctionBody := f.record.body
  let head := ["function " ++ (← img.qualifiedName (← img.resolve f.id.decl)),
    "  hash:      0x" ++ hexPadded 8 (img.nameOf f).hash.toNat,
    "  address:   0x" ++ hexPadded 8 body.address.toNat,
    s!"  unique id: {body.uid}"]
  let returns ← match ← img.returnOf f with
    | none => pure []
    | some r => pure ["  returns:   " ++ (← spelling img r)]
  let parameters ← (byOffset (← img.refs (← img.members f .fields))).mapM fun p => do
    return s!"  param {(FieldBody.offset p.record.body).toInt}:   " ++ (← spelling img p) ++ " "
      ++ (img.nameOf p).render
  return head ++ returns ++ parameters

def describeNamespace (n : Ref .namespaces) : Contract (List String) := do
  let count (a : Arena) : Contract String := return toString (← img.members n a).size
  return ["namespace " ++ (← img.qualifiedName (← img.resolve n.id.decl)),
    "  namespaces: " ++ (← count .namespaces),
    "  types:      " ++ (← count .types),
    "  enums:      " ++ (← count .enums),
    "  classes:    " ++ (← count .classes),
    "  functions:  " ++ (← count .functions),
    "  templates:  " ++ (← count .templates)]

/-- The lines a command prints for a loaded image, or none if it finds nothing. -/
def describe (h : Holding) : Command → Contract (Option (List String))
  | .stats true => return some [h.stats.toJson.pretty]
  | .stats false => return some [h.stats.render]
  | .name text =>
    let name := h.image.getNameByText text
    return if name.isEmpty then none
      else some ["0x" ++ hexPadded 8 name.hash.toNat ++ " " ++ name.textOrEmpty]
  | .type name => do
    match ← h.image.getType (hashText name) with
    | none => return none
    | some t => return some (← describeType h.image t)
  | .function name =>
    match h.image.find .functions (hashText name) with
    | none => return none
    | some f => return some (← describeFunction h.image f)
  | .nameSpace name =>
    match h.image.find .namespaces (hashText name) with
    | none => return none
    | some n => return some (← describeNamespace h.image n)
  | .hash text =>
    let hash := hashText text
    return some ["0x" ++ hexPadded 8 hash.toNat ++ s!" {hash}"]

/-! ## The program -/

/-- What a run leaves: an exit code and two texts. -/
structure Output where
  code : UInt32
  stdout : String
  stderr : String
deriving DecidableEq

/-- A failure with everything that led to it. -/
def failure (chain : List String) : Output :=
  ⟨1, "", "error: " ++ ": ".intercalate chain ++ "\n"⟩

/-- The output of what a command has found.  A breach of contract ends the
program with a code of its own. -/
def finish : Contract (Option (List String)) → Output
  | .ok (some lines) => ⟨0, String.join (lines.map (· ++ "\n")), ""⟩
  | .ok none => ⟨1, "", "not found\n"⟩
  | .error v => ⟨101, "", v.message ++ "\n"⟩

/-- The database that a request is about. -/
def open? (r : Request) (read : String → FileContent) : Except Output Holding := do
  let settings ← match r.settings with
    | none => pure {}
    | some path =>
      match Settings.ofTomlFile (read path) with
      | .ok s => pure s
      | .error e => throw (failure ["failed to read config " ++ path, e.message, e.cause])
  let outcome := ({ settings } : Database).loadFile (read r.file) none #[]
  match outcome.result, outcome.database.held with
  | .ok (), some h => return h
  | .error (.fault e), _ =>
    throw (failure (["failed to load " ++ r.file, e.message] ++ e.cause?.toList))
  | .error (.breach v), _ => throw (finish (.error v))
  | .ok (), none => throw (finish (.error .notLoaded))

/-- Runs a request where `read` gives the content of every file.  A hash is
computed without a look at them. -/
def run (r : Request) (read : String → FileContent) : Output :=
  match r.command with
  | .hash text => finish (describe { image := .empty .full } (.hash text))
  | command =>
    match open? r read with
    | .error output => output
    | .ok h => finish (describe h command)

def usage : String :=
  "Usage: inspect [--config <settings>] <file> <command>\n\n"
    ++ "Commands: stats [--json], name <text>, type <name>, function <name>,\n"
    ++ "  namespace <name>, hash <text>\n"

end Inspect
end TypeAtlas
