/-
Settings of a database, and how they are read from TOML.

Every setting has a default, and what is not a setting is ignored.
-/
import TypeAtlas.Toml.Document
import TypeAtlas.Wire.File

namespace TypeAtlas

/-- What loading does when an image is already there. -/
inductive ReloadPolicy where
  | reject
  | replace
deriving DecidableEq

namespace ReloadPolicy

def ofLabel? : String → Option ReloadPolicy
  | "reject" => some reject
  | "replace" => some replace
  | _ => none

end ReloadPolicy

def Profile.ofLabel? : String → Option Profile
  | "full" => some full
  | "reduced" => some reduced
  | _ => none

structure Settings where
  reload : ReloadPolicy := .reject
  profile : Profile := .full
  verify : Bool := true
  maxBytes : Option UInt64 := none
deriving DecidableEq

/-- Why settings cannot be read. -/
inductive SettingsFault where
  | stream (fault : StreamFault)
  | malformed
deriving DecidableEq

def SettingsFault.message : SettingsFault → String
  | stream fault => "I/O error: " ++ fault.message
  | malformed => "parse error: "

def SettingsFault.cause : SettingsFault → String
  | stream fault => fault.message
  | malformed => ""

namespace Settings

/-- How files are loaded under these settings. -/
def policy (s : Settings) : LoadPolicy where
  required := s.profile
  verify := s.verify
  maxBytes := s.maxBytes

/-- The case that a value names: a text, or a table with the name as its only key
and nothing under it. -/
def caseName? : Toml.Value → Option String
  | .string s => some s
  | .table [(key, .table [])] => some key
  | .table [(key, .array [])] => some key
  | _ => none

def boolean? : Toml.Value → Option Bool
  | .boolean b => some b
  | _ => none

/-- A size in bytes is no negative number. -/
def size? : Toml.Value → Option UInt64
  | .integer n => if 0 ≤ n && n < UInt64.size then some (.ofNat n.toNat) else none
  | _ => none

/-- The setting under a key, or its default.  A value of another form is
refused. -/
def setting {α : Type} (t : Toml.Table) (key : String) (default : α)
    (read : Toml.Value → Option α) : Option α :=
  match t.lookup key with
  | none => some default
  | some v => read v

def ofTable? (t : Toml.Table) : Option Settings := do
  let reload ← setting t "reload" .reject fun v => (caseName? v).bind ReloadPolicy.ofLabel?
  let profile ← setting t "profile" .full fun v => (caseName? v).bind Profile.ofLabel?
  let verify ← setting t "verify_on_load" true boolean?
  let maxBytes ← setting t "max_image_bytes" none fun v => (size? v).map some
  return { reload, profile, verify, maxBytes }

def ofToml (text : String) : Except SettingsFault Settings :=
  match (Toml.parse? text).bind ofTable? with
  | some s => .ok s
  | none => .error .malformed

/-- Reads settings from a file, which has to hold text. -/
def ofTomlFile (file : FileContent) : Except SettingsFault Settings :=
  match file with
  | .error fault => .error (.stream fault)
  | .ok bytes =>
    match String.fromUTF8? ⟨bytes.toArray⟩ with
    | some text => ofToml text
    | none => .error (.stream .notUtf8)

end Settings
end TypeAtlas
