/-
A database with one owner.

It holds the image of the last load that succeeded.  Whether another may be
loaded over it is decided before anything is read.
-/
import TypeAtlas.Image.Query
import TypeAtlas.Image.Stats
import TypeAtlas.Settings

namespace TypeAtlas

structure Database where
  settings : Settings := {}
  held : Option Holding := none

namespace Database

structure Outcome where
  result : Attempt LoadFault Unit
  database : Database
  unread : List UInt8
  bank : Bank

def isLoaded (d : Database) : Bool := d.held.isSome

/-- Refuses a second image under the rejecting policy. -/
def checkReload (d : Database) : Except LoadFault Unit :=
  if d.isLoaded && d.settings.reload == .reject then .error .alreadyLoaded else .ok ()

/-- Holds an image in place of the one held so far, which is dropped.  An image
that is refused is dropped too. -/
def install (d : Database) (h : Holding) (bank : Bank) :
    Except LoadFault Unit × Database × Bank :=
  match d.checkReload with
  | .error e => (.error e, d, h.drop bank)
  | .ok () =>
    let bank := match d.held with
      | some old => old.drop bank
      | none => bank
    (.ok (), { d with held := some h }, bank)

/-- Loads from a stream under a policy. -/
def loadWith (d : Database) (p : LoadPolicy) (input : List UInt8) (account : Option Account)
    (bank : Bank) : Outcome :=
  match d.checkReload with
  | .error e => ⟨.error (.fault e), d, input, bank⟩
  | .ok () =>
    match p.load input account bank with
    | ⟨.error stop, unread, bank⟩ => ⟨.error stop, d, unread, bank⟩
    | ⟨.ok h, unread, bank⟩ =>
      let (result, d, bank) := d.install h bank
      ⟨result.mapError .fault, d, unread, bank⟩

def load (d : Database) (input : List UInt8) (account : Option Account) (bank : Bank) : Outcome :=
  d.loadWith d.settings.policy input account bank

def loadFile (d : Database) (file : FileContent) (account : Option Account) (bank : Bank) :
    Outcome :=
  match d.checkReload, file with
  | .error e, _ => ⟨.error (.fault e), d, [], bank⟩
  | .ok (), .error fault => ⟨.error (.fault (.stream fault)), d, [], bank⟩
  | .ok (), .ok bytes => d.load bytes account bank

def unload (d : Database) : Option Holding × Database := (d.held, { d with held := none })

/-- The image held, which there has to be. -/
def image (d : Database) : Contract Holding :=
  match d.held with
  | some h => .ok h
  | none => .error .notLoaded

def ofImage (h : Holding) : Database := { held := some h }

def drop (d : Database) (bank : Bank) : Bank :=
  match d.held with
  | some h => h.drop bank
  | none => bank

end Database
end TypeAtlas
