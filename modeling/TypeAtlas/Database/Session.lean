/-
Databases of both sorts under one set of commands.

A session talks to a database with one owner or to a publisher, and has the bank
that their images are charged to.  Snapshots stay with their readers when the
session turns from the publisher to a database of its own.  A command that the
sort of database does not have is not answered at all; every other command is
answered and leaves a session for the next one.
-/
import TypeAtlas.Database.Publisher

namespace TypeAtlas

structure Session where
  /-- The database with one owner, if the session talks to that. -/
  owned : Option Database := none
  /-- What the session talks to otherwise, and the readers in any case. -/
  publisher : Publisher := {}
  bank : Bank := #[]

namespace Session

def isLoaded (s : Session) : Bool :=
  match s.owned with
  | some d => d.isLoaded
  | none => s.publisher.isLoaded

def settings (s : Session) : Settings :=
  match s.owned with
  | some d => d.settings
  | none => s.publisher.settings

/-- The current image, which there has to be. -/
def image (s : Session) : Contract Holding :=
  match s.owned with
  | some d => d.image
  | none => s.publisher.image

/-- The snapshot at a place among those that readers hold. -/
def snapshot? (s : Session) (i : Nat) : Option Snapshot := s.publisher.readers[i]?

def drop (s : Session) : Bank :=
  match s.owned with
  | some d => s.publisher.drop (d.drop s.bank)
  | none => s.publisher.drop s.bank

inductive Command where
  | load (input : List UInt8) (account : Option Account)
  | loadWith (policy : LoadPolicy) (input : List UInt8) (account : Option Account)
  | loadFile (file : FileContent) (account : Option Account)
  /-- Reads an image for itself and installs it. -/
  | install (policy : LoadPolicy) (input : List UInt8) (account : Option Account)
  /-- Reads an image for itself and makes it a database with one owner. -/
  | adopt (policy : LoadPolicy) (input : List UInt8) (account : Option Account)
  | unload
  /-- Gives the image away and starts anew with default settings. -/
  | takeImage
  /-- Hands the image to another reader. -/
  | subscribe
  | unsubscribeAll

inductive Reply where
  | done
  /-- A result, with the number of bytes that were not consumed. -/
  | loaded (result : Attempt LoadFault Unit) (unread : Nat)
  | given (stats : Option ImageStats)
  /-- The place of the snapshot among those of all readers. -/
  | subscribed (place : Option Nat)

/-- Answers with the outcome of a load by the database with one owner. -/
def ofDatabase (s : Session) (o : Database.Outcome) : Reply × Session :=
  (.loaded o.result o.unread.length, { s with owned := some o.database, bank := o.bank })

def ofPublisher (s : Session) (o : Publisher.Outcome) : Reply × Session :=
  (.loaded o.result o.unread.length, { s with publisher := o.publisher, bank := o.bank })

def loadWith (s : Session) (policy : LoadPolicy) (input : List UInt8)
    (account : Option Account) : Reply × Session :=
  match s.owned with
  | some d => s.ofDatabase (d.loadWith policy input account s.bank)
  | none => s.ofPublisher (s.publisher.loadWith policy input account s.bank)

def installHeld (s : Session) (h : Holding) : Except LoadFault Unit × Session :=
  match s.owned with
  | some d =>
    let (result, d, bank) := d.install h s.bank
    (result, { s with owned := some d, bank })
  | none =>
    let (result, publisher, bank) := s.publisher.install h s.bank
    (result, { s with publisher, bank })

def install (s : Session) (policy : LoadPolicy) (input : List UInt8)
    (account : Option Account) : Reply × Session :=
  match policy.load input account s.bank with
  | ⟨.error stop, unread, bank⟩ => (.loaded (.error stop) unread.length, { s with bank })
  | ⟨.ok h, unread, bank⟩ =>
    let (result, s) := { s with bank }.installHeld h
    (.loaded (result.mapError .fault) unread.length, s)

/-- Lets go of the database in use, of which readers keep their snapshots. -/
def leave (s : Session) : Session :=
  let bank := match s.owned with
    | some d => d.drop s.bank
    | none => s.bank
  let (publisher, bank) := s.publisher.close bank
  { owned := none, publisher, bank }

/-- The database in use is let go of after the image was read. -/
def adopt (s : Session) (policy : LoadPolicy) (input : List UInt8)
    (account : Option Account) : Reply × Session :=
  match policy.load input account s.bank with
  | ⟨.error stop, unread, bank⟩ => (.loaded (.error stop) unread.length, { s with bank })
  | ⟨.ok h, _, bank⟩ => (.done, { { s with bank }.leave with owned := some (.ofImage h) })

/-- Gives an image away to someone who looks at its figures and drops it, and
goes on with `d`. -/
def give (s : Session) (held : Option Holding) (d : Database) : Reply × Session :=
  match held with
  | none => (.given none, { s with owned := some d })
  | some h => (.given (some h.stats), { s with owned := some d, bank := h.drop s.bank })

/-- Answers a command that only a database with one owner has. -/
def runOwned (s : Session) (d : Database) : Command → Option (Reply × Session)
  | .loadFile file account => s.ofDatabase (d.loadFile file account s.bank)
  | .unload => s.give d.unload.1 d.unload.2
  | .takeImage => s.give d.held {}
  | _ => none

def subscribe (s : Session) : Reply × Session :=
  match s.publisher.subscribe with
  | none => (.subscribed none, s)
  | some (_, publisher) => (.subscribed (some s.publisher.readers.length), { s with publisher })

def run (s : Session) : Command → Option (Reply × Session)
  | .load input account => s.loadWith s.settings.policy input account
  | .loadWith policy input account => s.loadWith policy input account
  | .install policy input account => s.install policy input account
  | .adopt policy input account => s.adopt policy input account
  | .unsubscribeAll =>
    let (publisher, bank) := s.publisher.unsubscribeAll s.bank
    some (.done, { s with publisher, bank })
  | .subscribe => if s.owned.isSome then none else s.subscribe
  | command => s.owned.bind fun d => s.runOwned d command

end Session
end TypeAtlas
