/-
A database with many readers.

A load publishes a new generation.  Readers keep snapshots, and a snapshot stays
on the generation it was taken from whatever is published later.  A generation
is dropped when neither the publisher nor any reader holds it.
-/
import TypeAtlas.Database.Basic

namespace TypeAtlas

/-- A published image. -/
structure Snapshot where
  generation : Nat
  held : Holding

/-- Whether two snapshots are of one published image. -/
def Snapshot.sameImage (s t : Snapshot) : Bool := s.generation == t.generation

structure Publisher where
  settings : Settings := {}
  current : Option Snapshot := none
  /-- The snapshots that readers hold, in the order they were taken. -/
  readers : List Snapshot := []
  /-- How many generations there have been. -/
  published : Nat := 0

namespace Publisher

structure Outcome where
  result : Attempt LoadFault Unit
  publisher : Publisher
  unread : List UInt8
  bank : Bank

def isLoaded (p : Publisher) : Bool := p.current.isSome

/-- Whether anyone holds a generation. -/
def isHeld (p : Publisher) (generation : Nat) : Bool :=
  (p.current.toList ++ p.readers).any (·.generation == generation)

/-- Drops an image that someone has let go of, unless it is still held. -/
def settle (p : Publisher) (s : Snapshot) (bank : Bank) : Bank :=
  if p.isHeld s.generation then bank else s.held.drop bank

/-- Refuses an image in place of another under the rejecting policy. -/
def checkReload (p : Publisher) : Except LoadFault Unit :=
  if p.settings.reload == .reject then .error .alreadyLoaded else .ok ()

/-- An image may be published where there is none, or where it may replace the
current one. -/
def checkPublish (p : Publisher) : Except LoadFault Unit :=
  if p.isLoaded then p.checkReload else .ok ()

/-- Publishes an image in place of the current one.  An image that is refused is
dropped. -/
def install (p : Publisher) (h : Holding) (bank : Bank) :
    Except LoadFault Unit × Publisher × Bank :=
  match p.checkPublish with
  | .error e => (.error e, p, h.drop bank)
  | .ok () =>
    let next := { p with current := some ⟨p.published, h⟩, published := p.published + 1 }
    let bank := match p.current with
      | some old => next.settle old bank
      | none => bank
    (.ok (), next, bank)

/-- Loads from a stream under a policy.  Whether the image may be published is
looked at before anything is read, and again once it is there. -/
def loadWith (p : Publisher) (policy : LoadPolicy) (input : List UInt8)
    (account : Option Account) (bank : Bank) : Outcome :=
  match p.checkPublish with
  | .error e => ⟨.error (.fault e), p, input, bank⟩
  | .ok () =>
    match policy.load input account bank with
    | ⟨.error stop, unread, bank⟩ => ⟨.error stop, p, unread, bank⟩
    | ⟨.ok h, unread, bank⟩ =>
      let (result, p, bank) := p.install h bank
      ⟨result.mapError .fault, p, unread, bank⟩

def load (p : Publisher) (input : List UInt8) (account : Option Account) (bank : Bank) : Outcome :=
  p.loadWith p.settings.policy input account bank

/-- Hands the current image to a reader. -/
def subscribe (p : Publisher) : Option (Snapshot × Publisher) :=
  p.current.map fun s => (s, { p with readers := p.readers ++ [s] })

/-- Hands a copy of the snapshot at a place among the readers to another reader. -/
def share (p : Publisher) (i : Nat) : Option (Snapshot × Publisher) :=
  p.readers[i]?.map fun s => (s, { p with readers := p.readers ++ [s] })

/-- Takes back the snapshot at a place among the readers. -/
def unsubscribe (p : Publisher) (i : Nat) (bank : Bank) : Publisher × Bank :=
  match p.readers[i]? with
  | none => (p, bank)
  | some s =>
    let next := { p with readers := p.readers.eraseIdx i }
    (next, next.settle s bank)

def unsubscribeAll (p : Publisher) (bank : Bank) : Publisher × Bank :=
  p.readers.foldl (fun state _ => state.1.unsubscribe 0 state.2) (p, bank)

/-- The current image, which there has to be. -/
def image (p : Publisher) : Contract Holding :=
  match p.current with
  | some s => .ok s.held
  | none => .error .notLoaded

/-- Stops publishing.  Readers keep their snapshots. -/
def close (p : Publisher) (bank : Bank) : Publisher × Bank :=
  match p.current with
  | none => (p, bank)
  | some s =>
    let next := { p with current := none }
    (next, next.settle s bank)

def drop (p : Publisher) (bank : Bank) : Bank :=
  let (p, bank) := p.unsubscribeAll bank
  (p.close bank).2

end Publisher
end TypeAtlas
