/-
Queries through a database.

They are answered from the image that is held, without which there is nothing to ask.  A
snapshot always holds one.
-/
import TypeAtlas.Database.Publisher

namespace TypeAtlas

/-- What a database can be asked. -/
inductive Query where
  | name (hash : UInt32)
  | nameByText (text : String)
  | type (hash : UInt32)
  | record (a : Arena) (hash : UInt32)
  | root
  | stats
deriving DecidableEq

namespace Query

/-- What a query is answered with. -/
def Answer : Query → Type
  | name _ | nameByText _ => Name
  | type _ => Option TypeRef
  | record a _ => Option (Ref a)
  | root => Ref .namespaces
  | stats => ImageStats

/-- Answers a query.  Only a look at the type index follows references. -/
def answer (h : Holding) : (q : Query) → Contract q.Answer
  | name hash => .ok (h.image.getName hash)
  | nameByText text => .ok (h.image.getNameByText text)
  | type hash => h.image.getType hash
  | record a hash => .ok (h.image.find a hash)
  | root => .ok h.image.rootRef
  | stats => .ok h.stats

end Query

/-- Asks the image held, which there has to be. -/
def Database.ask (d : Database) (q : Query) : Contract q.Answer := do
  q.answer (← d.image)

/-- Asks the current image, which there has to be. -/
def Publisher.ask (p : Publisher) (q : Query) : Contract q.Answer := do
  q.answer (← p.image)

/-- Asks the image of a snapshot. -/
def Snapshot.ask (s : Snapshot) (q : Query) : Contract q.Answer := q.answer s.held

end TypeAtlas
