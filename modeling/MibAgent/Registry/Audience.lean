import MibAgent.OrderedMap
import MibAgent.Registry.Entry

/-!
# Audiences

The listeners of an object form its audience. An audience begins with the first listener that
is attached to the object, and it ends when the last one leaves or when the object is no longer
registered; the next listener begins a new one. A lookup addresses the audience that the object
had when the lookup came to it, so audiences are numbered, and one that has ended keeps its
members.
-/

namespace MibAgent

/-- The audiences of all objects. -/
structure Audiences where
  /-- The members of each audience there has been, by its number. -/
  members : Array (List ListenerId)
  /-- The number of the audience an object has. -/
  current : OrderedMap ObjectId Nat
deriving Inhabited

namespace Audiences

/-- No object has an audience. -/
def empty : Audiences := ⟨#[], .empty⟩

/-- The number of the audience of an object. -/
def of? (a : Audiences) (object : ObjectId) : Option Nat := a.current.get? object

/-- The members of an audience, in the order in which they joined. -/
def membersOf (a : Audiences) (audience : Nat) : List ListenerId :=
  (a.members[audience]?).getD []

/-- A listener joins the audience of an object. -/
def join (a : Audiences) (object : ObjectId) (listener : ListenerId) : Audiences :=
  match a.of? object with
  | some audience => { a with members := a.members.modify audience (· ++ [listener]) }
  | none => ⟨a.members.push [listener], a.current.insert object a.members.size⟩

/-- A listener leaves the audience of an object once; the answer tells whether it was a
member. -/
def leave (a : Audiences) (object : ObjectId) (listener : ListenerId) : Bool × Audiences :=
  match a.of? object with
  | none => (false, a)
  | some audience =>
    let before := a.membersOf audience
    let after := before.erase listener
    (before.contains listener,
      ⟨a.members.setIfInBounds audience after,
        if after.isEmpty then a.current.erase object else a.current⟩)

/-- The audience of an object ends. -/
def dismiss (a : Audiences) (object : ObjectId) : Audiences :=
  { a with current := a.current.erase object }

end Audiences

end MibAgent
