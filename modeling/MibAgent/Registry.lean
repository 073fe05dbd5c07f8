import MibAgent.LockTable
import MibAgent.Registry.Audience
import MibAgent.Registry.Store

/-!
# The registry

What the agent knows about objects: where they are registered, which contexts exist, who holds
a lock, who listens, and on whose behalf each object was last refreshed.
-/

namespace MibAgent

/-- The state of a registry. -/
structure Registry where
  store : Store
  /-- The names of the contexts that are supported besides the default one. -/
  contexts : OrderedMap Octets Unit
  locks : LockTable
  audiences : Audiences
  contextListeners : List ListenerId
  /-- The source of the query for which an object was last refreshed. -/
  lastSource : OrderedMap ObjectId Nat
deriving Inhabited

namespace Registry

/-- A registry without objects that supports some named contexts. -/
def ofContexts (names : List Octets) : Registry where
  store := .empty
  contexts := .ofList ((names.filter fun name => !name.isEmpty).map (·, ()))
  locks := .empty
  audiences := .empty
  contextListeners := []
  lastSource := .empty

/-- Whether a context is supported; the default context always is. -/
def supports (r : Registry) (c : Context) : Bool :=
  match c with
  | none => true
  | some name => name.isEmpty || r.contexts.contains name

end Registry

end MibAgent
