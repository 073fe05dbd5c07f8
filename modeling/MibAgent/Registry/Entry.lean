import MibAgent.Scope.Context

/-!
# Registered objects

Objects, listeners and the holders of locks are known by numbers.
-/

namespace MibAgent

/-- An object that can be registered. -/
abbrev ObjectId := Nat

/-- Someone who is told about what happens. -/
abbrev ListenerId := Nat

/-- Someone who can hold a lock. A request holds locks under its transaction number. -/
abbrev LockOwner := Nat

/-- A registration: an object, and the context scope it is registered for. -/
structure Entry where
  scope : ContextScope
  object : ObjectId
deriving DecidableEq, Inhabited

end MibAgent
