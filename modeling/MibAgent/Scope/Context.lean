import MibAgent.Octets.Utf8
import MibAgent.Scope.Algebra

/-!
# Contexts

A context is a part of the object tree that belongs to one tenant. The default context has no
name; an empty name means the default context too. A context scope is a scope in a context.
-/

namespace MibAgent

/-- A context, by its name; the default context has none. -/
abbrev Context := Option Octets

namespace Context

/-- The context with a given name, the empty name being that of the default context. -/
def ofName (name : Option Octets) : Context := name.filter fun octets => !octets.isEmpty

end Context

/-- A scope in a context. -/
structure ContextScope where
  context : Context
  scope : Scope
deriving DecidableEq, Inhabited

namespace ContextScope

/-- A scope in the context with a given name. -/
def inContext (name : Option Octets) (scope : Scope) : ContextScope :=
  ⟨Context.ofName name, scope⟩

/-- Whether two scopes overlap and have the same context. -/
def overlaps (a b : ContextScope) : Bool := a.context == b.context && a.scope.overlaps b.scope

/-- The scope in print, with its context unless that is the default one. -/
def toText (s : ContextScope) : String :=
  match s.context with
  | none => s.scope.toText
  | some name => s.scope.toText ++ " in context \"" ++ Octets.toTextLossy name ++ "\""

end ContextScope

end MibAgent
