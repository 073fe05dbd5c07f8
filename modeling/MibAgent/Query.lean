import MibAgent.Scope.Order

/-!
# Queries

A query asks the registry for the first registration that serves something in a window. It
says whether the access is for writing, and which operation it belongs to: its source. A
search is a query with a test that objects have to pass.
-/

namespace MibAgent

/-- What is looked for in the registry, and on whose behalf. -/
structure Query where
  window : ContextScope
  forWrite : Bool := false
  source : Option Nat := none
deriving DecidableEq, Inhabited

namespace Query

/-- The query for a scope in the context with a given name. -/
def inContext (name : Option Octets) (scope : Scope) : Query :=
  { window := .inContext name scope }

/-- The context the query looks in. -/
def context (q : Query) : Context := q.window.context

/-- The range of OIDs the query accepts. -/
def range (q : Query) : Scope := q.window.scope

/-- Whether both queries belong to the same operation. -/
def sameSource (a b : Query) : Bool := a.source.isSome && a.source == b.source

/-- The query with its window moved past a scope. -/
def past (q : Query) (s : Scope) : Except ScopeFault Query :=
  (q.range.past s).map fun range => { q with window := { q.window with scope := range } }

/-- The query with its window moved to just after `x`. -/
def restart (q : Query) (x : Oid) : Query :=
  { q with window := { q.window with scope := q.range.restart x } }

end Query

/-- A query together with a test for the things found, which may have effects in `m`. Without
a test everything passes. -/
structure Search (m : Type → Type) (α : Type) where
  query : Query
  filter : Option (α → m Bool) := none

namespace Search

variable {m : Type → Type} {α : Type}

/-- Whether something passes the test. -/
def accepts [Monad m] (s : Search m α) (a : α) : m Bool :=
  match s.filter with
  | none => pure true
  | some test => test a

end Search

end MibAgent
