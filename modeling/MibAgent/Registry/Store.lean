import MibAgent.Failure
import MibAgent.OrderedMap
import MibAgent.Registry.Partition

/-!
# The store of registrations

The store has a partition for each context in which something is registered. A registration
in a named context must not overlap another one in that context; one in the default context
must not overlap any. A query in a named context sees the registrations of that context and
those of the default one, in one order; a query in the default context sees only the latter.
-/

namespace MibAgent

/-- The registrations, by context. -/
structure Store where
  partitions : OrderedMap Context Partition
deriving Inhabited

namespace Store

/-- Nothing is registered. -/
def empty : Store := ⟨.empty⟩

/-- The registrations in a context. -/
def partition (s : Store) (c : Context) : Partition := (s.partitions.get? c).getD #[]

/-- The store with other registrations in a context. -/
def withPartition (s : Store) (c : Context) (part : Partition) : Store :=
  ⟨if part.isEmpty then s.partitions.erase c else s.partitions.insert c part⟩

/-- All registrations, context by context, those of the default context first. -/
def entries (s : Store) : List Entry := s.partitions.entries.flatMap fun p => p.2.toList

/-- The number of registrations. -/
def size (s : Store) : Nat := s.entries.length

/-- Whether an object is registered in some context. -/
def hasObject (s : Store) (object : ObjectId) : Bool :=
  s.entries.any fun e => e.object == object

/-- The contexts in which an object is registered. -/
def contextsOf (s : Store) (object : ObjectId) : List Context :=
  (s.partitions.entries.filter fun p => p.2.any fun e => e.object == object).map (·.1)

/-- The first registration that stands in the way of another one. -/
def conflict? (s : Store) (scope : ContextScope) : Option Entry :=
  match scope.context with
  | none => s.partitions.entries.findSome? fun p => (p.2.overlapping scope).head?
  | some _ => ((s.partition scope.context).overlapping scope).head?

/-- Adds a registration. -/
def register (s : Store) (e : Entry) : Except Failure Store :=
  if e.scope.scope.isEmpty then .error (.invalidScope .emptyRegistration)
  else
    match s.conflict? e.scope with
    | some existing => .error (.duplicateRegistration e.scope existing.scope)
    | none => .ok (s.withPartition e.scope.context ((s.partition e.scope.context).place e))

/-- Removes the registration of an object that declares a scope, if there is one in the context
of that scope. -/
def unregister? (s : Store) (declared : ContextScope) (object : ObjectId) :
    Option (Entry × Store) :=
  let part := s.partition declared.context
  (part.position? declared object).bind fun i =>
    part[i]?.map fun e => (e, s.withPartition declared.context (part.eraseIdxIfInBounds i))

/-- Takes a scope away from the first registration of an object in a context. Without a
registration there is no result. -/
def narrow (s : Store) (c : Context) (object : ObjectId) (taken : Scope) :
    Except ScopeFault (Option Store) :=
  let part := s.partition c
  match part.toList.findIdx? fun e => e.object == object with
  | none => .ok none
  | some i =>
    match part[i]? with
    | none => .ok none
    | some e =>
      (e.scope.scope.subtract taken).map fun rest =>
        some (s.withPartition c (part.setIfInBounds i { e with scope := ⟨e.scope.context, rest⟩ }))

/-- The registrations a query may find, in the order in which they are tried. With `ownOnly`, a
query in a named context does not see the default context. -/
def candidates (s : Store) (window : ContextScope) (ownOnly : Bool) : List Entry :=
  match window.context with
  | none => (s.partition none).overlapping window
  | some _ =>
    let own := (s.partition window.context).overlapping window
    let shared := if ownOnly then [] else (s.partition none).overlapping window
    own.merge shared fun a b => a.scope.order b.scope != .gt

end Store

end MibAgent
