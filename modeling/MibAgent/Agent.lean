import MibAgent.Agent.State
import MibAgent.Request.Response

/-!
# Agents

An agent answers requests by what the objects in its registry tell it. An object declares the
scope it serves, gives the value of an OID and finds the next instance in a window. It may be
able to do more: to be written, to refresh itself, to tell about changes in the rows of a
table.
-/

namespace MibAgent

variable {σ : Type}

/-- What an object that can be written does in each phase of a write. -/
structure Writable (σ : Type) where
  /-- Tells whether a value could be written. -/
  validate : RequestContext → Binding → AgentM σ WriteResult
  /-- Takes on a value, given what is stored for undoing it; the answer comes with what is to
  be stored. -/
  apply : RequestContext → Binding → Option Value → AgentM σ (WriteResult × Option Value)
  /-- Makes the value final. -/
  commit : RequestContext → Binding → AgentM σ WriteResult := fun _ _ => pure .ok
  /-- Goes back to the value before, by what was stored. -/
  undo : RequestContext → Binding → Option Value → AgentM σ WriteResult
  /-- Comes last, whether the value was written or not. -/
  cleanup : RequestContext → Binding → AgentM σ Unit := fun _ _ => pure ()

/-- What an object does that tells listeners about the rows of a table. -/
structure TableObject (σ : Type) where
  /-- A listener is to be told from now on. -/
  addListener : ListenerId → AgentM σ Unit
  /-- A listener is no longer to be told; tells whether it was told until now. -/
  removeListener : ListenerId → AgentM σ Bool

/-- An object that the agent serves. -/
structure ManagedObject (σ : Type) where
  /-- The scope the object declares. -/
  scope : AgentM σ Scope
  /-- The value of an OID. -/
  get : RequestContext → Oid → AgentM σ ReadResult
  /-- The first instance in the window of a query. -/
  next : RequestContext → Query → AgentM σ NextResult
  writable : Option (Writable σ) := none
  /-- Makes the values of the object current. -/
  refresh : Option (Query → AgentM σ Unit) := none
  table : Option (TableObject σ) := none

/-- What a listener does when an object comes up in a lookup, and when it is what the lookup
finds. -/
structure LookupListener (σ : Type) where
  considered : Entry → Query → AgentM σ Unit := fun _ _ => pure ()
  found : Entry → Query → AgentM σ Unit := fun _ _ => pure ()

/-- What happens to a context. -/
inductive ContextChange where
  | added
  | removed
deriving DecidableEq, Inhabited

/-- What happens to a row of a table. -/
inductive RowChange where
  | created
  | updated
  | deleted
deriving DecidableEq, Inhabited

/-- A change of the row at `index` in a table. -/
structure RowEvent where
  table : Oid
  index : Oid
  change : RowChange
deriving DecidableEq, Inhabited

/-- How the wait for a lock ended. -/
inductive WaitEnd where
  /-- The lock may have become free, or the time is up. -/
  | over
  /-- Everyone who waits is sent away. -/
  | interrupted
deriving DecidableEq, Inhabited

/-- Whether an object is to be refreshed for a query. -/
abbrev RefreshRule (σ : Type) := ObjectId → Query → AgentM σ Bool

/-- The settings of an agent. Times are in milliseconds, sizes in octets. -/
structure AgentConfig where
  /-- How long to wait for a lock; zero means for ever. -/
  lockTimeout : Nat := 5000
  /-- The size of a response unless another one is agreed. -/
  maxResponseSize : Nat := 65507
  /-- How many bindings a request may have. -/
  maxBindings : Nat := 2048
  /-- For how long a request that is not finished keeps others with the same id out. -/
  maturity : Nat := 300000
deriving DecidableEq, Inhabited

/-- An agent in its surroundings. -/
structure Agent (σ : Type) where
  object : ObjectId → ManagedObject σ
  lookupListener : ListenerId → LookupListener σ
  /-- What a listener does when a context is added or removed. -/
  contextListener : ListenerId → Octets → ContextChange → AgentM σ Unit
  /-- When objects are refreshed; without a rule they never are. -/
  refreshRule : Option (RefreshRule σ)
  /-- Whether access is granted. -/
  access : AccessCheck → AgentM σ Bool
  /-- What happens while someone waits for the lock on an object, for at most a time that is
  zero when there is no limit. -/
  wait : LockOwner → ObjectId → Nat → AgentM σ WaitEnd
  config : AgentConfig
  /-- How many registrations a search for the next instance visits at most. -/
  searchLimit : Nat

namespace RefreshRule

/-- Objects are refreshed for every query. -/
def always : RefreshRule σ := fun _ _ => pure true

/-- Objects are refreshed when the query has another source than the one before, or none. -/
def onSourceChange : RefreshRule σ := fun object query => do
  match query.source with
  | none => return true
  | some source =>
    let registry ← AgentM.registry
    AgentM.modifyRegistry fun r => { r with lastSource := r.lastSource.insert object source }
    return registry.lastSource.get? object != some source

/-- The source of the last query for an object is forgotten. -/
def forget (object : ObjectId) : AgentM σ Unit :=
  AgentM.modifyRegistry fun r => { r with lastSource := r.lastSource.erase object }

end RefreshRule

end MibAgent
