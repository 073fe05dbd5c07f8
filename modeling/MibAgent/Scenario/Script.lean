import MibAgent.Agent.Processing

/-!
# Scripts

A scenario puts an agent into surroundings that follow a script: objects that hold values in a
map and fail where they are told to, listeners that take notes, and a list of steps. A script
may also say what an object or a listener does when it is called, again as a list of steps, for
the first call, the second call, and so on.
-/

namespace MibAgent.Scenario

/-- The occasions on which objects and listeners are called. -/
inductive Callback where
  | get
  | next
  | validate
  | apply
  | commit
  | undo
  | cleanup
  | update
  | considered
  | found
  | context
  | row
deriving DecidableEq, Inhabited

/-- All occasions. -/
def Callback.all : List Callback :=
  [get, next, validate, apply, commit, undo, cleanup, update, considered, found, context, row]

/-- What goes on elsewhere while someone waits for a lock. -/
inductive Meanwhile where
  /-- Everyone who waits is sent away. -/
  | interrupt
  /-- An owner gives up the lock on an object. -/
  | unlock (owner : LockOwner) (object : ObjectId)
deriving DecidableEq, Inhabited

/-- One thing to do. A name of a context may be absent, and the empty name is that of the
default context. -/
inductive Step where
  | register (object : ObjectId) (context : Option Octets)
  | unregister (object : ObjectId) (context : Option Octets)
  | narrow (object : ObjectId) (context : Option Octets) (taken : Scope)
  /-- Looks up a query. The objects in `skipped` are passed over by a test. -/
  | lookup (query : Query) (ownOnly : Bool) (skipped : Option (List ObjectId))
  /-- Looks up a query again and again, past what was found. -/
  | walk (query : Query) (skipped : Option (List ObjectId))
  | getObject (oid : Oid) (context : Option Octets)
  | registeredContexts (object : ObjectId)
  | iterate
  | takeSnapshot (name : String)
  | readSnapshot (name : String)
  | lock (owner : LockOwner) (object : ObjectId) (timeout : Nat) (yesNo : Bool)
      (meanwhile : Option Meanwhile)
  | unlock (owner : LockOwner) (object : ObjectId)
  | lockInfo (object : ObjectId)
  | interrupt
  | addContext (name : Octets)
  | removeContext (name : Octets)
  | contexts
  | supported (context : Option Octets)
  | addContextListener (listener : ListenerId)
  | removeContextListener (listener : ListenerId)
  | addLookupListener (object : ObjectId) (listener : ListenerId)
  | removeLookupListener (object : ObjectId) (listener : ListenerId)
  | addRowListener (listener : ListenerId)
  | removeRowListener (listener : ListenerId)
  | publishRow (object : ObjectId) (event : RowEvent)
  | forget (object : ObjectId)
  | setScope (object : ObjectId) (scope : Scope)
  | setValue (object : ObjectId) (b : Binding)
  | values (object : ObjectId)
  /-- Has the agent answer an operation, with a response of a given size if there is one. -/
  | process (context : RequestContext) (pdu : Pdu) (maxSize : Option Nat)
      (meanwhile : Option Meanwhile)
  /-- Carries out a request without asking whether it is to be refused. -/
  | drive (context : RequestContext) (pdu : Pdu) (maxSize : Nat)
  /-- Records that a request begins, under a name by which it can be ended. -/
  | start (principal : Octets) (requestId : Int32) (guard : String)
  | finish (guard : String)
  | inFlight (principal : Octets) (requestId : Int32)
  | config
deriving DecidableEq, Inhabited

/-- What a step answers. -/
inductive Outcome where
  | nothing
  | done
  | yesNo (b : Bool)
  | count (n : Nat)
  | failed (f : Failure)
  | entry (e : Option Entry)
  | entries (es : List Entry)
  /-- What was found one after the other, and why there is nothing past it. -/
  | walked (es : List Entry) (stopped : Option Failure)
  | object (o : Option ObjectId)
  | contexts (cs : List Context)
  | names (ns : List Octets)
  /-- The registrations, and the description of the registry. -/
  | listing (es : List Entry) (description : String)
  | lock (o : LockOutcome)
  | hold (h : Option Hold)
  /-- How many listeners of rows were told, and how many there are now. -/
  | told (before after : List ListenerId)
  | values (vs : OrderedMap Oid Value)
  | response (r : Response)
  /-- A request that was carried out. -/
  | driven (r : Request)
  | inFlight (contains : Bool) (size : Nat)
  | config (c : AgentConfig) (description : String)
deriving Inhabited

/-- What is noted in the journal of a scenario. -/
inductive Event where
  | get (object : ObjectId) (oid : Oid)
  | next (object : ObjectId) (query : Query)
  | validate (object : ObjectId) (b : Binding)
  | apply (object : ObjectId) (b : Binding)
  | commit (object : ObjectId) (b : Binding)
  | undo (object : ObjectId) (b : Binding) (previous : Option Value)
  | cleanup (object : ObjectId) (b : Binding)
  | update (object : ObjectId) (query : Query)
  /-- On whose behalf an object was called. -/
  | requester (context : RequestContext)
  | considered (listener : ListenerId) (entry : Entry) (query : Query)
  | found (listener : ListenerId) (entry : Entry) (query : Query)
  | context (listener : ListenerId) (name : Octets) (change : ContextChange)
  | row (listener : ListenerId) (event : RowEvent)
  | access (kind : ViewKind) (oid : Oid) (granted : Bool)
  /-- An object with a scope was put to the test of a search. -/
  | filter (scope : Scope) (accepted : Bool)
  /-- A step was carried out from within a call. -/
  | nested (step : Step) (outcome : Outcome)
deriving Inhabited

/-- How far an object can be written. -/
inductive WriteSupport where
  | none
  /-- The object takes no part in committing and cleaning up. -/
  | minimal
  | full
deriving DecidableEq, Inhabited

/-- What is done in the first call on an occasion, the second call, and so on. -/
abbrev Hooks := Callback → List (List Step)

/-- What an object does. -/
structure ObjectScript where
  scope : Scope
  values : OrderedMap Oid Value
  write : WriteSupport
  canRefresh : Bool
  isTable : Bool
  /-- The answer when there is no value. -/
  missing : ReadResult
  /-- The first answers about what comes next. -/
  answers : List (Option Binding)
  /-- The later answers about what comes next, if they are always the same. -/
  fixed : Option Binding
  /-- What becomes bound when the object is refreshed. -/
  onUpdate : List Binding
  /-- The results of the phases of a write. -/
  result : Callback → Oid → WriteResult
  notesRequester : Bool
  hooks : Hooks
deriving Inhabited

/-- What a listener does. One that is silent does nothing about lookups. -/
structure ListenerScript where
  silent : Bool
  hooks : Hooks
deriving Inhabited

/-- A rule about access, which applies where everything it mentions agrees. -/
structure AccessRule where
  context : Option Octets
  principal : Option Octets
  model : Option SecurityModel
  level : Option SecurityLevel
  kind : Option ViewKind
  subtree : Option Oid
  allow : Bool
deriving DecidableEq, Inhabited

/-- Whether a rule applies to a question. -/
def AccessRule.applies (rule : AccessRule) (check : AccessCheck) : Bool :=
  rule.context.all (· == check.context.getD [])
    && rule.principal.all (· == check.principal)
    && rule.model.all (· == check.model)
    && rule.level.all (· == check.level)
    && rule.kind.all (· == check.kind)
    && rule.subtree.all (check.oid.isBelow ·)

/-- Who may access what. -/
inductive AccessScript where
  | everyone
  | views (views : ViewAccess)
  /-- The first rule that applies decides; without one access is granted. Questions are
  noted. -/
  | rules (rules : List AccessRule)
deriving Inhabited

/-- When objects are refreshed. -/
inductive RefreshScript where
  | never
  | always
  | onSourceChange
deriving DecidableEq, Inhabited

/-- An agent, its surroundings, and what is done. -/
structure Script where
  objects : Array ObjectScript
  listeners : Array ListenerScript
  contexts : List Octets
  refresh : RefreshScript
  access : AccessScript
  config : AgentConfig
  steps : List Step
deriving Inhabited

/-- The number of calls that have steps of their own. -/
def Hooks.size (h : Hooks) : Nat := (Callback.all.flatMap h).length

/-- How deep steps can be nested: each level uses up the steps of one call. -/
def Script.depth (s : Script) : Nat :=
  s.objects.foldl (fun n o => n + Hooks.size o.hooks) 0
    + s.listeners.foldl (fun n l => n + Hooks.size l.hooks) 0

end MibAgent.Scenario
