import MibAgent.Scenario.Script

/-!
# The surroundings of a scripted agent

What changes in the surroundings of an agent that follow a script: the values and scopes of
objects, who listens to a table, which steps are left for later calls, and the journal.
-/

namespace MibAgent.Scenario

/-- An object as it is now. -/
structure ObjectState where
  scope : Scope
  values : OrderedMap Oid Value
  answers : List (Option Binding)
  rowListeners : List ListenerId
  hooks : Hooks
deriving Inhabited

/-- The surroundings as they are now. -/
structure Stage where
  objects : Array ObjectState
  /-- The steps left for later calls of listeners. -/
  listeners : Array Hooks
  /-- What was noted, the last event first. -/
  journal : List Event
  snapshots : OrderedMap String (List Entry)
  /-- The requests begun under a name. -/
  guards : OrderedMap String (Octets × Int32)
  meanwhile : Option Meanwhile
deriving Inhabited

/-- A computation of an agent in scripted surroundings. -/
abbrev StageM := AgentM Stage

/-- An object at the start. -/
def ObjectScript.start (o : ObjectScript) : ObjectState where
  scope := o.scope
  values := o.values
  answers := o.answers
  rowListeners := []
  hooks := o.hooks

/-- The state of a scripted agent at the start. -/
def Script.start (s : Script) : AgentState Stage where
  registry := .ofContexts s.contexts
  inFlight := .empty
  now := 0
  lastTransaction := 0
  surroundings :=
    { objects := s.objects.map (·.start)
      listeners := s.listeners.map (·.hooks)
      journal := []
      snapshots := .empty
      guards := .empty
      meanwhile := none }

/-- The surroundings as they are now. -/
def stage : StageM Stage := return (← get).surroundings

/-- Changes the surroundings. -/
def modifyStage (f : Stage → Stage) : StageM Unit :=
  modify fun state => { state with surroundings := f state.surroundings }

/-- Notes an event. -/
def note (e : Event) : StageM Unit := modifyStage fun s => { s with journal := e :: s.journal }

/-- What was noted since the journal was last taken, which then begins anew. -/
def takeJournal : StageM (List Event) := do
  let s ← stage
  modifyStage ({ · with journal := [] })
  return s.journal.reverse

/-- An object as it is now. -/
def objectState (object : ObjectId) : StageM ObjectState :=
  return (← stage).objects.getD object default

/-- Changes an object. -/
def modifyObject (object : ObjectId) (f : ObjectState → ObjectState) : StageM Unit :=
  modifyStage fun s => { s with objects := s.objects.modify object f }

/-- Binds a value in an object. -/
def bind (object : ObjectId) (b : Binding) : StageM Unit :=
  modifyObject object fun o => { o with values := o.values.insert b.oid b.value }

/-- Hooks without the steps for the next call on an occasion. -/
def Hooks.drop (h : Hooks) (c : Callback) : Hooks :=
  fun other => if other = c then (h c).tail else h other

/-- The steps for this call of an object. -/
def takeObjectHook (object : ObjectId) (c : Callback) : StageM (List Step) := do
  let o ← objectState object
  modifyObject object fun o => { o with hooks := Hooks.drop o.hooks c }
  return (o.hooks c).headD []

/-- The steps for this call of a listener. -/
def takeListenerHook (listener : ListenerId) (c : Callback) : StageM (List Step) := do
  let hooks := (← stage).listeners.getD listener default
  modifyStage fun s => { s with listeners := s.listeners.modify listener (Hooks.drop · c) }
  return (hooks c).headD []

end MibAgent.Scenario
