import MibAgent.Scenario.Stage

/-!
# Scripted objects and listeners

An object or listener that is called notes the call, then carries out the steps its script has
for this call, and then does what it is for.
-/

namespace MibAgent.Scenario

/-- Carries out the steps of a script from within a call. -/
abbrev StepRunner := List Step → StageM Unit

namespace ObjectScript

/-- What an object does first in each call on behalf of a requester. -/
def beginCall (script : ObjectScript) (run : StepRunner) (object : ObjectId)
    (context : RequestContext) (c : Callback) (e : Event) : StageM Unit := do
  note e
  if script.notesRequester then note (.requester context)
  run (← takeObjectHook object c)

/-- The value of an OID. -/
def get (script : ObjectScript) (run : StepRunner) (object : ObjectId)
    (context : RequestContext) (oid : Oid) : StageM ReadResult := do
  script.beginCall run object context .get (.get object oid)
  match (← objectState object).values.get? oid with
  | some value => return .value value
  | none => return script.missing

/-- The first instance in a window. -/
def next (script : ObjectScript) (run : StepRunner) (object : ObjectId)
    (context : RequestContext) (query : Query) : StageM NextResult := do
  script.beginCall run object context .next (.next object query)
  let o ← objectState object
  match o.answers with
  | answer :: rest =>
    modifyObject object ({ · with answers := rest })
    return .ofOption answer
  | [] =>
    match script.fixed with
    | some b => return .found b
    | none =>
      return .ofOption ((query.range.firstEntry? o.values).map fun (oid, value) => ⟨oid, value⟩)

/-- Tells whether a value could be written. -/
def validate (script : ObjectScript) (run : StepRunner) (object : ObjectId)
    (context : RequestContext) (b : Binding) : StageM WriteResult := do
  script.beginCall run object context .validate (.validate object b)
  return script.result .validate b.oid

/-- Takes on a value and stores the one before. -/
def apply (script : ObjectScript) (run : StepRunner) (object : ObjectId)
    (context : RequestContext) (b : Binding) (stored : Option Value) :
    StageM (WriteResult × Option Value) := do
  script.beginCall run object context .apply (.apply object b)
  let result := script.result .apply b.oid
  if result.isOk then
    let previous := (← objectState object).values.get? b.oid
    bind object b
    return (result, previous)
  else return (result, stored)

/-- Makes a value final. -/
def commit (script : ObjectScript) (run : StepRunner) (object : ObjectId)
    (context : RequestContext) (b : Binding) : StageM WriteResult := do
  script.beginCall run object context .commit (.commit object b)
  return script.result .commit b.oid

/-- Goes back to the value before. -/
def undo (script : ObjectScript) (run : StepRunner) (object : ObjectId)
    (context : RequestContext) (b : Binding) (previous : Option Value) :
    StageM WriteResult := do
  script.beginCall run object context .undo (.undo object b previous)
  let result := script.result .undo b.oid
  if result.isOk then
    match previous with
    | some value => bind object ⟨b.oid, value⟩
    | none => modifyObject object fun o => { o with values := o.values.erase b.oid }
  return result

/-- Ends a write. -/
def cleanup (script : ObjectScript) (run : StepRunner) (object : ObjectId)
    (context : RequestContext) (b : Binding) : StageM Unit :=
  script.beginCall run object context .cleanup (.cleanup object b)

/-- Refreshes the object. -/
def update (script : ObjectScript) (run : StepRunner) (object : ObjectId) (query : Query) :
    StageM Unit := do
  note (.update object query)
  script.onUpdate.forM (bind object)
  run (← takeObjectHook object .update)

/-- How the object is written, if it can be. -/
def writable (script : ObjectScript) (run : StepRunner) (object : ObjectId) :
    Option (Writable Stage) :=
  match script.write with
  | .none => none
  | .minimal =>
    some
      { validate := script.validate run object
        apply := script.apply run object
        undo := script.undo run object }
  | .full =>
    some
      { validate := script.validate run object
        apply := script.apply run object
        commit := script.commit run object
        undo := script.undo run object
        cleanup := script.cleanup run object }

/-- The table the object is. -/
def table (object : ObjectId) : TableObject Stage where
  addListener listener :=
    modifyObject object fun o => { o with rowListeners := o.rowListeners ++ [listener] }
  removeListener listener := do
    let o ← objectState object
    modifyObject object fun o => { o with rowListeners := o.rowListeners.erase listener }
    return o.rowListeners.contains listener

/-- The object that follows a script. -/
def actor (script : ObjectScript) (run : StepRunner) (object : ObjectId) :
    ManagedObject Stage where
  scope := return (← objectState object).scope
  get := script.get run object
  next := script.next run object
  writable := script.writable run object
  refresh := if script.canRefresh then some (script.update run object) else none
  table := if script.isTable then some (table object) else none

end ObjectScript

namespace ListenerScript

/-- What a listener does when it is called. -/
def call (run : StepRunner) (listener : ListenerId) (c : Callback) (e : Event) :
    StageM Unit := do
  note e
  run (← takeListenerHook listener c)

/-- What a listener does about lookups. -/
def lookupActor (script : ListenerScript) (run : StepRunner) (listener : ListenerId) :
    LookupListener Stage :=
  if script.silent then {}
  else
    { considered := fun entry query =>
        call run listener .considered (.considered listener entry query)
      found := fun entry query => call run listener .found (.found listener entry query) }

end ListenerScript

namespace AccessScript

/-- Answers a question about access. -/
def answer (script : AccessScript) (check : AccessCheck) : StageM Bool :=
  match script with
  | .everyone => pure true
  | .views access => pure (access.allows check)
  | .rules list => do
    let granted := ((list.find? (·.applies check)).map (·.allow)).getD true
    note (.access check.kind check.oid granted)
    return granted

end AccessScript

/-- An owner gives up the lock on an object, so many times. -/
def giveUp (owner : LockOwner) (object : ObjectId) : (times : Nat) → StageM Unit
  | 0 => pure ()
  | times + 1 => do
    discard (Agent.unlock owner object)
    giveUp owner object times

/-- What happens while someone waits for a lock. -/
def waitForLock : StageM WaitEnd := do
  match (← stage).meanwhile with
  | none => return .over
  | some .interrupt => return .interrupted
  | some (.unlock owner object) =>
    let hold := (← AgentM.registry).locks.hold? object
    giveUp owner object ((hold.map (·.count)).getD 0)
    return .over

/-- The rule by which objects are refreshed. -/
def RefreshScript.rule : RefreshScript → Option (RefreshRule Stage)
  | never => none
  | always => some RefreshRule.always
  | onSourceChange => some RefreshRule.onSourceChange

/-- The agent of a script. -/
def Script.agent (s : Script) (run : StepRunner) : Agent Stage where
  object object := (s.objects.getD object default).actor run object
  lookupListener listener := (s.listeners.getD listener default).lookupActor run listener
  contextListener listener name change :=
    ListenerScript.call run listener .context (.context listener name change)
  refreshRule := s.refresh.rule
  access := s.access.answer
  wait _ _ _ := waitForLock
  config := s.config
  searchLimit := 4294967296

end MibAgent.Scenario
