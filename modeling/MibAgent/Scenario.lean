import MibAgent.Agent.Description
import MibAgent.Agent.Registration
import MibAgent.Scenario.Actors

/-!
# Running a scenario

The steps of a script are carried out one after the other. Each gives an outcome and leaves
its traces in the journal.
-/

namespace MibAgent.Scenario

/-- The test that passes over some objects, noting whom it was put to. -/
def skipTest (a : Agent Stage) (skipped : List ObjectId) (object : ObjectId) : StageM Bool := do
  let scope ← (a.object object).scope
  let accepted := !skipped.contains object
  note (.filter scope accepted)
  return accepted

/-- The search for a query in which some objects are passed over. -/
def searchFor (a : Agent Stage) (query : Query) (skipped : Option (List ObjectId)) :
    Search StageM ObjectId :=
  { query, filter := skipped.map (skipTest a) }

/-- What a search finds again and again, each time past what it found before, in at most so many
steps; and why there is nothing past the last one. -/
def walk (a : Agent Stage) :
    (steps : Nat) → Search StageM ObjectId → StageM (List Entry × Option Failure)
  | 0, _ => pure ([], none)
  | steps + 1, search => do
    match ← a.lookup search false with
    | none => return ([], none)
    | some entry =>
      match search.query.past entry.scope.scope with
      | .error fault => return ([entry], some (.invalidScope fault))
      | .ok query =>
        let (entries, stopped) ← walk a steps { search with query }
        return (entry :: entries, stopped)

/-- Carries out a computation while something goes on elsewhere. -/
def during {α : Type} (meanwhile : Option Meanwhile) (act : StageM α) : StageM α := do
  match meanwhile with
  | none => act
  | some _ =>
    let before := (← stage).meanwhile
    modifyStage ({ · with meanwhile })
    let result ← act
    modifyStage ({ · with meanwhile := before })
    return result

/-- The answer of a step that succeeds or is refused. -/
def outcomeOf {α : Type} (f : α → Outcome) : Except Failure α → Outcome
  | .ok a => f a
  | .error failure => .failed failure

/-- Tells the listeners of an object about a row. -/
def publishRow (run : StepRunner) (object : ObjectId) (event : RowEvent) : StageM Outcome := do
  let before := (← objectState object).rowListeners
  before.forM fun listener => ListenerScript.call run listener .row (.row listener event)
  return .told before (← objectState object).rowListeners

/-- Records that a request begins, under a name. A request begun under the same name before is
then finished. -/
def startNamed (a : Agent Stage) (principal : Octets) (requestId : Int32) (guard : String) :
    StageM Outcome := do
  if ← a.start principal requestId then
    let s ← stage
    modifyStage fun s => { s with guards := s.guards.insert guard (principal, requestId) }
    match s.guards.get? guard with
    | none => return .done
    | some (principal, requestId) =>
      Agent.finish principal requestId
      return .done
  else return .failed (.duplicateRequest requestId)

/-- Ends a request begun under a name; tells whether there is one. -/
def finishNamed (guard : String) : StageM Outcome := do
  match (← stage).guards.get? guard with
  | none => return .yesNo false
  | some (principal, requestId) =>
    modifyStage fun s => { s with guards := s.guards.erase guard }
    Agent.finish principal requestId
    return .yesNo true

/-- Carries out a step. -/
def perform (a : Agent Stage) (run : StepRunner) : Step → StageM Outcome
  | .register object context =>
    return outcomeOf (fun _ => .done) (← a.register object context)
  | .unregister object context => return .entry (← a.unregister object context)
  | .narrow object context taken =>
    return outcomeOf .yesNo (← Agent.narrow object context taken)
  | .lookup query ownOnly skipped =>
    return .entry (← a.lookup (searchFor a query skipped) ownOnly)
  | .walk query skipped => do
    let (entries, stopped) ← walk a a.searchLimit (searchFor a query skipped)
    return .walked entries stopped
  | .getObject oid context => do
    let entry ← a.find (.inContext context (.exact oid))
    return .object (entry.map (·.object))
  | .registeredContexts object =>
    return .contexts ((← AgentM.registry).store.contextsOf object)
  | .iterate => do
    let registry ← AgentM.registry
    return .listing registry.store.entries registry.describe
  | .takeSnapshot name => do
    let entries := (← AgentM.registry).store.entries
    modifyStage fun s => { s with snapshots := s.snapshots.insert name entries }
    return .nothing
  | .readSnapshot name => return .entries (((← stage).snapshots.get? name).getD [])
  | .lock owner object timeout yesNo meanwhile => do
    let outcome ← during meanwhile (a.lock owner object timeout)
    return if yesNo then .yesNo outcome.isAcquired else .lock outcome
  | .unlock owner object => return .yesNo (← Agent.unlock owner object)
  | .lockInfo object => return .hold ((← AgentM.registry).locks.hold? object)
  | .interrupt => return .nothing
  | .addContext name => return .yesNo (← a.addContext name)
  | .removeContext name => return .yesNo (← a.removeContext name)
  | .contexts => return .names (← AgentM.registry).contexts.keys
  | .supported context => return .yesNo ((← AgentM.registry).supports context)
  | .addContextListener listener => do
    Agent.addContextListener listener
    return .nothing
  | .removeContextListener listener =>
    return .yesNo (← Agent.removeContextListener listener)
  | .addLookupListener object listener => do
    AgentM.modifyAudiences (·.join object listener)
    return .nothing
  | .removeLookupListener object listener => do
    let (removed, audiences) := (← AgentM.registry).audiences.leave object listener
    AgentM.modifyAudiences fun _ => audiences
    return .yesNo removed
  | .addRowListener listener => return .count (← a.addRowListener listener)
  | .removeRowListener listener => return .count (← a.removeRowListener listener)
  | .publishRow object event => publishRow run object event
  | .forget object => do
    RefreshRule.forget object
    return .nothing
  | .setScope object scope => do
    modifyObject object ({ · with scope })
    return .nothing
  | .setValue object b => do
    bind object b
    return .nothing
  | .values object => return .values (← objectState object).values
  | .process context pdu maxSize meanwhile => do
    let size := maxSize.getD a.config.maxResponseSize
    return outcomeOf .response (← during meanwhile (a.process context pdu size))
  | .drive context pdu maxSize => do
    let request ← Agent.openRequest context pdu maxSize
    return .driven (← a.perform request)
  | .start principal requestId guard => startNamed a principal requestId guard
  | .finish guard => finishNamed guard
  | .inFlight principal requestId => do
    let state ← get
    return .inFlight (state.inFlight.contains state.now principal requestId) state.inFlight.size
  | .config => return .config a.config (a.describe (← AgentM.registry))

/-- Carries out steps from within a call, nested at most so deep. -/
def runNested (s : Script) : (depth : Nat) → StepRunner
  | 0 => fun _ => pure ()
  | depth + 1 => fun steps => steps.forM fun step => do
    let run := runNested s depth
    let outcome ← perform (s.agent run) run step
    note (.nested step outcome)

/-- Carries out the steps of a script, giving the outcome and the journal of each. -/
def runSteps (s : Script) : List Step → StageM (List (Outcome × List Event))
  | [] => pure []
  | step :: rest => do
    let run := runNested s s.depth
    let outcome ← perform (s.agent run) run step
    let journal ← takeJournal
    return (outcome, journal) :: (← runSteps s rest)

/-- The outcome and the journal of each step of a script. -/
def Script.run (s : Script) : List (Outcome × List Event) := (runSteps s s.steps s.start).1

end MibAgent.Scenario
