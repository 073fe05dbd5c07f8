import MibAgent.Agent.Locking
import MibAgent.Agent.Lookup

/-!
# Reading

The value of an OID comes from the object that serves the OID. The next instance after an OID
is sought from one registration to the next: an instance that may not be read is passed over,
and when an object has nothing in the window, or answers with something outside it, the search
goes on after the scope the object is registered for.
-/

namespace MibAgent.Agent

variable {σ : Type}

/-- The query that finds the object for a variable. -/
def queryFor (context : RequestContext) (v : Variable) (forWrite : Bool) : Query :=
  { Query.inContext context.context v.scope with
    forWrite
    source := some context.transaction }

/-- Whether a value cannot be given to a requester because of the version of the protocol. -/
def isUnspeakable (context : RequestContext) (v : Value) : Bool :=
  context.version.isLegacy && v.isCounter64

/-- Reads the value of the OID that a variable asks for. -/
def readExact (a : Agent σ) (context : RequestContext) (v : Variable) : AgentM σ Variable := do
  let oid := v.binding.oid
  if ← a.access (context.check .read oid) then
    let query := queryFor context v false
    match ← a.find query with
    | none => return v.answerValue .noSuchObject
    | some entry =>
      let v := { v with query := some query, target := some entry }
      if ← a.lockFor context entry.object then
        let result ← (a.object entry.object).get context oid
        unlockFor context entry.object
        if isUnspeakable context result.toValue then return v.fail .noSuchName
        else return v.answerValue result.toValue
      else return v.fail .resourceUnavailable
  else return v.answerValue .noSuchObject

/-- How a search for the next instance ends. -/
inductive NextOutcome where
  /-- There is nothing more. -/
  | endOfView
  /-- The lock on an object could not be had. -/
  | unavailable (entry : Entry)
  /-- An instance was found, by a query that had come so far. -/
  | found (entry : Entry) (query : Query) (b : Binding)
  /-- The search was given up. -/
  | unfinished
deriving DecidableEq

/-- What to do after an object has been asked. -/
inductive NextStep where
  | answer (b : Binding)
  /-- Pass over an instance. -/
  | restart (oid : Oid)
  /-- Go on after the registration. -/
  | moveOn
deriving DecidableEq

/-- What to do after an object has answered a query. -/
def nextStep (a : Agent σ) (context : RequestContext) (query : Query) :
    NextResult → AgentM σ NextStep
  | .endOfView => pure .moveOn
  | .found b =>
    if query.range.contains b.oid then do
      let allowed ← a.access (context.check .read b.oid)
      if allowed && !isUnspeakable context b.value then return .answer b
      else return .restart b.oid
    else pure .moveOn

/-- Searches for the next instance in the window of a query, visiting at most so many
registrations. -/
def searchNext (a : Agent σ) (context : RequestContext) : Nat → Query → AgentM σ NextOutcome
  | 0, _ => pure .unfinished
  | visits + 1, query => do
    match ← a.find query with
    | none => return .endOfView
    | some entry =>
      if ← a.lockFor context entry.object then
        let result ← (a.object entry.object).next context query
        unlockFor context entry.object
        match ← a.nextStep context query result with
        | .answer b => return .found entry query b
        | .restart oid => a.searchNext context visits (query.restart oid)
        | .moveOn =>
          match query.past entry.scope.scope with
          | .error _ => return .endOfView
          | .ok query => a.searchNext context visits query
      else return .unavailable entry

/-- The variable after a search for the next instance. -/
def recordNext (v : Variable) : NextOutcome → Variable
  | .endOfView => v.answerValue .endOfMibView
  | .unavailable entry => { v with target := some entry }.fail .resourceUnavailable
  | .found entry query b => { v with target := some entry, query := some query }.answer b
  | .unfinished => v

/-- Finds the next instance after the OID that a variable asks for. -/
def readNext (a : Agent σ) (context : RequestContext) (v : Variable) : AgentM σ Variable := do
  let outcome ← a.searchNext context a.searchLimit (queryFor context v false)
  return recordNext v outcome

/-- Reads one variable. -/
def readVariable (a : Agent σ) (context : RequestContext) (v : Variable) :
    AgentM σ Variable :=
  if context.operation.isNext then a.readNext context v else a.readExact context v

/-- Reads the variables from a position on, in at most so many steps. A variable that is
complete already, as a repetition of an exception is, stays as it is. -/
def readFrom (a : Agent σ) (context : RequestContext) :
    (steps position : Nat) → Request → AgentM σ Request
  | 0, _, r => pure r
  | steps + 1, position, r =>
    match r.next position with
    | (none, r) => pure r
    | (some v, r) =>
      if v.isComplete then a.readFrom context steps (position + 1) r
      else do
        let v ← a.readVariable context v
        a.readFrom context steps (position + 1) (r.modify position fun _ => v)

/-- Reads all variables of a request. -/
def read (a : Agent σ) (r : Request) : AgentM σ Request :=
  a.readFrom r.context (r.cursorLimit + 1) 0 r

end MibAgent.Agent
