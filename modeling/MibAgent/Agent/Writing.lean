import MibAgent.Agent.Reading

/-!
# Writing

A request that writes does so in phases. Every variable is prepared: its object is found and
locked, and validates the new value; as long as no variable has failed, the object takes the
value on at once. When all variables are prepared, their objects commit one after the other,
up to the first that fails. After any failure, what was taken on is undone in reverse order.
In the end the objects that validated a value clean up, and all locks are released.
-/

namespace MibAgent.Agent

variable {σ : Type}

/-- The object that handles a variable, if it can be written. -/
def writer? (a : Agent σ) (v : Variable) : Option (Writable σ) :=
  v.target.bind fun entry => (a.object entry.object).writable

/-- Has the object of a variable validate the value, and with `stage` take it on. The answer
tells whether that succeeded. -/
def offer (context : RequestContext) (writable : Writable σ) (stage : Bool) (v : Variable) :
    AgentM σ (Bool × Variable) := do
  let valid ← writable.validate context v.binding
  if valid.isOk then
    if stage then
      let (applied, undo) ← writable.apply context v.binding v.undo
      if applied.isOk then return (true, { v with undo, stage := .applied })
      else return (false, { v with undo, stage := .validated }.fail applied.toStatus)
    else return (true, { v with stage := .validated })
  else return (false, v.fail valid.toStatus)

/-- Prepares a variable; with `stage` its value is taken on. The answer tells whether that
succeeded. -/
def prepare (a : Agent σ) (context : RequestContext) (stage : Bool) (v : Variable) :
    AgentM σ (Bool × Variable) := do
  if ← a.access (context.check .write v.binding.oid) then
    let query := queryFor context v true
    match ← a.find query with
    | none => return (false, v.fail .notWritable)
    | some entry =>
      let v := { v with query := some query, target := some entry }
      match (a.object entry.object).writable with
      | none => return (false, v.fail .notWritable)
      | some writable =>
        if ← a.lockFor context entry.object then
          offer context writable stage { v with stage := .locked }
        else return (false, v.fail .resourceUnavailable)
  else return (false, v.fail .noAccess)

/-- Prepares variables in order; values are taken on as long as none has failed, `healthy`
telling whether none has so far. The answer tells whether none has in the end. -/
def prepareAll (a : Agent σ) (context : RequestContext) :
    (healthy : Bool) → List Variable → AgentM σ (Bool × List Variable)
  | healthy, [] => pure (healthy, [])
  | healthy, v :: rest => do
    let (prepared, v) ← a.prepare context healthy v
    let (healthy, rest) ← a.prepareAll context (healthy && prepared) rest
    return (healthy, v :: rest)

/-- Has objects commit in order, up to the first that fails. The answer tells whether none
has. -/
def commitAll (a : Agent σ) (context : RequestContext) :
    List Variable → AgentM σ (Bool × List Variable)
  | [] => pure (true, [])
  | v :: rest => do
    match a.writer? v with
    | none =>
      let (committed, rest) ← a.commitAll context rest
      return (committed, v :: rest)
    | some writable =>
      let result ← writable.commit context v.binding
      if result.isOk then
        let (committed, rest) ← a.commitAll context rest
        return (committed, v.complete :: rest)
      else return (false, v.fail .commitFailed :: rest)

/-- Undoes one variable, if its value was taken on. -/
def undo (a : Agent σ) (context : RequestContext) (v : Variable) : AgentM σ Variable := do
  if v.stage = .applied then
    let v := { v with stage := .validated }
    match a.writer? v with
    | none => return v
    | some writable =>
      let result ← writable.undo context v.binding v.undo
      if result.isOk then return v else return v.fail .undoFailed
  else return v

/-- Undoes variables, the last one first. -/
def undoAll (a : Agent σ) (context : RequestContext) : List Variable → AgentM σ (List Variable)
  | [] => pure []
  | v :: rest => do
    let rest ← a.undoAll context rest
    let v ← a.undo context v
    return v :: rest

/-- Cleans up after a variable that was validated. -/
def cleanup (a : Agent σ) (context : RequestContext) (v : Variable) : AgentM σ Unit :=
  if v.stage = .validated ∨ v.stage = .applied then
    match a.writer? v with
    | none => pure ()
    | some writable => writable.cleanup context v.binding
  else pure ()

/-- Cleans up after a variable and releases its lock. -/
def release (a : Agent σ) (context : RequestContext) (v : Variable) : AgentM σ Variable := do
  match v.target with
  | none => return v
  | some entry =>
    a.cleanup context v
    if v.stage = .untouched then return v
    else
      unlockFor context entry.object
      return { v with stage := .untouched }

/-- Cleans up after variables and releases their locks, in order. -/
def releaseAll (a : Agent σ) (context : RequestContext) :
    List Variable → AgentM σ (List Variable)
  | [] => pure []
  | v :: rest => do
    let v ← a.release context v
    let rest ← a.releaseAll context rest
    return v :: rest

/-- Commits prepared variables. The answer tells whether everything succeeded. -/
def settle (a : Agent σ) (context : RequestContext) (prepared : Bool) (vs : List Variable) :
    AgentM σ (Bool × List Variable) :=
  if prepared then a.commitAll context vs else pure (false, vs)

/-- Writes all variables of a request, or none. -/
def write (a : Agent σ) (r : Request) : AgentM σ Request := do
  let (prepared, vs) ← a.prepareAll r.context true r.vars.toList
  let (committed, vs) ← a.settle r.context prepared vs
  let vs ← if committed then pure vs else a.undoAll r.context vs
  let vs ← a.releaseAll r.context vs
  return { r with vars := vs.toArray }

end MibAgent.Agent
