import MibAgent.Agent

/-!
# Registration

Objects are registered for the scope they declare, in a context. A named context becomes
supported when something is registered in it. When an object is registered nowhere any longer,
its audience ends.
-/

namespace MibAgent.Agent

variable {σ : Type}

/-! ### Contexts -/

/-- Tells the listeners of contexts about a change. -/
def announceContext (a : Agent σ) (name : Octets) (change : ContextChange) : AgentM σ Unit := do
  let registry ← AgentM.registry
  registry.contextListeners.forM fun listener => a.contextListener listener name change

/-- A named context becomes supported; tells whether it was not. -/
def addContext (a : Agent σ) (name : Octets) : AgentM σ Bool := do
  let registry ← AgentM.registry
  if name.isEmpty || registry.contexts.contains name then return false
  else
    AgentM.modifyRegistry fun r => { r with contexts := r.contexts.insert name () }
    a.announceContext name .added
    return true

/-- A named context is no longer supported; tells whether it was. -/
def removeContext (a : Agent σ) (name : Octets) : AgentM σ Bool := do
  let registry ← AgentM.registry
  if registry.contexts.contains name then
    AgentM.modifyRegistry fun r => { r with contexts := r.contexts.erase name }
    a.announceContext name .removed
    return true
  else return false

/-- A listener is told about contexts from now on. -/
def addContextListener (listener : ListenerId) : AgentM σ Unit :=
  AgentM.modifyRegistry fun r => { r with contextListeners := r.contextListeners ++ [listener] }

/-- A listener is no longer told about contexts; tells whether it was. -/
def removeContextListener (listener : ListenerId) : AgentM σ Bool := do
  let registry ← AgentM.registry
  AgentM.modifyRegistry fun r =>
    { r with contextListeners := r.contextListeners.erase listener }
  return registry.contextListeners.contains listener

/-! ### Objects -/

/-- Registers an object in the context with a given name. -/
def register (a : Agent σ) (object : ObjectId) (name : Option Octets) :
    AgentM σ (Except Failure Unit) := do
  let scope := ContextScope.inContext name (← (a.object object).scope)
  let registry ← AgentM.registry
  match registry.store.register ⟨scope, object⟩ with
  | .error failure => return .error failure
  | .ok store =>
    AgentM.setStore store
    match scope.context with
    | none => return .ok ()
    | some name =>
      discard (a.addContext name)
      return .ok ()

/-- Removes the registration of an object in the context with a given name. -/
def unregister (a : Agent σ) (object : ObjectId) (name : Option Octets) :
    AgentM σ (Option Entry) := do
  let declared := ContextScope.inContext name (← (a.object object).scope)
  let registry ← AgentM.registry
  match registry.store.unregister? declared object with
  | none => return none
  | some (entry, store) =>
    AgentM.setStore store
    if store.hasObject object then return some entry
    else
      AgentM.modifyAudiences (·.dismiss object)
      return some entry

/-- Takes a scope away from the registration of an object in the context with a given name;
tells whether there is one. -/
def narrow (object : ObjectId) (name : Option Octets) (taken : Scope) :
    AgentM σ (Except Failure Bool) := do
  let registry ← AgentM.registry
  match registry.store.narrow (Context.ofName name) object taken with
  | .error fault => return .error (.invalidScope fault)
  | .ok none => return .ok false
  | .ok (some store) =>
    AgentM.setStore store
    return .ok true

/-! ### Rows of tables -/

/-- A listener is told about rows by the tables of some registrations; the answer is how many of
the objects are tables. -/
def listenToRows (a : Agent σ) (listener : ListenerId) : List Entry → AgentM σ Nat
  | [] => pure 0
  | entry :: rest =>
    match (a.object entry.object).table with
    | none => a.listenToRows listener rest
    | some table => do
      table.addListener listener
      return (← a.listenToRows listener rest) + 1

/-- A listener is told about rows by every registered table; the answer is how many
registrations of tables there are. -/
def addRowListener (a : Agent σ) (listener : ListenerId) : AgentM σ Nat := do
  a.listenToRows listener (← AgentM.registry).store.entries

/-- A listener is no longer told about rows by the tables of some registrations; the answer is
how often a table had told it. -/
def ignoreRows (a : Agent σ) (listener : ListenerId) : List Entry → AgentM σ Nat
  | [] => pure 0
  | entry :: rest =>
    match (a.object entry.object).table with
    | none => a.ignoreRows listener rest
    | some table => do
      let removed ← table.removeListener listener
      return (← a.ignoreRows listener rest) + if removed then 1 else 0

/-- A listener is no longer told about rows by any registered table. -/
def removeRowListener (a : Agent σ) (listener : ListenerId) : AgentM σ Nat := do
  a.ignoreRows listener (← AgentM.registry).store.entries

end MibAgent.Agent
