import MibAgent.InFlight
import MibAgent.Registry

/-!
# The state of an agent

The registry and the requests being answered change while an agent works, and so do its
surroundings: the objects it serves, those who listen, and whatever else they act on. Objects
and listeners are computations on the whole state, so what they do when they are called may go
as far as registering another object or asking the agent something.
-/

namespace MibAgent

/-- What changes while an agent works; `σ` is the state of its surroundings. -/
structure AgentState (σ : Type) where
  registry : Registry
  inFlight : InFlight
  /-- The time. -/
  now : Nat
  /-- The number of the last transaction. -/
  lastTransaction : Nat
  surroundings : σ
deriving Inhabited

/-- A computation on the state of an agent. -/
abbrev AgentM (σ : Type) := StateM (AgentState σ)

namespace AgentM

variable {σ : Type}

/-- The registry as it is now. -/
def registry : AgentM σ Registry := return (← get).registry

/-- Changes the registry. -/
def modifyRegistry (f : Registry → Registry) : AgentM σ Unit :=
  modify fun state => { state with registry := f state.registry }

/-- Puts another store of registrations in place. -/
def setStore (store : Store) : AgentM σ Unit := modifyRegistry ({ · with store })

/-- Changes the audiences. -/
def modifyAudiences (f : Audiences → Audiences) : AgentM σ Unit :=
  modifyRegistry fun r => { r with audiences := f r.audiences }

end AgentM

end MibAgent
