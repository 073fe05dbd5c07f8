import MibAgent.Agent
import MibAgent.Description

/-!
# Descriptions of agents

What a registry, a list of listeners and an agent look like to whoever looks for the cause of
a problem.
-/

namespace MibAgent

/-- The description of a registry. -/
def Registry.describe (r : Registry) : String :=
  Description.ofFields "Registry"
    [("entries", r.store.size.repr),
      ("contexts", Description.ofList (r.contexts.keys.map Octets.toLiteral)),
      ("locks", r.locks.size.repr)]

/-- The description of a list of listeners. -/
def Description.ofListeners (listeners : List ListenerId) : String :=
  Description.ofFields "ListenerList" [("len", listeners.length.repr)]

/-- The description of the settings of an agent. -/
def AgentConfig.describe (c : AgentConfig) : String :=
  Description.ofFields "AgentConfig"
    [("lock_timeout", Description.ofMilliseconds c.lockTimeout),
      ("max_response_size", c.maxResponseSize.repr),
      ("max_varbinds", c.maxBindings.repr),
      ("pending_maturity", Description.ofMilliseconds c.maturity)]

/-- The description of an agent with a registry. -/
def Agent.describe {σ : Type} (a : Agent σ) (r : Registry) : String :=
  Description.ofSomeFields "Agent" [("registry", r.describe), ("config", a.config.describe)]

end MibAgent
