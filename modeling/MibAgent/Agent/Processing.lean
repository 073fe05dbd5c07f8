import MibAgent.Agent.Writing

/-!
# Processing requests

An agent refuses a request that has too many bindings, addresses a context that is not
supported, or is being answered already; a refused request touches nothing. Any other request
is carried out and answered.
-/

namespace MibAgent.Agent

variable {σ : Type}

/-- Begins a transaction: a request for an operation, under a new number. -/
def openRequest (context : RequestContext) (pdu : Pdu) (maxSize : Nat) : AgentM σ Request := do
  let transaction := (← get).lastTransaction + 1
  modify ({ · with lastTransaction := transaction })
  return .create context transaction pdu maxSize

/-- Carries out a request. -/
def perform (a : Agent σ) (r : Request) : AgentM σ Request :=
  if r.operation.isWrite then a.write r else a.read r

/-- Records that a request begins; tells whether it was not being answered already. -/
def start (a : Agent σ) (principal : Octets) (requestId : Int32) : AgentM σ Bool := do
  let state ← get
  let (started, inFlight) :=
    state.inFlight.start state.now a.config.maturity principal requestId
  set { state with inFlight }
  return started

/-- Records that a request is finished. -/
def finish (principal : Octets) (requestId : Int32) : AgentM σ Unit :=
  modify fun state => { state with inFlight := state.inFlight.finish principal requestId }

/-- Answers an operation with a response of a limited size. -/
def process (a : Agent σ) (context : RequestContext) (pdu : Pdu) (maxSize : Nat) :
    AgentM σ (Except Failure Response) := do
  let registry ← AgentM.registry
  if a.config.maxBindings < pdu.bindings.length then
    return .error (.tooManyBindings pdu.bindings.length a.config.maxBindings)
  else if !registry.supports context.context then
    return .error (.unknownContext (context.context.getD []))
  else if ← a.start context.principal pdu.requestId then
    let request ← openRequest context pdu maxSize
    let request ← a.perform request
    finish context.principal pdu.requestId
    return .ok request.response
  else return .error (.duplicateRequest pdu.requestId)

/-- Answers an operation with a response of the usual size. -/
def processUsual (a : Agent σ) (context : RequestContext) (pdu : Pdu) :
    AgentM σ (Except Failure Response) :=
  a.process context pdu a.config.maxResponseSize

end MibAgent.Agent
