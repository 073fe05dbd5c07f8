import MibAgent.Oid.Parser
import MibAgent.Scope.Context

/-!
# Failures

Why the agent or the registry refuses to do something, as opposed to answering with a status.
-/

namespace MibAgent

/-- The fault of an OID in words. -/
def OidFault.message : OidFault → String
  | empty => "empty OID"
  | invalidArc => "invalid arc value"
  | tooManyArcs count limit => s!"OID has {count} arcs, exceeds maximum {limit}"

/-- Why something is refused. -/
inductive Failure where
  /-- The scope to register overlaps one that is registered. -/
  | duplicateRegistration (scope existing : ContextScope)
  /-- An OID is invalid; when it was read, `input` is the text. -/
  | invalidOid (fault : OidFault) (input : Option String)
  | invalidScope (fault : ScopeFault)
  /-- A request addresses a context that is not supported. -/
  | unknownContext (name : Octets)
  /-- A request has `count` bindings, and only `limit` are allowed. -/
  | tooManyBindings (count limit : Nat)
  /-- A request with the same id is still being answered. -/
  | duplicateRequest (requestId : Int32)
deriving DecidableEq

namespace Failure

/-- The reason in words. -/
def message : Failure → String
  | duplicateRegistration scope existing =>
    "duplicate registration: " ++ scope.toText ++ " overlaps registered " ++ existing.toText
  | invalidOid fault _ => "invalid OID: " ++ fault.message
  | invalidScope fault => "invalid scope operation: " ++ fault.message
  | unknownContext _ => "unknown context"
  | tooManyBindings count limit =>
    s!"request has {count} variable bindings, maximum is {limit}"
  | duplicateRequest requestId =>
    s!"duplicate request {requestId.toInt} is already in progress"

end Failure

end MibAgent
