import MibAgent.Request

/-!
# The response to a request

A response carries either the answers or, after a failure, the bindings as they were received.
It fits into the size that was agreed, if need be by dropping bindings at the end of a bulk
read, or else it says that it would have been too big.
-/

namespace MibAgent.Request

/-- The response that reports a failure. -/
def failureResponse (r : Request) (status : Status) (index : Nat) : Response where
  requestId := r.requestId
  status
  index
  bindings := r.requested

/-- Whether a response with some bindings fits. -/
def fits (r : Request) (bindings : List Binding) : Bool :=
  Size.response r.requestId.toInt 0 0 bindings ≤ r.maxSize

/-- Bindings without the last ones, as many of them as are needed to make the rest fit, but at
least `least` bindings when there are as many. -/
def dropToFit (r : Request) (least : Nat) (bindings : List Binding) : List Binding :=
  if least < bindings.length ∧ !r.fits bindings then dropToFit r least bindings.dropLast
  else bindings
termination_by bindings.length
decreasing_by simp only [List.length_dropLast]; omega

/-- The bindings of a response without a failure. -/
def fittingBindings (r : Request) : List Binding :=
  if r.operation = .getBulk then r.dropToFit r.nonRepeaters r.bindings else r.bindings

/-- The position of the first variable answered with an exception. -/
def firstException? (r : Request) : Option Nat :=
  r.vars.findIdx? (·.binding.isException)

/-- The response without regard to exceptions, which the first version of the protocol cannot
carry. -/
def plainResponse (r : Request) : Response :=
  match r.firstError? with
  | some v =>
    r.failureResponse (if r.context.version.isLegacy then v.status.toLegacy else v.status)
      r.errorIndex
  | none =>
    let bindings := r.fittingBindings
    if r.fits bindings then ⟨r.requestId, .noError, 0, bindings⟩
    else ⟨r.requestId, .tooBig, 0, []⟩

/-- The response to a request. In the first version of the protocol an exception is reported
before any other failure, as a name that does not exist. -/
def response (r : Request) : Response :=
  if r.context.version.isLegacy then
    match r.firstException? with
    | some position => r.failureResponse .noSuchName (r.requestedPosition position + 1)
    | none => r.plainResponse
  else r.plainResponse

end MibAgent.Request
