import MibAgent.Octets

/-!
# Requests being answered

A request that arrives again while it is still being answered is refused. Requests are told
apart by their principal and their id. A record that has reached its deadline no longer stands
in the way, and is removed when the next request begins.
-/

namespace MibAgent

/-- A request being answered, and when its record expires. -/
structure InFlightRecord where
  principal : Octets
  requestId : Int32
  deadline : Nat
deriving DecidableEq, Inhabited

namespace InFlightRecord

/-- Whether the record is that of a principal's request. -/
def isOf (r : InFlightRecord) (principal : Octets) (requestId : Int32) : Bool :=
  r.principal == principal && r.requestId == requestId

/-- Whether the record has not expired. -/
def isLive (r : InFlightRecord) (now : Nat) : Bool := now < r.deadline

end InFlightRecord

/-- The requests being answered. -/
structure InFlight where
  records : List InFlightRecord
deriving DecidableEq, Inhabited

namespace InFlight

/-- No request is being answered. -/
def empty : InFlight := ⟨[]⟩

/-- The number of records, including expired ones that have not been removed. -/
def size (f : InFlight) : Nat := f.records.length

/-- Whether a live record of a principal's request exists. -/
def contains (f : InFlight) (now : Nat) (principal : Octets) (requestId : Int32) : Bool :=
  f.records.any fun r => r.isOf principal requestId && r.isLive now

/-- Removes what has expired. -/
def sweep (f : InFlight) (now : Nat) : InFlight := ⟨f.records.filter (·.isLive now)⟩

/-- Records that a request begins, which expires after `maturity`, unless it is being answered
already. The answer tells whether it was recorded. -/
def start (f : InFlight) (now maturity : Nat) (principal : Octets) (requestId : Int32) :
    Bool × InFlight :=
  let f := f.sweep now
  if f.records.any (·.isOf principal requestId) then (false, f)
  else (true, ⟨f.records ++ [⟨principal, requestId, now + maturity⟩]⟩)

/-- Removes the record of a principal's request. -/
def finish (f : InFlight) (principal : Octets) (requestId : Int32) : InFlight :=
  ⟨f.records.filter fun r => !r.isOf principal requestId⟩

end InFlight

end MibAgent
