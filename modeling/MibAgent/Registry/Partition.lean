import MibAgent.Registry.Entry
import MibAgent.Scope.Order

/-!
# Partitions

The registrations of one context, in the order of their scopes. No two of them overlap, so
where a scope ends also tells where it stands, and the registrations that overlap a window are
found by bisection: those that end before the window come first, then those that overlap it,
then those that start after it.
-/

namespace MibAgent

/-- Whether a scope starts after the end of a window. -/
def Scope.startsAfter (s window : Scope) : Bool :=
  match window.upper with
  | none => false
  | some upper =>
    match compare s.lower.oid upper.oid with
    | .gt => true
    | .eq => !(s.lower.included && upper.included)
    | .lt => false

/-- The first number from `low` on, and at most `high`, of which `p` does not hold. It is found
by bisection, which needs that `p` holds of no number after one of which it does not hold. -/
def bisect (p : Nat → Bool) (low high : Nat) : Nat :=
  if low < high then
    let middle := low + (high - low) / 2
    if p middle then bisect p (middle + 1) high else bisect p low middle
  else low
termination_by high - low

/-- Registrations in the order of their scopes. -/
abbrev Partition := Array Entry

namespace Partition

/-- How many entries at the front of the partition satisfy `p`, when no entry after them
does. -/
def front (part : Partition) (p : Entry → Bool) : Nat :=
  bisect (fun i => part[i]?.any p) 0 part.size

/-- The entries whose scopes overlap a window, in order. -/
def overlapping (part : Partition) (window : ContextScope) : List Entry :=
  let ended := part.front fun e => e.scope.orderToWindow window == .lt
  ((part.toList.drop ended).takeWhile fun e => !e.scope.scope.startsAfter window.scope).filter
    fun e => e.scope.scope.overlaps window.scope

/-- The partition with an entry in its place. -/
def place (part : Partition) (e : Entry) : Partition :=
  part.insertIdxIfInBounds (part.front fun other => other.scope.order e.scope == .lt) e

/-- Where an object stands in the partition: at the scope it declares, or else at the first of
its entries that does not begin before that scope. -/
def position? (part : Partition) (declared : ContextScope) (object : ObjectId) : Option Nat :=
  let place := part.front fun e => e.scope.order declared == .lt
  if part[place]?.any fun e => e.scope.order declared == .eq && e.object == object then
    some place
  else
    let first := part.front fun e =>
      compare e.scope.scope.lower.oid declared.scope.lower.oid == .lt
    ((part.toList.drop first).findIdx? fun e => e.object == object).map (first + ·)

end Partition

end MibAgent
