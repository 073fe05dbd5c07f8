import MibAgent.Scope

/-!
# Combining scopes

Intersection of scopes, the relations it defines, the difference of two scopes when that is a
scope with the same lower end, and the part of a scope that lies past another one.
-/

namespace MibAgent

/-- Why an operation on scopes, or a registration, is refused. -/
inductive ScopeFault where
  /-- The scope to subtract contains the lower end. -/
  | coversLower
  /-- Something would be left on both sides of the subtracted scope. -/
  | wouldSplit
  /-- Nothing would be left. -/
  | leavesEmpty
  /-- There is nothing past a scope without an upper end. -/
  | nothingPast
  /-- An object declares an empty scope. -/
  | emptyRegistration
deriving DecidableEq

namespace ScopeFault

/-- The reason in words. -/
def message : ScopeFault → String
  | coversLower => "subtracted scope covers the lower bound"
  | wouldSplit => "subtraction would split the scope"
  | leavesEmpty => "subtraction leaves an empty scope"
  | nothingPast => "cannot move past an unbounded scope"
  | emptyRegistration => "registered scope is empty"

end ScopeFault

namespace Endpoint

/-- The narrower of two lower ends. -/
def tightenLower (a b : Endpoint) : Endpoint :=
  match compare a.oid b.oid with
  | .gt => a
  | .lt => b
  | .eq => ⟨a.oid, a.included && b.included⟩

/-- The narrower of two upper ends. -/
def tightenUpper (a b : Endpoint) : Endpoint :=
  match compare a.oid b.oid with
  | .lt => a
  | .gt => b
  | .eq => ⟨a.oid, a.included && b.included⟩

end Endpoint

namespace Scope

/-- The narrower of two upper ends, a missing one being the widest. -/
def tightenUpper? : Option Endpoint → Option Endpoint → Option Endpoint
  | none, b => b
  | a, none => a
  | some a, some b => some (a.tightenUpper b)

/-- The scope between the narrower ends of `a` and `b`, if that leaves room. -/
def intersection? (a b : Scope) : Option Scope :=
  let common : Scope := ⟨a.lower.tightenLower b.lower, tightenUpper? a.upper b.upper⟩
  if common.isEmpty then none else some common

/-- Whether two scopes have an intersection. -/
def overlaps (a b : Scope) : Bool := (a.intersection? b).isSome

/-- Whether `b` is the intersection of `a` and `b`. -/
def covers (a b : Scope) : Bool := a.intersection? b == some b

/-- Whether something of `a` may lie below `b`. -/
def startsBefore (a b : Scope) : Bool :=
  match compare b.lower.oid a.lower.oid with
  | .gt => true
  | .eq => a.lower.included && !b.lower.included
  | .lt => false

/-- Whether nothing of `a` lies above `b`. -/
def endsWithin (a b : Scope) : Bool :=
  match a.upper, b.upper with
  | _, none => true
  | none, some _ => false
  | some mine, some other =>
    match compare mine.oid other.oid with
    | .lt => true
    | .eq => other.included || !mine.included
    | .gt => false

/-- What is left of `a` without `b`. That is `a` itself when they do not overlap; otherwise `b`
has to lie at the upper end of `a` and leave something below it. -/
def subtract (a b : Scope) : Except ScopeFault Scope :=
  if !a.overlaps b then .ok a
  else if !a.startsBefore b then .error .coversLower
  else if !a.endsWithin b then .error .wouldSplit
  else
    let rest : Scope := ⟨a.lower, some ⟨b.lower.oid, !b.lower.included⟩⟩
    if rest.isEmpty then .error .leavesEmpty else .ok rest

/-- The scope `a` with its lower end moved to where `b` ends. -/
def past (a b : Scope) : Except ScopeFault Scope :=
  match b.upper with
  | none => .error .nothingPast
  | some upper => .ok { a with lower := ⟨upper.oid, !upper.included⟩ }

/-- The scope `a` with its lower end moved to just after `x`. -/
def restart (a : Scope) (x : Oid) : Scope := { a with lower := ⟨x, false⟩ }

end Scope

end MibAgent
