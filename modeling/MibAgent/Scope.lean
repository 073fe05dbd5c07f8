import MibAgent.Oid
import MibAgent.OrderedMap

/-!
# Scopes

A scope is an interval of OIDs. Each of its ends belongs to it or not, and the upper end may
be missing. Objects declare the scope they serve, and queries describe by a scope the OIDs
they accept.
-/

namespace MibAgent

/-- An end of a scope: an OID, and whether the scope includes it. -/
structure Endpoint where
  oid : Oid
  included : Bool
deriving DecidableEq, Inhabited

/-- An interval of OIDs; without an upper end it has no bound above. -/
structure Scope where
  lower : Endpoint
  upper : Option Endpoint
deriving DecidableEq, Inhabited

namespace Endpoint

/-- Whether an OID lies above the end, when this is the lower end of a scope. -/
def admitsAbove (e : Endpoint) (x : Oid) : Bool :=
  match compare x e.oid with
  | .gt => true
  | .eq => e.included
  | .lt => false

/-- Whether an OID lies below the end, when this is the upper end of a scope. -/
def admitsBelow (e : Endpoint) (x : Oid) : Bool :=
  match compare x e.oid with
  | .lt => true
  | .eq => e.included
  | .gt => false

/-- The end as a bound of a range of OIDs. -/
def bound (e : Endpoint) : Bound Oid := if e.included then .included e.oid else .excluded e.oid

end Endpoint

namespace Scope

/-- The scope between two OIDs. Without an upper OID there is nothing to include above. -/
def between (lower : Oid) (lowerIncluded : Bool) (upper : Option Oid) (upperIncluded : Bool) :
    Scope :=
  ⟨⟨lower, lowerIncluded⟩, upper.map (⟨·, upperIncluded⟩)⟩

/-- The scope of a single OID. -/
def exact (x : Oid) : Scope := ⟨⟨x, true⟩, some ⟨x, true⟩⟩

/-- The scope of all OIDs below `top`, with `top` itself. -/
def subtree (top : Oid) : Scope := ⟨⟨top, true⟩, top.nextPeer?.map (⟨·, false⟩)⟩

/-- The scope of all OIDs after `x`. -/
def after (x : Oid) : Scope := ⟨⟨x, false⟩, none⟩

/-- The scope of all OIDs from `x` on. -/
def startingAt (x : Oid) : Scope := ⟨⟨x, true⟩, none⟩

/-- Whether the scope has no upper end. -/
def isUnbounded (s : Scope) : Bool := s.upper.isNone

/-- Whether the ends leave no room: the lower one is above the upper one, or both are the same
OID and not both include it. -/
def isEmpty (s : Scope) : Bool :=
  match s.upper with
  | none => false
  | some upper =>
    match compare s.lower.oid upper.oid with
    | .lt => false
    | .eq => !(s.lower.included && upper.included)
    | .gt => true

/-- Whether an OID lies between the ends. -/
def contains (s : Scope) (x : Oid) : Bool :=
  s.lower.admitsAbove x && s.upper.all (·.admitsBelow x)

/-- The ends of the scope as the bounds of a range of OIDs. -/
def bounds (s : Scope) : Bound Oid × Bound Oid := (s.lower.bound, s.upper.elim .unbounded (·.bound))

/-- A map refuses the bounds of a scope only if the scope is empty. -/
theorem fault?_bounds {s : Scope} (h : s.isEmpty = false) :
  s.bounds.1.fault? s.bounds.2 = none
  := by
  rw [isEmpty] at h
  rw [bounds, Endpoint.bound]
  cases hupper : s.upper with
  | none => split <;> rfl
  | some upper =>
      rw [hupper] at h
      rw [Option.elim_some, Endpoint.bound]
      dsimp only at h
      cases hc : compare s.lower.oid upper.oid with
      | lt => split <;> split <;> simp [Bound.fault?, hc]
      | eq =>
          -- both ends include the OID, or the scope would be empty
          rw [hc, Bool.not_eq_false', Bool.and_eq_true] at h
          rw [if_pos h.1, if_pos h.2, Bound.fault?, hc]
          rfl
      | gt =>
          rw [hc] at h
          cases h

variable {α : Type}

/-- The first entry of a map whose key lies in the scope, looked for between the bounds of the
scope. A scope that is empty has none, and the map is not asked, since it may refuse the bounds. -/
def firstEntry (s : Scope) (m : OrderedMap Oid α) : Except RangeFault (Option (Oid × α)) :=
  if s.isEmpty then .ok none else (m.range s.bounds.1 s.bounds.2).map List.head?

theorem firstEntry_ne_error (s : Scope) (m : OrderedMap Oid α) (fault : RangeFault) :
  s.firstEntry m ≠ .error fault
  := by
  rw [firstEntry]
  cases hempty : s.isEmpty with
  | true =>
      rw [if_pos rfl]
      nofun
  | false =>
      rw [if_neg Bool.false_ne_true, OrderedMap.range, fault?_bounds hempty]
      nofun

/-- The first entry of a map in the scope, which no map refuses to look for. -/
def firstEntry? (s : Scope) (m : OrderedMap Oid α) : Option (Oid × α) :=
  match h : s.firstEntry m with
  | .ok entry => entry
  | .error fault => absurd h (s.firstEntry_ne_error m fault)

theorem firstEntry_eq_ok (s : Scope) (m : OrderedMap Oid α) :
  s.firstEntry m = .ok (s.firstEntry? m)
  := by
  unfold firstEntry?
  split
  · assumption
  · rename_i fault h
    apply absurd h (s.firstEntry_ne_error m fault)

/-- The scope as an interval in print, with an asterisk for a missing upper end. -/
def toText (s : Scope) : String :=
  (if s.lower.included then "[" else "(") ++ s.lower.oid.toText ++ ", " ++
    match s.upper with
    | none => "*)"
    | some upper => upper.oid.toText ++ if upper.included then "]" else ")"

end Scope

end MibAgent
