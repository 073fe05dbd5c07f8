import MibAgent.Scope.Context

/-!
# The order of registrations

Registrations are kept in order and found by bisection, so a context scope is compared with
context scopes and with the windows of queries. Contexts decide a comparison only when both
are named. Context scopes then go by their lower end, at the same lower OID those of a named
context before those of the default one, and finally by how soon they end. A context scope is
compared with a window by where it ends: it comes before the window when it ends before the
window begins.
-/

namespace MibAgent

/-- Compares contexts, provided both have names. -/
def Context.compareNamed : Context → Context → Ordering
  | some a, some b => compare a b
  | _, _ => .eq

namespace Scope

/-- Compares scopes with the same lower OID: the one that includes it comes first, then the
one that ends first. -/
def compareEnds (a b : Scope) : Ordering :=
  (compare b.lower.included a.lower.included).then <|
    match a.upper, b.upper with
    | none, none => .eq
    | none, some _ => .gt
    | some _, none => .lt
    | some x, some y => (compare x.oid y.oid).then (compare x.included y.included)

end Scope

namespace ContextScope

/-- A named context comes before the default one. -/
def compareTag (a b : ContextScope) : Ordering :=
  match a.context, b.context with
  | some _, none => .lt
  | none, some _ => .gt
  | _, _ => .eq

/-- Compares two context scopes. -/
def order (a b : ContextScope) : Ordering :=
  (Context.compareNamed a.context b.context).then <|
    (compare a.scope.lower.oid b.scope.lower.oid).then <|
      (compareTag a b).then (a.scope.compareEnds b.scope)

/-- Compares a context scope with the window of a query. The scope is equal to the window when
it ends at the OID where the window begins and both include it. A scope without an upper end
is greater than any window. -/
def orderToWindow (s window : ContextScope) : Ordering :=
  (Context.compareNamed s.context window.context).then <|
    match s.scope.upper with
    | none => .gt
    | some upper =>
      match compare upper.oid window.scope.lower.oid with
      | .eq => if upper.included && window.scope.lower.included then .eq else .lt
      | other => other

end ContextScope

/-- A key of the order: the scope of a registration or the window of a query. -/
inductive Key where
  | registered (scope : ContextScope)
  | window (window : ContextScope)
deriving DecidableEq

namespace Key

/-- Compares two keys. Windows compare with each other as context scopes do. -/
def order : Key → Key → Ordering
  | registered a, registered b => a.order b
  | window a, window b => a.order b
  | registered a, window b => a.orderToWindow b
  | window a, registered b => (b.orderToWindow a).swap

end Key

end MibAgent
