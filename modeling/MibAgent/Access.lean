import MibAgent.Oid
import MibAgent.OrderedMap
import MibAgent.Octets
import MibAgent.Scope.Context

/-!
# Access control

Before an OID of an object is touched, a rule is asked whether the requester may. The views
of a principal are such a rule: for each kind of access, the subtrees that are included and
those taken out again. A principal or a kind without a view is granted nothing.
-/

namespace MibAgent

/-- How a requester was identified. -/
inductive SecurityModel where
  | any
  | v1
  | v2c
  | usm
deriving DecidableEq, Inhabited

/-- How well a message was protected. -/
inductive SecurityLevel where
  | noAuthNoPriv
  | authNoPriv
  | authPriv
deriving DecidableEq, Inhabited

/-- The levels by increasing protection. -/
def SecurityLevel.rank : SecurityLevel → Nat
  | noAuthNoPriv => 0
  | authNoPriv => 1
  | authPriv => 2

/-- What access is asked for. -/
inductive ViewKind where
  | read
  | write
  | notify
deriving DecidableEq, Inhabited

/-- The kind of access by its name. -/
def ViewKind.toText : ViewKind → String
  | read => "read"
  | write => "write"
  | notify => "notify"

/-- A question to the access rule: whether `principal` may access `oid`. -/
structure AccessCheck where
  context : Context
  principal : Octets
  model : SecurityModel
  level : SecurityLevel
  kind : ViewKind
  oid : Oid
deriving DecidableEq

/-- A set of OIDs, given by subtrees that are included and subtrees that are excluded. -/
structure View where
  included : List Oid
  excluded : List Oid
deriving DecidableEq, Inhabited

/-- Whether an OID is in an included subtree and in no excluded one. -/
def View.contains (v : View) (x : Oid) : Bool :=
  v.included.any x.isBelow && !v.excluded.any x.isBelow

/-- The views of a principal, one for each kind of access. -/
structure PrincipalViews where
  read : Option View := none
  write : Option View := none
  notify : Option View := none
deriving DecidableEq, Inhabited

namespace PrincipalViews

/-- The view for a kind of access. -/
def view? (p : PrincipalViews) : ViewKind → Option View
  | .read => p.read
  | .write => p.write
  | .notify => p.notify

/-- The views with one of them replaced. -/
def withView (p : PrincipalViews) (kind : ViewKind) (view : View) : PrincipalViews :=
  match kind with
  | .read => { p with read := some view }
  | .write => { p with write := some view }
  | .notify => { p with notify := some view }

end PrincipalViews

/-- Access by the views of principals, for messages of at least a certain protection. -/
structure ViewAccess where
  principals : OrderedMap Octets PrincipalViews
  minimumLevel : SecurityLevel

namespace ViewAccess

/-- No principal has a view. -/
def empty : ViewAccess := ⟨.empty, .noAuthNoPriv⟩

/-- Gives a principal a view, in place of an earlier one of the same kind. -/
def grant (a : ViewAccess) (principal : Octets) (kind : ViewKind) (view : View) : ViewAccess :=
  let views := (a.principals.get? principal).getD {}
  { a with principals := a.principals.insert principal (views.withView kind view) }

/-- Whether the views allow what is asked for. -/
def allows (a : ViewAccess) (check : AccessCheck) : Bool :=
  if check.level.rank < a.minimumLevel.rank then false
  else
    match a.principals.get? check.principal with
    | none => false
    | some views => (views.view? check.kind).any (·.contains check.oid)

end ViewAccess

end MibAgent
