import MibAgent.Agent

/-!
# Lookup

A lookup tries the registrations that overlap the window of a query, in their order. To each
it does the same: the audience of the object is told that it is considered, the object is
refreshed if need be, and the test of the search decides. The first that passes is what the
lookup finds, and its audience is told.
-/

namespace MibAgent.Agent

variable {σ : Type}

/-- The members an audience has now. -/
def membersOf (audience : Option Nat) : AgentM σ (List ListenerId) := do
  match audience with
  | none => return []
  | some number => return (← AgentM.registry).audiences.membersOf number

/-- Refreshes an object when it can be refreshed and the rule asks for it. -/
def refresh (a : Agent σ) (object : ObjectId) (query : Query) : AgentM σ Unit :=
  match a.refreshRule, (a.object object).refresh with
  | some needed, some update => do if ← needed object query then update query
  | _, _ => pure ()

/-- The first of some registrations whose object passes the test. -/
def firstAccepted (a : Agent σ) (search : Search (AgentM σ) ObjectId) :
    List Entry → AgentM σ (Option Entry)
  | [] => pure none
  | entry :: rest => do
    let audience := (← AgentM.registry).audiences.of? entry.object
    (← membersOf audience).forM fun l => (a.lookupListener l).considered entry search.query
    a.refresh entry.object search.query
    if ← search.accepts entry.object then
      (← membersOf audience).forM fun l => (a.lookupListener l).found entry search.query
      return some entry
    else a.firstAccepted search rest

/-- What a search finds in the registry. With `ownOnly`, a query in a named context does not
see the default context. -/
def lookup (a : Agent σ) (search : Search (AgentM σ) ObjectId) (ownOnly : Bool) :
    AgentM σ (Option Entry) := do
  let registry ← AgentM.registry
  a.firstAccepted search (registry.store.candidates search.query.window ownOnly)

/-- What a query finds without a test. -/
def find (a : Agent σ) (query : Query) : AgentM σ (Option Entry) :=
  a.lookup { query } false

end MibAgent.Agent
