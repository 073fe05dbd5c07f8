import MibAgent.Agent.Registration
import MibAgent.Proofs.SingleReads

/-!
# Shelves

An agent whose objects, the shelves, offer instances with values that never change.
-/

namespace MibAgent

/-- What a shelf offers, and the scope it declares. -/
structure Shelf where
  scope : Scope
  instances : OrderedMap Oid Value

namespace Shelves

/-- A shelf as an object. -/
def object (shelf : Shelf) : ManagedObject Unit where
  scope := return shelf.scope
  get _ x := return .ofOption (shelf.instances.get? x)
  next _ query := return .within query.range shelf.instances

/-- An agent of shelves, with a rule of access. -/
def agent (shelves : ObjectId → Shelf) (granted : AccessCheck → Bool) : Agent Unit where
  object number := object (shelves number)
  lookupListener _ := {}
  contextListener _ _ _ := pure ()
  refreshRule := none
  access check := return granted check
  wait _ _ _ := return .over
  config := {}
  searchLimit := 4294967296

/-- The state after some changes of the registrations. -/
def stocked (changes : List Store.Change) : AgentState Unit where
  registry := { Registry.ofContexts [] with store := .after changes }
  inFlight := .empty
  now := 0
  lastTransaction := 0
  surroundings := ()

theorem offers_agent (shelves : ObjectId → Shelf) (granted : AccessCheck → Bool) :
  (agent shelves granted).Offers (fun _ => True) (fun number => (shelves number).instances) granted
  where
  considered _ _ _ _ _ := ⟨fun _ hs => hs⟩
  found _ _ _ _ _ := ⟨fun _ hs => hs⟩
  rule := nofun
  refresh := nofun
  wait _ _ _ _ := ⟨fun _ hs => hs⟩
  access _ _ _ := ⟨fun _ hs => hs⟩
  grants _ _ _ := rfl
  next _ _ _ _ _ := ⟨fun _ hs => hs⟩
  responds _ _ _ _ _ := rfl
  get _ _ _ _ _ := ⟨fun _ hs => hs⟩
  gets _ _ _ _ _ := rfl

/-- A shelf is registered in a context for the scope that it declares. -/
def placed (shelves : ObjectId → Shelf) (context : Context) (object : ObjectId) : Store.Change :=
  .register ⟨⟨context, (shelves object).scope⟩, object⟩

theorem isReachable_stocked (changes : List Store.Change) :
  (stocked changes).IsReachable
  := ⟨changes, rfl⟩

theorem isIdle_stocked (changes : List Store.Change) :
  (stocked changes).IsIdle (fun _ => True) (stocked changes).registry.store
  := ⟨⟨trivial, rfl⟩, rfl⟩

/-- What comes after an OID among shelves is what a search through their instances comes to. -/
theorem exists_seeks (shelves : ObjectId → Shelf) (granted : AccessCheck → Bool)
    (changes : List Store.Change) (context : RequestContext) (maxSize : Nat) (x : Oid) :
  let a := agent shelves granted
  let s := stocked changes
  ∃ o, Seeks (context.outlook s.registry.store (fun number => (shelves number).instances) granted)
      a.searchLimit (.after x) o
    ∧ o.isAvailable ∧ ((a.ask .getNext context maxSize x).run s).1.answer? = o.answer? x
  := by
  intro a s
  have hidle : s.IsIdle _ s.registry.store := isIdle_stocked changes
  obtain ⟨-, -, hsearch⟩ := (offers_agent shelves granted).run_ask_getNext context maxSize x
    hidle.toStands (hidle.isOpenTo _)
  exact hsearch

/-- The first instance of the shelf with a number. -/
def first (number : ObjectId) : Oid := ⟨[1, .ofNat number, 1]⟩

/-- The second instance of the shelf with a number. -/
def second (number : ObjectId) : Oid := ⟨[1, .ofNat number, 2]⟩

/-- Shelves with two instances each, the scopes of which follow each other. -/
def pairs (number : ObjectId) : Shelf where
  scope := .subtree ⟨[1, .ofNat number]⟩
  instances := .ofList [(first number, .integer 5), (second number, .integer 6)]

theorem isException_pairs (number : ObjectId) (x : Oid) (v : Value)
    (h : (pairs number).instances.get? x = some v) :
  v.isException = false
  := by
  simp only [pairs, OrderedMap.ofList, List.foldl_cons, List.foldl_nil,
    OrderedMap.get?_insert] at h
  split at h
  · cases h
    rfl
  · split at h
    · cases h
      rfl
    · cases h

/-- The name of a context. -/
def owner : Octets := [99]

/-- Who asks in the named context. -/
def requester : RequestContext := (RequestContext.ofVersion .v2c).inContext owner

end Shelves

end MibAgent
