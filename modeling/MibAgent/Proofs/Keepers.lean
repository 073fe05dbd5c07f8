import MibAgent.Agent.Processing
import MibAgent.Agent.Registration
import MibAgent.Proofs.Invariants

/-!
# Keepers

An agent whose objects, the keepers, do nothing but keep a value for each instance. A keeper
takes a value on at once and stores the one before, to which it goes back when it is asked to
undo. In each phase of a write it may also refuse, by a verdict on the OID.
-/

namespace MibAgent

/-- The values that objects have for their instances. -/
def Contents := ObjectId → Oid → Option Value

/-- The contents with another value for an instance. -/
def Contents.set (c : Contents) (object : ObjectId) (oid : Oid) (value : Option Value) : Contents :=
  fun other x => if other = object ∧ x = oid then value else c other x

/-- What keepers say in the phases of a write. -/
structure Verdicts where
  validate : Oid → WriteResult := fun _ => .ok
  apply : Oid → WriteResult := fun _ => .ok
  commit : Oid → WriteResult := fun _ => .ok
  undo : Oid → WriteResult := fun _ => .ok

namespace Keepers

/-- The value that is kept for an instance. -/
def kept (object : ObjectId) (oid : Oid) : AgentM Contents (Option Value) :=
  return (← get).surroundings object oid

/-- Keeps another value for an instance. -/
def keep (object : ObjectId) (oid : Oid) (value : Option Value) : AgentM Contents Unit :=
  modify fun state => { state with surroundings := state.surroundings.set object oid value }

/-- How a keeper is written. -/
def writable (verdicts : Verdicts) (object : ObjectId) : Writable Contents where
  validate _ b := return verdicts.validate b.oid
  apply _ b stored := do
    let result := verdicts.apply b.oid
    if result.isOk then
      let previous ← kept object b.oid
      keep object b.oid b.value
      return (result, previous)
    else return (result, stored)
  commit _ b := return verdicts.commit b.oid
  undo _ b stored := do
    let result := verdicts.undo b.oid
    if result.isOk then keep object b.oid stored
    return result

/-- A keeper of the instances below the OID with the number of the object as its only arc. -/
def keeper (verdicts : Verdicts) (object : ObjectId) : ManagedObject Contents where
  scope := return .subtree ⟨[.ofNat object]⟩
  get _ oid := return .ofOption (← kept object oid)
  next _ _ := return .endOfView
  writable := some (writable verdicts object)

/-- An agent of keepers that grants every access. -/
def agent (verdicts : Verdicts) : Agent Contents where
  object := keeper verdicts
  lookupListener _ := {}
  contextListener _ _ _ := pure ()
  refreshRule := none
  access _ := return true
  wait _ _ _ := return .over
  config := {}
  searchLimit := 4294967296

/-- The state in which nothing is kept and no keeper is registered. -/
def start : AgentState Contents where
  registry := .ofContexts []
  inFlight := .empty
  now := 0
  lastTransaction := 0
  surroundings := fun _ _ => none

/-- The state after the first keeper was registered. -/
def ready : AgentState Contents := (((agent {}).register 1 none).run start).2

/-- Who asks the keepers. -/
def requester : RequestContext := .ofVersion .v2c

/-- An instance of the first keeper. -/
def instanceOf (number : UInt32) : Oid := ⟨[1, number]⟩

/-- A request to set two instances of the first keeper. -/
def pair : Pdu where
  operation := .set
  requestId := 1
  bindings := [⟨instanceOf 1, .integer 5⟩, ⟨instanceOf 2, .integer 6⟩]

/-- The verdicts of keepers that do not commit the first instance of the first keeper, and do
not undo the one with a given number. -/
def stubborn (number : UInt32) : Verdicts where
  commit oid := if oid = instanceOf 1 then .commitFailed else .ok
  undo oid := if oid = instanceOf number then .undoFailed else .ok

/-- The verdicts of keepers that find the second instance of the first keeper invalid. -/
def choosy : Verdicts where
  validate oid := if oid = instanceOf 2 then .wrongValue else .ok

/-! ### What keepers leave alone -/

section

open AgentM (Keeps)

variable {I : AgentState Contents → Prop}
  (hI : ∀ s contents, I s → I { s with surroundings := contents }) (verdicts : Verdicts)
  (object : ObjectId) (context : RequestContext) (b : Binding) (stored : Option Value)
include hI

theorem keeps_keep (oid : Oid) (value : Option Value) :
  Keeps I (keep object oid value)
  := ⟨fun s hs => hI s _ hs⟩

/-- Taking on a value changes nothing but what is kept. -/
theorem keeps_apply :
  Keeps I ((writable verdicts object).apply context b stored)
  := by
  dsimp only [writable]
  split
  · apply Keeps.bind ⟨fun _ hs => hs⟩
    intro previous
    apply Keeps.bind (keeps_keep hI object b.oid b.value)
    intro _
    apply Keeps.pure
  · apply Keeps.pure

/-- Undoing changes nothing but what is kept. -/
theorem keeps_undo :
  Keeps I ((writable verdicts object).undo context b stored)
  := by
  dsimp only [writable]
  split
  · apply Keeps.bind (keeps_keep hI object b.oid stored)
    intro _
    apply Keeps.pure
  · apply Keeps.pure

end

end Keepers

end MibAgent
