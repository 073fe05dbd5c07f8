import MibAgent.Agent

/-!
# Locking

Who finds a lock taken waits. When the wait is over there is one more attempt, unless everyone
who waits is sent away.
-/

namespace MibAgent.Agent

variable {σ : Type}

/-- An attempt to lock an object that does not wait. -/
def tryLock (owner : LockOwner) (object : ObjectId) : AgentM σ LockOutcome := do
  let registry ← AgentM.registry
  let (outcome, locks) := registry.locks.attempt owner object
  AgentM.modifyRegistry ({ · with locks })
  return outcome

/-- Locks an object, waiting for it for a time, which is without limit when it is zero. -/
def lock (a : Agent σ) (owner : LockOwner) (object : ObjectId) (timeout : Nat) :
    AgentM σ LockOutcome := do
  match ← tryLock owner object with
  | .acquired => return .acquired
  | _ =>
    match ← a.wait owner object timeout with
    | .interrupted => return .interrupted
    | .over => tryLock owner object

/-- Unlocks an object once; tells whether the owner held the lock. -/
def unlock (owner : LockOwner) (object : ObjectId) : AgentM σ Bool := do
  let registry ← AgentM.registry
  let (held, locks) := registry.locks.unlock owner object
  AgentM.modifyRegistry ({ · with locks })
  return held

/-- Locks an object for a request; tells whether that succeeded. -/
def lockFor (a : Agent σ) (context : RequestContext) (object : ObjectId) : AgentM σ Bool :=
  return (← a.lock context.transaction object a.config.lockTimeout).isAcquired

/-- Unlocks an object for a request. -/
def unlockFor (context : RequestContext) (object : ObjectId) : AgentM σ Unit :=
  discard (unlock context.transaction object)

end MibAgent.Agent
