import MibAgent.OrderedMap
import MibAgent.Registry.Entry

/-!
# Locks

An object can be locked by one owner at a time, who may lock it again and has to unlock it as
many times. The table holds an entry for each locked object, with its owner and the number of
times it is still to be unlocked.
-/

namespace MibAgent

/-- Who holds a lock, and how many times. -/
structure Hold where
  owner : LockOwner
  count : Nat
deriving DecidableEq, Inhabited

/-- How an attempt to lock an object ends. -/
inductive LockOutcome where
  | acquired
  /-- Someone else kept the lock for as long as the attempt was willing to wait. -/
  | timedOut
  /-- The wait was ended from outside. -/
  | interrupted
deriving DecidableEq, Inhabited

/-- Whether the attempt succeeded. -/
def LockOutcome.isAcquired : LockOutcome → Bool
  | acquired => true
  | _ => false

/-- The objects that are locked. -/
structure LockTable where
  holds : OrderedMap ObjectId Hold
deriving Inhabited

namespace LockTable

/-- Nothing is locked. -/
def empty : LockTable := ⟨.empty⟩

/-- Who holds the lock on an object. -/
def hold? (t : LockTable) (object : ObjectId) : Option Hold := t.holds.get? object

/-- The number of locked objects. -/
def size (t : LockTable) : Nat := t.holds.size

/-- The table after `owner` has locked `object`, unless someone else holds the lock. -/
def acquire? (t : LockTable) (owner : LockOwner) (object : ObjectId) : Option LockTable :=
  match t.hold? object with
  | none => some ⟨t.holds.insert object ⟨owner, 1⟩⟩
  | some hold =>
    if hold.owner = owner then some ⟨t.holds.insert object ⟨owner, hold.count + 1⟩⟩ else none

/-- The table after `owner` has unlocked `object` once, unless `owner` does not hold the
lock. -/
def release? (t : LockTable) (owner : LockOwner) (object : ObjectId) : Option LockTable :=
  match t.hold? object with
  | none => none
  | some hold =>
    if hold.owner = owner then
      if hold.count ≤ 1 then some ⟨t.holds.erase object⟩
      else some ⟨t.holds.insert object ⟨owner, hold.count - 1⟩⟩
    else none

/-- An attempt to lock an object that is not willing to wait. -/
def attempt (t : LockTable) (owner : LockOwner) (object : ObjectId) : LockOutcome × LockTable :=
  match t.acquire? owner object with
  | some locked => (.acquired, locked)
  | none => (.timedOut, t)

/-- Unlocks an object once, and tells whether the owner held the lock. -/
def unlock (t : LockTable) (owner : LockOwner) (object : ObjectId) : Bool × LockTable :=
  match t.release? owner object with
  | some unlocked => (true, unlocked)
  | none => (false, t)

end LockTable

end MibAgent
