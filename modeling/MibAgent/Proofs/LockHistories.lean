import MibAgent.Agent.Locking
import MibAgent.Proofs.LockTables

/-!
# Histories of locks

Many owners lock and unlock many objects, and some of them wait. What each of them does to the
table of locks is a single step, and the steps of different owners come in any order. Whatever the
order, an object is locked by the one owner who has locked it more often than unlocked it, and the
table shows the difference.
-/

namespace MibAgent

/-- Someone who waits for the lock on an object. -/
structure LockWaiter where
  owner : LockOwner
  object : ObjectId
  /-- How often everyone who waits had been sent away when the wait began. -/
  epoch : Nat
  /-- Whether the wait has a limit. -/
  limited : Bool

/-- The table of locks with those who wait. -/
structure LockRoom where
  table : LockTable
  /-- How often everyone who waits has been sent away. -/
  epoch : Nat
  waiters : List LockWaiter

/-- What is seen to happen to locks. -/
inductive LockEvent where
  /-- An owner's attempt to lock an object ended. -/
  | ended (owner : LockOwner) (object : ObjectId) (outcome : LockOutcome)
  /-- An owner unlocked an object, or had no lock on it. -/
  | unlocked (owner : LockOwner) (object : ObjectId) (held : Bool)
  /-- Everyone who waits was told to go away. -/
  | interrupted
deriving DecidableEq

/-- A step that someone takes. -/
inductive LockMove where
  /-- An owner tries to lock an object, and waits if someone else holds the lock. -/
  | ask (owner : LockOwner) (object : ObjectId) (limited : Bool)
  /-- The one who waits at a place wakes up, perhaps because the time is up. -/
  | wake (place : Nat) (timeUp : Bool)
  | unlock (owner : LockOwner) (object : ObjectId)
  /-- Everyone who waits is to go away. -/
  | interrupt

namespace LockRoom

/-- Nothing is locked and nobody waits. -/
def opened : LockRoom := ⟨.empty, 0, []⟩

/-- The room without the one who waited at a place. -/
def leave (room : LockRoom) (place : Nat) : LockRoom :=
  { room with waiters := room.waiters.eraseIdx place }

/-- What one step makes of the room, and what is seen of it. Who wakes up looks first whether
everyone was sent away meanwhile, tries again, and waits on unless the time is up. -/
def move (room : LockRoom) : LockMove → Option LockEvent × LockRoom
  | .ask owner object limited =>
    match room.table.attempt owner object with
    | (.acquired, table) => (some (.ended owner object .acquired), { room with table })
    | _ =>
      (none, { room with waiters := room.waiters ++ [⟨owner, object, room.epoch, limited⟩] })
  | .wake place timeUp =>
    match room.waiters[place]? with
    | none => (none, room)
    | some waiter =>
      if room.epoch ≠ waiter.epoch then
        (some (.ended waiter.owner waiter.object .interrupted), room.leave place)
      else
        match room.table.attempt waiter.owner waiter.object with
        | (.acquired, table) =>
          (some (.ended waiter.owner waiter.object .acquired), { room.leave place with table })
        | _ =>
          if timeUp && waiter.limited then
            (some (.ended waiter.owner waiter.object .timedOut), room.leave place)
          else (none, room)
  | .unlock owner object =>
    let (held, table) := room.table.unlock owner object
    (some (.unlocked owner object held), { room with table })
  | .interrupt => (some .interrupted, { room with epoch := room.epoch + 1 })

/-- What some steps make of the room, and all that is seen of them. -/
def run (room : LockRoom) : List LockMove → List LockEvent × LockRoom
  | [] => ([], room)
  | move :: rest =>
    let (event, room) := room.move move
    let (events, room) := room.run rest
    (event.toList ++ events, room)

end LockRoom

/-! ### One step -/

/-- What a step can make of the table of locks, and what is seen of it. -/
inductive LockTable.Turns (t : LockTable) : Option LockEvent → LockTable → Prop where
  | locks {owner : LockOwner} {object : ObjectId} {t' : LockTable}
      (h : t.acquire? owner object = some t') :
      t.Turns (some (.ended owner object .acquired)) t'
  | timesOut (owner : LockOwner) (object : ObjectId) :
      t.Turns (some (.ended owner object .timedOut)) t
  | isSentAway (owner : LockOwner) (object : ObjectId) :
      t.Turns (some (.ended owner object .interrupted)) t
  | unlocks {owner : LockOwner} {object : ObjectId} {t' : LockTable}
      (h : t.release? owner object = some t') :
      t.Turns (some (.unlocked owner object true)) t'
  | refuses {owner : LockOwner} {object : ObjectId} (h : t.release? owner object = none) :
      t.Turns (some (.unlocked owner object false)) t
  | interrupts : t.Turns (some .interrupted) t
  | waits : t.Turns none t

theorem LockTable.turns_attempt {t t' : LockTable} {owner : LockOwner} {object : ObjectId}
    (h : t.attempt owner object = (.acquired, t')) :
  t.Turns (some (.ended owner object .acquired)) t'
  := by
  rw [attempt] at h
  split at h
  · rename_i hacquire
    cases h
    apply Turns.locks hacquire
  · cases h

/-- Each step does one of the things that can be done to the table. -/
theorem LockRoom.turns_move (room : LockRoom) (move : LockMove) :
  room.table.Turns (room.move move).1 (room.move move).2.table
  := by
  cases move with
  | ask owner object limited =>
      dsimp only [LockRoom.move]
      split
      · rename_i hattempt
        apply LockTable.turns_attempt hattempt
      · apply LockTable.Turns.waits
  | wake place timeUp =>
      dsimp only [LockRoom.move]
      split
      · apply LockTable.Turns.waits
      · split
        · apply LockTable.Turns.isSentAway
        · split
          · rename_i hattempt
            apply LockTable.turns_attempt hattempt
          · split
            · apply LockTable.Turns.timesOut
            · apply LockTable.Turns.waits
  | unlock owner object =>
      dsimp only [LockRoom.move]
      rw [LockTable.unlock]
      split
      · rename_i hrelease
        apply LockTable.Turns.unlocks hrelease
      · rename_i hrelease
        apply LockTable.Turns.refuses hrelease
  | interrupt => apply LockTable.Turns.interrupts

namespace LockTable

variable {t t' : LockTable} {owner : LockOwner} {object : ObjectId} {event : Option LockEvent}

/-- Whoever acquires a lock finds it free or has it already. -/
theorem Turns.owner_eq (h : t.Turns (some (.ended owner object .acquired)) t') {hold : Hold}
    (hhold : t.hold? object = some hold) :
  hold.owner = owner
  := by
  cases h with
  | locks hacquire =>
      rw [acquire?, hhold] at hacquire
      dsimp only at hacquire
      split at hacquire
      · assumption
      · cases hacquire

/-- Only the owner of a lock is refused nothing. -/
theorem release?_eq_none_iff :
  t.release? owner object = none ↔ ∀ n, t.hold? object ≠ some ⟨owner, n⟩
  := by
  rw [release?]
  cases hhold : t.hold? object with
  | none =>
      constructor
      · rintro - n ⟨⟩
      · intro _
        rfl
  | some hold =>
      dsimp only
      split
      · rename_i howner
        constructor
        · intro hnone
          split at hnone
          · cases hnone
          · cases hnone
        · intro hne
          apply absurd _ (hne hold.count)
          rw [← howner]
      · rename_i howner
        constructor
        · rintro - n ⟨⟩
          apply howner rfl
        · intro _
          rfl

/-- A step that is not seen to lock or to unlock leaves the table as it is. -/
theorem Turns.eq_of_not (h : t.Turns event t')
    (hacquired : ∀ owner object, event ≠ some (.ended owner object .acquired))
    (hreleased : ∀ owner object, event ≠ some (.unlocked owner object true)) :
  t' = t
  := by
  cases h with
  | locks _ => apply absurd rfl (hacquired _ _)
  | unlocks _ => apply absurd rfl (hreleased _ _)
  | timesOut _ _ => rfl
  | isSentAway _ _ => rfl
  | refuses _ => rfl
  | interrupts => rfl
  | waits => rfl

/-- An unlocking succeeds for the owner of the lock, and for nobody else. -/
theorem Turns.held_iff {held : Bool} (h : t.Turns (some (.unlocked owner object held)) t') :
  held = true ↔ ∃ n, t.hold? object = some ⟨owner, n⟩
  := by
  rw [← not_iff_not, not_exists, ← release?_eq_none_iff]
  cases h with
  | unlocks hrelease => simp [hrelease]
  | refuses hrelease => simp [hrelease]

/-! ### Counting -/

/-- How many times an owner holds the lock on an object. -/
def tally (t : LockTable) (owner : LockOwner) (object : ObjectId) : Nat :=
  match t.hold? object with
  | some hold => if hold.owner = owner then hold.count else 0
  | none => 0

theorem tally_insert (hold : Hold) (owner' : LockOwner) (object' : ObjectId) :
  tally ⟨t.holds.insert object hold⟩ owner' object'
    = if object' = object then if hold.owner = owner' then hold.count else 0
      else t.tally owner' object'
  := by
  rw [tally, hold?_insert]
  by_cases hobject : object' = object
  · rw [if_pos hobject, if_pos hobject]
  · rw [if_neg hobject, if_neg hobject, tally]

theorem tally_erase (owner' : LockOwner) (object' : ObjectId) :
  tally ⟨t.holds.erase object⟩ owner' object'
    = if object' = object then 0 else t.tally owner' object'
  := by
  rw [tally, hold?_erase]
  by_cases hobject : object' = object
  · rw [if_pos hobject, if_pos hobject]
  · rw [if_neg hobject, if_neg hobject, tally]

/-- Who has a share in an object is the only one with a tally. -/
theorem tally_of_share? {n : Nat} (h : t.share? owner object = some n) (owner' : LockOwner) :
  t.tally owner' object = if owner = owner' then n else 0
  := by
  rw [share?] at h
  rw [tally]
  cases hhold : t.hold? object with
  | none =>
      rw [hhold] at h
      cases h
      rw [ite_self]
  | some hold =>
      rw [hhold] at h
      dsimp only at h ⊢
      split at h
      · rename_i howner
        cases h
        rw [howner]
      · cases h

/-- What the table shows is what the tally of an owner says. -/
theorem IsCounted.hold?_iff (h : t.IsCounted) (n : Nat) :
  t.hold? object = some ⟨owner, n⟩ ↔ 0 < n ∧ t.tally owner object = n
  := by
  rw [tally]
  cases hhold : t.hold? object with
  | none =>
      constructor
      · nofun
      · rintro ⟨hpos, rfl⟩
        cases hpos
  | some hold =>
      have hpos := h object hold hhold
      constructor
      · rintro ⟨⟩
        exact ⟨hpos, if_pos rfl⟩
      · rintro ⟨hn, htally⟩
        dsimp only at htally
        split at htally
        · rename_i howner
          rw [← howner, ← htally]
        · omega

/-- Locking adds one to the tally of the owner. -/
theorem tally_of_acquire? (h : t.acquire? owner object = some t') (owner' : LockOwner)
    (object' : ObjectId) :
  t'.tally owner' object'
    = t.tally owner' object' + if owner = owner' ∧ object = object' then 1 else 0
  := by
  rw [acquire?_eq] at h
  obtain ⟨n, hn, rfl⟩ := Option.map_eq_some_iff.mp h
  rw [tally_insert]
  by_cases hobject : object = object'
  · subst hobject
    rw [if_pos rfl, tally_of_share? hn]
    by_cases howner : owner = owner'
    · rw [if_pos howner, if_pos howner, if_pos ⟨howner, rfl⟩]
    · rw [if_neg howner, if_neg howner, if_neg fun heq => howner heq.1]
  · rw [if_neg (Ne.symm hobject), if_neg fun heq => hobject heq.2, Nat.add_zero]

/-- Who unlocks an object has a share in it, and keeps the rest of it. -/
theorem exists_of_release? (h : t.release? owner object = some t') :
  ∃ n, t.hold? object = some ⟨owner, n⟩
    ∧ t' = ⟨if n ≤ 1 then t.holds.erase object else t.holds.insert object ⟨owner, n - 1⟩⟩
  := by
  rw [release?] at h
  cases hhold : t.hold? object with
  | none =>
      rw [hhold] at h
      cases h
  | some hold =>
      rw [hhold] at h
      dsimp only at h
      split at h
      · rename_i howner
        use hold.count
        rw [← howner]
        use rfl
        split at h
        · rename_i hcount
          cases h
          rw [if_pos hcount]
        · rename_i hcount
          cases h
          rw [if_neg hcount, howner]
      · cases h

/-- Unlocking takes one away from the tally of the owner. -/
theorem IsCounted.tally_of_release? (hcounted : t.IsCounted)
    (h : t.release? owner object = some t') (owner' : LockOwner) (object' : ObjectId) :
  t.tally owner' object'
    = t'.tally owner' object' + if owner = owner' ∧ object = object' then 1 else 0
  := by
  obtain ⟨n, hhold, rfl⟩ := exists_of_release? h
  have hpos := hcounted object _ hhold
  by_cases hobject : object = object'
  · subst hobject
    have htally : tally ⟨if n ≤ 1 then t.holds.erase object
        else t.holds.insert object ⟨owner, n - 1⟩⟩ owner' object
        = if owner = owner' then n - 1 else 0 := by
      split
      · rename_i hn
        rw [tally_erase, if_pos rfl, Nat.sub_eq_zero_of_le hn, ite_self]
      · rw [tally_insert, if_pos rfl]
    rw [htally, tally_of_share? (share?_of_hold? hhold)]
    by_cases howner : owner = owner'
    · rw [if_pos howner, if_pos howner, if_pos ⟨howner, rfl⟩, Nat.sub_add_cancel hpos]
    · rw [if_neg howner, if_neg howner, if_neg fun heq => howner heq.1]
  · have hdifferent : ¬ (owner = owner' ∧ object = object') := fun heq => hobject heq.2
    rw [if_neg hdifferent, Nat.add_zero]
    split
    · rw [tally_erase, if_neg (Ne.symm hobject)]
    · rw [tally_insert, if_neg (Ne.symm hobject)]

end LockTable

namespace LockEvent

variable (owner : LockOwner) (object : ObjectId) (events events' : List LockEvent)

/-- How many times an owner has locked an object. -/
def acquisitions : Nat := events.count (.ended owner object .acquired)

/-- How many times an owner has unlocked an object. -/
def releases : Nat := events.count (.unlocked owner object true)

theorem acquisitions_append :
  acquisitions owner object (events ++ events')
    = acquisitions owner object events + acquisitions owner object events'
  := List.count_append

theorem releases_append :
  releases owner object (events ++ events')
    = releases owner object events + releases owner object events'
  := List.count_append

theorem acquisitions_singleton (event : LockEvent) :
  acquisitions owner object [event] = if event = .ended owner object .acquired then 1 else 0
  := by
  rw [acquisitions, List.count_singleton]
  simp only [beq_iff_eq]

theorem releases_singleton (event : LockEvent) :
  releases owner object [event] = if event = .unlocked owner object true then 1 else 0
  := by
  rw [releases, List.count_singleton]
  simp only [beq_iff_eq]

end LockEvent

open LockEvent

namespace LockTable

variable {t t' : LockTable} {event : Option LockEvent} {events : List LockEvent}

theorem Turns.isCounted (h : t.Turns event t') (hcounted : t.IsCounted) :
  t'.IsCounted
  := by
  cases h with
  | @locks owner object _ hacquire =>
      have hattempt := hcounted.attempt owner object
      rw [attempt, hacquire] at hattempt
      apply hattempt
  | @unlocks owner object _ hrelease =>
      have hunlock := hcounted.unlock owner object
      rw [unlock, hrelease] at hunlock
      apply hunlock
  | _ => apply hcounted

/-- What is seen of a step accounts for every change of a tally. -/
theorem Turns.tally_eq (h : t.Turns event t') (hcounted : t.IsCounted) (owner : LockOwner)
    (object : ObjectId) :
  t.tally owner object + acquisitions owner object event.toList
    = releases owner object event.toList + t'.tally owner object
  := by
  cases h with
  | locks hacquire =>
      rw [tally_of_acquire? hacquire, Option.toList_some, acquisitions_singleton,
        releases_singleton]
      simp only [LockEvent.ended.injEq, and_true, reduceCtorEq, if_false, Nat.zero_add]
  | unlocks hrelease =>
      rw [hcounted.tally_of_release? hrelease, Option.toList_some, acquisitions_singleton,
        releases_singleton]
      simp only [LockEvent.unlocked.injEq, and_true, reduceCtorEq, if_false, Nat.add_zero]
      apply Nat.add_comm
  | waits => apply Nat.add_comm
  | _ =>
      rw [Option.toList_some, acquisitions_singleton, releases_singleton, if_neg nofun,
        if_neg nofun]
      apply Nat.add_comm

/-! ### Any number of steps -/

/-- The table shows how often each owner has locked each object without unlocking it. -/
structure Recounts (t : LockTable) (events : List LockEvent) : Prop where
  isCounted : t.IsCounted
  acquisitions_eq : ∀ owner object,
    acquisitions owner object events = releases owner object events + t.tally owner object

namespace Recounts

theorem empty :
  LockTable.empty.Recounts []
  := by
  constructor
  · apply IsCounted.empty
  · intro owner object
    rfl

/-- The count goes on with each step. -/
theorem turn (h : t.Recounts events) (hturn : t.Turns event t') :
  t'.Recounts (events ++ event.toList)
  := by
  constructor
  · apply hturn.isCounted h.isCounted
  · intro owner object
    have hbefore := h.acquisitions_eq owner object
    have hstep := hturn.tally_eq h.isCounted owner object
    rw [acquisitions_append, releases_append]
    omega

end Recounts

end LockTable

/-- The count goes on with any number of steps. -/
theorem LockRoom.recounts_run {room : LockRoom} {events : List LockEvent}
    (h : room.table.Recounts events) (moves : List LockMove) :
  (room.run moves).2.table.Recounts (events ++ (room.run moves).1)
  := by
  induction moves generalizing room events with
  | nil =>
      rw [run, List.append_nil]
      apply h
  | cons move rest ih =>
      rw [run, ← List.append_assoc]
      apply ih (h.turn (room.turns_move move))

/-- After any steps an object is locked by exactly the owner who has locked it more often than
unlocked it, as many times as the difference. Whoever acquires a lock next finds it free or has it
already, whoever does not own a lock cannot unlock it, and nothing else changes the table. -/
theorem LockRoom.excludes_and_counts (moves : List LockMove) :
  let events := (LockRoom.opened.run moves).1
  let room := (LockRoom.opened.run moves).2
  (∀ owner object n, room.table.hold? object = some ⟨owner, n⟩
      ↔ 0 < n ∧ acquisitions owner object events = releases owner object events + n)
    ∧ (∀ owner object, releases owner object events ≤ acquisitions owner object events)
    ∧ (∀ owner owner' object, releases owner object events < acquisitions owner object events →
        releases owner' object events < acquisitions owner' object events → owner = owner')
    ∧ ∀ move,
        (∀ owner object, (room.move move).1 = some (.ended owner object .acquired) →
          ∀ hold, room.table.hold? object = some hold → hold.owner = owner)
        ∧ (∀ owner object held, (room.move move).1 = some (.unlocked owner object held) →
          (held = true ↔ ∃ n, room.table.hold? object = some ⟨owner, n⟩))
        ∧ ((∀ owner object, (room.move move).1 ≠ some (.ended owner object .acquired)) →
          (∀ owner object, (room.move move).1 ≠ some (.unlocked owner object true)) →
          (room.move move).2.table = room.table)
  := by
  intro events room
  have hopened : opened.table.Recounts [] := LockTable.Recounts.empty
  have hrecounts : room.table.Recounts events := recounts_run hopened moves
  have hhold : ∀ owner object n, room.table.hold? object = some ⟨owner, n⟩
      ↔ 0 < n ∧ acquisitions owner object events = releases owner object events + n := by
    intro owner object n
    rw [hrecounts.isCounted.hold?_iff, hrecounts.acquisitions_eq, Nat.add_left_cancel_iff]
  refine ⟨hhold, ?_, ?_, ?_⟩
  · intro owner object
    rw [hrecounts.acquisitions_eq]
    apply Nat.le_add_right
  · intro owner owner' object howner howner'
    have hheld := (hhold owner object _).mpr
      ⟨Nat.sub_pos_of_lt howner, (Nat.add_sub_cancel' howner.le).symm⟩
    have hheld' := (hhold owner' object _).mpr
      ⟨Nat.sub_pos_of_lt howner', (Nat.add_sub_cancel' howner'.le).symm⟩
    rw [hheld] at hheld'
    cases hheld'
    rfl
  · intro move
    have hturns := room.turns_move move
    refine ⟨?_, ?_, ?_⟩
    · intro owner object hevent hold hhold
      rw [hevent] at hturns
      apply hturns.owner_eq hhold
    · intro owner object held hevent
      rw [hevent] at hturns
      apply hturns.held_iff
    · apply hturns.eq_of_not

/-! ### The steps of an agent -/

namespace Agent

variable {σ : Type} {a : Agent σ} {s : AgentState σ} {room : LockRoom} {owner : LockOwner}
  {object : ObjectId} {timeout : Nat} {limited : Bool}

theorem run_tryLock (owner : LockOwner) (object : ObjectId) (s : AgentState σ) :
  (tryLock owner object).run s
    = ((s.registry.locks.attempt owner object).1,
      { s with registry := { s.registry with
        locks := (s.registry.locks.attempt owner object).2 } })
  := rfl

theorem run_lock_of_acquire? {locks : LockTable}
    (h : s.registry.locks.acquire? owner object = some locks) :
  (a.lock owner object timeout).run s
    = (.acquired, { s with registry := { s.registry with locks } })
  := by
  rw [lock, StateT.run_bind, run_tryLock, LockTable.attempt, h]
  rfl

theorem run_lock_of_acquire?_eq_none (h : s.registry.locks.acquire? owner object = none) :
  (a.lock owner object timeout).run s
    = match (a.wait owner object timeout).run s with
      | (.interrupted, t) => (.interrupted, t)
      | (.over, t) => (tryLock owner object).run t
  := by
  rw [lock, StateT.run_bind, run_tryLock, LockTable.attempt, h]
  apply (StateT.run_bind (a.wait owner object timeout) _ s).trans
  cases hwait : (a.wait owner object timeout).run s with
  | mk waitEnd t =>
      cases waitEnd with
      | «over» => rfl
      | interrupted => rfl

/-- When a lock can be had at once, the agent's locking is a single step. -/
theorem lock_eq_ask (hs : s.registry.locks = room.table) {event : LockEvent}
    (hevent : (room.move (.ask owner object limited)).1 = some event) :
  event = .ended owner object ((a.lock owner object timeout).run s).1
    ∧ ((a.lock owner object timeout).run s).2.registry.locks
        = (room.move (.ask owner object limited)).2.table
  := by
  rw [LockRoom.move, LockTable.attempt] at hevent ⊢
  cases hacquire : room.table.acquire? owner object with
  | none =>
      rw [hacquire] at hevent
      cases hevent
  | some locks =>
      rw [hacquire] at hevent
      cases hevent
      rw [← hs] at hacquire
      rw [run_lock_of_acquire? hacquire]
      exact ⟨rfl, rfl⟩

/-- When a lock cannot be had at once, the agent's locking ends with the step of one who wakes up
when the wait is over. -/
theorem lock_eq_wake (hs : s.registry.locks = room.table)
    (hevent : (room.move (.ask owner object limited)).1 = none) {room' : LockRoom} {place : Nat}
    (hroom' : ((a.wait owner object timeout).run s).2.registry.locks = room'.table)
    (hplace : room'.waiters[place]? = some ⟨owner, object, room.epoch, true⟩)
    (hepoch : ((a.wait owner object timeout).run s).1 = .interrupted ↔ room'.epoch ≠ room.epoch) :
  (room'.move (.wake place true)).1
      = some (.ended owner object ((a.lock owner object timeout).run s).1)
    ∧ ((a.lock owner object timeout).run s).2.registry.locks
        = (room'.move (.wake place true)).2.table
  := by
  have hacquire : s.registry.locks.acquire? owner object = none := by
    rw [LockRoom.move, LockTable.attempt, ← hs] at hevent
    cases hacquire : s.registry.locks.acquire? owner object with
    | none => rfl
    | some locks =>
        rw [hacquire] at hevent
        cases hevent
  rw [run_lock_of_acquire?_eq_none hacquire, LockRoom.move, hplace]
  cases hwait : (a.wait owner object timeout).run s with
  | mk waitEnd t =>
      rw [hwait] at hroom' hepoch
      cases waitEnd with
      | interrupted =>
          dsimp only at hroom' hepoch ⊢
          rw [if_pos (hepoch.mp rfl)]
          exact ⟨rfl, hroom'⟩
      | «over» =>
          have hstays : ¬ room'.epoch ≠ room.epoch := by
            rw [← hepoch]
            rintro ⟨⟩
          dsimp only at hroom' ⊢
          rw [if_neg hstays, ← hroom', run_tryLock, LockTable.attempt]
          cases t.registry.locks.acquire? owner object with
          | none => exact ⟨rfl, hroom'⟩
          | some locks => exact ⟨rfl, rfl⟩

/-- The agent's unlocking is a single step. -/
theorem unlock_eq_move (hs : s.registry.locks = room.table) :
  (room.move (.unlock owner object)).1
      = some (.unlocked owner object (((unlock owner object).run s).1))
    ∧ ((unlock owner object).run s).2.registry.locks = (room.move (.unlock owner object)).2.table
  := by
  cases room
  cases hs
  exact ⟨rfl, rfl⟩

end Agent

end MibAgent
