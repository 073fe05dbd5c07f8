import MibAgent.Proofs.Invariants
import MibAgent.Proofs.Keepers
import MibAgent.Proofs.LockTables
import MibAgent.Proofs.Observation
import Mathlib.Algebra.BigOperators.Group.List.Basic
import Mathlib.Algebra.Order.Group.Multiset

/-!
# The discipline of locking

When a request is carried out, every call of an object is made while the request holds the lock on
the object, and in the end the locks are what they were in the beginning. This is shown computation
by computation: from the objects that the request has locked before a computation follows which it
has locked afterwards.
-/

namespace MibAgent

open AgentM (Keeps)

variable {σ α β : Type}

/-! ### Watching -/

/-- A call of an object, and the locks at that time. -/
structure WatchedCall where
  call : Call
  locks : LockTable

/-- The call was made while someone held the lock on the object. -/
def WatchedCall.IsHeldBy (c : WatchedCall) (owner : LockOwner) : Prop :=
  ∃ n, c.locks.hold? c.call.object = some ⟨owner, n⟩

/-- An agent that keeps a log of the calls and the locks. -/
def Agent.watched (a : Agent σ) : Agent (Logged σ WatchedCall) :=
  a.observed fun s call => ⟨call, s.registry.locks⟩

/-- The phases of a write as they are watched. -/
def Writable.watched (w : Writable σ) (object : ObjectId) : Writable (Logged σ WatchedCall) :=
  w.observed (fun s call => ⟨call, s.registry.locks⟩) object

theorem Agent.watched_writable (a : Agent σ) (object : ObjectId) :
  (a.watched.object object).writable = (a.object object).writable.map (·.watched object)
  := rfl

/-! ### What leaves the locks alone -/

/-- The computation leaves the locks as they are. -/
def AgentM.SparesLocks (m : AgentM σ α) : Prop :=
  ∀ locks, Keeps (fun s => s.registry.locks = locks) m

/-- No phase of a write does anything to the locks. -/
structure Writable.SparesLocks (w : Writable σ) : Prop where
  validate : ∀ context b, (w.validate context b).SparesLocks
  apply : ∀ context b stored, (w.apply context b stored).SparesLocks
  commit : ∀ context b, (w.commit context b).SparesLocks
  undo : ∀ context b stored, (w.undo context b stored).SparesLocks
  cleanup : ∀ context b, (w.cleanup context b).SparesLocks

/-- Nothing that the agent calls does anything to the locks. -/
structure Agent.SparesLocks (a : Agent σ) : Prop where
  access : ∀ check, (a.access check).SparesLocks
  considered : ∀ l entry query, ((a.lookupListener l).considered entry query).SparesLocks
  found : ∀ l entry query, ((a.lookupListener l).found entry query).SparesLocks
  rule : ∀ rule, a.refreshRule = some rule → ∀ object query, (rule object query).SparesLocks
  refresh : ∀ object update, (a.object object).refresh = some update →
    ∀ query, (update query).SparesLocks
  wait : ∀ owner object timeout, (a.wait owner object timeout).SparesLocks
  get : ∀ object context oid, ((a.object object).get context oid).SparesLocks
  next : ∀ object context query, ((a.object object).next context query).SparesLocks
  writable : ∀ object w, (a.object object).writable = some w → w.SparesLocks

theorem Agent.SparesLocks.find {a : Agent σ} (h : a.SparesLocks) (query : Query) :
  (a.find query).SparesLocks
  := by
  intro locks
  have hlookup : a.UpholdsLookup fun s => s.registry.locks = locks :=
    { considered := fun l entry query => h.considered l entry query locks
      found := fun l entry query => h.found l entry query locks
      rule := fun rule hrule object query => h.rule rule hrule object query locks
      refresh := fun object update hupdate query => h.refresh object update hupdate query locks }
  apply hlookup.keeps_find

/-! ### Discipline -/

/-- Started while `owner` has locked the objects `held` in addition to what the table `base`
shows, a computation ends while it has locked other objects, which `Q` relates to the result.
Meanwhile `m'`, which keeps a log, notes only calls made while `owner` holds the lock. -/
structure Disciplined (base : LockTable) (owner : LockOwner) (held : Multiset ObjectId)
    (m : AgentM σ α) (m' : AgentM (Logged σ WatchedCall) α)
    (Q : α → Multiset ObjectId → Prop) : Prop where
  run : ∀ s, s.registry.locks.Exceeds base owner held → ∃ calls held',
    Runs m m' s (m.run s).1 (m.run s).2 calls ∧ (∀ c ∈ calls, c.IsHeldBy owner)
      ∧ Q (m.run s).1 held' ∧ (m.run s).2.registry.locks.Exceeds base owner held'

/-- In the end the same objects are locked as in the beginning. -/
abbrev Restores (base : LockTable) (owner : LockOwner) (held : Multiset ObjectId)
    (m : AgentM σ α) (m' : AgentM (Logged σ WatchedCall) α) : Prop :=
  Disciplined base owner held m m' fun _ held' => held' = held

section

variable {base : LockTable} {owner : LockOwner} {held : Multiset ObjectId}
  {m : AgentM σ α} {m' : AgentM (Logged σ WatchedCall) α}
  {f : α → AgentM σ β} {f' : α → AgentM (Logged σ WatchedCall) β}
  {Q : α → Multiset ObjectId → Prop} {R : β → Multiset ObjectId → Prop}

namespace Disciplined

theorem pure {x : α} (h : Q x held) :
  Disciplined (σ := σ) base owner held (Pure.pure x) (Pure.pure x) Q
  := by
  constructor
  intro s hs
  exact ⟨[], held, Runs.pure x s, List.forall_mem_nil _, h, hs⟩

theorem bind (h : Disciplined base owner held m m' Q)
    (h' : ∀ x held', Q x held' → Disciplined base owner held' (f x) (f' x) R) :
  Disciplined base owner held (m >>= f) (m' >>= f') R
  := by
  constructor
  intro s hs
  obtain ⟨calls, held', hruns, hcalls, hQ, ht⟩ := h.run s hs
  obtain ⟨calls', held'', hruns', hcalls', hR, hu⟩ := (h' _ held' hQ).run _ ht
  use calls ++ calls', held'', hruns.bind hruns'
  constructor
  · intro c hc
    apply (List.mem_append.mp hc).elim (hcalls c) (hcalls' c)
  · exact ⟨hR, hu⟩

theorem mono {Q' : α → Multiset ObjectId → Prop} (h : Disciplined base owner held m m' Q)
    (hQ : ∀ x held', Q x held' → Q' x held') :
  Disciplined base owner held m m' Q'
  := by
  constructor
  intro s hs
  obtain ⟨calls, held', hruns, hcalls, hx, ht⟩ := h.run s hs
  exact ⟨calls, held', hruns, hcalls, hQ _ _ hx, ht⟩

end Disciplined

namespace Restores

theorem pure (x : α) :
  Restores (σ := σ) base owner held (Pure.pure x) (Pure.pure x)
  := Disciplined.pure rfl

theorem bind (h : Restores base owner held m m')
    (h' : ∀ x, Disciplined base owner held (f x) (f' x) R) :
  Disciplined base owner held (m >>= f) (m' >>= f') R
  := by
  apply Disciplined.bind h
  rintro x _ rfl
  apply h'

/-- What goes unnoted and leaves the locks as they are. -/
theorem unnoted (h : Unnoted m m') (hm : m.SparesLocks) :
  Restores base owner held m m'
  := by
  constructor
  intro s hs
  use [], held, h s, List.forall_mem_nil _, rfl
  rw [(hm _).keeps s rfl]
  apply hs

/-- A call of an object that is locked. -/
theorem call (hm : m.SparesLocks) (call : α → Call) {object : ObjectId}
    (hobject : ∀ x, (call x).object = object) (hheld : object ∈ held) :
  Restores base owner held m (m.noted fun s x => [⟨call x, s.registry.locks⟩])
  := by
  constructor
  intro s hs
  let notes (s : AgentState σ) (x : α) : List WatchedCall := [⟨call x, s.registry.locks⟩]
  have hruns : Runs m (m.noted notes) s (m.run s).1 (m.run s).2 (notes s (m.run s).1) := by
    apply Runs.noted
    rfl
  use notes s (m.run s).1, held, hruns
  constructor
  · intro c hc
    rw [List.mem_singleton.mp hc, WatchedCall.IsHeldBy, hobject]
    apply hs.held hheld
  · use rfl
    rw [(hm _).keeps s rfl]
    apply hs

end Restores

end

/-! ### Locking -/

namespace Agent

variable {a : Agent σ} {base : LockTable} {owner : LockOwner} {held : Multiset ObjectId}
  {R : α → Multiset ObjectId → Prop}

theorem disciplined_tryLock (object : ObjectId) :
  Disciplined (σ := σ) base owner held (tryLock owner object) (tryLock owner object)
    fun outcome held' => held' = if outcome.isAcquired then object ::ₘ held else held
  := by
  constructor
  intro s hs
  refine ⟨[], _, unnoted_tryLock owner object s, List.forall_mem_nil _, rfl, ?_⟩
  change (s.registry.locks.attempt owner object).2.Exceeds base owner
    (if (s.registry.locks.attempt owner object).1.isAcquired then object ::ₘ held else held)
  rw [LockTable.attempt]
  cases hacquire : s.registry.locks.acquire? owner object with
  | none => apply hs
  | some locks => apply hs.acquire hacquire

theorem disciplined_unlockFor (hbase : base.IsCounted) (context : RequestContext)
    (object : ObjectId) :
  Disciplined (σ := σ) base context.transaction (object ::ₘ held) (unlockFor context object)
    (unlockFor context object) fun _ held' => held' = held
  := by
  constructor
  intro s hs
  exact ⟨[], held, unnoted_unlockFor context object s, List.forall_mem_nil _, rfl,
    hs.unlock hbase⟩

/-- A computation goes on after an object was unlocked. -/
theorem disciplined_unlockFor_bind (hbase : base.IsCounted) (context : RequestContext)
    {object : ObjectId} {f : Unit → AgentM σ α} {f' : Unit → AgentM (Logged σ WatchedCall) α}
    (h : Disciplined base context.transaction held (f ()) (f' ()) R) :
  Disciplined base context.transaction (object ::ₘ held) (unlockFor context object >>= f)
    (unlockFor context object >>= f') R
  := by
  apply (disciplined_unlockFor hbase context object).bind
  rintro _ _ rfl
  apply h

namespace SparesLocks

variable (h : a.SparesLocks)
include h

theorem disciplined_lock (object : ObjectId) (timeout : Nat) :
  Disciplined base owner held (a.lock owner object timeout) (a.watched.lock owner object timeout)
    fun outcome held' => held' = if outcome.isAcquired then object ::ₘ held else held
  := by
  apply (disciplined_tryLock object).bind
  rintro outcome _ rfl
  cases outcome with
  | acquired =>
      apply Disciplined.pure
      rfl
  | timedOut | interrupted =>
      apply (Restores.unnoted (.unnoted _) (h.wait _ _ _)).bind
      intro ending
      cases ending with
      | interrupted =>
          apply Disciplined.pure
          rfl
      | _ => apply disciplined_tryLock

/-- A computation goes on after an attempt to lock an object, in one way when it succeeded and in
another way when it did not. -/
theorem disciplined_lockFor_bind (context : RequestContext) {object : ObjectId}
    {f : Bool → AgentM σ α} {f' : Bool → AgentM (Logged σ WatchedCall) α}
    (hlocked : Disciplined base context.transaction (object ::ₘ held) (f true) (f' true) R)
    (hrefused : Disciplined base context.transaction held (f false) (f' false) R) :
  Disciplined base context.transaction held (a.lockFor context object >>= f)
    (a.watched.lockFor context object >>= f') R
  := by
  have hlock : Disciplined base context.transaction held (a.lockFor context object)
      (a.watched.lockFor context object)
      fun locked held' => held' = if locked then object ::ₘ held else held := by
    apply (h.disciplined_lock object a.config.lockTimeout).bind
    rintro outcome _ rfl
    apply Disciplined.pure
    rfl
  apply hlock.bind
  rintro locked _ rfl
  cases locked with
  | true => apply hlocked
  | false => apply hrefused

/-! ### Reading -/

theorem restores_access (check : AccessCheck) :
  Restores base owner held (a.access check) (a.watched.access check)
  := Restores.unnoted (.unnoted _) (h.access check)

theorem restores_find (query : Query) :
  Restores base owner held (a.find query) (a.watched.find query)
  := Restores.unnoted (unnoted_find a _ query) (h.find query)

theorem restores_readExact (hbase : base.IsCounted) (context : RequestContext) (v : Variable) :
  Restores base context.transaction held (a.readExact context v) (a.watched.readExact context v)
  := by
  apply (h.restores_access _).bind
  intro granted
  split
  · apply (h.restores_find _).bind
    intro found
    cases found with
    | none => apply Restores.pure
    | some entry =>
        apply h.disciplined_lockFor_bind context
        · apply (Restores.call (h.get _ _ _) (.get _ _) (fun _ => rfl)
            (Multiset.mem_cons_self entry.object held)).bind
          intro result
          apply disciplined_unlockFor_bind hbase context
          split
          · apply Restores.pure
          · apply Restores.pure
        · apply Restores.pure
  · apply Restores.pure

theorem restores_nextStep (context : RequestContext) (query : Query) (result : NextResult) :
  Restores base owner held (a.nextStep context query result)
    (a.watched.nextStep context query result)
  := by
  cases result with
  | endOfView => apply Restores.pure
  | found b =>
      rw [nextStep, nextStep]
      split
      · apply (h.restores_access _).bind
        intro allowed
        split
        · apply Restores.pure
        · apply Restores.pure
      · apply Restores.pure

theorem restores_searchNext (hbase : base.IsCounted) (context : RequestContext) (visits : Nat)
    (query : Query) :
  Restores base context.transaction held (a.searchNext context visits query)
    (a.watched.searchNext context visits query)
  := by
  induction visits generalizing query with
  | zero => apply Restores.pure
  | succ visits ih =>
      apply (h.restores_find query).bind
      intro found
      cases found with
      | none => apply Restores.pure
      | some entry =>
          apply h.disciplined_lockFor_bind context
          -- the object is unlocked before the next one is visited
          · apply (Restores.call (h.next _ _ _) (.next _ _) (fun _ => rfl)
              (Multiset.mem_cons_self entry.object held)).bind
            intro result
            apply disciplined_unlockFor_bind hbase context
            apply (h.restores_nextStep context query result).bind
            intro step
            cases step with
            | answer b => apply Restores.pure
            | restart oid => apply ih
            | moveOn =>
                dsimp only
                split
                · apply Restores.pure
                · apply ih
          · apply Restores.pure

theorem restores_readVariable (hbase : base.IsCounted) (context : RequestContext)
    (v : Variable) :
  Restores base context.transaction held (a.readVariable context v)
    (a.watched.readVariable context v)
  := by
  rw [readVariable, readVariable]
  split
  · apply (h.restores_searchNext hbase context _ _).bind
    intro outcome
    apply Restores.pure
  · apply h.restores_readExact hbase

theorem restores_readFrom (hbase : base.IsCounted) (context : RequestContext)
    (steps position : Nat) (r : Request) :
  Restores base context.transaction held (a.readFrom context steps position r)
    (a.watched.readFrom context steps position r)
  := by
  induction steps generalizing position r with
  | zero => apply Restores.pure
  | succ steps ih =>
      rw [readFrom, readFrom]
      split
      · apply Restores.pure
      · split
        · apply ih
        · apply (h.restores_readVariable hbase context _).bind
          intro v
          apply ih

end SparesLocks

end Agent

/-! ### Writing -/

namespace Variable

/-- The objects that are locked for a variable. -/
def locked (v : Variable) : Multiset ObjectId :=
  if v.stage = .untouched then 0 else v.target.elim 0 ({·.object})

/-- The objects that are locked for variables. -/
def allLocked (vs : List Variable) : Multiset ObjectId := (vs.map locked).sum

theorem allLocked_cons (v : Variable) (rest : List Variable) :
  allLocked (v :: rest) = v.locked + allLocked rest
  := List.sum_cons

theorem locked_of_target {v : Variable} {entry : Entry} (hstage : v.stage ≠ .untouched)
    (htarget : v.target = some entry) :
  v.locked = {entry.object}
  := by
  rw [locked, if_neg hstage, htarget, Option.elim_some]

end Variable

namespace Agent

variable {a : Agent σ} {base : LockTable} {owner : LockOwner} {held : Multiset ObjectId}

/-- A variable is written by its object, and by nothing when that cannot be written. -/
theorem writer?_cases (a : Agent σ) (v : Variable) :
  a.writer? v = none ∧ a.watched.writer? v = none
    ∨ ∃ entry w, v.target = some entry ∧ (a.object entry.object).writable = some w
      ∧ a.writer? v = some w ∧ a.watched.writer? v = some (w.watched entry.object)
  := writer?_cases_of_map a.watched_writable v

namespace SparesLocks

variable (h : a.SparesLocks)
include h

theorem disciplined_offer {object : ObjectId} {w : Writable σ}
    (hw : (a.object object).writable = some w) (hheld : object ∈ held) (context : RequestContext)
    (stage : Bool) (v : Variable) (hstage : v.stage ≠ .untouched) :
  Disciplined base owner held (offer context w stage v) (offer context (w.watched object) stage v)
    fun answer held' => held' = held ∧ answer.2.target = v.target ∧ answer.2.stage ≠ .untouched
  := by
  have hspares := h.writable object w hw
  apply (Restores.call (hspares.validate _ _) (.validate object v.binding) (fun _ => rfl)
    hheld).bind
  intro valid
  split
  · split
    · apply (Restores.call (hspares.apply _ _ _)
        (fun answer => .apply object v.binding answer.1 answer.2) (fun _ => rfl) hheld).bind
      intro applied
      dsimp only
      split
      · apply Disciplined.pure
        exact ⟨rfl, rfl, nofun⟩
      · apply Disciplined.pure
        exact ⟨rfl, rfl, nofun⟩
    · apply Disciplined.pure
      exact ⟨rfl, rfl, nofun⟩
  · apply Disciplined.pure
    exact ⟨rfl, rfl, hstage⟩

/-- Preparing a variable locks an object for it, or none. -/
theorem disciplined_prepare (context : RequestContext) (stage : Bool) {v : Variable}
    (hv : v.stage = .untouched) :
  Disciplined base context.transaction held (a.prepare context stage v)
    (a.watched.prepare context stage v)
    fun answer held' => held' = answer.2.locked + held ∧ (answer.1 → answer.2.stage ≠ .untouched)
  := by
  have hfailed : ∀ v' : Variable, v'.stage = .untouched →
      Disciplined (σ := σ) base context.transaction held (pure (false, v')) (pure (false, v'))
        fun answer held' =>
          held' = answer.2.locked + held ∧ (answer.1 → answer.2.stage ≠ .untouched) := by
    intro v' hv'
    apply Disciplined.pure
    rw [Variable.locked, if_pos hv', zero_add]
    exact ⟨rfl, nofun⟩
  apply (h.restores_access _).bind
  intro granted
  split
  · apply (h.restores_find _).bind
    intro found
    cases found with
    | none =>
        apply hfailed
        apply hv
    | some entry =>
        dsimp only
        rw [watched_writable]
        cases hw : (a.object entry.object).writable with
        | none =>
            apply hfailed
            apply hv
        | some w =>
            apply h.disciplined_lockFor_bind context
            · apply (h.disciplined_offer hw (Multiset.mem_cons_self _ held) context stage
                _ (by nofun)).mono
              rintro ⟨prepared, v'⟩ _ ⟨rfl, htarget, hstage⟩
              rw [Variable.locked_of_target hstage htarget, Multiset.singleton_add]
              exact ⟨rfl, fun _ => hstage⟩
            · apply hfailed
              apply hv
  · apply hfailed
    apply hv

/-- Preparing variables locks their objects. If it succeeds, each has one. -/
theorem disciplined_prepareAll (context : RequestContext) (healthy : Bool) {vs : List Variable}
    (hvs : ∀ v ∈ vs, v.stage = .untouched) :
  Disciplined base context.transaction held (a.prepareAll context healthy vs)
    (a.watched.prepareAll context healthy vs)
    fun answer held' => held' = Variable.allLocked answer.2 + held
      ∧ (answer.1 → healthy ∧ ∀ v ∈ answer.2, v.stage ≠ .untouched)
  := by
  induction vs generalizing healthy held with
  | nil =>
      apply Disciplined.pure
      exact ⟨(zero_add held).symm, fun hhealthy => ⟨hhealthy, List.forall_mem_nil _⟩⟩
  | cons v rest ih =>
      rw [List.forall_mem_cons] at hvs
      apply (h.disciplined_prepare context healthy hvs.1).bind
      rintro ⟨prepared, v'⟩ _ ⟨rfl, hprepared⟩
      apply (ih (healthy && prepared) hvs.2).bind
      rintro ⟨healthy', rest'⟩ _ ⟨rfl, hhealthy'⟩
      apply Disciplined.pure
      constructor
      · rw [Variable.allLocked_cons, add_left_comm, add_assoc]
      · intro hall
        obtain ⟨hboth, hrest'⟩ := hhealthy' hall
        rw [Bool.and_eq_true] at hboth
        use hboth.1
        rw [List.forall_mem_cons]
        exact ⟨hprepared hboth.2, hrest'⟩

theorem disciplined_commitAll (context : RequestContext) {vs : List Variable}
    (hvs : ∀ v ∈ vs, v.stage ≠ .untouched) (hheld : Variable.allLocked vs ≤ held) :
  Disciplined base owner held (a.commitAll context vs) (a.watched.commitAll context vs)
    fun answer held' => held' = held ∧ Variable.allLocked answer.2 = Variable.allLocked vs
  := by
  induction vs with
  | nil =>
      apply Disciplined.pure
      exact ⟨rfl, rfl⟩
  | cons v rest ih =>
      rw [List.forall_mem_cons] at hvs
      rw [Variable.allLocked_cons] at hheld
      -- a commit changes the status of a variable only, not what is locked for it
      have hrest : ∀ v' : Variable, v'.locked = v.locked →
          Disciplined base owner held
            (a.commitAll context rest >>= fun answer => pure (answer.1, v' :: answer.2))
            (a.watched.commitAll context rest >>= fun answer => pure (answer.1, v' :: answer.2))
            fun answer held' =>
              held' = held ∧ Variable.allLocked answer.2 = Variable.allLocked (v :: rest) := by
        intro v' hv'
        apply (ih hvs.2 ((Multiset.le_add_left _ _).trans hheld)).bind
        rintro ⟨committed, rest'⟩ _ ⟨rfl, hrest'⟩
        apply Disciplined.pure
        use rfl
        rw [Variable.allLocked_cons, Variable.allLocked_cons, hv', hrest']
      rw [commitAll, commitAll]
      obtain ⟨hnone, hnone'⟩ | ⟨entry, w, htarget, hw, hsome, hsome'⟩ := writer?_cases a v
      · rw [hnone, hnone']
        apply hrest v rfl
      · rw [hsome, hsome']
        rw [Variable.locked_of_target hvs.1 htarget, Multiset.singleton_add] at hheld
        have hobject := Multiset.mem_of_le hheld (Multiset.mem_cons_self _ _)
        apply (Restores.call ((h.writable entry.object w hw).commit _ _) (.commit _ _)
          (fun _ => rfl) hobject).bind
        intro result
        split
        · apply hrest v.complete rfl
        · apply Disciplined.pure
          exact ⟨rfl, rfl⟩

theorem disciplined_settle (context : RequestContext) (prepared : Bool) {vs : List Variable}
    (hvs : prepared → ∀ v ∈ vs, v.stage ≠ .untouched) (hheld : Variable.allLocked vs ≤ held) :
  Disciplined base owner held (a.settle context prepared vs) (a.watched.settle context prepared vs)
    fun answer held' => held' = held ∧ Variable.allLocked answer.2 = Variable.allLocked vs
  := by
  rw [settle, settle]
  split
  · rename_i hprepared
    apply h.disciplined_commitAll context (hvs hprepared) hheld
  · apply Disciplined.pure
    exact ⟨rfl, rfl⟩

theorem disciplined_undo (context : RequestContext) {v : Variable} (hheld : v.locked ≤ held) :
  Disciplined base owner held (a.undo context v) (a.watched.undo context v)
    fun v' held' => held' = held ∧ v'.locked = v.locked
  := by
  rw [undo, undo]
  split
  · rename_i hstage
    have hlocked : Variable.locked { v with stage := .validated } = v.locked := by
      rw [Variable.locked, Variable.locked, hstage]
      rfl
    obtain ⟨hnone, hnone'⟩ | ⟨entry, w, htarget, hw, hsome, hsome'⟩ :=
      writer?_cases a { v with stage := .validated }
    · dsimp only
      rw [hnone, hnone']
      apply Disciplined.pure
      exact ⟨rfl, hlocked⟩
    · dsimp only
      rw [hsome, hsome']
      have hvalidated : WriteStage.validated ≠ .untouched := by decide
      rw [← hlocked, Variable.locked_of_target hvalidated htarget] at hheld
      apply (Restores.call ((h.writable entry.object w hw).undo _ _ _) (.undo _ _ _) (fun _ => rfl)
        (Multiset.singleton_le.mp hheld)).bind
      intro result
      split
      · apply Disciplined.pure
        exact ⟨rfl, hlocked⟩
      · apply Disciplined.pure
        exact ⟨rfl, hlocked⟩
  · apply Disciplined.pure
    exact ⟨rfl, rfl⟩

theorem disciplined_undoAll (context : RequestContext) {vs : List Variable}
    (hheld : Variable.allLocked vs ≤ held) :
  Disciplined base owner held (a.undoAll context vs) (a.watched.undoAll context vs)
    fun vs' held' => held' = held ∧ Variable.allLocked vs' = Variable.allLocked vs
  := by
  induction vs with
  | nil =>
      apply Disciplined.pure
      exact ⟨rfl, rfl⟩
  | cons v rest ih =>
      rw [Variable.allLocked_cons] at hheld
      apply (ih ((Multiset.le_add_left _ _).trans hheld)).bind
      rintro rest' _ ⟨rfl, hrest⟩
      apply (h.disciplined_undo context ((Multiset.le_add_right _ _).trans hheld)).bind
      rintro v' _ ⟨rfl, hv⟩
      apply Disciplined.pure
      use rfl
      rw [Variable.allLocked_cons, Variable.allLocked_cons, hv, hrest]

theorem restores_cleanup (context : RequestContext) {v : Variable} (hheld : v.locked ≤ held) :
  Restores base owner held (a.cleanup context v) (a.watched.cleanup context v)
  := by
  rw [cleanup, cleanup]
  split
  · rename_i hstage
    have hstage : v.stage ≠ .untouched := by
      intro huntouched
      simp [huntouched] at hstage
    obtain ⟨hnone, hnone'⟩ | ⟨entry, w, htarget, hw, hsome, hsome'⟩ := writer?_cases a v
    · rw [hnone, hnone']
      apply Restores.pure
    · rw [hsome, hsome']
      rw [Variable.locked_of_target hstage htarget] at hheld
      apply Restores.call ((h.writable entry.object w hw).cleanup _ _) (fun _ => .cleanup _ _)
        (fun _ => rfl) (Multiset.singleton_le.mp hheld)
  · apply Restores.pure

/-- Releasing a variable unlocks its object if that was locked for it. -/
theorem disciplined_release (hbase : base.IsCounted) (context : RequestContext) (v : Variable) :
  Disciplined base context.transaction (v.locked + held) (a.release context v)
    (a.watched.release context v) fun _ held' => held' = held
  := by
  rw [release, release]
  cases htarget : v.target with
  | none =>
      apply Disciplined.pure
      rw [Variable.locked, htarget, Option.elim_none, ite_self, zero_add]
  | some entry =>
      apply (h.restores_cleanup context (Multiset.le_add_right _ _)).bind
      intro _
      split
      · rename_i hstage
        apply Disciplined.pure
        rw [Variable.locked, if_pos hstage, zero_add]
      · rename_i hstage
        rw [Variable.locked_of_target hstage htarget, Multiset.singleton_add]
        apply disciplined_unlockFor_bind hbase
        apply Restores.pure

theorem disciplined_releaseAll (hbase : base.IsCounted) (context : RequestContext)
    (vs : List Variable) :
  Disciplined base context.transaction (Variable.allLocked vs + held) (a.releaseAll context vs)
    (a.watched.releaseAll context vs) fun _ held' => held' = held
  := by
  induction vs with
  | nil =>
      apply Disciplined.pure
      apply zero_add
  | cons v rest ih =>
      rw [Variable.allLocked_cons, add_assoc]
      apply (h.disciplined_release hbase context v).bind
      rintro v' _ rfl
      apply ih.bind
      rintro rest' _ rfl
      apply Disciplined.pure
      rfl

theorem restores_write (hbase : base.IsCounted) {r : Request}
    (hr : ∀ v ∈ r.vars, v.stage = .untouched) :
  Restores base r.context.transaction held (a.write r) (a.watched.write r)
  := by
  apply (h.disciplined_prepareAll r.context true fun v hv => hr v (Array.mem_toList_iff.mp hv)).bind
  rintro ⟨prepared, vs⟩ _ ⟨rfl, hprepared⟩
  apply (h.disciplined_settle r.context prepared (fun hp => (hprepared hp).2)
    (Multiset.le_add_right _ _)).bind
  rintro ⟨committed, vs'⟩ _ ⟨rfl, hvs'⟩
  -- neither committing nor undoing changes which objects are locked, so all are released
  have hreleased : ∀ vs'' : List Variable, Variable.allLocked vs'' = Variable.allLocked vs →
      Disciplined base r.context.transaction (Variable.allLocked vs + held)
        (a.releaseAll r.context vs'' >>= fun vs => pure { r with vars := vs.toArray })
        (a.watched.releaseAll r.context vs'' >>= fun vs => pure { r with vars := vs.toArray })
        fun _ held' => held' = held := by
    intro vs'' hvs''
    rw [← hvs'']
    apply (h.disciplined_releaseAll hbase r.context vs'').bind
    rintro released _ rfl
    apply Disciplined.pure
    rfl
  dsimp only
  split
  · apply hreleased vs' hvs'
  · apply (h.disciplined_undoAll r.context (hvs'.le.trans (Multiset.le_add_right _ _))).bind
    rintro vs'' _ ⟨rfl, hvs''⟩
    apply hreleased vs'' (hvs''.trans hvs')

/-- Carrying out a request leaves the locks as they were. -/
theorem restores_perform (hbase : base.IsCounted) {r : Request}
    (hr : ∀ v ∈ r.vars, v.stage = .untouched) :
  Restores base r.context.transaction held (a.perform r) (a.watched.perform r)
  := by
  rw [perform, perform]
  split
  · apply h.restores_write hbase hr
  · apply h.restores_readFrom hbase

end SparesLocks

end Agent

/-! ### Requests -/

theorem Request.stage_create (context : RequestContext) (transaction : Nat) (pdu : Pdu)
    (maxSize : Nat) :
  ∀ v ∈ (create context transaction pdu maxSize).vars, v.stage = .untouched
  := by
  intro v hv
  obtain ⟨i, hi, rfl⟩ := List.mem_mapIdx.mp (List.mem_toArray.mp hv)
  rfl

namespace Agent

/-- Every call of an object for a request is made while the request holds the lock on the object,
and when the request has been carried out, the locks are what they were. -/
theorem perform_locks (a : Agent σ) (h : a.SparesLocks) (context : RequestContext)
    (transaction : Nat) (pdu : Pdu) (maxSize : Nat) (s : AgentState σ)
    (hs : s.registry.locks.IsCounted) :
  let r := Request.create context transaction pdu maxSize
  let done := (a.perform r).run s
  ∃ calls, Runs (a.perform r) (a.watched.perform r) s done.1 done.2 calls
    ∧ (∀ c ∈ calls, c.IsHeldBy transaction) ∧ done.2.registry.locks = s.registry.locks
  := by
  intro r done
  have hr := Request.stage_create context transaction pdu maxSize
  obtain ⟨calls, _, hruns, hcalls, rfl, ht⟩ := (h.restores_perform hs hr).run s (.refl _ _)
  exact ⟨calls, hruns, hcalls, ht.eq_base⟩

end Agent

namespace Keepers

theorem sparesLocks_writable (verdicts : Verdicts) (object : ObjectId) :
  (writable verdicts object).SparesLocks
  where
  validate _ _ _ := Keeps.pure _
  apply context b stored _ := keeps_apply (fun _ _ hs => hs) verdicts object context b stored
  commit _ _ _ := Keeps.pure _
  undo context b stored _ := keeps_undo (fun _ _ hs => hs) verdicts object context b stored
  cleanup _ _ _ := Keeps.pure _

theorem sparesLocks_agent (verdicts : Verdicts) :
  (agent verdicts).SparesLocks
  where
  access _ _ := Keeps.pure _
  considered _ _ _ _ := Keeps.pure _
  found _ _ _ _ := Keeps.pure _
  rule := nofun
  refresh := nofun
  wait _ _ _ _ := Keeps.pure _
  get _ _ _ _ := ⟨fun _ hs => hs⟩
  next _ _ _ _ := Keeps.pure _
  writable := by
    rintro object w ⟨⟩
    apply sparesLocks_writable

/-- The state in which the second keeper is locked by someone. -/
def busy : AgentState Contents where
  __ := ready
  registry := { ready.registry with locks := (LockTable.empty.attempt 9 2).2 }

end Keepers

/-- The pair is written in eight calls of the first keeper, each made under the lock of the
request, and the lock on the second keeper stays. -/
theorem Agent.pair_locks :
  let r := Request.create Keepers.requester 1 Keepers.pair 484
  let done := ((Keepers.agent {}).perform r).run Keepers.busy
  ∃ calls, Runs ((Keepers.agent {}).perform r) ((Keepers.agent {}).watched.perform r) Keepers.busy
      done.1 done.2 calls
    ∧ calls.map (·.call.object) = List.replicate 8 1 ∧ (∀ c ∈ calls, c.IsHeldBy 1)
    ∧ done.2.registry.locks = (LockTable.empty.attempt 9 2).2
  := by
  intro r done
  obtain ⟨calls, hruns, hcalls, hlocks⟩ := perform_locks (Keepers.agent {})
    (Keepers.sparesLocks_agent {}) Keepers.requester 1 Keepers.pair 484 Keepers.busy
    (.attempt .empty 9 2)
  have hlog : (((Keepers.agent {}).watched.perform r).run (Keepers.busy.logged [])).2.surroundings.log
      = calls := by
    rw [hruns.logged]
    rfl
  have hobjects : (((Keepers.agent {}).watched.perform r).run
      (Keepers.busy.logged [])).2.surroundings.log.map (·.call.object) = List.replicate 8 1 := by
    decide +kernel
  rw [hlog] at hobjects
  exact ⟨calls, hruns, hobjects, hcalls, hlocks⟩

end MibAgent
