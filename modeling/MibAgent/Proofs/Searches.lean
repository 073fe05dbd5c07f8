import MibAgent.Proofs.Invariants
import MibAgent.Proofs.LockTables
import MibAgent.Proofs.Lookup

/-!
# Searching for the next instance

As long as the registrations stay and nothing that the agent calls does away with what the objects
answer by, a search for the next instance depends on three things: the registrations, the answers
of the objects, and what the requester may be given. How such a search can go is described without
the agent, and the search of an agent is shown to go that way. When nobody else holds a lock, no
object is found locked, and the locks stay as they are.
-/

namespace MibAgent

open AgentM (Keeps)
open Agent (NextOutcome NextStep)

variable {σ α β : Type}

/-! ### How a search can go -/

/-- What a search in a context depends on. -/
structure Circumstances where
  store : Store
  context : Context
  /-- The answers that an object can give when it is asked for the first instance in a range. -/
  answers : ObjectId → Scope → NextResult → Prop
  /-- Whether the requester may be given a binding. -/
  allowed : Binding → Bool

namespace Circumstances

/-- The registration that a query for a range finds. -/
def first (c : Circumstances) (range : Scope) : Option Entry :=
  (c.store.candidates ⟨c.context, range⟩ false).head?

/-- What to do after an object has answered. -/
def step (c : Circumstances) (range : Scope) : NextResult → NextStep
  | .endOfView => .moveOn
  | .found b =>
    if range.contains b.oid then if c.allowed b then .answer b else .restart b.oid
    else .moveOn

end Circumstances

/-- How a search in a range that visits at most so many registrations can go. -/
inductive Seeks (c : Circumstances) : (visits : Nat) → Scope → NextOutcome → Prop where
  | unfinished {range : Scope} :
    Seeks c 0 range .unfinished
  | nothing {visits : Nat} {range : Scope} (first : c.first range = none) :
    Seeks c (visits + 1) range .endOfView
  | unavailable {visits : Nat} {range : Scope} {e : Entry} (first : c.first range = some e) :
    Seeks c (visits + 1) range (.unavailable e)
  | found {visits : Nat} {range : Scope} {e : Entry} {r : NextResult} {b : Binding}
    {query : Query} (first : c.first range = some e) (answers : c.answers e.object range r)
    (step : c.step range r = .answer b) (window : query.range = range) :
    Seeks c (visits + 1) range (.found e query b)
  | denied {visits : Nat} {range : Scope} {e : Entry} {r : NextResult} {x : Oid}
    {o : NextOutcome} (first : c.first range = some e) (answers : c.answers e.object range r)
    (step : c.step range r = .restart x) (rest : Seeks c visits (range.restart x) o) :
    Seeks c (visits + 1) range o
  | ended {visits : Nat} {range : Scope} {e : Entry} {r : NextResult} {fault : ScopeFault}
    (first : c.first range = some e) (answers : c.answers e.object range r)
    (step : c.step range r = .moveOn) (past : range.past e.scope.scope = .error fault) :
    Seeks c (visits + 1) range .endOfView
  | passed {visits : Nat} {range beyond : Scope} {e : Entry} {r : NextResult} {o : NextOutcome}
    (first : c.first range = some e) (answers : c.answers e.object range r)
    (step : c.step range r = .moveOn) (past : range.past e.scope.scope = .ok beyond)
    (rest : Seeks c visits beyond o) :
    Seeks c (visits + 1) range o

/-- The search has not come upon a locked object. -/
def Agent.NextOutcome.isAvailable : NextOutcome → Bool
  | .unavailable _ => false
  | _ => true

/-! ### Locks that nobody else holds -/

namespace LockTable

/-- Nobody but the owner holds a lock. -/
structure IsOpenTo (t : LockTable) (owner : LockOwner) : Prop where
  counted : t.IsCounted
  owned : ∀ object hold, t.hold? object = some hold → hold.owner = owner

theorem isOpenTo_empty (owner : LockOwner) :
  LockTable.empty.IsOpenTo owner
  where
  counted := IsCounted.empty
  owned := nofun

namespace IsOpenTo

variable {t : LockTable} {owner : LockOwner}

theorem isSome_share? (h : t.IsOpenTo owner) (object : ObjectId) :
  (t.share? owner object).isSome
  := by
  rw [share?]
  cases hhold : t.hold? object with
  | none => rfl
  | some hold =>
      dsimp only
      rw [if_pos (h.owned object hold hhold)]
      rfl

theorem attempt_fst (h : t.IsOpenTo owner) (object : ObjectId) :
  (t.attempt owner object).1 = .acquired
  := by
  obtain ⟨n, hn⟩ := Option.isSome_iff_exists.mp (h.isSome_share? object)
  rw [LockTable.attempt, acquire?_eq, hn]
  rfl

/-- An object that is locked and unlocked again is locked as often as before. -/
theorem unlock_attempt (h : t.IsOpenTo owner) (object : ObjectId) :
  ((t.attempt owner object).2.unlock owner object).2 = t
  := h.counted.unlock_attempt (h.isSome_share? object)

end IsOpenTo

end LockTable

/-! ### Steady surroundings -/

/-- The registrations are those of a store, and `P` holds of the surroundings. -/
structure AgentState.Stands (P : σ → Prop) (store : Store) (s : AgentState σ) : Prop where
  surroundings : P s.surroundings
  registrations : s.registry.store = store

namespace AgentM

/-- The computation leaves registrations and locks alone and does not do away with `P`. -/
def IsQuiet (P : σ → Prop) (m : AgentM σ α) : Prop :=
  ∀ store locks, Keeps (fun s => s.Stands P store ∧ s.registry.locks = locks) m

/-- Started while the registrations are those of `store`, a computation gives a result with `Q`
and changes no registration. If `free` holds, and the locks are `locks` in the beginning, they are
`locks'` in the end. -/
structure Gives (free : Prop) (P : σ → Prop) (store : Store) (locks : LockTable) (m : AgentM σ α)
    (Q : α → Prop) (locks' : LockTable) : Prop where
  run : ∀ s, s.Stands P store → (free → s.registry.locks = locks) →
    (m.run s).2.Stands P store ∧ (free → (m.run s).2.registry.locks = locks') ∧ Q (m.run s).1

namespace Gives

variable {free : Prop} {P : σ → Prop} {store : Store} {locks locks' locks'' : LockTable}
  {m : AgentM σ α} {f : α → AgentM σ β} {Q : α → Prop} {R : β → Prop}

theorem pure {x : α} (h : Q x) :
  Gives free P store locks (Pure.pure x) Q locks
  := ⟨fun _ hs hlocks => ⟨hs, hlocks, h⟩⟩

theorem bind (h : Gives free P store locks m Q locks')
    (h' : ∀ x, Q x → Gives free P store locks' (f x) R locks'') :
  Gives free P store locks (m >>= f) R locks''
  := by
  constructor
  intro s hs hlocks
  obtain ⟨ht, hlocks', hQ⟩ := h.run s hs hlocks
  apply (h' _ hQ).run _ ht hlocks'

/-- A computation whose result is known, followed by another one. -/
theorem bind_eq {x : α} (h : Gives free P store locks m (· = x) locks')
    (h' : Gives free P store locks' (f x) R locks'') :
  Gives free P store locks (m >>= f) R locks''
  := by
  apply h.bind
  rintro _ rfl
  apply h'

theorem mono {Q' : α → Prop} (h : Gives free P store locks m Q locks')
    (hQ : ∀ x, Q x → Q' x) :
  Gives free P store locks m Q' locks'
  := by
  constructor
  intro s hs hlocks
  obtain ⟨ht, hlocks', hx⟩ := h.run s hs hlocks
  exact ⟨ht, hlocks', hQ _ hx⟩

/-- What is known of the result without the locks, and what is known with them. -/
theorem and {R : α → Prop} (h : Gives False P store locks m Q locks'')
    (h' : Gives free P store locks m R locks') :
  Gives free P store locks m (fun x => Q x ∧ R x) locks'
  := by
  constructor
  intro s hs hlocks
  obtain ⟨-, -, hQ⟩ := h.run s hs False.elim
  obtain ⟨ht, hlocks', hR⟩ := h'.run s hs hlocks
  exact ⟨ht, hlocks', hQ, hR⟩

/-- Without `free` nothing needs to be known of the locks. -/
theorem pure_of_not {x : α} (hfree : ¬ free) (h : Q x) :
  Gives free P store locks (Pure.pure x) Q locks'
  := ⟨fun _ hs _ => ⟨hs, fun hf => absurd hf hfree, h⟩⟩

theorem of_isQuiet (h : IsQuiet P m) (hQ : ∀ s, P s.surroundings → Q (m.run s).1) :
  Gives free P store locks m Q locks
  := by
  constructor
  intro s hs hlocks
  obtain ⟨ht, hsame⟩ := (h store s.registry.locks).keeps s ⟨hs, rfl⟩
  exact ⟨ht, fun hfree => hsame.trans (hlocks hfree), hQ s hs.surroundings⟩

end Gives

/-- A computation that leaves the locks as they are keeps them with the rest. -/
theorem gives_iff_ensures {free : Prop} {P : σ → Prop} {store : Store} {locks : LockTable}
    {m : AgentM σ α} {Q : α → Prop} :
  Gives free P store locks m Q locks
    ↔ Ensures (fun s => s.Stands P store ∧ (free → s.registry.locks = locks)) m Q
  := by
  constructor
  · intro h
    constructor
    rintro s ⟨hs, hlocks⟩
    obtain ⟨ht, hsame, hQ⟩ := h.run s hs hlocks
    exact ⟨⟨ht, hsame⟩, hQ⟩
  · intro h
    constructor
    intro s hs hlocks
    obtain ⟨⟨ht, hsame⟩, hQ⟩ := h.run s ⟨hs, hlocks⟩
    exact ⟨ht, hsame, hQ⟩

end AgentM

open AgentM (IsQuiet Gives)

/-- Nothing that the agent calls in order to read changes the registrations or does away with `P`,
and none of it but waiting has to do with locks. As long as `P` holds, access is granted by a rule
and objects give certain answers when they are asked for the first instance in a window. -/
structure Agent.Reads (a : Agent σ) (P : σ → Prop)
    (answers : ObjectId → ContextScope → NextResult → Prop) (granted : AccessCheck → Bool) :
    Prop where
  considered : ∀ l entry query, IsQuiet P ((a.lookupListener l).considered entry query)
  found : ∀ l entry query, IsQuiet P ((a.lookupListener l).found entry query)
  rule : ∀ rule, a.refreshRule = some rule → ∀ object query, IsQuiet P (rule object query)
  refresh : ∀ object update, (a.object object).refresh = some update →
    ∀ query, IsQuiet P (update query)
  wait : ∀ owner object timeout store, Keeps (·.Stands P store) (a.wait owner object timeout)
  access : ∀ check, IsQuiet P (a.access check)
  grants : ∀ check s, P s.surroundings → ((a.access check).run s).1 = granted check
  next : ∀ object context query, IsQuiet P ((a.object object).next context query)
  responds : ∀ object context query s, P s.surroundings →
    answers object query.window (((a.object object).next context query).run s).1

/-- What the search for a requester depends on. -/
def RequestContext.circumstances (context : RequestContext) (store : Store)
    (answers : ObjectId → ContextScope → NextResult → Prop) (granted : AccessCheck → Bool) :
    Circumstances where
  store
  context := .ofName context.context
  answers object range := answers object ⟨.ofName context.context, range⟩
  allowed b := granted (context.check .read b.oid) && !Agent.isUnspeakable context b.value

namespace Agent

variable {a : Agent σ} {P : σ → Prop} {answers : ObjectId → ContextScope → NextResult → Prop}
  {granted : AccessCheck → Bool} {free : Prop} {store : Store} {locks : LockTable}

/-- What a query without a test finds is the first of its candidates. -/
theorem find_eq_head? (query : Query) (s : AgentState σ) :
  ((a.find query).run s).1 = (s.registry.store.candidates query.window false).head?
  := by
  change ((a.firstAccepted { query } _).run s).1 = _
  let search : Search (AgentM σ) ObjectId := { query }
  have haccepts : search.Answers fun _ => true := fun _ _ => rfl
  rw [firstAccepted_eq_find? a search haccepts]
  cases s.registry.store.candidates query.window false with
  | nil => rfl
  | cons e rest => rfl

/-- An object that has been locked is unlocked again. -/
theorem gives_unlockFor (context : RequestContext) (object : ObjectId)
    (hrestores : free → ((locks.attempt context.transaction object).2.unlock context.transaction
      object).2 = locks) :
  Gives (σ := σ) free P store (locks.attempt context.transaction object).2
    (unlockFor context object) (fun _ => True) locks
  := by
  constructor
  intro s hs hlocks
  refine ⟨⟨hs.surroundings, hs.registrations⟩, ?_, trivial⟩
  intro hfree
  rw [← hrestores hfree, ← hlocks hfree]
  rfl

namespace Reads

variable (h : a.Reads P answers granted)
include h

theorem gives_find (query : Query) :
  Gives free P store locks (a.find query) (· = (store.candidates query.window false).head?) locks
  := by
  constructor
  intro s hs hlocks
  have hlookup : a.UpholdsLookup fun t => t.Stands P store ∧ t.registry.locks = s.registry.locks :=
    { considered := fun l entry query => h.considered l entry query store _
      found := fun l entry query => h.found l entry query store _
      rule := fun rule hrule object query => h.rule rule hrule object query store _
      refresh := fun object update hupdate query =>
        h.refresh object update hupdate query store _ }
  obtain ⟨ht, hsame⟩ := (hlookup.keeps_find query).keeps s ⟨hs, rfl⟩
  rw [find_eq_head?, hs.registrations]
  exact ⟨ht, fun hfree => hsame.trans (hlocks hfree), rfl⟩

theorem gives_access (check : AccessCheck) :
  Gives free P store locks (a.access check) (· = granted check) locks
  := Gives.of_isQuiet (h.access check) (h.grants check)

theorem keeps_lockFor (context : RequestContext) (object : ObjectId) :
  Keeps (·.Stands P store) (a.lockFor context object)
  := by
  apply Agent.keeps_lockFor
  · intro s locks hs
    exact ⟨hs.surroundings, hs.registrations⟩
  · intro owner object timeout
    apply h.wait

/-- An object is locked unless someone else may hold a lock. -/
theorem gives_lockFor (context : RequestContext) (object : ObjectId)
    (hopen : free → locks.IsOpenTo context.transaction) :
  Gives free P store locks (a.lockFor context object) (fun locked => free → locked = true)
    (locks.attempt context.transaction object).2
  := by
  constructor
  intro s hs hlocks
  use (h.keeps_lockFor context object).keeps s hs
  rw [← forall_and]
  intro hfree
  have hacquired := (hopen hfree).attempt_fst object
  let locked : AgentState σ := { s with
    registry := { s.registry with locks := (locks.attempt context.transaction object).2 } }
  have hattempt : (tryLock context.transaction object).run s = (.acquired, locked) := by
    rw [← hacquired]
    simp only [locked, ← hlocks hfree]
    rfl
  have hrun : (a.lockFor context object).run s = (true, locked) := by
    simp only [lockFor, lock, AgentM.run_bind]
    rw [hattempt]
    rfl
  rw [hrun]
  exact ⟨rfl, rfl⟩

/-- After an object has answered, the agent does as the circumstances require. -/
theorem gives_nextStep (context : RequestContext) (query : Query) (r : NextResult) :
  Gives free P store locks (a.nextStep context query r)
    (· = (context.circumstances store answers granted).step query.range r) locks
  := by
  cases r with
  | endOfView =>
      apply Gives.pure
      rfl
  | found b =>
      simp only [nextStep, Circumstances.step]
      cases query.range.contains b.oid with
      | false =>
          apply Gives.pure
          rfl
      | true =>
          apply (h.gives_access _).bind_eq
          change Gives free P store locks _ (· = if granted (context.check .read b.oid)
            && !isUnspeakable context b.value then NextStep.answer b else .restart b.oid) locks
          cases granted (context.check .read b.oid) && !isUnspeakable context b.value with
          | true =>
              apply Gives.pure
              rfl
          | false =>
              apply Gives.pure
              rfl

/-- The search of an agent is one that the circumstances allow. It does not come upon a locked
object when nobody else holds a lock. -/
theorem gives_searchNext (context : RequestContext)
    (hopen : free → locks.IsOpenTo context.transaction) (visits : Nat) (query : Query)
    (hcontext : query.window.context = .ofName context.context) :
  Gives free P store locks (a.searchNext context visits query)
    (fun o => Seeks (context.circumstances store answers granted) visits query.range o
      ∧ (free → o.isAvailable)) locks
  := by
  induction visits generalizing query with
  | zero =>
      apply Gives.pure
      exact ⟨.unfinished, fun _ => rfl⟩
  | succ visits ih =>
      apply (h.gives_find query).bind_eq
      have hfirst : (store.candidates query.window false).head?
          = (context.circumstances store answers granted).first query.range := by
        rw [Circumstances.first, RequestContext.circumstances, ← hcontext]
        rfl
      cases hcandidate : (store.candidates query.window false).head? with
      | none =>
          rw [hfirst] at hcandidate
          apply Gives.pure
          exact ⟨.nothing hcandidate, fun _ => rfl⟩
      | some e =>
          rw [hfirst] at hcandidate
          apply (h.gives_lockFor context e.object hopen).bind
          intro locked hlocked
          cases locked with
          | false =>
              have hfree : ¬ free := fun hfree => Bool.false_ne_true (hlocked hfree)
              apply Gives.pure_of_not hfree
              exact ⟨.unavailable hcandidate, fun hf => absurd hf hfree⟩
          | true =>
              apply (Gives.of_isQuiet (h.next e.object context query)
                (h.responds e.object context query)).bind
              intro r hr
              apply (gives_unlockFor context e.object
                fun hfree => (hopen hfree).unlock_attempt e.object).bind
              intro _ _
              have hanswers : (context.circumstances store answers granted).answers e.object
                  query.range r := by
                rw [RequestContext.circumstances, ← hcontext]
                apply hr
              apply (h.gives_nextStep context query r).bind_eq
              cases hstep : (context.circumstances store answers granted).step query.range r with
              | answer b =>
                  apply Gives.pure
                  exact ⟨.found hcandidate hanswers hstep rfl, fun _ => rfl⟩
              | restart x =>
                  apply (ih (query.restart x) hcontext).mono
                  rintro o ⟨ho, havailable⟩
                  exact ⟨.denied hcandidate hanswers hstep ho, havailable⟩
              | moveOn =>
                  dsimp only
                  rw [Query.past]
                  cases hpast : query.range.past e.scope.scope with
                  | error fault =>
                      apply Gives.pure
                      exact ⟨.ended hcandidate hanswers hstep hpast, fun _ => rfl⟩
                  | ok beyond =>
                      apply (ih { query with window := { query.window with scope := beyond } }
                        hcontext).mono
                      rintro o ⟨ho, havailable⟩
                      exact ⟨.passed hcandidate hanswers hstep hpast ho, havailable⟩

end Reads

end Agent

end MibAgent
