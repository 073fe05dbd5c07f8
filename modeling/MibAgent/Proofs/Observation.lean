import MibAgent.Agent.Processing

/-!
# Observed agents

An agent can be observed while it works. An observed agent does what the agent does, and
whenever it calls an object on behalf of a requester, a note of the call is added to a log that
is kept beside its surroundings. What is noted may depend on the state in which the object is
called. Looking up objects, locking them and checking access are not noted.
-/

namespace MibAgent

variable {σ ε α β : Type}

/-- A call of an object on behalf of a requester, and what the object answered. -/
inductive Call where
  | get (object : ObjectId) (oid : Oid) (result : ReadResult)
  | next (object : ObjectId) (query : Query) (result : NextResult)
  | validate (object : ObjectId) (b : Binding) (result : WriteResult)
  | apply (object : ObjectId) (b : Binding) (result : WriteResult) (stored : Option Value)
  | commit (object : ObjectId) (b : Binding) (result : WriteResult)
  | undo (object : ObjectId) (b : Binding) (stored : Option Value) (result : WriteResult)
  | cleanup (object : ObjectId) (b : Binding)
deriving DecidableEq

/-- The object that is called. -/
def Call.object : Call → ObjectId
  | get object _ _ | next object _ _ | validate object _ _ | apply object _ _ _
  | commit object _ _ | undo object _ _ _ | cleanup object _ => object

/-- Surroundings with a log kept beside them. -/
structure Logged (σ ε : Type) where
  base : σ
  log : List ε

namespace AgentState

/-- The state with a log beside its surroundings. -/
def logged (s : AgentState σ) (log : List ε) : AgentState (Logged σ ε) :=
  { s with surroundings := ⟨s.surroundings, log⟩ }

/-- The state without the log. -/
def unlogged (s : AgentState (Logged σ ε)) : AgentState σ :=
  { s with surroundings := s.surroundings.base }

end AgentState

/-! ### Noting -/

namespace AgentM

/-- A computation after which notes about the state before it and its result are added to the
log. -/
def noted (notes : AgentState σ → α → List ε) (m : AgentM σ α) : AgentM (Logged σ ε) α :=
  fun s =>
    let (x, t) := m.run s.unlogged
    (x, t.logged (s.surroundings.log ++ notes s.unlogged x))

/-- A computation that leaves the log as it is. -/
def unnoted (m : AgentM σ α) : AgentM (Logged σ ε) α := m.noted fun _ _ => []

theorem run_bind (m : AgentM σ α) (f : α → AgentM σ β) (s : AgentState σ) :
  (m >>= f).run s = (f (m.run s).1).run (m.run s).2
  := rfl

end AgentM

/-- Started in the state `s`, `m` gives `x` and leaves the state `t`. So does `m'` when a log is
kept, and it adds `notes` to the log. -/
structure Runs (m : AgentM σ α) (m' : AgentM (Logged σ ε) α) (s : AgentState σ) (x : α)
    (t : AgentState σ) (notes : List ε) : Prop where
  plain : m.run s = (x, t)
  logged : ∀ log, m'.run (s.logged log) = (x, t.logged (log ++ notes))

namespace Runs

theorem pure (x : α) (s : AgentState σ) :
  Runs (ε := ε) (Pure.pure x) (Pure.pure x) s x s []
  := by
  constructor
  · rfl
  · intro log
    rw [List.append_nil]
    rfl

theorem noted {m : AgentM σ α} {s t : AgentState σ} {x : α} (h : m.run s = (x, t))
    (notes : AgentState σ → α → List ε) :
  Runs m (m.noted notes) s x t (notes s x)
  := by
  constructor
  · apply h
  · intro log
    change (let (x, t) := m.run s; (x, t.logged (log ++ notes s x))) = _
    rw [h]

theorem of_noted (m : AgentM σ α) (notes : AgentState σ → α → List ε) (s : AgentState σ) :
  Runs m (m.noted notes) s (m.run s).1 (m.run s).2 (notes s (m.run s).1)
  := noted (m := m) rfl notes

theorem bind {m : AgentM σ α} {m' : AgentM (Logged σ ε) α} {f : α → AgentM σ β}
    {f' : α → AgentM (Logged σ ε) β} {s t u : AgentState σ} {x : α} {y : β} {ns ns' : List ε}
    (h : Runs m m' s x t ns) (h' : Runs (f x) (f' x) t y u ns') :
  Runs (m >>= f) (m' >>= f') s y u (ns ++ ns')
  := by
  constructor
  · rw [AgentM.run_bind, h.plain]
    apply h'.plain
  · intro log
    rw [AgentM.run_bind, h.logged, ← List.append_assoc]
    apply h'.logged

end Runs

/-- `m'` does what `m` does and leaves the log as it is. -/
def Unnoted (m : AgentM σ α) (m' : AgentM (Logged σ ε) α) : Prop :=
  ∀ s, Runs m m' s (m.run s).1 (m.run s).2 []

/-- A computation with one note, followed by another one. -/
theorem Runs.cons {m : AgentM σ α} {m' : AgentM (Logged σ ε) α} {f : α → AgentM σ β}
    {f' : α → AgentM (Logged σ ε) β} {s t u : AgentState σ} {x : α} {y : β} {n : ε}
    {ns : List ε} (h : Runs m m' s x t [n]) (h' : Runs (f x) (f' x) t y u ns) :
  Runs (m >>= f) (m' >>= f') s y u (n :: ns)
  := Runs.bind h h'

/-- Something is done about each member of a list, with one note. -/
theorem Runs.forM_noted (f : β → AgentM σ Unit) (note : β → ε) (l : List β) (s : AgentState σ) :
  Runs (l.forM f) (l.forM fun x => (f x).noted fun _ _ => [note x]) s ()
    ((l.forM f).run s).2 (l.map note)
  := by
  induction l generalizing s with
  | nil => apply Runs.pure
  | cons x rest ih =>
      apply Runs.cons
      · apply Runs.of_noted
      · apply ih

/-- A computation followed by one that has no effect. -/
theorem Runs.bind_pure {m : AgentM σ α} {m' : AgentM (Logged σ ε) α} {f : α → AgentM σ β}
    {f' : α → AgentM (Logged σ ε) β} {s t : AgentState σ} {x : α} {y : β} {ns : List ε}
    (h : Runs m m' s x t ns) (hf : f x = Pure.pure y) (hf' : f' x = Pure.pure y) :
  Runs (m >>= f) (m' >>= f') s y t ns
  := by
  have hpure : Runs (f x) (f' x) t y t [] := by
    rw [hf, hf']
    apply Runs.pure
  have hbind := Runs.bind h hpure
  rw [List.append_nil] at hbind
  apply hbind

/-- A computation that goes unnoted, followed by another one. -/
theorem Runs.unnoted_bind {m : AgentM σ α} {m' : AgentM (Logged σ ε) α} {f : α → AgentM σ β}
    {f' : α → AgentM (Logged σ ε) β} {s t u : AgentState σ} {x : α} {y : β} {ns : List ε}
    (hm : Unnoted m m') (h : m.run s = (x, t)) (h' : Runs (f x) (f' x) t y u ns) :
  Runs (m >>= f) (m' >>= f') s y u ns
  := by
  have hs := hm s
  rw [h] at hs
  apply Runs.bind hs h'

namespace Unnoted

theorem pure (x : α) :
  Unnoted (σ := σ) (ε := ε) (Pure.pure x) (Pure.pure x)
  := Runs.pure x

theorem unnoted (m : AgentM σ α) :
  Unnoted (ε := ε) m m.unnoted
  := by
  intro s
  apply Runs.noted
  rfl

theorem bind {m : AgentM σ α} {m' : AgentM (Logged σ ε) α} {f : α → AgentM σ β}
    {f' : α → AgentM (Logged σ ε) β} (h : Unnoted m m') (h' : ∀ x, Unnoted (f x) (f' x)) :
  Unnoted (m >>= f) (m' >>= f')
  := fun s => Runs.bind (h s) (h' _ _)

/-- A computation that is the same with a log, and leaves it alone. -/
theorem of_run {m : AgentM σ α} {m' : AgentM (Logged σ ε) α}
    (h : ∀ s log, m'.run (s.logged log) = ((m.run s).1, (m.run s).2.logged log)) :
  Unnoted m m'
  := by
  intro s
  constructor
  · rfl
  · intro log
    rw [List.append_nil]
    apply h

theorem registry :
  Unnoted (σ := σ) (ε := ε) AgentM.registry AgentM.registry
  := of_run fun _ _ => rfl

theorem modifyRegistry (f : Registry → Registry) :
  Unnoted (σ := σ) (ε := ε) (AgentM.modifyRegistry f) (AgentM.modifyRegistry f)
  := of_run fun _ _ => rfl

theorem discard {m : AgentM σ α} {m' : AgentM (Logged σ ε) α} (h : Unnoted m m') :
  Unnoted (discard m) (discard m')
  := by
  intro s
  constructor
  · rfl
  · intro log
    change ((), (m'.run (s.logged log)).2) = _
    rw [(h s).logged]
    rfl

theorem forM {f : β → AgentM σ Unit} {f' : β → AgentM (Logged σ ε) Unit}
    (h : ∀ x, Unnoted (f x) (f' x)) (l : List β) :
  Unnoted (l.forM f) (l.forM f')
  := by
  induction l with
  | nil => apply Unnoted.pure
  | cons x rest ih => apply Unnoted.bind (h x) fun _ => ih

end Unnoted

/-! ### Observing -/

section

variable (note : AgentState σ → Call → ε)

/-- The phases of a write, with a note of each call. -/
def Writable.observed (object : ObjectId) (w : Writable σ) : Writable (Logged σ ε) where
  validate context b :=
    (w.validate context b).noted fun s result => [note s (.validate object b result)]
  apply context b stored :=
    (w.apply context b stored).noted fun s result => [note s (.apply object b result.1 result.2)]
  commit context b :=
    (w.commit context b).noted fun s result => [note s (.commit object b result)]
  undo context b stored :=
    (w.undo context b stored).noted fun s result => [note s (.undo object b stored result)]
  cleanup context b := (w.cleanup context b).noted fun s _ => [note s (.cleanup object b)]

/-- A table that leaves the log as it is. -/
def TableObject.unnoted (table : TableObject σ) : TableObject (Logged σ ε) where
  addListener l := (table.addListener l).unnoted
  removeListener l := (table.removeListener l).unnoted

/-- An object with a note of each call that is made on behalf of a requester. -/
def ManagedObject.observed (object : ObjectId) (o : ManagedObject σ) :
    ManagedObject (Logged σ ε) where
  scope := o.scope.unnoted
  get context oid := (o.get context oid).noted fun s result => [note s (.get object oid result)]
  next context query :=
    (o.next context query).noted fun s result => [note s (.next object query result)]
  writable := o.writable.map (Writable.observed note object)
  refresh := o.refresh.map fun update query => (update query).unnoted
  table := o.table.map TableObject.unnoted

/-- An agent that adds a note to the log whenever it calls an object on behalf of a
requester. -/
def Agent.observed (a : Agent σ) : Agent (Logged σ ε) where
  object i := (a.object i).observed note i
  lookupListener l :=
    { considered := fun entry query => ((a.lookupListener l).considered entry query).unnoted
      found := fun entry query => ((a.lookupListener l).found entry query).unnoted }
  contextListener l name change := (a.contextListener l name change).unnoted
  refreshRule := a.refreshRule.map fun rule object query => (rule object query).unnoted
  access check := (a.access check).unnoted
  wait owner object timeout := (a.wait owner object timeout).unnoted
  config := a.config
  searchLimit := a.searchLimit

end

/-- An agent that keeps a log of the calls themselves. -/
def Agent.recorded (a : Agent σ) : Agent (Logged σ Call) := a.observed fun _ call => call

/-- Where the phases of a write are changed object by object, a variable is still written by its
object, and by nothing when that cannot be written. -/
theorem Agent.writer?_cases_of_map {τ : Type} {a : Agent σ} {a' : Agent τ}
    {f : ObjectId → Writable σ → Writable τ}
    (h : ∀ object, (a'.object object).writable = (a.object object).writable.map (f object))
    (v : Variable) :
  a.writer? v = none ∧ a'.writer? v = none
    ∨ ∃ entry w, v.target = some entry ∧ (a.object entry.object).writable = some w
      ∧ a.writer? v = some w ∧ a'.writer? v = some (f entry.object w)
  := by
  rw [writer?, writer?]
  cases htarget : v.target with
  | none =>
      left
      exact ⟨rfl, rfl⟩
  | some entry =>
      rw [Option.bind_some, Option.bind_some, h]
      cases hw : (a.object entry.object).writable with
      | none =>
          left
          exact ⟨rfl, rfl⟩
      | some w =>
          right
          exact ⟨entry, w, rfl, hw, rfl, rfl⟩

/-! ### What goes unnoted -/

namespace Agent

variable (a : Agent σ) (note : AgentState σ → Call → ε)

theorem unnoted_membersOf (audience : Option Nat) :
  Unnoted (σ := σ) (ε := ε) (membersOf audience) (membersOf audience)
  := by
  cases audience with
  | none => apply Unnoted.pure
  | some number => apply Unnoted.bind Unnoted.registry fun _ => Unnoted.pure _

theorem unnoted_refresh (object : ObjectId) (query : Query) :
  Unnoted (a.refresh object query) ((a.observed note).refresh object query)
  := by
  simp only [refresh, observed, ManagedObject.observed]
  cases a.refreshRule with
  | none => apply Unnoted.pure
  | some rule =>
      cases (a.object object).refresh with
      | none => apply Unnoted.pure
      | some update =>
          apply Unnoted.bind (Unnoted.unnoted _)
          intro needed
          cases needed with
          | false => apply Unnoted.pure
          | true => apply Unnoted.unnoted

theorem unnoted_firstAccepted (query : Query) (entries : List Entry) :
  Unnoted (a.firstAccepted { query } entries) ((a.observed note).firstAccepted { query } entries)
  := by
  induction entries with
  | nil => apply Unnoted.pure
  | cons entry rest ih =>
      simp only [firstAccepted]
      apply Unnoted.bind Unnoted.registry
      intro registry
      apply Unnoted.bind (unnoted_membersOf _)
      intro members
      apply Unnoted.bind (Unnoted.forM (fun _ => Unnoted.unnoted _) members)
      intro _
      apply Unnoted.bind (unnoted_refresh a note entry.object query)
      intro _
      apply Unnoted.bind (Unnoted.pure true)
      intro accepted
      cases accepted with
      | false => apply ih
      | true =>
          apply Unnoted.bind (unnoted_membersOf _)
          intro members
          apply Unnoted.bind (Unnoted.forM (fun _ => Unnoted.unnoted _) members)
          intro _
          apply Unnoted.pure

theorem unnoted_find (query : Query) :
  Unnoted (a.find query) ((a.observed note).find query)
  := by
  apply Unnoted.bind Unnoted.registry
  intro registry
  apply unnoted_firstAccepted

theorem unnoted_tryLock (owner : LockOwner) (object : ObjectId) :
  Unnoted (σ := σ) (ε := ε) (tryLock owner object) (tryLock owner object)
  := by
  apply Unnoted.bind Unnoted.registry
  intro registry
  apply Unnoted.bind (Unnoted.modifyRegistry _)
  intro _
  apply Unnoted.pure

theorem unnoted_lockFor (context : RequestContext) (object : ObjectId) :
  Unnoted (a.lockFor context object) ((a.observed note).lockFor context object)
  := by
  have hwait : Unnoted (a.lock context.transaction object a.config.lockTimeout)
      ((a.observed note).lock context.transaction object a.config.lockTimeout) := by
    apply Unnoted.bind (unnoted_tryLock _ _)
    intro outcome
    cases outcome with
    | acquired => apply Unnoted.pure
    | timedOut | interrupted =>
        apply Unnoted.bind (Unnoted.unnoted _)
        intro ending
        cases ending with
        | interrupted => apply Unnoted.pure
        | _ => apply unnoted_tryLock
  apply Unnoted.bind hwait
  intro _
  apply Unnoted.pure

theorem unnoted_unlockFor (context : RequestContext) (object : ObjectId) :
  Unnoted (σ := σ) (ε := ε) (unlockFor context object) (unlockFor context object)
  := by
  apply Unnoted.discard
  apply Unnoted.bind Unnoted.registry
  intro registry
  apply Unnoted.bind (Unnoted.modifyRegistry _)
  intro _
  apply Unnoted.pure

end Agent

end MibAgent
