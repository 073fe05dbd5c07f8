import MibAgent.Agent.Processing

/-!
# Invariants

What holds of the state of an agent keeps holding while the agent writes, when nothing that the
agent calls does away with it: neither the objects, nor the listeners, nor the rules of access
and of refreshing, nor those who wait for a lock, nor a change of locks.
-/

namespace MibAgent

variable {σ α β : Type}

/-- The computation keeps an invariant. -/
structure AgentM.Keeps (I : AgentState σ → Prop) (m : AgentM σ α) : Prop where
  keeps : ∀ s, I s → I (m.run s).2

namespace AgentM.Keeps

variable {I : AgentState σ → Prop}

theorem pure (x : α) :
  Keeps I (Pure.pure x)
  := ⟨fun _ hs => hs⟩

theorem bind {m : AgentM σ α} {f : α → AgentM σ β} (h : Keeps I m) (h' : ∀ x, Keeps I (f x)) :
  Keeps I (m >>= f)
  := by
  constructor
  intro s hs
  apply (h' _).keeps
  apply h.keeps s hs

theorem registry :
  Keeps I AgentM.registry
  := ⟨fun _ hs => hs⟩

theorem discard {m : AgentM σ α} (h : Keeps I m) :
  Keeps I (discard m)
  := ⟨fun s hs => h.keeps s hs⟩

theorem forM {f : β → AgentM σ Unit} (h : ∀ x, Keeps I (f x)) (l : List β) :
  Keeps I (l.forM f)
  := by
  induction l with
  | nil => apply Keeps.pure
  | cons x rest ih => apply Keeps.bind (h x) fun _ => ih

end AgentM.Keeps

/-- The computation keeps an invariant and gives a result with `Q`. -/
structure AgentM.Ensures (I : AgentState σ → Prop) (m : AgentM σ α) (Q : α → Prop) : Prop where
  run : ∀ s, I s → I (m.run s).2 ∧ Q (m.run s).1

namespace AgentM.Ensures

variable {I : AgentState σ → Prop} {m : AgentM σ α} {f : α → AgentM σ β} {Q : α → Prop}
  {R : β → Prop}

theorem pure {x : α} (h : Q x) :
  Ensures I (Pure.pure x) Q
  := ⟨fun _ hs => ⟨hs, h⟩⟩

theorem bind (h : Ensures I m Q) (h' : ∀ x, Q x → Ensures I (f x) R) :
  Ensures I (m >>= f) R
  := by
  constructor
  intro s hs
  obtain ⟨ht, hQ⟩ := h.run s hs
  apply (h' _ hQ).run _ ht

theorem keeps (h : Ensures I m Q) :
  Keeps I m
  := ⟨fun s hs => (h.run s hs).1⟩

theorem bind_keeps (h : Ensures I m Q) (h' : ∀ x, Q x → Keeps I (f x)) :
  Keeps I (m >>= f)
  := by
  constructor
  intro s hs
  obtain ⟨ht, hQ⟩ := h.run s hs
  apply (h' _ hQ).keeps _ ht

theorem mono {Q' : α → Prop} (h : Ensures I m Q) (hQ : ∀ x, Q x → Q' x) :
  Ensures I m Q'
  := by
  constructor
  intro s hs
  obtain ⟨ht, hx⟩ := h.run s hs
  exact ⟨ht, hQ _ hx⟩

theorem of_keeps (h : Keeps I m) (hQ : ∀ s, I s → Q (m.run s).1) :
  Ensures I m Q
  := ⟨fun s hs => ⟨h.keeps s hs, hQ s hs⟩⟩

end AgentM.Ensures

theorem AgentM.Keeps.ensures {I : AgentState σ → Prop} {m : AgentM σ α} (h : Keeps I m) :
  Ensures I m fun _ => True
  := Ensures.of_keeps h fun _ _ => trivial

open AgentM (Keeps)

/-- Everything that the agent calls in order to look something up keeps an invariant. -/
structure Agent.UpholdsLookup (a : Agent σ) (I : AgentState σ → Prop) : Prop where
  considered : ∀ l entry query, Keeps I ((a.lookupListener l).considered entry query)
  found : ∀ l entry query, Keeps I ((a.lookupListener l).found entry query)
  rule : ∀ rule, a.refreshRule = some rule → ∀ object query, Keeps I (rule object query)
  refresh : ∀ object update, (a.object object).refresh = some update →
    ∀ query, Keeps I (update query)

/-- Everything that the agent calls in order to write keeps an invariant. -/
structure Agent.Upholds (a : Agent σ) (I : AgentState σ → Prop) : Prop
    extends a.UpholdsLookup I where
  locks : ∀ s locks, I s → I { s with registry := { s.registry with locks } }
  access : ∀ check, Keeps I (a.access check)
  wait : ∀ owner object timeout, Keeps I (a.wait owner object timeout)
  validate : ∀ object w, (a.object object).writable = some w →
    ∀ context b, Keeps I (w.validate context b)
  apply : ∀ object w, (a.object object).writable = some w →
    ∀ context b stored, Keeps I (w.apply context b stored)
  commit : ∀ object w, (a.object object).writable = some w →
    ∀ context b, Keeps I (w.commit context b)
  undo : ∀ object w, (a.object object).writable = some w →
    ∀ context b stored, Keeps I (w.undo context b stored)
  cleanup : ∀ object w, (a.object object).writable = some w →
    ∀ context b, Keeps I (w.cleanup context b)

namespace Agent

variable {a : Agent σ} {I : AgentState σ → Prop}

theorem keeps_membersOf (audience : Option Nat) :
  Keeps I (membersOf audience)
  := by
  cases audience with
  | none => apply Keeps.pure
  | some number => apply Keeps.bind Keeps.registry fun _ => Keeps.pure _

theorem writer?_eq_some {v : Variable} {w : Writable σ} (h : a.writer? v = some w) :
  ∃ object, (a.object object).writable = some w
  := by
  obtain ⟨target, _, hw⟩ := Option.bind_eq_some_iff.mp h
  exact ⟨target.object, hw⟩

/-! ### Lookup -/

namespace UpholdsLookup

variable (h : a.UpholdsLookup I)
include h

theorem keeps_refresh (object : ObjectId) (query : Query) :
  Keeps I (a.refresh object query)
  := by
  rw [Agent.refresh]
  split
  · rename_i rule update hrule hupdate
    apply Keeps.bind (h.rule rule hrule object query)
    intro needed
    cases needed with
    | false => apply Keeps.pure
    | true => apply h.refresh object update hupdate
  · apply Keeps.pure

theorem keeps_firstAccepted (query : Query) (entries : List Entry) :
  Keeps I (a.firstAccepted { query } entries)
  := by
  induction entries with
  | nil => apply Keeps.pure
  | cons entry rest ih =>
      apply Keeps.bind Keeps.registry
      intro registry
      apply Keeps.bind (keeps_membersOf _)
      intro members
      apply Keeps.bind (Keeps.forM (fun l => h.considered l _ _) members)
      intro _
      apply Keeps.bind (h.keeps_refresh entry.object query)
      intro _
      apply Keeps.bind (Keeps.pure true)
      intro accepted
      cases accepted with
      | false => apply ih
      | true =>
          apply Keeps.bind (keeps_membersOf _)
          intro members
          apply Keeps.bind (Keeps.forM (fun l => h.found l _ _) members)
          intro _
          apply Keeps.pure

theorem keeps_find (query : Query) :
  Keeps I (a.find query)
  := by
  apply Keeps.bind Keeps.registry
  intro registry
  apply h.keeps_firstAccepted

end UpholdsLookup

/-! ### Locking -/

section

variable (hlocks : ∀ s locks, I s → I { s with registry := { s.registry with locks } })
include hlocks

theorem keeps_setLocks (locks : LockTable) :
  Keeps I (AgentM.modifyRegistry ({ · with locks }))
  := ⟨fun s hs => hlocks s locks hs⟩

theorem keeps_tryLock (owner : LockOwner) (object : ObjectId) :
  Keeps I (tryLock owner object)
  := by
  apply Keeps.bind Keeps.registry
  intro registry
  apply Keeps.bind (keeps_setLocks hlocks _)
  intro _
  apply Keeps.pure

/-- An attempt to lock an object keeps what a change of locks and a wait keep. -/
theorem keeps_lockFor (hwait : ∀ owner object timeout, Keeps I (a.wait owner object timeout))
    (context : RequestContext) (object : ObjectId) :
  Keeps I (a.lockFor context object)
  := by
  apply Keeps.bind
  · apply Keeps.bind (keeps_tryLock hlocks _ _)
    intro outcome
    cases outcome with
    | acquired => apply Keeps.pure
    | timedOut | interrupted =>
        apply Keeps.bind (hwait _ _ _)
        intro ending
        cases ending with
        | interrupted => apply Keeps.pure
        | _ => apply keeps_tryLock hlocks
  · intro _
    apply Keeps.pure

theorem keeps_unlockFor (context : RequestContext) (object : ObjectId) :
  Keeps I (unlockFor context object)
  := by
  apply Keeps.discard
  apply Keeps.bind Keeps.registry
  intro registry
  apply Keeps.bind (keeps_setLocks hlocks _)
  intro _
  apply Keeps.pure

end

namespace Upholds

variable (h : a.Upholds I)
include h

/-! ### Writing -/

theorem keeps_offer {object : ObjectId} {w : Writable σ}
    (hwritable : (a.object object).writable = some w) (context : RequestContext) (stage : Bool)
    (v : Variable) :
  Keeps I (offer context w stage v)
  := by
  apply Keeps.bind (h.validate object w hwritable _ _)
  intro valid
  split
  · split
    · apply Keeps.bind (h.apply object w hwritable _ _ _)
      rintro ⟨applied, undo⟩
      dsimp only
      split
      · apply Keeps.pure
      · apply Keeps.pure
    · apply Keeps.pure
  · apply Keeps.pure

theorem keeps_prepare (context : RequestContext) (stage : Bool) (v : Variable) :
  Keeps I (a.prepare context stage v)
  := by
  apply Keeps.bind (h.access _)
  intro granted
  split
  · apply Keeps.bind (h.keeps_find _)
    intro found
    cases found with
    | none => apply Keeps.pure
    | some entry =>
        dsimp only
        split
        · apply Keeps.pure
        · rename_i w hwritable
          apply Keeps.bind (keeps_lockFor h.locks h.wait _ _)
          intro locked
          split
          · apply h.keeps_offer hwritable
          · apply Keeps.pure
  · apply Keeps.pure

theorem keeps_prepareAll (context : RequestContext) (healthy : Bool) (vs : List Variable) :
  Keeps I (a.prepareAll context healthy vs)
  := by
  induction vs generalizing healthy with
  | nil => apply Keeps.pure
  | cons v rest ih =>
      apply Keeps.bind (h.keeps_prepare _ _ _)
      intro prepared
      apply Keeps.bind (ih _)
      intro others
      apply Keeps.pure

theorem keeps_commitAll (context : RequestContext) (vs : List Variable) :
  Keeps I (a.commitAll context vs)
  := by
  induction vs with
  | nil => apply Keeps.pure
  | cons v rest ih =>
      rw [commitAll]
      split
      · apply Keeps.bind ih
        intro others
        apply Keeps.pure
      · rename_i w hwriter
        obtain ⟨object, hwritable⟩ := writer?_eq_some hwriter
        apply Keeps.bind (h.commit object w hwritable _ _)
        intro result
        split
        · apply Keeps.bind ih
          intro others
          apply Keeps.pure
        · apply Keeps.pure

theorem keeps_settle (context : RequestContext) (prepared : Bool) (vs : List Variable) :
  Keeps I (a.settle context prepared vs)
  := by
  rw [settle]
  split
  · apply h.keeps_commitAll
  · apply Keeps.pure

theorem keeps_undo (context : RequestContext) (v : Variable) :
  Keeps I (a.undo context v)
  := by
  rw [Agent.undo]
  split
  · dsimp only
    split
    · apply Keeps.pure
    · rename_i w hwriter
      obtain ⟨object, hwritable⟩ := writer?_eq_some hwriter
      apply Keeps.bind (h.undo object w hwritable _ _ _)
      intro result
      split
      · apply Keeps.pure
      · apply Keeps.pure
  · apply Keeps.pure

theorem keeps_undoAll (context : RequestContext) (vs : List Variable) :
  Keeps I (a.undoAll context vs)
  := by
  induction vs with
  | nil => apply Keeps.pure
  | cons v rest ih =>
      apply Keeps.bind ih
      intro others
      apply Keeps.bind (h.keeps_undo context v)
      intro undone
      apply Keeps.pure

theorem keeps_cleanup (context : RequestContext) (v : Variable) :
  Keeps I (a.cleanup context v)
  := by
  rw [Agent.cleanup]
  split
  · split
    · apply Keeps.pure
    · rename_i w hwriter
      obtain ⟨object, hwritable⟩ := writer?_eq_some hwriter
      apply h.cleanup object w hwritable
  · apply Keeps.pure

theorem keeps_release (context : RequestContext) (v : Variable) :
  Keeps I (a.release context v)
  := by
  rw [release]
  split
  · apply Keeps.pure
  · apply Keeps.bind (h.keeps_cleanup context v)
    intro _
    split
    · apply Keeps.pure
    · apply Keeps.bind (keeps_unlockFor h.locks _ _)
      intro _
      apply Keeps.pure

theorem keeps_releaseAll (context : RequestContext) (vs : List Variable) :
  Keeps I (a.releaseAll context vs)
  := by
  induction vs with
  | nil => apply Keeps.pure
  | cons v rest ih =>
      apply Keeps.bind (h.keeps_release context v)
      intro released
      apply Keeps.bind ih
      intro others
      apply Keeps.pure

/-- A write keeps every invariant that is kept by what the agent calls. -/
theorem keeps_write (r : Request) :
  Keeps I (a.write r)
  := by
  apply Keeps.bind (h.keeps_prepareAll _ _ _)
  intro prepared
  apply Keeps.bind (h.keeps_settle _ _ _)
  intro committed
  dsimp only
  split
  · apply Keeps.bind (Keeps.pure _)
    intro undone
    apply Keeps.bind (h.keeps_releaseAll _ _)
    intro released
    apply Keeps.pure
  · apply Keeps.bind (h.keeps_undoAll _ _)
    intro undone
    apply Keeps.bind (h.keeps_releaseAll _ _)
    intro released
    apply Keeps.pure

end Upholds

end Agent

end MibAgent
