import MibAgent.Agent.Registration
import MibAgent.Proofs.Entries
import MibAgent.Proofs.Invariants

/-!
# The registrations in a store

Whatever is registered, unregistered and narrowed, the registrations of each context stay in
order. This is shown for one change, and so for any number of changes. What the searches in a
partition rely on follows. An agent changes its registrations in no other way.
-/

namespace MibAgent

/-! ### Changes -/

namespace Store

/-- A change of the registrations. -/
inductive Change where
  | register (e : Entry)
  | unregister (declared : ContextScope) (object : ObjectId)
  | narrow (c : Context) (object : ObjectId) (taken : Scope)
deriving DecidableEq

/-- The store after a change. A change that is refused, or that finds nothing to change, leaves
the store as it is. -/
def change (s : Store) : Change → Store
  | .register e =>
    match s.register e with
    | .ok changed => changed
    | .error _ => s
  | .unregister declared object =>
    match s.unregister? declared object with
    | some (_, changed) => changed
    | none => s
  | .narrow c object taken =>
    match s.narrow c object taken with
    | .ok (some changed) => changed
    | _ => s

/-- The store after some changes, at the beginning of which nothing was registered. -/
def after (changes : List Change) : Store := changes.foldl change empty

/-- Whether the store comes about by changes from one without registrations. -/
def IsReachable (s : Store) : Prop := ∃ changes, after changes = s

/-- A change that registers nothing but what is allowed. -/
def Change.Complies (allowed : Entry → Prop) : Change → Prop
  | .register e => allowed e
  | .unregister _ _ => True
  | .narrow _ _ _ => True

/-- Whether the store comes about by changes that register nothing but what is allowed. -/
def IsReachableBy (s : Store) (allowed : Entry → Prop) : Prop :=
  ∃ changes, (∀ x ∈ changes, Change.Complies allowed x) ∧ after changes = s

namespace IsReachableBy

variable {s : Store} {allowed : Entry → Prop}

theorem empty :
  Store.empty.IsReachableBy allowed
  := ⟨[], nofun, rfl⟩

theorem change (h : s.IsReachableBy allowed) {x : Change} (hx : x.Complies allowed) :
  (s.change x).IsReachableBy allowed
  := by
  obtain ⟨changes, hchanges, rfl⟩ := h
  use changes ++ [x]
  constructor
  · rw [List.forall_mem_append, List.forall_mem_singleton]
    exact ⟨hchanges, hx⟩
  · rw [after, List.foldl_append]
    rfl

theorem isReachable (h : s.IsReachableBy allowed) :
  s.IsReachable
  := by
  obtain ⟨changes, -, hafter⟩ := h
  exact ⟨changes, hafter⟩

end IsReachableBy

/-! ### Stores stay in order -/

namespace IsOrderly

variable {s : Store}

/-- Nothing is in the way of a registration that does not overlap another one in its context. -/
theorem disjoint_of_conflict? (h : s.IsOrderly) {scope : ContextScope}
    (hconflict : s.conflict? scope = none) :
  ∀ e ∈ (s.partition scope.context).toList, e.scope.scope.overlaps scope.scope = false
  := by
  rw [h.conflict?_eq, List.find?_eq_none] at hconflict
  intro e he
  obtain ⟨hmem, hcontext⟩ := h.mem_partition_iff.mp he
  have hbeside := hconflict e hmem
  simpa [ContextScope.excludes, hcontext] using hbeside

theorem register (h : s.IsOrderly) {e : Entry} {changed : Store}
    (hregister : s.register e = .ok changed) :
  changed.IsOrderly
  := by
  rw [Store.register] at hregister
  split at hregister
  · cases hregister
  · rename_i hempty
    split at hregister
    · cases hregister
    · rename_i hconflict
      cases hregister
      apply h.withPartition
      apply (h.partition _).place rfl
      · apply Scope.isEmpty_eq_false_iff.mp
        rwa [Bool.not_eq_true] at hempty
      · apply h.disjoint_of_conflict? hconflict

theorem unregister (h : s.IsOrderly) {declared : ContextScope} {object : ObjectId} {e : Entry}
    {changed : Store} (hunregister : s.unregister? declared object = some (e, changed)) :
  changed.IsOrderly
  := by
  obtain ⟨i, -, hremoved⟩ := Option.bind_eq_some_iff.mp hunregister
  obtain ⟨_, -, hchanged⟩ := Option.map_eq_some_iff.mp hremoved
  cases hchanged
  apply h.withPartition
  rw [Array.toList_eraseIdxIfInBounds]
  apply (h.partition _).sublist (List.eraseIdx_sublist _ _)

theorem narrow (h : s.IsOrderly) {c : Context} {object : ObjectId} {taken : Scope}
    {changed : Store} (hnarrow : s.narrow c object taken = .ok (some changed)) :
  changed.IsOrderly
  := by
  have hpart := h.partition c
  rw [Store.narrow] at hnarrow
  split at hnarrow
  · cases hnarrow
  · rename_i i _
    split at hnarrow
    · cases hnarrow
    · rename_i e he
      have hmem : e ∈ (s.partition c).toList := Array.mem_toList_iff.mpr (Array.mem_of_getElem? he)
      cases hrest : e.scope.scope.subtract taken with
      | error fault =>
          rw [hrest] at hnarrow
          cases hnarrow
      | ok rest =>
          rw [hrest] at hnarrow
          cases hnarrow
          obtain ⟨hstart, hinhabited, hfinish⟩ :=
            Scope.subtract_spec (hpart.inhabited e hmem) hrest
          apply h.withPartition
          apply hpart.setIfInBounds he { e with scope := ⟨e.scope.context, rest⟩ } rfl hinhabited
            hstart hfinish

/-- The registrations stay in order whatever is changed. -/
theorem change (h : s.IsOrderly) (x : Change) :
  (s.change x).IsOrderly
  := by
  cases x with
  | register e =>
      rw [Store.change]
      split
      · rename_i hregister
        apply h.register hregister
      · apply h
  | unregister declared object =>
      rw [Store.change]
      split
      · rename_i hunregister
        apply h.unregister hunregister
      · apply h
  | narrow c object taken =>
      rw [Store.change]
      split
      · rename_i hnarrow
        apply h.narrow hnarrow
      · apply h

theorem run (h : s.IsOrderly) (changes : List Change) :
  (changes.foldl Store.change s).IsOrderly
  := by
  induction changes generalizing s with
  | nil => apply h
  | cons x rest ih => apply ih (h.change x)

end IsOrderly

/-- Stores that come about by changes are in order. -/
theorem IsReachable.isOrderly {s : Store} (h : s.IsReachable) :
  s.IsOrderly
  := by
  obtain ⟨changes, rfl⟩ := h
  apply IsOrderly.empty.run

end Store

/-! ### What searches rely on -/

/-- The registration comes before another one in their order. -/
def Entry.Precedes (a b : Entry) : Prop :=
  Key.order (.registered a.scope) (.registered b.scope) = .lt

instance : DecidableRel Entry.Precedes := fun a b =>
  inferInstanceAs (Decidable (Key.order (.registered a.scope) (.registered b.scope) = .lt))

/-- What the searches in the partition of a context rely on. -/
structure Partition.IsSound (c : Context) (part : Partition) : Prop where
  nonempty : part ≠ #[]
  tagged : ∀ e ∈ part, e.scope.context = c
  inhabited : ∀ e ∈ part, e.scope.scope.isEmpty = false
  ascending : part.toList.Pairwise Entry.Precedes
  disjoint : part.toList.Pairwise fun a b => a.scope.scope.overlaps b.scope.scope = false
  /-- The scopes start in order. -/
  starts : part.toList.Pairwise fun a b => a.scope.scope.start < b.scope.scope.start
  /-- The scopes finish in the same order. -/
  finishes : part.toList.Pairwise fun a b => a.scope.scope.finish < b.scope.scope.finish
  /-- What comes before a window comes before everything else. -/
  searchable : ∀ window : ContextScope, Context.Ties c window.context →
    ∃ before others, part.toList = before ++ others
      ∧ (∀ e ∈ before, Key.order (.registered e.scope) (.window window) = .lt)
      ∧ ∀ e ∈ others, Key.order (.registered e.scope) (.window window) ≠ .lt

theorem Orderly.isSound {c : Context} {part : Partition} (h : Orderly c part.toList)
    (hnonempty : part.toList ≠ []) :
  part.IsSound c
  where
  nonempty := by
    rintro rfl
    apply hnonempty rfl
  tagged e he := h.tagged e (Array.mem_toList_iff.mpr he)
  inhabited e he := Scope.isEmpty_eq_false_iff.mpr (h.inhabited e (Array.mem_toList_iff.mpr he))
  ascending := h.pairwise_order.imp And.left
  disjoint := h.pairwise_order.imp And.right
  starts := h.pairwise_start
  finishes := by
    apply h.separate.imp_of_mem
    intro a b _ hb hab
    apply hab.trans_lt (h.inhabited b hb)
  searchable window hties := by
    refine ⟨_, _, (h.holdsBefore_window hties).split, ?_, ?_⟩
    · intro e he
      apply beq_iff_eq.mp (List.mem_filter.mp he).2
    · intro e he
      have hneg := (List.mem_filter.mp he).2
      rw [Bool.not_eq_true', beq_eq_false_iff_ne] at hneg
      apply hneg

/-- Every partition is one in which searches work. -/
def Store.IsSound (s : Store) : Prop :=
  ∀ c part, s.partitions.get? c = some part → part.IsSound c

theorem Store.IsOrderly.isSound {s : Store} (h : s.IsOrderly) :
  s.IsSound
  := by
  intro c part hpart
  apply (h.orderly c part hpart).isSound (h.nonempty c part hpart)

/-- Whatever registrations are made, withdrawn and narrowed, searches work. -/
theorem Store.isSound_after (changes : List Change) :
  (after changes).IsSound
  := by
  apply IsOrderly.isSound
  apply IsReachable.isOrderly
  use changes

/-! ### Registries -/

/-- The store of registrations has come about by changes. -/
def AgentState.IsReachable {σ : Type} (s : AgentState σ) : Prop := s.registry.store.IsReachable

namespace Agent

open AgentM (Ensures Keeps)

variable {σ : Type} {a : Agent σ} {allowed : Entry → Prop}

/-- A call of the agent that changes its registrations. -/
inductive RegistryCall where
  | register (object : ObjectId) (name : Option Octets)
  | unregister (object : ObjectId) (name : Option Octets)
  | narrow (object : ObjectId) (name : Option Octets) (taken : Scope)
deriving DecidableEq

/-- Carries out a call. -/
def call (a : Agent σ) : RegistryCall → AgentM σ Unit
  | .register object name => discard (a.register object name)
  | .unregister object name => discard (a.unregister object name)
  | .narrow object name taken => discard (narrow object name taken)

/-- Whatever the agent calls while objects are registered does nothing to the registrations but
change them, and objects declare scopes for which they are allowed to be registered. -/
structure IsRegular (a : Agent σ) (allowed : Entry → Prop) : Prop where
  scope : ∀ object, Ensures (·.registry.store.IsReachableBy allowed) (a.object object).scope
    fun scope => ∀ name, allowed ⟨.inContext name scope, object⟩
  contextListener : ∀ l name change,
    Keeps (·.registry.store.IsReachableBy allowed) (a.contextListener l name change)

theorem keeps_registry_bind {I : AgentState σ → Prop} {α : Type} {f : Registry → AgentM σ α}
    (h : ∀ s, I s → I ((f s.registry).run s).2) :
  Keeps I (AgentM.registry >>= f)
  := ⟨h⟩

theorem keeps_announceContext {I : AgentState σ → Prop} {name : Octets} {change : ContextChange}
    (h : ∀ l, Keeps I (a.contextListener l name change)) :
  Keeps I (a.announceContext name change)
  := by
  apply Keeps.bind Keeps.registry
  intro registry
  apply Keeps.forM h

/-- Nothing is done to the registrations when a context is added, unless listeners do it. -/
theorem keeps_addContext {P : Store → Prop} {name : Octets}
    (h : ∀ l, Keeps (P ·.registry.store) (a.contextListener l name .added)) :
  Keeps (P ·.registry.store) (a.addContext name)
  := by
  apply Keeps.bind Keeps.registry
  intro registry
  split
  · apply Keeps.pure
  · apply Keeps.bind ⟨fun _ hs => hs⟩
    intro _
    apply Keeps.bind (keeps_announceContext h)
    intro _
    apply Keeps.pure

/-- A computation goes on with a store that has been changed. -/
theorem isReachableBy_setStore {α : Type} {m : Unit → AgentM σ α} {s : AgentState σ}
    (hs : s.registry.store.IsReachableBy allowed) {x : Store.Change} (hx : x.Complies allowed)
    {store : Store} (hstore : s.registry.store.change x = store)
    (hm : Keeps (·.registry.store.IsReachableBy allowed) (m ())) :
  ((AgentM.setStore store >>= m).run s).2.registry.store.IsReachableBy allowed
  := by
  cases hstore
  apply hm.keeps
  apply hs.change hx

/-- A registration is narrowed by a change of the store. -/
theorem keeps_narrow (object : ObjectId) (name : Option Octets) (taken : Scope) :
  Keeps (σ := σ) (·.registry.store.IsReachableBy allowed) (narrow object name taken)
  := by
  apply keeps_registry_bind
  intro s hs
  split
  · apply hs
  · apply hs
  · rename_i hnarrow
    apply isReachableBy_setStore (x := .narrow (Context.ofName name) object taken) hs trivial
    · rw [Store.change, hnarrow]
    · apply Keeps.pure

namespace IsRegular

variable (h : a.IsRegular allowed)
include h

/-- An object is registered by a change of the store. -/
theorem keeps_register (object : ObjectId) (name : Option Octets) :
  Keeps (·.registry.store.IsReachableBy allowed) (a.register object name)
  := by
  apply Ensures.bind_keeps (h.scope object)
  intro scope hscope
  apply keeps_registry_bind
  intro s hs
  split
  · apply hs
  · rename_i hregister
    apply isReachableBy_setStore (x := .register ⟨.inContext name scope, object⟩) hs (hscope name)
    · rw [Store.change, hregister]
    · split
      · apply Keeps.pure
      · rename_i context _
        have hadd : Keeps (·.registry.store.IsReachableBy allowed) (a.addContext context) :=
          keeps_addContext (P := (·.IsReachableBy allowed)) fun l => h.contextListener l _ _
        apply Keeps.bind hadd.discard
        intro _
        apply Keeps.pure

/-- A registration is removed by a change of the store. -/
theorem keeps_unregister (object : ObjectId) (name : Option Octets) :
  Keeps (·.registry.store.IsReachableBy allowed) (a.unregister object name)
  := by
  apply Ensures.bind_keeps (h.scope object)
  intro scope _
  apply keeps_registry_bind
  intro s hs
  split
  · apply hs
  · rename_i hunregister
    apply isReachableBy_setStore (x := .unregister (.inContext name scope) object) hs trivial
    · rw [Store.change, hunregister]
    · split
      · apply Keeps.pure
      · apply Keeps.bind ⟨fun _ hs => hs⟩
        intro _
        apply Keeps.pure

theorem keeps_call (c : RegistryCall) :
  Keeps (·.registry.store.IsReachableBy allowed) (a.call c)
  := by
  cases c with
  | register object name => apply (h.keeps_register object name).discard
  | unregister object name => apply (h.keeps_unregister object name).discard
  | narrow object name taken => apply (keeps_narrow object name taken).discard

/-- An agent that began without registrations registers by its calls nothing but what is
allowed. -/
theorem isReachableBy_calls (calls : List RegistryCall) {s : AgentState σ}
    (hs : s.registry.store = .empty) :
  ((calls.forM a.call).run s).2.registry.store.IsReachableBy allowed
  := by
  apply (Keeps.forM h.keeps_call calls).keeps s
  rw [hs]
  apply Store.IsReachableBy.empty

/-- Searches work in its registrations then. -/
theorem isSound_calls (calls : List RegistryCall) {s : AgentState σ}
    (hs : s.registry.store = .empty) :
  ((calls.forM a.call).run s).2.registry.store.IsSound
  := (h.isReachableBy_calls calls hs).isReachable.isOrderly.isSound

end IsRegular

end Agent

end MibAgent
