import MibAgent.Proofs.Conflicts
import MibAgent.Proofs.Differences

/-!
# Withdrawing registrations

An object is unregistered by the scope that it declares, though its registration may have been
narrowed. Narrowing never moves the lower end. So as long as an object declares the same scope, its
registrations start where that scope does, no two of them are in the same context, and the one in a
context is found wherever it stands: exactly, or else by going on from the lower end.
-/

namespace MibAgent

/-- The registration is that of an object in a context. -/
def Entry.IsOf (e : Entry) (object : ObjectId) (c : Context) : Prop :=
  e.object = object ∧ e.scope.context = c

instance (object : ObjectId) (c : Context) : DecidablePred (Entry.IsOf · object c) :=
  fun e => inferInstanceAs (Decidable (e.object = object ∧ e.scope.context = c))

/-! ### The place of an object -/

/-- Registrations that begin before an OID come before all others. -/
theorem Orderly.holdsBefore_oid {c : Context} {entries : List Entry} (h : Orderly c entries)
    (x : Oid) :
  HoldsBefore (fun e => compare e.scope.scope.lower.oid x == .lt) entries
  := by
  apply h.pairwise_start.imp
  intro a b hab hb
  rw [beq_iff_eq, compare_lt_iff_lt] at hb ⊢
  rcases Cut.beside_lt_beside.mp hab with hlt | ⟨heq, -⟩
  · apply hlt.trans hb
  · apply heq.trans_lt hb

namespace Partition

variable {part : Partition} {declared : ContextScope} {object : ObjectId}

/-- What stands where an object is found is a registration of that object. -/
theorem exists_of_position? {i : Nat} (h : part.position? declared object = some i) :
  ∃ e, part[i]? = some e ∧ e.object = object
  := by
  rw [position?] at h
  dsimp only at h
  split at h
  · rename_i hexact
    cases h
    obtain ⟨e, he, hexact⟩ := (Option.any_eq_true _ _).mp hexact
    rw [Bool.and_eq_true, beq_iff_eq] at hexact
    exact ⟨e, he, beq_iff_eq.mp hexact.2⟩
  · obtain ⟨j, hj, rfl⟩ := Option.map_eq_some_iff.mp h
    obtain ⟨hlt, hobject, -⟩ := List.findIdx?_eq_some_iff_getElem.mp hj
    refine ⟨_, ?_, beq_iff_eq.mp hobject⟩
    rw [← List.getElem?_eq_getElem, List.getElem?_drop, Array.getElem?_toList]

/-- An object is found when one of its registrations does not begin before the declared scope. -/
theorem exists_position? {c : Context} (h : Orderly c part.toList) {e : Entry}
    (he : e ∈ part.toList) (hobject : e.object = object)
    (hlower : declared.scope.lower.oid ≤ e.scope.scope.lower.oid) :
  ∃ i, part.position? declared object = some i
  := by
  rw [position?]
  dsimp only
  split
  · exact ⟨_, rfl⟩
  · -- the registration is among those from the lower end on, which are all tried
    rw [drop_front (h.holdsBefore_oid _)]
    have hrest : e ∈ part.toList.filter
        fun e => !compare e.scope.scope.lower.oid declared.scope.lower.oid == .lt := by
      rw [List.mem_filter]
      refine ⟨he, ?_⟩
      rw [Bool.not_eq_true', beq_eq_false_iff_ne, Ne, compare_lt_iff_lt, not_lt]
      apply hlower
    cases hfind : List.findIdx? (fun e : Entry => e.object == object) _ with
    | some j => exact ⟨_, rfl⟩
    | none =>
        apply absurd (List.findIdx?_eq_none_iff.mp hfind e hrest)
        simp [hobject]

end Partition

/-! ### Registrations of one object -/

/-- Where an object has one registration in a context, this one is filtered out. -/
theorem Entry.filter_isOf {object : ObjectId} {c : Context} {e : Entry} {earlier later : List Entry}
    (he : e.IsOf object c) (halone : ∀ d ∈ earlier ++ later, ¬ d.IsOf object c) :
  (earlier ++ e :: later).filter (·.IsOf object c) = [e]
    ∧ (earlier ++ e :: later).filter (fun d => ¬ d.IsOf object c) = earlier ++ later
  := by
  rw [List.forall_mem_append] at halone
  obtain ⟨hearlier, hlater⟩ := halone
  constructor
  · rw [List.filter_append, List.filter_cons_of_pos (by simpa using he),
      List.filter_eq_nil_iff.mpr (by simpa using hearlier),
      List.filter_eq_nil_iff.mpr (by simpa using hlater), List.nil_append]
  · rw [List.filter_append, List.filter_cons_of_neg (by simpa using he),
      List.filter_eq_self.mpr (by simpa using hearlier),
      List.filter_eq_self.mpr (by simpa using hlater)]

/-- The registrations of an object start where a scope does. -/
def Store.StartsAt (s : Store) (object : ObjectId) (scope : Scope) : Prop :=
  ∀ e ∈ s.entries, e.object = object → e.scope.scope.lower = scope.lower

namespace Store.IsOrderly

variable {s : Store} (h : s.IsOrderly)
include h

/-- Of the registrations of a context, no two start at the same place. -/
theorem pairwise_start (c : Context) :
  s.entries.Pairwise fun a b => a.scope.context = c → b.scope.context = c →
    a.scope.scope.start < b.scope.scope.start
  := by
  have hpart := (h.partition c).pairwise_start
  rw [← h.filter_context, List.pairwise_filter] at hpart
  simpa using hpart

/-- Where an object is found in a context, the registration listed is removed. -/
theorem unregister?_cases (declared : ContextScope) (object : ObjectId) :
  (s.unregister? declared object = none
      ∧ ∀ e ∈ s.entries, e.IsOf object declared.context →
        e.scope.scope.lower.oid < declared.scope.lower.oid)
    ∨ ∃ earlier e later changed, s.entries = earlier ++ e :: later
      ∧ e.IsOf object declared.context
      ∧ s.unregister? declared object = some (e, changed)
      ∧ changed.entries = earlier ++ later
  := by
  have hpart := h.partition declared.context
  rw [unregister?]
  cases hposition : (s.partition declared.context).position? declared object with
  | none =>
      left
      use rfl
      rintro e he ⟨hobject, hcontext⟩
      rw [← not_le]
      intro hlower
      have hmem := h.mem_partition_iff.mpr ⟨he, hcontext⟩
      obtain ⟨i, hi⟩ := Partition.exists_position? hpart hmem hobject hlower
      rw [hposition] at hi
      cases hi
  | some i =>
      right
      obtain ⟨e, he, hobject⟩ := Partition.exists_of_position? hposition
      have hcontext := hpart.tagged e (Array.mem_toList_iff.mpr (Array.mem_of_getElem? he))
      obtain ⟨earlier, later, hentries, -, herased, -⟩ := h.exists_split he
      refine ⟨earlier, e, later, _, hentries, ⟨hobject, hcontext⟩, ?_, herased⟩
      rw [Option.bind_some, he]
      rfl

/-- An object whose registrations start at the same place has no two of them in a context. -/
theorem not_isOf_beside {object : ObjectId} {scope : Scope} (hstarts : s.StartsAt object scope)
    {earlier later : List Entry} {e : Entry} (hentries : s.entries = earlier ++ e :: later)
    {c : Context} (he : e.IsOf object c) :
  ∀ d ∈ earlier ++ later, ¬ d.IsOf object c
  := by
  have hpairwise : s.entries.Pairwise fun a b => a.IsOf object c → ¬ b.IsOf object c := by
    apply (h.pairwise_start c).imp_of_mem
    rintro a b ha hb hlt ⟨hobject, hcontext⟩ ⟨hobject', hcontext'⟩
    have hstart := hlt hcontext hcontext'
    rw [Scope.start, Scope.start, hstarts a ha hobject, hstarts b hb hobject'] at hstart
    apply lt_irrefl _ hstart
  rw [hentries, List.pairwise_append, List.pairwise_cons] at hpairwise
  obtain ⟨-, ⟨hlater, -⟩, hearlier⟩ := hpairwise
  intro d hd
  rcases List.mem_append.mp hd with hd | hd
  · intro hown
    apply hearlier d hd e List.mem_cons_self hown he
  · apply hlater d hd he

/-- An object that declares where its registrations start has one in a context at most, and this
one is removed. -/
theorem unregister?_own {object : ObjectId} {scope : Scope} (hstarts : s.StartsAt object scope)
    (c : Context) :
  (s.unregister? ⟨c, scope⟩ object = none ∧ ∀ e ∈ s.entries, ¬ e.IsOf object c)
    ∨ ∃ earlier e later changed, s.entries = earlier ++ e :: later
      ∧ e.IsOf object c ∧ (∀ d ∈ earlier ++ later, ¬ d.IsOf object c)
      ∧ s.unregister? ⟨c, scope⟩ object = some (e, changed)
      ∧ changed.entries = earlier ++ later
  := by
  rcases h.unregister?_cases ⟨c, scope⟩ object with
    ⟨hnone, hbegins⟩ | ⟨earlier, e, later, changed, hentries, hown, hsome, hchanged⟩
  · left
    use hnone
    intro e he hown
    have hlt := hbegins e he hown
    rw [hstarts e he hown.1] at hlt
    apply lt_irrefl _ hlt
  · right
    have halone := h.not_isOf_beside hstarts hentries hown
    exact ⟨earlier, e, later, changed, hentries, hown, halone, hsome, hchanged⟩

end Store.IsOrderly

/-- A registration of the object is for one scope. -/
def Entry.Suits (object : ObjectId) (scope : Scope) (e : Entry) : Prop :=
  e.object = object → e.scope.scope = scope

namespace Store

variable {s : Store} {object : ObjectId} {scope : Scope}

/-- Whatever is changed, the registrations of the object start where they did. -/
theorem StartsAt.change (hstarts : s.StartsAt object scope) (h : s.IsOrderly) {x : Change}
    (hx : x.Complies (Entry.Suits object scope)) :
  (s.change x).StartsAt object scope
  := by
  cases x with
  | register e =>
      rw [Store.change]
      split
      · rename_i hregister
        obtain ⟨earlier, later, hentries, hchanged⟩ := h.entries_register hregister
        intro d hd hobject
        rw [hchanged, List.perm_middle.mem_iff, List.mem_cons, ← hentries] at hd
        rcases hd with rfl | hd
        · rw [hx hobject]
        · apply hstarts d hd hobject
      · apply hstarts
  | unregister declared other =>
      rw [Store.change]
      rcases h.unregister?_cases declared other with
        ⟨hnone, -⟩ | ⟨earlier, e, later, changed, hentries, -, hsome, hchanged⟩
      · rw [hnone]
        apply hstarts
      · rw [hsome]
        intro d hd
        apply hstarts
        rw [hchanged] at hd
        rw [hentries, List.perm_middle.mem_iff]
        apply List.mem_cons_of_mem _ hd
  | narrow c other taken =>
      rw [Store.change]
      rcases h.narrow_cases c other taken with ⟨hnone, -⟩ | ⟨earlier, e, later, hsplits, hnarrow⟩
      · rw [hnone]
        apply hstarts
      · rcases hnarrow with ⟨fault, -, hnarrow⟩ | ⟨rest, changed, hrest, hnarrow, hchanged⟩
        · rw [hnarrow]
          apply hstarts
        · rw [hnarrow]
          -- what is left of a scope keeps its lower end
          have hlower := (Scope.isDifference_of_subtract hrest).lower
          intro d hd hobject
          rw [hchanged, List.perm_middle.mem_iff, List.mem_cons] at hd
          rcases hd with rfl | hd
          · apply hlower.trans (hstarts e hsplits.mem hobject)
          · apply hstarts d _ hobject
            rw [hsplits.split, List.perm_middle.mem_iff]
            apply List.mem_cons_of_mem _ hd

theorem StartsAt.run (hstarts : s.StartsAt object scope) (h : s.IsOrderly) {changes : List Change}
    (hchanges : ∀ x ∈ changes, x.Complies (Entry.Suits object scope)) :
  (changes.foldl Store.change s).StartsAt object scope
  := by
  induction changes generalizing s with
  | nil => apply hstarts
  | cons x rest ih =>
      rw [List.forall_mem_cons] at hchanges
      apply ih (hstarts.change h hchanges.1) (h.change x) hchanges.2

/-- The registrations of an object that declares one scope start where that scope does. -/
theorem IsReachableBy.startsAt (h : s.IsReachableBy (Entry.Suits object scope)) :
  s.StartsAt object scope
  := by
  obtain ⟨changes, hchanges, rfl⟩ := h
  apply StartsAt.run _ IsOrderly.empty hchanges
  nofun

end Store

/-! ### Unregistering -/

namespace Agent

open AgentM (Keeps)

variable {σ : Type} {a : Agent σ}

/-- A registration that is found is removed. The audience of the object ends when it has none
left. -/
theorem run_unregister {s t : AgentState σ} {object : ObjectId} {scope : Scope}
    (hscope : (a.object object).scope.run s = (scope, t)) (name : Option Octets) :
  (a.unregister object name).run s =
    match t.registry.store.unregister? (.inContext name scope) object with
    | none => (none, t)
    | some (e, store) =>
      let audiences := if store.hasObject object then t.registry.audiences
        else t.registry.audiences.dismiss object
      (some e, { t with registry := { t.registry with store, audiences } })
  := by
  rw [unregister, AgentM.run_bind, hscope, AgentM.run_bind]
  change StateT.run (match t.registry.store.unregister? (.inContext name scope) object with
    | none => _
    | some (e, store) => AgentM.setStore store >>= fun _ =>
        if store.hasObject object then _ else _) t = _
  split
  · rfl
  · rename_i e store _
    cases store.hasObject object with
    | true => rfl
    | false => rfl

/-- The object declares one scope whenever it is asked, and does nothing to the registrations
then. -/
structure Declares (a : Agent σ) (object : ObjectId) (scope : Scope) : Prop where
  answers : ∀ s, ((a.object object).scope.run s).1 = scope
  spares : ∀ s, ((a.object object).scope.run s).2.registry.store = s.registry.store

namespace Declares

variable {object : ObjectId} {scope : Scope} (h : a.Declares object scope)
include h

theorem run_scope (s : AgentState σ) :
  ∃ t, (a.object object).scope.run s = (scope, t) ∧ t.registry.store = s.registry.store
  := ⟨_, Prod.ext (h.answers s) rfl, h.spares s⟩

/-- A registration is made in the store, as long as the listeners of contexts do nothing to it. -/
theorem store_register {s u : AgentState σ} {name : Option Octets}
    (hquiet : ∀ listener context store,
      Keeps (·.registry.store = store) (a.contextListener listener context .added))
    (hregister : (a.register object name).run s = (.ok (), u)) :
  s.registry.store.register ⟨.inContext name scope, object⟩ = .ok u.registry.store
  := by
  obtain ⟨t, hscope, ht⟩ := h.run_scope s
  rw [run_register hscope, ht] at hregister
  split at hregister
  · cases hregister
  · rename_i store hstore
    obtain ⟨-, hu⟩ := Prod.mk.inj hregister
    rw [hstore, ← hu]
    congr 1
    cases (ContextScope.inContext name scope).context with
    | none => rfl
    | some context =>
        have hkeeps : Keeps (·.registry.store = store) (a.addContext context) :=
          keeps_addContext (P := (· = store)) fun listener => hquiet listener context store
        exact (hkeeps.keeps _ rfl).symm

/-- The registrations of the object in a context are what is found when it is to be unregistered.
The others are left. -/
theorem unregister_own {s : AgentState σ}
    (hs : s.registry.store.IsReachableBy (Entry.Suits object scope)) (name : Option Octets) :
  let c := Context.ofName name
  let entries := s.registry.store.entries
  let found := ((a.unregister object name).run s).1
  let final := ((a.unregister object name).run s).2
  entries.filter (·.IsOf object c) = found.toList
    ∧ final.registry.store.entries = entries.filter fun e => ¬ e.IsOf object c
  := by
  intro c entries found final
  obtain ⟨t, hscope, ht⟩ := h.run_scope s
  have hrun : (found, final) = _ := run_unregister hscope name
  rw [ht] at hrun
  rcases hs.isReachable.isOrderly.unregister?_own hs.startsAt c with
    ⟨hnone, hothers⟩ | ⟨earlier, e, later, changed, hentries, hown, halone, hsome, hchanged⟩
  · rw [ContextScope.inContext, hnone] at hrun
    obtain ⟨hfound, hfinal⟩ := Prod.mk.inj hrun
    rw [hfound, hfinal, ht]
    constructor
    · apply List.filter_eq_nil_iff.mpr (by simpa using hothers)
    · symm
      apply List.filter_eq_self.mpr (by simpa using hothers)
  · rw [ContextScope.inContext, hsome] at hrun
    obtain ⟨hfound, hfinal⟩ := Prod.mk.inj hrun
    obtain ⟨hfilter, hrest⟩ := Entry.filter_isOf hown halone
    rw [← hentries] at hfilter hrest
    rw [hfound, hfinal]
    use hfilter
    apply hchanged.trans hrest.symm

end Declares

/-- An object that always declares one scope has one registration in a context at most, whatever is
registered, unregistered and narrowed. Unregistering the object finds this one, as it has become,
when there is one, removes it, and leaves the others as they are. So it takes back what registering
did, unless the listeners of contexts act on the registrations. -/
theorem unregister_finds {object : ObjectId} {scope : Scope} (h : a.Declares object scope)
    {s : AgentState σ} (hs : s.registry.store.IsReachableBy (Entry.Suits object scope))
    (name : Option Octets) :
  let c := Context.ofName name
  let entries := s.registry.store.entries
  let found := ((a.unregister object name).run s).1
  let final := ((a.unregister object name).run s).2
  (entries.filter (·.IsOf object c)).length ≤ 1
    ∧ (∀ e, found = some e ↔ e ∈ entries ∧ e.IsOf object c)
    ∧ final.registry.store.entries = (entries.filter fun e => ¬ e.IsOf object c)
    ∧ ∀ u, (a.register object name).run s = (.ok (), u) →
      (∀ listener context store,
        Keeps (·.registry.store = store) (a.contextListener listener context .added)) →
      ((a.unregister object name).run u).1 = some ⟨.inContext name scope, object⟩
        ∧ ((a.unregister object name).run u).2.registry.store.entries = entries
  := by
  intro c entries found final
  obtain ⟨hfound, hfinal⟩ := h.unregister_own hs name
  refine ⟨?_, ?_, hfinal, ?_⟩
  · rw [hfound]
    apply Option.length_toList_le
  · intro e
    rw [← Option.mem_toList, ← hfound]
    simp [entries, c]
  · intro u hregister hquiet
    have hstore := h.store_register hquiet hregister
    obtain ⟨earlier, later, hentries, hchanged⟩ :=
      hs.isReachable.isOrderly.entries_register hstore
    have hu : u.registry.store.IsReachableBy (Entry.Suits object scope) := by
      have hchange := hs.change (x := .register ⟨.inContext name scope, object⟩) fun _ => rfl
      rwa [Store.change, hstore] at hchange
    have hown : Entry.IsOf ⟨.inContext name scope, object⟩ object c := ⟨rfl, rfl⟩
    have halone := hu.isReachable.isOrderly.not_isOf_beside hu.startsAt hchanged hown
    obtain ⟨hfilter, hrest⟩ := Entry.filter_isOf hown halone
    obtain ⟨hfound, hfinal⟩ := h.unregister_own hu name
    rw [hchanged, hfilter] at hfound
    rw [hchanged, hrest] at hfinal
    constructor
    · rw [← Option.mem_toList, ← hfound]
      apply List.mem_singleton_self
    · apply hfinal.trans hentries.symm

/-- Keepers can be registered for the scopes that they declare. -/
theorem isRegular_keepers (number : UInt32) :
  (Keepers.agent {}).IsRegular (Entry.Suits number.toNat (.subtree ⟨[number]⟩))
  where
  scope object := by
    constructor
    intro s hs
    use hs
    rintro name rfl
    change Scope.subtree ⟨[.ofNat number.toNat]⟩ = _
    rw [UInt32.ofNat_toNat]
  contextListener _ _ _ := ⟨fun _ hs => hs⟩

/-- A keeper is unregistered though it was narrowed. Registering it in a named context as well, and
unregistering it there, leaves its registration as it is. -/
theorem narrowed_unregistered :
  let a := Keepers.agent {}
  let calls : List RegistryCall :=
    [.register 1 none, .register 2 none, .narrow 1 none (.startingAt (Keepers.instanceOf 5))]
  let s := ((calls.forM a.call).run Keepers.start).2
  let narrowed : Entry := ⟨⟨none, ⟨⟨⟨[1]⟩, true⟩, some ⟨Keepers.instanceOf 5, false⟩⟩⟩, 1⟩
  let other : Entry := ⟨⟨none, .subtree ⟨[2]⟩⟩, 2⟩
  let u := ((a.register 1 (some [98])).run s).2
  s.registry.store.entries = [narrowed, other]
    ∧ ((a.unregister 1 none).run s).1 = some narrowed
    ∧ ((a.unregister 1 none).run s).2.registry.store.entries = [other]
    ∧ ((a.unregister 1 (some [98])).run u).2.registry.store.entries = [narrowed, other]
  := by
  intro a calls s narrowed other u
  have hdeclares : a.Declares 1 (.subtree ⟨[1]⟩) := ⟨fun _ => rfl, fun _ => rfl⟩
  have hreachable : s.registry.store.IsReachableBy (Entry.Suits 1 (.subtree ⟨[1]⟩)) :=
    (isRegular_keepers 1).isReachableBy_calls calls rfl
  have hentries : s.registry.store.entries = [narrowed, other] := by decide +kernel
  obtain ⟨-, hfound, hfinal, -⟩ := unregister_finds hdeclares hreachable none
  obtain ⟨-, -, -, hrestored⟩ := unregister_finds hdeclares hreachable (some [98])
  rw [hentries] at hfound hfinal hrestored
  refine ⟨hentries, ?_, ?_, ?_⟩
  · rw [hfound]
    decide +kernel
  · rw [hfinal]
    decide +kernel
  · have hregister : ((a.register 1 (some [98])).run s).1 = .ok () := by decide +kernel
    apply (hrestored u (Prod.ext hregister rfl) _).2
    intro _ _ _
    exact ⟨fun _ hs => hs⟩

end Agent

end MibAgent
