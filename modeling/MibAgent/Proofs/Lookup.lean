import MibAgent.Agent.Lookup
import MibAgent.Proofs.Keepers
import MibAgent.Proofs.Observation
import MibAgent.Proofs.Registrations

/-!
# Lookup

A query in a named context sees the registrations of that context and, unless it asks for its
own ones only, those of the default context. The two partitions are searched one by one and what
is found is merged. What a lookup then finds is what a scan of everything the query sees finds
first. Of two registrations of the same OID, one in the named context and one in the default
context, that is the one that begins first, and the named one when they begin together.
-/

namespace MibAgent

/-! ### Lists -/

theorem merge_congr {α : Type} {f g : α → α → Bool} {l r : List α}
    (h : ∀ a ∈ l, ∀ b ∈ r, f a b = g a b) :
  l.merge r f = l.merge r g
  := by
  induction l generalizing r with
  | nil => rw [List.nil_merge, List.nil_merge]
  | cons a rest ih =>
      induction r with
      | nil => rw [List.merge_right, List.merge_right]
      | cons b rest' ih' =>
          have hl := ih fun a' ha' => h a' (List.mem_cons_of_mem a ha')
          have hr := ih' fun a' ha' b' hb' => h a' ha' b' (List.mem_cons_of_mem b hb')
          rw [List.cons_merge_cons, List.cons_merge_cons, hl, hr,
            h a List.mem_cons_self b List.mem_cons_self]

/-- What is found first in an ascending list is the least of what is sought. -/
theorem find?_eq_some_iff_least {α β : Type} [LinearOrder β] {f : α → β} {l : List α}
    (h : l.Pairwise fun a b => f a < f b) {p : α → Bool} {a : α} :
  l.find? p = some a ↔ a ∈ l ∧ p a ∧ ∀ b ∈ l, p b → b = a ∨ f a < f b
  := by
  rw [List.find?_eq_some_iff_append]
  constructor
  · rintro ⟨ha, earlier, later, rfl, hearlier⟩
    use List.mem_append_right _ List.mem_cons_self, ha
    intro b hb hpb
    rw [List.mem_append, List.mem_cons] at hb
    rcases hb with hb | rfl | hb
    · have hneg := hearlier b hb
      rw [hpb] at hneg
      cases hneg
    · left
      rfl
    · right
      apply (List.pairwise_cons.mp (List.pairwise_append.mp h).2.1).1 b hb
  · rintro ⟨hmem, ha, hleast⟩
    use ha
    obtain ⟨earlier, later, rfl⟩ := List.append_of_mem hmem
    use earlier, later, rfl
    intro b hb
    have hlt := (List.pairwise_append.mp h).2.2 b hb a List.mem_cons_self
    rw [Bool.not_eq_true', ← Bool.not_eq_true]
    intro hpb
    rcases hleast b (List.mem_append_left _ hb) hpb with rfl | hgt
    · apply lt_irrefl _ hlt
    · apply lt_asymm hlt hgt

/-! ### What a query sees -/

theorem Entry.precedes_iff {a b : Entry} (h : Context.Ties a.scope.context b.scope.context) :
  a.Precedes b ↔ a.scope.rank < b.scope.rank
  := (ContextScope.order_compares h).eq_lt

namespace Store

/-- The registrations that a query in a context sees. -/
def visible (s : Store) (c : Context) (ownOnly : Bool) : List Entry :=
  match c with
  | none => (s.partition none).toList
  | some _ => (s.partition c).toList ++ if ownOnly then [] else (s.partition none).toList

/-- The registrations that a query sees and that overlap its window. -/
def matching (s : Store) (window : ContextScope) (ownOnly : Bool) : List Entry :=
  (s.visible window.context ownOnly).filter fun e => e.scope.scope.overlaps window.scope

variable {s : Store}

/-- A query sees what is registered in its context or in the default one. -/
theorem context_of_mem_visible (h : s.IsOrderly) {c : Context} {ownOnly : Bool} {e : Entry}
    (he : e ∈ s.visible c ownOnly) :
  e.scope.context = c ∨ e.scope.context = none
  := by
  cases c with
  | none =>
      left
      apply (h.partition none).tagged e he
  | some name =>
      rcases List.mem_append.mp he with he | he
      · left
        apply (h.partition _).tagged e he
      · split at he
        · cases he
        · right
          apply (h.partition none).tagged e he

/-- The contexts of what a query sees tie. -/
theorem ties_of_mem_visible (h : s.IsOrderly) {c : Context} {ownOnly : Bool} {e e' : Entry}
    (he : e ∈ s.visible c ownOnly) (he' : e' ∈ s.visible c ownOnly) :
  Context.Ties e.scope.context e'.scope.context
  := by
  rcases context_of_mem_visible h he with hc | hc
  · rcases context_of_mem_visible h he' with hc' | hc'
    · left
      rw [hc, hc']
    · right
      right
      apply hc'
  · right
    left
    apply hc

end Store

/-! ### Candidates -/

/-- The registrations of a named context and those of the default one are merged in order. -/
theorem Orderly.pairwise_merge {name : Octets} {own shared : List Entry}
    (hown : Orderly (some name) own) (hshared : Orderly none shared) :
  (own.merge shared fun a b => a.scope.order b.scope != .gt).Pairwise
    fun a b => a.scope.rank < b.scope.rank
  := by
  let le (a b : Entry) : Bool := decide (a.scope.rank ≤ b.scope.rank)
  have hmerge : own.merge shared (fun a b => a.scope.order b.scope != .gt)
      = own.merge shared le := by
    apply merge_congr
    intro a _ b hb
    have hcompares := ContextScope.order_compares (a := a.scope) (.inr (.inr (hshared.tagged b hb)))
    rw [Bool.eq_iff_iff, bne_iff_ne, hcompares.ne_gt, decide_eq_true_iff]
  have hle : (own.merge shared le).Pairwise fun a b => le a b = true := by
    apply List.pairwise_merge
    · intro a b c hab hbc
      rw [decide_eq_true_iff] at hab hbc ⊢
      apply hab.trans hbc
    · intro a b
      rw [Bool.or_eq_true, decide_eq_true_iff, decide_eq_true_iff]
      apply le_total
    · apply hown.pairwise_rank.imp
      intro a b hab
      apply decide_eq_true hab.le
    · apply hshared.pairwise_rank.imp
      intro a b hab
      apply decide_eq_true hab.le
  -- ranks tell named contexts from the default one, so no two are the same
  have hne : (own.merge shared le).Pairwise fun a b => a.scope.rank ≠ b.scope.rank := by
    apply ((List.merge_perm_append le).pairwise_iff Ne.symm).mpr
    rw [List.pairwise_append]
    use hown.pairwise_rank.imp ne_of_lt, hshared.pairwise_rank.imp ne_of_lt
    intro a ha b hb hab
    have hnone := congrArg (fun rank => (ofLex (ofLex rank).2).1) hab
    change a.scope.context.isNone = b.scope.context.isNone at hnone
    rw [hown.tagged a ha, hshared.tagged b hb] at hnone
    cases hnone
  rw [hmerge]
  apply (hle.and hne).imp
  rintro a b ⟨hab, hab'⟩
  apply lt_of_le_of_ne (of_decide_eq_true hab) hab'

namespace Store

variable {s : Store}

/-- A query tries what it sees in its window, in order. -/
theorem candidates_spec (h : s.IsOrderly) (window : ContextScope) (ownOnly : Bool) :
  (s.candidates window ownOnly).Perm (s.matching window ownOnly)
    ∧ (s.candidates window ownOnly).Pairwise fun a b => a.scope.rank < b.scope.rank
  := by
  have hown := (h.partition window.context).overlapping_eq window (.inl rfl)
  have hshared := (h.partition none).overlapping_eq window (.inr (.inl rfl))
  obtain ⟨c, scope⟩ := window
  cases c with
  | none =>
      dsimp only [candidates, matching, visible]
      rw [hshared]
      use .refl _
      apply ((h.partition none).sublist List.filter_sublist).pairwise_rank
  | some name =>
      have horderly : ∀ c, Orderly c ((s.partition c).toList.filter fun e =>
          e.scope.scope.overlaps scope) := fun c => (h.partition c).sublist List.filter_sublist
      dsimp only [candidates, matching, visible]
      rw [hown, hshared, List.filter_append]
      cases ownOnly with
      | true => exact ⟨List.merge_perm_append _, (horderly _).pairwise_merge Orderly.nil⟩
      | false => exact ⟨List.merge_perm_append _, (horderly _).pairwise_merge (horderly none)⟩

end Store

/-! ### Searching -/

/-- The test of a search is a predicate: its answer does not depend on what is going on. -/
def Search.Answers {σ : Type} (search : Search (AgentM σ) ObjectId) (accepted : ObjectId → Bool) :
    Prop :=
  ∀ object s, ((search.accepts object).run s).1 = accepted object

namespace Agent

variable {σ : Type} (a : Agent σ) (search : Search (AgentM σ) ObjectId) (ownOnly : Bool)

theorem firstAccepted_eq_find? {accepted : ObjectId → Bool} (h : search.Answers accepted)
    (entries : List Entry) (s : AgentState σ) :
  ((a.firstAccepted search entries).run s).1 = entries.find? (accepted ·.object)
  := by
  induction entries generalizing s with
  | nil => rfl
  | cons entry rest ih =>
      simp only [firstAccepted, AgentM.run_bind, h entry.object, List.find?_cons]
      cases accepted entry.object with
      | true => rfl
      | false => apply ih

/-- What a lookup finds is the first of what the query sees in its window and the test accepts. -/
theorem lookup_eq_some_iff {s : AgentState σ} (h : s.registry.store.IsOrderly)
    (accepted : ObjectId → Bool) (haccepted : search.Answers accepted) {e : Entry} :
  ((a.lookup search ownOnly).run s).1 = some e ↔
    e ∈ s.registry.store.matching search.query.window ownOnly ∧ accepted e.object
      ∧ ∀ e' ∈ s.registry.store.matching search.query.window ownOnly, accepted e'.object →
        e' = e ∨ e.scope.rank < e'.scope.rank
  := by
  obtain ⟨hperm, hascending⟩ := Store.candidates_spec h search.query.window ownOnly
  change ((a.firstAccepted search _).run s).1 = some e ↔ _
  rw [firstAccepted_eq_find? a search haccepted, find?_eq_some_iff_least hascending,
    hperm.mem_iff]
  simp only [hperm.mem_iff]

/-- A lookup scans everything the query sees in its window, in order. It finds the first of it
that the test accepts, and finds nothing only when the test accepts nothing. -/
theorem lookup_finds_first {s : AgentState σ} (h : s.IsReachable) :
  let matching := s.registry.store.matching search.query.window ownOnly
  let found := ((a.lookup search ownOnly).run s).1
  (∃ scanned : List Entry, scanned.Perm matching ∧ scanned.Pairwise Entry.Precedes
      ∧ (a.lookup search ownOnly).run s = (a.firstAccepted search scanned).run s)
    ∧ ∀ accepted, search.Answers accepted →
      (∀ e, found = some e ↔ e ∈ matching ∧ accepted e.object
        ∧ ∀ e' ∈ matching, accepted e'.object → e' = e ∨ e.Precedes e')
      ∧ (found = none ↔ ∀ e ∈ matching, accepted e.object = false)
  := by
  intro matching found
  have horderly := Store.IsReachable.isOrderly h
  have hprecedes : ∀ e ∈ matching, ∀ e' ∈ matching,
      (e.Precedes e' ↔ e.scope.rank < e'.scope.rank) := by
    intro e he e' he'
    apply Entry.precedes_iff
    apply Store.ties_of_mem_visible horderly (List.mem_filter.mp he).1 (List.mem_filter.mp he').1
  obtain ⟨hperm, hascending⟩ := Store.candidates_spec horderly search.query.window ownOnly
  constructor
  · refine ⟨_, hperm, ?_, rfl⟩
    apply hascending.imp_of_mem
    intro e e' he he'
    apply (hprecedes e (hperm.subset he) e' (hperm.subset he')).mpr
  · intro accepted haccepted
    constructor
    · intro e
      rw [lookup_eq_some_iff a search ownOnly horderly accepted haccepted]
      apply and_congr_right
      intro he
      apply and_congr_right
      intro _
      apply forall₂_congr
      intro e' he'
      rw [hprecedes e he e' he']
    · change ((a.firstAccepted search _).run s).1 = none ↔ _
      rw [firstAccepted_eq_find? a search haccepted, List.find?_eq_none]
      simp only [hperm.mem_iff, Bool.not_eq_true]
      rfl

end Agent

namespace Keepers

/-- The name of a context. -/
def tenant : Octets := [99]

/-- A registration of the first keeper in the default context. -/
def shared (top : Oid) : Entry := ⟨⟨none, .subtree top⟩, 1⟩

/-- A registration of the second keeper in the named context. -/
def owned (top : Oid) : Entry := ⟨⟨some tenant, .subtree top⟩, 2⟩

/-- The state after both keepers were registered. -/
def both (top top' : Oid) : AgentState Contents where
  __ := start
  registry := { start.registry with
    store := .after [.register (shared top), .register (owned top')] }

end Keepers

namespace Agent

/-- A search in the named context that the first keeper does not pass finds the second one. -/
theorem both_finds_second :
  let s := Keepers.both ⟨[1]⟩ (Keepers.instanceOf 2)
  let query : Query := { window := ⟨some Keepers.tenant, .subtree ⟨[1]⟩⟩ }
  let search : Search (AgentM Contents) ObjectId :=
    { query, filter := some fun object => return object != 1 }
  (((Keepers.agent {}).lookup search false).run s).1
    = some (Keepers.owned (Keepers.instanceOf 2))
  := by
  intro s query search
  have hreachable : s.IsReachable := ⟨_, rfl⟩
  have hanswers : search.Answers (· != 1) := fun _ _ => rfl
  have hfirst := (lookup_finds_first (Keepers.agent {}) search false hreachable).2 _ hanswers
  apply (hfirst.1 _).mpr
  decide +kernel

end Agent

/-! ### Exact queries -/

namespace Agent

variable {σ : Type} (a : Agent σ)

/-- The query for an OID in a named context finds the registration of the OID in that context,
unless one in the default context begins before it: then it finds that one. -/
theorem find_exact {s : AgentState σ} (h : s.IsReachable) {name : Octets} {x : Oid}
    (query : Query) (hquery : query.window = ⟨some name, .exact x⟩) {e : Entry}
    (he : e ∈ (s.registry.store.partition (some name)).toList) (hx : e.scope.scope.contains x) :
  let shared := (s.registry.store.partition none).toList
  let found := ((a.find query).run s).1
  (∀ d ∈ shared, d.scope.scope.contains x → d.scope.scope.lower.oid < e.scope.scope.lower.oid →
      found = some d)
    ∧ ((∀ d ∈ shared, d.scope.scope.contains x →
          ¬ d.scope.scope.lower.oid < e.scope.scope.lower.oid) →
        found = some e)
  := by
  intro shared found
  have horderly := Store.IsReachable.isOrderly h
  have hown := horderly.partition (some name)
  have hshared := horderly.partition none
  have hfound : ∀ e', found = some e' ↔
      e' ∈ s.registry.store.matching query.window false ∧ true
        ∧ ∀ e'' ∈ s.registry.store.matching query.window false, true →
          e'' = e' ∨ e'.scope.rank < e''.scope.rank :=
    fun e' => lookup_eq_some_iff a { query } false horderly (fun _ => true) (fun _ _ => rfl)
  have hmatching : ∀ e', e' ∈ s.registry.store.matching query.window false ↔
      e' ∈ (s.registry.store.partition (some name)).toList ∧ e'.scope.scope.contains x
        ∨ e' ∈ shared ∧ e'.scope.scope.contains x := by
    intro e'
    rw [hquery, Store.matching, List.mem_filter, Scope.contains_iff_overlaps, ← or_and_right,
      ← List.mem_append]
    rfl
  have howned : ∀ e' ∈ (s.registry.store.partition (some name)).toList,
      e'.scope.scope.contains x → e' = e := fun e' he' hx' => hown.eq_of_contains he' he hx' hx
  constructor
  · intro d hd hdx hlt
    apply (hfound d).mpr
    use (hmatching d).mpr (.inr ⟨hd, hdx⟩), rfl
    intro e' he' _
    rcases (hmatching e').mp he' with ⟨hmem, hx'⟩ | ⟨hmem, hx'⟩
    · right
      rw [howned e' hmem hx']
      apply ContextScope.rank_lt_of_oid_lt hlt
    · left
      apply hshared.eq_of_contains hmem hd hx' hdx
  · intro hwider
    apply (hfound e).mpr
    use (hmatching e).mpr (.inl ⟨he, hx⟩), rfl
    intro e' he' _
    rcases (hmatching e').mp he' with ⟨hmem, hx'⟩ | ⟨hmem, hx'⟩
    · left
      apply howned e' hmem hx'
    · right
      apply ContextScope.rank_lt_of_named (hown.tagged e he) (hshared.tagged e' hmem)
      apply not_lt.mp (hwider e' hmem hx')

/-- An instance of which the keepers are registered for a subtree each is the second keeper's if
the subtrees are the same. If the first keeper's is wider, the instance is the first keeper's. -/
theorem both_find_exact :
  let x := Keepers.instanceOf 2
  let query : Query := { window := ⟨some Keepers.tenant, .exact x⟩ }
  (((Keepers.agent {}).find query).run (Keepers.both x x)).1 = some (Keepers.owned x)
    ∧ (((Keepers.agent {}).find query).run (Keepers.both ⟨[1]⟩ x)).1
      = some (Keepers.shared ⟨[1]⟩)
  := by
  intro x query
  have hreachable : ∀ top top', (Keepers.both top top').IsReachable := fun _ _ => ⟨_, rfl⟩
  constructor
  · apply (find_exact (Keepers.agent {}) (hreachable x x) query rfl
      (by decide +kernel) (by decide +kernel)).2
    decide +kernel
  · have hwider := (find_exact (Keepers.agent {}) (hreachable ⟨[1]⟩ x) query rfl
      (e := Keepers.owned x) (by decide +kernel) (by decide +kernel)).1
    apply hwider <;> decide +kernel

/-- The registration of an OID in the context of the query is not always what the query finds. -/
theorem owned_not_found :
  let x := Keepers.instanceOf 2
  let s := Keepers.both ⟨[1]⟩ x
  let query : Query := { window := ⟨some Keepers.tenant, .exact x⟩ }
  s.IsReachable ∧ Keepers.owned x ∈ (s.registry.store.partition (some Keepers.tenant)).toList
    ∧ (Keepers.owned x).scope.scope.contains x
    ∧ (((Keepers.agent {}).find query).run s).1 ≠ some (Keepers.owned x)
  := by
  intro x s query
  have hreachable : s.IsReachable := ⟨_, rfl⟩
  have hfound : (((Keepers.agent {}).find query).run s).1 = some (Keepers.shared ⟨[1]⟩) := by
    apply (lookup_eq_some_iff (Keepers.agent {}) { query } false hreachable.isOrderly
      (fun _ => true) (fun _ _ => rfl)).mpr
    decide +kernel
  refine ⟨hreachable, ?_, ?_, ?_⟩
  · decide +kernel
  · decide +kernel
  · rw [hfound]
    decide +kernel

end Agent

end MibAgent
