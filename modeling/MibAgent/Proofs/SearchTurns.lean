import MibAgent.Proofs.Instances

/-!
# Searching turn by turn

In each turn a search for the next instance looks a registration up and asks its object. A turn
ends the search, or the search goes on with another query. Whatever is registered and whatever the
objects answer, that query differs from the one before it in where its window begins only, and the
window begins later. So what a search finds lies behind the OID that it was asked for.
-/

namespace MibAgent

open AgentM (Keeps Ensures)
open Agent (NextOutcome isUnspeakable)

variable {σ : Type}

/-! ### Windows that move on -/

/-- The second query differs from the first one in where its window begins only, and the window
begins later. -/
structure Query.Advances (p q : Query) : Prop where
  start : p.range.start < q.range.start
  eq : q = { p with window := ⟨p.context, ⟨q.range.lower, p.range.upper⟩⟩ }

namespace Query.Advances

variable {p q r : Query}

theorem trans (h : p.Advances q) (h' : q.Advances r) :
  p.Advances r
  := by
  use h.start.trans h'.start
  rw [h'.eq, h.eq]
  rfl

theorem context (h : p.Advances q) :
  q.context = p.context
  := by
  rw [h.eq]
  rfl

theorem finish (h : p.Advances q) :
  q.range.finish = p.range.finish
  := by
  rw [h.eq]
  rfl

/-- What lies in the later window lies in the earlier one. -/
theorem contains (h : p.Advances q) {x : Oid} (hx : q.range.contains x) :
  p.range.contains x
  := by
  rw [Scope.contains_iff, h.finish] at hx
  rw [Scope.contains_iff]
  exact ⟨h.start.trans hx.1, hx.2⟩

/-- What overlaps the later window overlaps the earlier one. -/
theorem overlaps (h : p.Advances q) {s : Scope} (hs : s.overlaps q.range) :
  s.overlaps p.range
  := by
  rw [Scope.overlaps_iff, h.finish] at hs
  rw [Scope.overlaps_iff]
  apply lt_of_le_of_lt _ hs
  apply max_le_max_left _ h.start.le

end Query.Advances

namespace Query

variable {q next : Query}

/-- The search goes on behind an OID in the window. -/
theorem advances_restart {x : Oid} (h : q.range.contains x) :
  q.Advances (q.restart x)
  where
  start := (Scope.contains_iff.mp h).1
  eq := rfl

/-- The search goes on behind a scope that overlaps the window. -/
theorem advances_past {s : Scope} (h : s.overlaps q.range) (hpast : q.past s = .ok next) :
  q.Advances next ∧ next.range.start = s.finish
  := by
  rw [past] at hpast
  cases hrange : q.range.past s with
  | error fault =>
      rw [hrange] at hpast
      cases hpast
  | ok beyond =>
      rw [hrange] at hpast
      cases hpast
      obtain ⟨hstart, hupper⟩ := Circumstances.past_spec hrange
      refine ⟨⟨?_, ?_⟩, hstart⟩
      · apply lt_of_lt_of_eq _ hstart.symm
        apply (Scope.overlaps_iff_lt.mp h).2.1
      · rw [← hupper]
        rfl

end Query

/-! ### Turns -/

/-- How a turn of a search goes: it ends the search, or the search goes on with another query. -/
inductive SearchTurn where
  | ends (o : NextOutcome)
  | goesOn (query : Query)

namespace Agent

/-- One turn of a search for the next instance. -/
def searchTurn (a : Agent σ) (context : RequestContext) (query : Query) : AgentM σ SearchTurn := do
  match ← a.find query with
  | none => return .ends .endOfView
  | some entry =>
    if ← a.lockFor context entry.object then
      let result ← (a.object entry.object).next context query
      unlockFor context entry.object
      match ← a.nextStep context query result with
      | .answer b => return .ends (.found entry query b)
      | .restart oid => return .goesOn (query.restart oid)
      | .moveOn =>
        match query.past entry.scope.scope with
        | .error _ => return .ends .endOfView
        | .ok query => return .goesOn query
    else return .ends (.unavailable entry)

/-- Searches for the next instance in at most so many turns, and keeps their queries. -/
def searchTurns (a : Agent σ) (context : RequestContext) :
    Nat → Query → AgentM σ (List Query × NextOutcome)
  | 0, _ => pure ([], .unfinished)
  | turns + 1, query => do
    match ← a.searchTurn context query with
    | .ends o => return ([query], o)
    | .goesOn next =>
      let (queries, o) ← a.searchTurns context turns next
      return (query :: queries, o)

theorem searchNext_succ (a : Agent σ) (context : RequestContext) (visits : Nat) (query : Query) :
  a.searchNext context (visits + 1) query
    = a.searchTurn context query >>= fun
      | .ends o => pure o
      | .goesOn next => a.searchNext context visits next
  := by
  rw [searchNext, searchTurn, bind_assoc]
  apply bind_congr
  intro found
  cases found with
  | none => rfl
  | some entry =>
      dsimp only
      rw [bind_assoc]
      apply bind_congr
      intro locked
      cases locked with
      | false => rfl
      | true =>
          simp only [if_true, bind_assoc]
          apply bind_congr
          intro result
          apply bind_congr
          intro _
          apply bind_congr
          intro step
          cases step with
          | answer b => rfl
          | restart x => rfl
          | moveOn =>
              dsimp only
              cases query.past entry.scope.scope with
              | error fault => rfl
              | ok next => rfl

/-- A search goes turn by turn. -/
theorem searchNext_eq_searchTurns (a : Agent σ) (context : RequestContext) (visits : Nat)
    (query : Query) :
  a.searchNext context visits query = Prod.snd <$> a.searchTurns context visits query
  := by
  induction visits generalizing query with
  | zero => rfl
  | succ visits ih =>
      rw [searchNext_succ, searchTurns, map_bind]
      apply bind_congr
      intro turn
      cases turn with
      | ends o => rfl
      | goesOn next =>
          dsimp only
          rw [ih, map_bind]
          rfl

theorem run_readNext (a : Agent σ) (context : RequestContext) (v : Variable) (s : AgentState σ) :
  (a.readNext context v).run s =
    let search := (a.searchTurns context a.searchLimit (queryFor context v false)).run s
    (recordNext v search.1.2, search.2)
  := by
  rw [readNext, searchNext_eq_searchTurns]
  rfl

theorem isComplete_recordNext {v : Variable} {o : NextOutcome} (h : o ≠ .unfinished) :
  (recordNext v o).isComplete
  := by
  cases o with
  | endOfView => rfl
  | unavailable e => rfl
  | found e q b => rfl
  | unfinished => apply absurd rfl h

end Agent

/-! ### What a turn can come upon -/

/-- What overlaps a window in a partition is an entry of the partition. -/
theorem Partition.mem_of_mem_overlapping {part : Partition} {window : ContextScope} {e : Entry}
    (h : e ∈ part.overlapping window) :
  e ∈ part.toList ∧ e.scope.scope.overlaps window.scope
  := by
  obtain ⟨he, hoverlaps⟩ := List.mem_filter.mp h
  have hkept := (List.takeWhile_sublist _).subset he
  exact ⟨List.mem_of_mem_drop hkept, hoverlaps⟩

/-- A query may find what it sees and what overlaps its window, in whatever order things are. -/
theorem Store.mem_of_mem_candidates {s : Store} {window : ContextScope} {e : Entry}
    (h : e ∈ s.candidates window false) :
  e ∈ s.visible window.context false ∧ e.scope.scope.overlaps window.scope
  := by
  rw [candidates] at h
  cases hcontext : window.context with
  | none =>
      rw [hcontext] at h
      apply Partition.mem_of_mem_overlapping h
  | some name =>
      rw [hcontext] at h
      rcases List.mem_merge.mp h with hown | hshared
      · obtain ⟨he, hoverlaps⟩ := Partition.mem_of_mem_overlapping hown
        exact ⟨List.mem_append_left _ he, hoverlaps⟩
      · obtain ⟨he, hoverlaps⟩ := Partition.mem_of_mem_overlapping hshared
        exact ⟨List.mem_append_right _ he, hoverlaps⟩

namespace SearchTurn

/-- How a turn of a search can go, when only certain registrations are seen and the objects answer
with certain OIDs only. -/
inductive Follows (context : RequestContext) (seen : Entry → Prop) (named : Oid → Prop)
    (query : Query) : SearchTurn → Prop where
  | nothing : Follows context seen named query (.ends .endOfView)
  | unavailable {e : Entry} : Follows context seen named query (.ends (.unavailable e))
  | found {e : Entry} {b : Binding} (inside : query.range.contains b.oid)
    (speakable : isUnspeakable context b.value = false) :
    Follows context seen named query (.ends (.found e query b))
  | denied {x : Oid} (inside : query.range.contains x) (known : named x) :
    Follows context seen named query (.goesOn (query.restart x))
  | passed {e : Entry} {next : Query} (visible : seen e)
    (overlaps : e.scope.scope.overlaps query.range)
    (past : query.past e.scope.scope = .ok next) :
    Follows context seen named query (.goesOn next)

variable {context : RequestContext} {seen : Entry → Prop} {named : Oid → Prop} {query next : Query}

theorem Follows.advances (h : Follows context seen named query (.goesOn next)) :
  query.Advances next
  := by
  cases h with
  | denied hinside _ => apply Query.advances_restart hinside
  | passed _ hoverlaps hpast => apply (Query.advances_past hoverlaps hpast).1

end SearchTurn

/-- How a search can go turn by turn, with the queries of its turns and its outcome. -/
inductive Trail (context : RequestContext) (seen : Entry → Prop) (named : Oid → Prop) :
    Nat → Query → List Query → NextOutcome → Prop where
  | unfinished {query : Query} : Trail context seen named 0 query [] .unfinished
  | ends {turns : Nat} {query : Query} {o : NextOutcome}
    (turn : SearchTurn.Follows context seen named query (.ends o)) :
    Trail context seen named (turns + 1) query [query] o
  | goesOn {turns : Nat} {query next : Query} {queries : List Query} {o : NextOutcome}
    (turn : SearchTurn.Follows context seen named query (.goesOn next))
    (rest : Trail context seen named turns next queries o) :
    Trail context seen named (turns + 1) query (query :: queries) o

namespace Trail

variable {context : RequestContext} {seen : Entry → Prop} {named : Oid → Prop} {turns : Nat}
  {query : Query} {queries : List Query} {o : NextOutcome}

/-- Every query of a search but the first one comes later than the first one. -/
theorem advances (h : Trail context seen named turns query queries o) :
  ∀ p ∈ queries, p = query ∨ query.Advances p
  := by
  induction h with
  | unfinished => nofun
  | ends _ =>
      intro p hp
      left
      apply List.mem_singleton.mp hp
  | goesOn hturn _ ih =>
      intro p hp
      rcases List.mem_cons.mp hp with rfl | hp
      · left
        rfl
      · right
        rcases ih p hp with rfl | hadvances
        · apply hturn.advances
        · apply hturn.advances.trans hadvances

/-- The windows of a search only shrink. -/
theorem pairwise (h : Trail context seen named turns query queries o) :
  queries.Pairwise Query.Advances
  := by
  induction h with
  | unfinished => apply List.Pairwise.nil
  | ends _ => apply List.pairwise_singleton
  | goesOn hturn hrest ih =>
      rw [List.pairwise_cons]
      refine ⟨?_, ih⟩
      intro p hp
      rcases hrest.advances p hp with rfl | hadvances
      · apply hturn.advances
      · apply hturn.advances.trans hadvances

/-- What is found lies in the window that the search began with. -/
theorem inside (h : Trail context seen named turns query queries o) {e : Entry} {p : Query}
    {b : Binding} (ho : o = .found e p b) :
  query.range.contains b.oid ∧ isUnspeakable context b.value = false
  := by
  induction h with
  | unfinished => cases ho
  | ends hturn =>
      cases ho
      cases hturn with
      | found hinside hspeakable => exact ⟨hinside, hspeakable⟩
  | goesOn hturn _ ih =>
      obtain ⟨hinside, hspeakable⟩ := ih ho
      exact ⟨hturn.advances.contains hinside, hspeakable⟩

end Trail

/-! ### The turns of an agent -/

/-- Everything that the agent calls in order to search for the next instance keeps an invariant. -/
structure Agent.UpholdsSearch (a : Agent σ) (I : AgentState σ → Prop) : Prop
    extends a.UpholdsLookup I where
  locks : ∀ s locks, I s → I { s with registry := { s.registry with locks } }
  access : ∀ check, Keeps I (a.access check)
  wait : ∀ owner object timeout, Keeps I (a.wait owner object timeout)
  next : ∀ object context query, Keeps I ((a.object object).next context query)

namespace Agent

variable {a : Agent σ} {I : AgentState σ → Prop} {context : RequestContext} {seen : Entry → Prop}
  {named : Oid → Prop}

/-- As long as the invariant holds, a query of a requester sees certain registrations only, and
their objects answer it with certain OIDs only. -/
structure SearchesAmong (a : Agent σ) (I : AgentState σ → Prop) (context : RequestContext)
    (seen : Entry → Prop) (named : Oid → Prop) : Prop
    extends a.UpholdsSearch I where
  sees : ∀ s, I s → ∀ e ∈ s.registry.store.visible (.ofName context.context) false, seen e
  answers : ∀ s, I s → ∀ e, seen e → ∀ query b,
    (((a.object e.object).next context query).run s).1 = .found b → named b.oid

/-- Any agent searches among all registrations and all OIDs. -/
theorem searchesAmong_all (a : Agent σ) (context : RequestContext) :
  a.SearchesAmong (fun _ => True) context (fun _ => True) (fun _ => True)
  where
  considered _ _ _ := ⟨fun _ _ => trivial⟩
  found _ _ _ := ⟨fun _ _ => trivial⟩
  rule _ _ _ _ := ⟨fun _ _ => trivial⟩
  refresh _ _ _ _ := ⟨fun _ _ => trivial⟩
  locks _ _ _ := trivial
  access _ := ⟨fun _ _ => trivial⟩
  wait _ _ _ := ⟨fun _ _ => trivial⟩
  next _ _ _ := ⟨fun _ _ => trivial⟩
  sees _ _ _ _ := trivial
  answers _ _ _ _ _ _ _ := trivial

theorem ensures_nextStep (h : a.UpholdsSearch I) (context : RequestContext) (query : Query)
    (r : NextResult) :
  Ensures I (a.nextStep context query r)
    (fun
      | .answer b => query.range.contains b.oid ∧ isUnspeakable context b.value = false
      | .restart x => query.range.contains x ∧ ∃ b, r = .found b ∧ b.oid = x
      | .moveOn => True)
  := by
  cases r with
  | endOfView => apply Ensures.pure trivial
  | found b =>
      rw [nextStep]
      cases hinside : query.range.contains b.oid with
      | false => apply Ensures.pure trivial
      | true =>
          apply (h.access _).ensures.bind
          intro allowed _
          split
          · rename_i hallowed
            rw [Bool.and_eq_true, Bool.not_eq_true'] at hallowed
            apply Ensures.pure ⟨hinside, hallowed.2⟩
          · apply Ensures.pure ⟨hinside, b, rfl, rfl⟩

/-- A turn goes in one of the ways in which it can go. -/
theorem ensures_searchTurn (h : a.SearchesAmong I context seen named) {query : Query}
    (hcontext : query.context = .ofName context.context) :
  Ensures I (a.searchTurn context query) (SearchTurn.Follows context seen named query)
  := by
  have hfind : Ensures I (a.find query) fun found => ∀ e, found = some e →
      seen e ∧ e.scope.scope.overlaps query.range := by
    apply Ensures.of_keeps (h.keeps_find query)
    intro s hs e he
    rw [find_eq_head?] at he
    obtain ⟨hvisible, hoverlaps⟩ := Store.mem_of_mem_candidates (List.mem_of_mem_head? he)
    refine ⟨?_, hoverlaps⟩
    apply h.sees s hs e
    rw [← hcontext]
    apply hvisible
  have hnext : ∀ e, seen e → Ensures I ((a.object e.object).next context query) fun r =>
      ∀ b, r = .found b → named b.oid := fun e he =>
    Ensures.of_keeps (h.next e.object context query) fun s hs => h.answers s hs e he query
  apply hfind.bind
  intro found hfound
  cases found with
  | none => apply Ensures.pure .nothing
  | some entry =>
      obtain ⟨hseen, hoverlaps⟩ := hfound entry rfl
      apply (keeps_lockFor h.locks h.wait _ _).ensures.bind
      intro locked _
      cases locked with
      | false => apply Ensures.pure .unavailable
      | true =>
          apply (hnext entry hseen).bind
          intro r hr
          apply (keeps_unlockFor h.locks _ _).ensures.bind
          intro _ _
          apply (ensures_nextStep h.toUpholdsSearch context query r).bind
          intro step hstep
          cases step with
          | answer b => apply Ensures.pure (.found hstep.1 hstep.2)
          | restart x =>
              obtain ⟨hinside, b, hb, rfl⟩ := hstep
              apply Ensures.pure (.denied hinside (hr b hb))
          | moveOn =>
              dsimp only
              cases hpast : query.past entry.scope.scope with
              | error fault => apply Ensures.pure .nothing
              | ok next => apply Ensures.pure (.passed hseen hoverlaps hpast)

/-- A search goes turn by turn in the ways in which turns can go. -/
theorem ensures_searchTurns (h : a.SearchesAmong I context seen named) (turns : Nat) (query : Query)
    (hcontext : query.context = .ofName context.context) :
  Ensures I (a.searchTurns context turns query)
    (fun t => Trail context seen named turns query t.1 t.2)
  := by
  induction turns generalizing query with
  | zero => apply Ensures.pure .unfinished
  | succ turns ih =>
      apply (ensures_searchTurn h hcontext).bind
      intro turn hturn
      cases turn with
      | ends o => apply Ensures.pure (.ends hturn)
      | goesOn next =>
          apply (ih next (hturn.advances.context.trans hcontext)).bind
          intro t ht
          apply Ensures.pure (.goesOn hturn ht)

/-- What is known of a variable after every search that can go so is known after it has been read. -/
theorem ensures_readNext (h : a.SearchesAmong I context seen named) {v : Variable}
    {Q : Variable → Prop}
    (hQ : ∀ queries o,
      Trail context seen named a.searchLimit (queryFor context v false) queries o →
        Q (recordNext v o)) :
  Ensures I (a.readNext context v) Q
  := by
  rw [readNext, searchNext_eq_searchTurns, map_eq_pure_bind, bind_assoc]
  apply (ensures_searchTurns h a.searchLimit _ rfl).bind
  intro search htrail
  apply Ensures.pure (hQ search.1 search.2 htrail)

end Agent

end MibAgent
