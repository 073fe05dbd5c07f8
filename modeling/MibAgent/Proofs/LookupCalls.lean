import MibAgent.Proofs.Audiences
import MibAgent.Proofs.Invariants
import MibAgent.Proofs.Lookup

/-!
# What a lookup calls

A lookup calls listeners, the rule for refreshing, objects that refresh themselves and the test of
the search. The agent is followed while it does so: each call is noted, with what was answered.
Registrations take their turn one after the other, up to the first that passes the test, and what is
called in a turn is told by the listeners, the rule and the test alone. Whatever has no turn is not
called.
-/

namespace MibAgent

open AgentM (Keeps)

variable {σ : Type}

/-! ### Following an agent -/

/-- A call that an agent makes, and what was answered. -/
inductive Deed where
  /-- A listener is told that a registration is considered. -/
  | considered (listener : ListenerId) (entry : Entry) (query : Query)
  /-- The rule is asked whether an object is to be refreshed. -/
  | consulted (object : ObjectId) (query : Query) (needed : Bool)
  /-- An object refreshes itself. -/
  | updated (object : ObjectId) (query : Query)
  /-- The test of a search is applied to an object. -/
  | tested (object : ObjectId) (accepted : Bool)
  /-- A listener is told that a registration was found. -/
  | found (listener : ListenerId) (entry : Entry) (query : Query)
  /-- An object is called on behalf of a requester. -/
  | served (call : Call)
deriving DecidableEq

/-- The object that a call is about. -/
def Deed.object : Deed → ObjectId
  | considered _ entry _ | found _ entry _ => entry.object
  | consulted object _ _ | updated object _ | tested object _ => object
  | served call => call.object

/-- A listener with a note of each call. -/
def LookupListener.followed (l : ListenerId) (listener : LookupListener σ) :
    LookupListener (Logged σ Deed) where
  considered entry query :=
    (listener.considered entry query).noted fun _ _ => [.considered l entry query]
  found entry query := (listener.found entry query).noted fun _ _ => [.found l entry query]

/-- An object with a note of each call. -/
def ManagedObject.followed (object : ObjectId) (o : ManagedObject σ) :
    ManagedObject (Logged σ Deed) where
  __ := o.observed (fun _ call => Deed.served call) object
  refresh := o.refresh.map fun update query =>
    (update query).noted fun _ _ => [.updated object query]

/-- A rule with a note of each answer. -/
def RefreshRule.followed (rule : RefreshRule σ) : RefreshRule (Logged σ Deed) :=
  fun object query => (rule object query).noted fun _ needed => [.consulted object query needed]

/-- An agent that keeps a log of its calls. -/
def Agent.followed (a : Agent σ) : Agent (Logged σ Deed) where
  __ := a.observed fun _ call => Deed.served call
  object i := (a.object i).followed i
  lookupListener l := (a.lookupListener l).followed l
  refreshRule := a.refreshRule.map RefreshRule.followed

/-- A search with a note of each answer of its test. -/
def Search.followed (search : Search (AgentM σ) ObjectId) :
    Search (AgentM (Logged σ Deed)) ObjectId where
  query := search.query
  filter := search.filter.map fun test object =>
    (test object).noted fun _ accepted => [.tested object accepted]

/-! ### Turns -/

/-- The turn of a registration in a lookup. -/
structure LookupTurn where
  entry : Entry
  /-- Who is told that the registration is considered. -/
  listeners : List ListenerId
  /-- What the rule says, if it is asked. -/
  needed : Option Bool
  /-- What the test says, if there is one. -/
  tested : Option Bool
  /-- Who is told that the registration was found. -/
  told : List ListenerId

namespace LookupTurn

/-- Whether the registration is found. Without a test it is. -/
def accepted (turn : LookupTurn) : Bool := turn.tested.getD true

/-- The calls that are made in order to refresh the object. -/
def refreshing (turn : LookupTurn) (query : Query) : List Deed :=
  turn.needed.elim [] fun needed =>
    .consulted turn.entry.object query needed
      :: if needed then [.updated turn.entry.object query] else []

/-- The call of the test. -/
def testing (turn : LookupTurn) : List Deed :=
  turn.tested.elim [] fun accepted => [.tested turn.entry.object accepted]

/-- The calls that are made in the turn, in their order. -/
def deeds (turn : LookupTurn) (query : Query) : List Deed :=
  turn.listeners.map (.considered · turn.entry query) ++ turn.refreshing query ++ turn.testing
    ++ turn.told.map (.found · turn.entry query)

/-- All calls of a turn are about the object whose turn it is. -/
theorem object_of_mem_deeds {turn : LookupTurn} {query : Query} {deed : Deed}
    (h : deed ∈ turn.deeds query) :
  deed.object = turn.entry.object
  := by
  obtain ⟨entry, listeners, needed, tested, told⟩ := turn
  simp only [deeds, List.mem_append, List.mem_map] at h
  rcases h with ((⟨l, -, rfl⟩ | h) | h) | ⟨l, -, rfl⟩
  · rfl
  · cases needed with
    | none => cases h
    | some needed =>
        rcases List.mem_cons.mp h with rfl | h
        · rfl
        · split at h
          · rw [List.mem_singleton.mp h]
            rfl
          · cases h
  · cases tested with
    | none => cases h
    | some accepted =>
        rw [List.mem_singleton.mp h]
        rfl
  · rfl

end LookupTurn

/-! ### The calls of a turn -/

namespace Agent

variable (a : Agent σ) (search : Search (AgentM σ) ObjectId)

/-- What a lookup does about one registration; tells whether it was found. -/
def take (entry : Entry) : AgentM σ Bool := do
  let audience := (← AgentM.registry).audiences.of? entry.object
  (← membersOf audience).forM fun l => (a.lookupListener l).considered entry search.query
  a.refresh entry.object search.query
  if ← search.accepts entry.object then
    (← membersOf audience).forM fun l => (a.lookupListener l).found entry search.query
    return true
  else return false

/-- A lookup gives one registration after the other its turn. -/
theorem firstAccepted_cons (entry : Entry) (rest : List Entry) :
  a.firstAccepted search (entry :: rest) = (do
    if ← a.take search entry then return some entry else a.firstAccepted search rest)
  := by
  simp only [firstAccepted, take, bind_assoc]
  congr 1
  funext registry
  congr 1
  funext members
  congr 1
  funext _
  congr 1
  funext _
  congr 1
  funext accepted
  cases accepted with
  | true => rfl
  | false => rfl

theorem runs_membersOf (audience : Option Nat) (s : AgentState σ) :
  Runs (ε := Deed) (membersOf audience) (membersOf audience) s
    (audience.elim [] s.registry.audiences.membersOf) s []
  := by
  have h := unnoted_membersOf (σ := σ) (ε := Deed) audience s
  cases audience with
  | none => apply h
  | some number => apply h

/-- In order to refresh an object, the rule is asked once, if there is one and the object can be
refreshed, and the object is called when the rule says so. -/
theorem runs_refresh (object : ObjectId) (query : Query) (s : AgentState σ) :
  ∃ needed : Option Bool,
    needed.isSome = (a.refreshRule.isSome && (a.object object).refresh.isSome)
    ∧ Runs (a.refresh object query) (a.followed.refresh object query) s ()
        ((a.refresh object query).run s).2
        (needed.elim [] fun needed => .consulted object query needed
          :: if needed then [.updated object query] else [])
  := by
  cases hrule : a.refreshRule with
  | none =>
      use none, rfl
      simp only [refresh, followed, hrule, Option.map_none]
      apply Runs.pure
  | some rule =>
      cases hupdate : (a.object object).refresh with
      | none =>
          use none, rfl
          simp only [refresh, followed, ManagedObject.followed, hrule, hupdate, Option.map_some,
            Option.map_none]
          apply Runs.pure
      | some update =>
          use some ((rule object query).run s).1, rfl
          simp only [refresh, followed, ManagedObject.followed, hrule, hupdate, Option.map_some,
            Option.elim_some]
          rw [AgentM.run_bind]
          apply Runs.cons (Runs.of_noted _ _ s)
          cases ((rule object query).run s).1 with
          | false => apply Runs.pure
          | true => apply Runs.of_noted (update query) fun _ _ => [Deed.updated object query]

/-- The test is applied once, if there is one. -/
theorem runs_accepts (object : ObjectId) (s : AgentState σ) :
  ∃ tested : Option Bool, tested.isSome = search.filter.isSome
    ∧ Runs (search.accepts object) (search.followed.accepts object) s (tested.getD true)
        ((search.accepts object).run s).2
        (tested.elim [] fun accepted => [.tested object accepted])
  := by
  obtain ⟨query, filter⟩ := search
  cases filter with
  | none => exact ⟨none, rfl, Runs.pure true s⟩
  | some test => exact ⟨some ((test object).run s).1, rfl,
      Runs.of_noted (test object) (fun _ accepted => [Deed.tested object accepted]) s⟩

/-- The listeners of the agent do nothing to its registry. -/
structure ListenersObserve : Prop where
  considered : ∀ l entry query registry,
    Keeps (fun s => s.registry = registry) ((a.lookupListener l).considered entry query)
  found : ∀ l entry query registry,
    Keeps (fun s => s.registry = registry) ((a.lookupListener l).found entry query)

/-- A registration takes its turn in the state `s`, which leads to `t`. -/
structure IsTurn (s : AgentState σ) (turn : LookupTurn) (t : AgentState σ) : Prop where
  runs : Runs (a.take search turn.entry) (a.followed.take search.followed turn.entry) s
    turn.accepted t (turn.deeds search.query)
  /-- All listeners that the object has are told, in the order in which they joined. -/
  listeners : turn.listeners = s.registry.audiences.listenersOf turn.entry.object
  /-- The rule is asked exactly when there is one and the object can be refreshed. -/
  needed : turn.needed.isSome
    = (a.refreshRule.isSome && (a.object turn.entry.object).refresh.isSome)
  tested : turn.tested.isSome = search.filter.isSome
  /-- When the registration is found, those are told who are in the audience by then. -/
  told : turn.told = if turn.accepted then
    (s.registry.audiences.of? turn.entry.object).elim [] t.registry.audiences.membersOf else []

/-- What is done about a registration in the end: when it is found, its audience is told. -/
theorem exists_told (h : a.ListenersObserve) (entry : Entry) (audience : Option Nat)
    (accepted : Bool) (s : AgentState σ) :
  ∃ (told : List ListenerId) (t : AgentState σ),
    told = (if accepted then audience.elim [] t.registry.audiences.membersOf else [])
    ∧ Runs
        (if accepted then do
          (← membersOf audience).forM fun l => (a.lookupListener l).found entry search.query
          return true
        else return false)
        (if accepted then do
          (← membersOf audience).forM fun l =>
            (a.followed.lookupListener l).found entry search.query
          return true
        else return false)
        s accepted t (told.map (.found · entry search.query))
  := by
  cases accepted with
  | false => exact ⟨[], s, rfl, Runs.pure false s⟩
  | true =>
      let members := audience.elim [] s.registry.audiences.membersOf
      let tell (l : ListenerId) := (a.lookupListener l).found entry search.query
      have hregistry : ((members.forM tell).run s).2.registry = s.registry :=
        (Keeps.forM (fun l => h.found l entry search.query s.registry) members).keeps s rfl
      refine ⟨members, ((members.forM tell).run s).2, ?_, ?_⟩
      · rw [if_pos rfl, hregistry]
      · apply Runs.unnoted_bind (unnoted_membersOf audience) (runs_membersOf audience s).plain
        apply Runs.bind_pure (Runs.forM_noted tell (Deed.found · entry search.query) members s)
        · rfl
        · rfl

theorem exists_turn (h : a.ListenersObserve) (entry : Entry) (s : AgentState σ) :
  ∃ turn t, turn.entry = entry ∧ a.IsTurn search s turn t
  := by
  let audience := s.registry.audiences.of? entry.object
  let listeners := s.registry.audiences.listenersOf entry.object
  have hconsidered := Runs.forM_noted (fun l => (a.lookupListener l).considered entry search.query)
    (Deed.considered · entry search.query) listeners s
  obtain ⟨needed, hneeded, hrefreshed⟩ := a.runs_refresh entry.object search.query
    ((listeners.forM fun l => (a.lookupListener l).considered entry search.query).run s).2
  obtain ⟨tested, htested, haccepts⟩ := runs_accepts search entry.object _
  obtain ⟨told, t, htold, hfound⟩ := a.exists_told search h entry audience
    (tested.getD true) _
  let turn : LookupTurn := ⟨entry, listeners, needed, tested, told⟩
  use turn, t, rfl
  constructor
  · have hdeeds : turn.deeds search.query = listeners.map (.considered · entry search.query)
        ++ (turn.refreshing search.query ++ (turn.testing
          ++ told.map (.found · entry search.query))) := by
      rw [LookupTurn.deeds, List.append_assoc, List.append_assoc]
    rw [hdeeds]
    apply Runs.unnoted_bind Unnoted.registry rfl
    apply Runs.unnoted_bind (unnoted_membersOf audience) (runs_membersOf audience s).plain
    apply hconsidered.bind
    apply hrefreshed.bind
    apply haccepts.bind
    apply hfound
  · rfl
  · apply hneeded
  · apply htested
  · apply htold

/-! ### The turns of a lookup -/

/-- The turns that a lookup takes from the state `s` on, in which registrations are left to be
considered, what it finds, and the state to which it leads. -/
inductive Scans : AgentState σ → List Entry → List LookupTurn → Option Entry → AgentState σ → Prop
  /-- Nothing is left. -/
  | nothing (s : AgentState σ) : Scans s [] [] none s
  /-- A registration is found: the others have no turn. -/
  | found {s t : AgentState σ} {turn : LookupTurn} (rest : List Entry) :
    a.IsTurn search s turn t → turn.accepted = true →
      Scans s (turn.entry :: rest) [turn] (some turn.entry) t
  /-- A registration is passed over. -/
  | passed {s t u : AgentState σ} {turn : LookupTurn} {rest : List Entry} {turns : List LookupTurn}
    {result : Option Entry} :
    a.IsTurn search s turn t → turn.accepted = false → Scans t rest turns result u →
      Scans s (turn.entry :: rest) (turn :: turns) result u

theorem exists_scans (h : a.ListenersObserve) (entries : List Entry) (s : AgentState σ) :
  ∃ turns found t, a.Scans search s entries turns found t
    ∧ Runs (a.firstAccepted search entries) (a.followed.firstAccepted search.followed entries) s
        found t (turns.flatMap (·.deeds search.query))
  := by
  induction entries generalizing s with
  | nil => exact ⟨[], none, s, .nothing s, Runs.pure none s⟩
  | cons entry rest ih =>
      obtain ⟨turn, t, rfl, hturn⟩ := a.exists_turn search h entry s
      have hruns := hturn.runs
      rw [firstAccepted_cons, firstAccepted_cons]
      cases haccepted : turn.accepted with
      | true =>
          rw [haccepted] at hruns
          refine ⟨[turn], some turn.entry, t, .found rest hturn haccepted, ?_⟩
          rw [List.flatMap_singleton]
          apply hruns.bind_pure
          · rfl
          · rfl
      | false =>
          rw [haccepted] at hruns
          obtain ⟨turns, found, u, hscans, hrest⟩ := ih t
          refine ⟨turn :: turns, found, u, .passed hturn haccepted hscans, ?_⟩
          rw [List.flatMap_cons]
          apply hruns.bind
          apply hrest

namespace Scans

variable {a search} {s t : AgentState σ} {entries : List Entry} {turns : List LookupTurn}
  {result : Option Entry}

/-- Registrations take their turns in order. -/
theorem entries_prefix (h : a.Scans search s entries turns result t) :
  turns.map (·.entry) <+: entries
  := by
  induction h with
  | nothing s => apply List.nil_prefix
  | found rest _ _ =>
      rw [List.map_singleton]
      exact ⟨rest, rfl⟩
  | passed _ _ _ ih =>
      rw [List.map_cons, List.prefix_cons_inj]
      apply ih

end Scans

/-! ### Invariants of a search -/

/-- Everything that the agent calls in the course of a search keeps an invariant. -/
structure UpholdsScan (I : AgentState σ → Prop) : Prop where
  considered : ∀ l entry, Keeps I ((a.lookupListener l).considered entry search.query)
  found : ∀ l entry, Keeps I ((a.lookupListener l).found entry search.query)
  refresh : ∀ object, Keeps I (a.refresh object search.query)
  test : ∀ test, search.filter = some test → ∀ object, Keeps I (test object)

namespace UpholdsScan

variable {a search} {I : AgentState σ → Prop} (h : a.UpholdsScan search I)
include h

theorem keeps_take (entry : Entry) :
  Keeps I (a.take search entry)
  := by
  apply Keeps.bind Keeps.registry
  intro registry
  apply Keeps.bind (keeps_membersOf _)
  intro members
  apply Keeps.bind (Keeps.forM (fun l => h.considered l entry) members)
  intro _
  apply Keeps.bind (h.refresh entry.object)
  intro _
  have haccepts : Keeps I (search.accepts entry.object) := by
    rw [Search.accepts]
    split
    · apply Keeps.pure
    · rename_i test htest
      apply h.test test htest
  apply haccepts.bind
  intro accepted
  cases accepted with
  | false => apply Keeps.pure
  | true =>
      apply Keeps.bind (keeps_membersOf _)
      intro members
      apply Keeps.bind (Keeps.forM (fun l => h.found l entry) members)
      intro _
      apply Keeps.pure

theorem keeps_lookup (ownOnly : Bool) :
  Keeps I (a.lookup search ownOnly)
  := by
  have hall : ∀ entries, Keeps I (a.firstAccepted search entries) := by
    intro entries
    induction entries with
    | nil => apply Keeps.pure
    | cons entry rest ih =>
        rw [firstAccepted_cons]
        apply Keeps.bind (h.keeps_take entry)
        intro accepted
        cases accepted with
        | false => apply ih
        | true => apply Keeps.pure
  apply Keeps.bind Keeps.registry
  intro registry
  apply hall

end UpholdsScan

/-- Whatever a search calls leaves the audiences alone. -/
def SparesAudiences : Prop :=
  ∀ audiences, a.UpholdsScan search fun s => s.registry.audiences = audiences

namespace SparesAudiences

variable {a search} (h : a.SparesAudiences search)
include h

theorem audiences_eq {s t : AgentState σ} {turn : LookupTurn} (hturn : a.IsTurn search s turn t) :
  t.registry.audiences = s.registry.audiences
  := by
  have hkeeps := ((h s.registry.audiences).keeps_take turn.entry).keeps s rfl
  rw [hturn.runs.plain] at hkeeps
  apply hkeeps

theorem told_eq {s t : AgentState σ} {turn : LookupTurn} (hturn : a.IsTurn search s turn t) :
  turn.told = if turn.accepted then turn.listeners else []
  := by
  rw [hturn.told, hturn.listeners, h.audiences_eq hturn, Audiences.listenersOf]

/-- Throughout a lookup objects have the listeners that they had at first. -/
theorem listeners_eq {s t : AgentState σ} {entries : List Entry} {turns : List LookupTurn}
    {result : Option Entry} (hscans : a.Scans search s entries turns result t) :
  ∀ turn ∈ turns, turn.listeners = s.registry.audiences.listenersOf turn.entry.object
    ∧ turn.told = if turn.accepted then turn.listeners else []
  := by
  induction hscans with
  | nothing s => apply List.forall_mem_nil
  | found rest hturn haccepted =>
      rw [List.forall_mem_singleton]
      exact ⟨hturn.listeners, h.told_eq hturn⟩
  | passed hturn haccepted _ ih =>
      rw [List.forall_mem_cons]
      rw [h.audiences_eq hturn] at ih
      exact ⟨⟨hturn.listeners, h.told_eq hturn⟩, ih⟩

end SparesAudiences

end Agent

/-! ### Lookups -/

/-- The registrations that a query tries precede each other. -/
theorem Store.candidates_precede {s : Store} (h : s.IsOrderly) (window : ContextScope)
    (ownOnly : Bool) :
  (s.candidates window ownOnly).Perm (s.matching window ownOnly)
    ∧ (s.candidates window ownOnly).Pairwise Entry.Precedes
  := by
  obtain ⟨hperm, hascending⟩ := candidates_spec h window ownOnly
  use hperm
  apply hascending.imp_of_mem
  intro e e' he he' hlt
  have hvisible := (List.mem_filter.mp (hperm.subset he)).1
  have hvisible' := (List.mem_filter.mp (hperm.subset he')).1
  apply (Entry.precedes_iff (ties_of_mem_visible h hvisible hvisible')).mpr hlt

/-- Whatever the rule for refreshing, the query and its test are, and as long as listeners do no
more than listen: what a query sees in its window is given its turn in order, up to the first
registration that passes the test, and the calls of these turns are all that is called. If nothing
else that is called changes audiences, those are told in a turn who joined the audience of the
object, in the order in which they joined. -/
theorem Agent.lookup_calls {σ : Type} (a : Agent σ) (search : Search (AgentM σ) ObjectId)
    (ownOnly : Bool) {s : AgentState σ} (h : s.IsReachable) (hlisteners : a.ListenersObserve)
    (moves : List AudienceMove) (hmoves : s.registry.audiences = .after moves) :
  let matching := s.registry.store.matching search.query.window ownOnly
  ∃ candidates turns found t, candidates.Perm matching ∧ candidates.Pairwise Entry.Precedes
    ∧ turns.map (·.entry) <+: candidates ∧ a.Scans search s candidates turns found t
    ∧ Runs (a.lookup search ownOnly) (a.followed.lookup search.followed ownOnly) s found t
        (turns.flatMap (·.deeds search.query))
    ∧ (∀ deed ∈ turns.flatMap (·.deeds search.query), deed.object ∈ matching.map (·.object))
    ∧ (a.SparesAudiences search → ∀ turn ∈ turns,
        turn.listeners = Audiences.attached turn.entry.object moves
          ∧ turn.told = if turn.accepted then turn.listeners else [])
  := by
  intro matching
  have horderly := Store.IsReachable.isOrderly h
  obtain ⟨hperm, hprecede⟩ := Store.candidates_precede horderly search.query.window ownOnly
  obtain ⟨turns, found, t, hscans, hruns⟩ := a.exists_scans search hlisteners
    (s.registry.store.candidates search.query.window ownOnly) s
  have hprefix := hscans.entries_prefix
  refine ⟨_, turns, found, t, hperm, hprecede, hprefix, hscans, ?_, ?_, ?_⟩
  · apply Runs.unnoted_bind Unnoted.registry rfl
    apply hruns
  · intro deed hdeed
    obtain ⟨turn, hturn, hdeed⟩ := List.mem_flatMap.mp hdeed
    rw [LookupTurn.object_of_mem_deeds hdeed]
    apply List.mem_map_of_mem
    apply hperm.subset
    apply hprefix.subset
    apply List.mem_map_of_mem hturn
  · intro hspares
    have hall := hspares.listeners_eq hscans
    simp only [hmoves, Audiences.listenersOf_after] at hall
    apply hall

namespace Keepers

/-- An agent of keepers that can be refreshed, and are when the source of a query is new. -/
def refreshing : Agent Contents where
  __ := agent {}
  object i := { keeper {} i with refresh := some fun _ => return () }
  refreshRule := some .onSourceChange

/-- The joining of three listeners, the first one to the audience of the first keeper. -/
def joining : List AudienceMove := [.join 1 7, .join 2 8, .join 2 9]

/-- The registrations of the first two keepers for subtrees that lie next to each other. -/
def neighbour (object : ObjectId) : Entry := ⟨⟨none, .subtree (instanceOf (.ofNat object))⟩, object⟩

/-- The state in which two neighbours are registered and have listeners. -/
def attended : AgentState Contents where
  __ := start
  registry := { start.registry with
    store := .after [.register (neighbour 1), .register (neighbour 2)]
    audiences := .after joining }

theorem listenersObserve_refreshing :
  refreshing.ListenersObserve
  where
  considered _ _ _ _ := Keeps.pure _
  found _ _ _ _ := Keeps.pure _

end Keepers

/-- A search that the first neighbour does not pass considers and refreshes both. Only the listeners
of the second one are told that it was found. -/
theorem Agent.attended_lookup_calls :
  let query : Query := { window := ⟨none, .subtree ⟨[1]⟩⟩, source := some 5 }
  let search : Search (AgentM Contents) ObjectId :=
    { query, filter := some fun object => return object != 1 }
  let first := Keepers.neighbour 1
  let second := Keepers.neighbour 2
  ∃ (turns : List LookupTurn) (t : AgentState Contents),
    Runs (Keepers.refreshing.lookup search false)
      (Keepers.refreshing.followed.lookup search.followed false) Keepers.attended (some second) t
      (turns.flatMap (·.deeds query))
    ∧ turns.flatMap (·.deeds query) =
      [.considered 7 first query, .consulted 1 query true, .updated 1 query, .tested 1 false,
        .considered 8 second query, .considered 9 second query, .consulted 2 query true,
        .updated 2 query, .tested 2 true, .found 8 second query, .found 9 second query]
  := by
  intro query search first second
  have hreachable : Keepers.attended.IsReachable := ⟨_, rfl⟩
  obtain ⟨_, turns, found, t, -, -, -, -, hruns, -, -⟩ := lookup_calls Keepers.refreshing search false
    hreachable Keepers.listenersObserve_refreshing Keepers.joining rfl
  have hfound : ((Keepers.refreshing.lookup search false).run Keepers.attended).1
      = some second := by
    decide +kernel
  have hlog : ((Keepers.refreshing.followed.lookup search.followed false).run
      (Keepers.attended.logged [])).2.surroundings.log = turns.flatMap (·.deeds query) := by
    rw [hruns.logged]
    rfl
  rw [hruns.plain] at hfound
  cases hfound
  refine ⟨turns, t, hruns, ?_⟩
  rw [← hlog]
  decide +kernel

end MibAgent
