import MibAgent.Proofs.LookupCalls

/-!
# Refreshing once for a request

With the rule that refreshes an object whenever the source of a query is new to it, an object is
refreshed once in the course of a request, and before anything else is asked of it. All queries of a
request have the request for their source, and the registry remembers for each object the source of
the last query: it is the request exactly when the object was refreshed already. What is remembered
is compared with a log of the request.
-/

namespace MibAgent

open AgentM (Keeps)

variable {σ α β : Type}

/-! ### Logs of a request -/

/-- According to a log an object was refreshed. -/
def WasUpdated (log : List Deed) (object : ObjectId) : Prop :=
  ∃ query, Deed.updated object query ∈ log

theorem WasUpdated.append {log : List Deed} {object : ObjectId} (h : WasUpdated log object)
    (later : List Deed) :
  WasUpdated (log ++ later) object
  := by
  obtain ⟨query, hquery⟩ := h
  exact ⟨query, List.mem_append_left _ hquery⟩

theorem wasUpdated_append {log later : List Deed} {object : ObjectId} :
  WasUpdated (log ++ later) object ↔ WasUpdated log object ∨ WasUpdated later object
  := by
  simp only [WasUpdated, List.mem_append, exists_or]

namespace Agent

variable (a : Agent σ)

/-- According to a log an object was refreshed, if it can be. -/
def IsUpToDate (log : List Deed) (object : ObjectId) : Prop :=
  (a.object object).refresh.isSome → WasUpdated log object

/-- A call is in time after others: no object is refreshed twice, and none that can be refreshed is
called on behalf of a requester before. -/
def IsInTime (earlier : List Deed) : Deed → Prop
  | .updated object _ => ¬ WasUpdated earlier object
  | .served call => a.IsUpToDate earlier call.object
  | _ => True

/-- Each call of a log is in time. -/
def IsTimely (log : List Deed) : Prop :=
  ∀ earlier deed later, log = earlier ++ deed :: later → a.IsInTime earlier deed

variable {a} {log : List Deed}

theorem isTimely_nil :
  a.IsTimely []
  := by
  intro earlier deed later h
  apply absurd h.symm (by simp)

theorem IsTimely.snoc (h : a.IsTimely log) {deed : Deed} (hdeed : a.IsInTime log deed) :
  a.IsTimely (log ++ [deed])
  := by
  intro earlier deed' later heq
  rcases List.eq_nil_or_concat later with rfl | ⟨later', last, rfl⟩
  · obtain ⟨rfl, hlast⟩ := List.append_inj' heq rfl
    cases hlast
    apply hdeed
  · rw [List.concat_eq_append, ← List.cons_append, ← List.append_assoc] at heq
    obtain ⟨hlog, -⟩ := List.append_inj' heq rfl
    apply h earlier deed' later' hlog

theorem IsUpToDate.append {object : ObjectId} (h : a.IsUpToDate log object) (later : List Deed) :
  a.IsUpToDate (log ++ later) object
  := fun hrefresh => (h hrefresh).append later

end Agent

/-! ### What leaves the sources alone -/

/-- The computation leaves the sources that are remembered as they are. -/
def AgentM.SparesSources (m : AgentM σ α) : Prop :=
  ∀ sources, Keeps (fun s => s.registry.lastSource = sources) m

/-- No phase of a write does anything to the sources. -/
structure Writable.SparesSources (w : Writable σ) : Prop where
  validate : ∀ context b, (w.validate context b).SparesSources
  apply : ∀ context b stored, (w.apply context b stored).SparesSources
  commit : ∀ context b, (w.commit context b).SparesSources
  undo : ∀ context b stored, (w.undo context b stored).SparesSources
  cleanup : ∀ context b, (w.cleanup context b).SparesSources

/-- Nothing that the agent calls does anything to the sources. In particular nothing is looked up
for anybody else in the meantime. -/
structure Agent.SparesSources (a : Agent σ) : Prop where
  access : ∀ check, (a.access check).SparesSources
  considered : ∀ l entry query, ((a.lookupListener l).considered entry query).SparesSources
  found : ∀ l entry query, ((a.lookupListener l).found entry query).SparesSources
  refresh : ∀ object update, (a.object object).refresh = some update →
    ∀ query, (update query).SparesSources
  wait : ∀ owner object timeout, (a.wait owner object timeout).SparesSources
  get : ∀ object context oid, ((a.object object).get context oid).SparesSources
  next : ∀ object context query, ((a.object object).next context query).SparesSources
  writable : ∀ object w, (a.object object).writable = some w → w.SparesSources

/-! ### Punctuality -/

/-- A log of the request with the number `source` agrees with a state: its calls are in time, and
the request is remembered for the objects that were refreshed. -/
structure Agent.Accounts (a : Agent σ) (source : Nat) (log : List Deed) (s : AgentState σ) :
    Prop where
  timely : a.IsTimely log
  remembered : ∀ object, s.registry.lastSource.get? object = some source ↔ WasUpdated log object

/-- Started in a state with which `log` agrees, a computation ends in a state with which the log
agrees to which `m'` has added, and `Q` relates that log to the result. -/
structure Agent.Punctual (a : Agent σ) (source : Nat) (log : List Deed) (m : AgentM σ α)
    (m' : AgentM (Logged σ Deed) α) (Q : α → List Deed → Prop) : Prop where
  run : ∀ s, a.Accounts source log s → ∃ x t deeds,
    Runs m m' s x t deeds ∧ a.Accounts source (log ++ deeds) t ∧ Q x (log ++ deeds)

namespace Agent.Punctual

variable {a : Agent σ} {source : Nat} {log : List Deed} {m : AgentM σ α}
  {m' : AgentM (Logged σ Deed) α} {f : α → AgentM σ β} {f' : α → AgentM (Logged σ Deed) β}
  {Q : α → List Deed → Prop} {R : β → List Deed → Prop}

theorem pure {x : α} (h : Q x log) :
  a.Punctual source log (Pure.pure x) (Pure.pure x) Q
  := by
  constructor
  intro s hs
  refine ⟨x, s, [], Runs.pure x s, ?_⟩
  rw [List.append_nil]
  exact ⟨hs, h⟩

theorem bind (h : a.Punctual source log m m' Q)
    (h' : ∀ x later, Q x (log ++ later) → a.Punctual source (log ++ later) (f x) (f' x) R) :
  a.Punctual source log (m >>= f) (m' >>= f') R
  := by
  constructor
  intro s hs
  obtain ⟨x, t, deeds, hruns, ht, hQ⟩ := h.run s hs
  obtain ⟨y, u, deeds', hruns', hu, hR⟩ := (h' x deeds hQ).run t ht
  use y, u, deeds ++ deeds', hruns.bind hruns'
  rw [← List.append_assoc]
  exact ⟨hu, hR⟩

/-- What goes unnoted and leaves the sources as they are, followed by another computation. -/
theorem unnoted_bind (h : Unnoted m m') (hm : m.SparesSources)
    (h' : ∀ x, a.Punctual source log (f x) (f' x) R) :
  a.Punctual source log (m >>= f) (m' >>= f') R
  := by
  constructor
  intro s hs
  have ht : a.Accounts source log (m.run s).2 := by
    constructor
    · apply hs.timely
    · rw [(hm _).keeps s rfl]
      apply hs.remembered
  obtain ⟨y, u, deeds, hruns, hu, hR⟩ := (h' (m.run s).1).run _ ht
  exact ⟨y, u, deeds, (h s).bind hruns, hu, hR⟩

/-- A call that is in time and refreshes nothing. -/
theorem noted (hm : m.SparesSources) (note : α → Deed)
    (hnote : ∀ x, a.IsInTime log (note x)) (hother : ∀ x object, ¬ WasUpdated [note x] object) :
  a.Punctual source log m (m.noted fun _ x => [note x]) fun _ _ => True
  := by
  constructor
  intro s hs
  refine ⟨_, _, [note (m.run s).1], Runs.of_noted m _ s, ⟨hs.timely.snoc (hnote _), ?_⟩, trivial⟩
  intro object
  rw [(hm _).keeps s rfl, hs.remembered, wasUpdated_append, or_iff_left (hother _ object)]

/-- A call of an object on behalf of a requester. -/
theorem served (hm : m.SparesSources) (call : α → Call) {object : ObjectId}
    (hobject : ∀ x, (call x).object = object) (h : a.IsUpToDate log object) :
  a.Punctual source log m (m.noted fun _ x => [.served (call x)]) fun _ _ => True
  := by
  apply noted hm fun x => .served (call x)
  · intro x
    rw [IsInTime, hobject]
    apply h
  · rintro x other ⟨query, hquery⟩
    cases List.mem_singleton.mp hquery

theorem forM {f : β → AgentM σ Unit} {f' : β → AgentM (Logged σ Deed) Unit}
    (h : ∀ log x, a.Punctual source log (f x) (f' x) fun _ _ => True) (l : List β) :
  a.Punctual source log (l.forM f) (l.forM f') fun _ _ => True
  := by
  induction l generalizing log with
  | nil => apply Punctual.pure trivial
  | cons x rest ih =>
      apply (h log x).bind
      intro _ later _
      apply ih

end Agent.Punctual

/-- A query that moves on keeps its source. -/
theorem Query.source_of_past {query next : Query} {scope : Scope}
    (h : query.past scope = .ok next) :
  next.source = query.source
  := by
  rw [past] at h
  cases hrange : query.range.past scope with
  | error fault =>
      rw [hrange] at h
      cases h
  | ok range =>
      rw [hrange] at h
      cases h
      rfl

namespace Agent

variable {a : Agent σ} {source : Nat} {log : List Deed}

/-! ### Refreshing -/

/-- The listeners of an audience are told something. -/
theorem punctual_tell {R : β → List Deed → Prop} (audience : Option Nat)
    {f : ListenerId → AgentM σ Unit} (hf : ∀ l, (f l).SparesSources) (note : ListenerId → Deed)
    (hnote : ∀ log l, a.IsInTime log (note l)) (hother : ∀ l object, ¬ WasUpdated [note l] object)
    {g : Unit → AgentM σ β} {g' : Unit → AgentM (Logged σ Deed) β}
    (hg : ∀ later, a.Punctual source (log ++ later) (g ()) (g' ()) R) :
  a.Punctual source log (membersOf audience >>= fun members => members.forM f >>= g)
    (membersOf audience >>= fun members =>
      (members.forM fun l => (f l).noted fun _ _ => [note l]) >>= g') R
  := by
  apply Punctual.unnoted_bind (unnoted_membersOf audience) fun _ => keeps_membersOf audience
  intro members
  apply (Punctual.forM (fun log l => .noted (hf l) (fun _ => note l) (fun _ => hnote log l)
    fun _ => hother l) members).bind
  intro _ later _
  apply hg

theorem run_onSourceChange (object : ObjectId) {query : Query} (hquery : query.source = some source)
    (s : AgentState σ) :
  (RefreshRule.onSourceChange object query).run s =
    (s.registry.lastSource.get? object != some source,
      { s with registry := { s.registry with
        lastSource := s.registry.lastSource.insert object source } })
  := by
  rw [RefreshRule.onSourceChange, hquery]
  rfl

namespace Accounts

variable {s t : AgentState σ} {object : ObjectId} (h : a.Accounts source log s)
  (ht : t.registry.lastSource = s.registry.lastSource.insert object source)
include h ht

theorem get?_insert_iff (other : ObjectId) :
  t.registry.lastSource.get? other = some source ↔ other = object ∨ WasUpdated log other
  := by
  rw [ht, OrderedMap.get?_insert, ← h.remembered]
  simp only [Std.compare_eq_iff_eq]
  split
  · rename_i heq
    simp [heq]
  · rename_i hne
    rw [or_iff_right hne]

/-- The rule is asked about an object that was refreshed already. -/
theorem consulted_again (hobject : WasUpdated log object) (query : Query) (needed : Bool) :
  a.Accounts source (log ++ [.consulted object query needed]) t
  := by
  use h.timely.snoc trivial
  intro other
  have hquiet : ¬ WasUpdated [.consulted object query needed] other := by
    rintro ⟨_, hother⟩
    cases List.mem_singleton.mp hother
  rw [h.get?_insert_iff ht, wasUpdated_append, or_iff_left hquiet, or_iff_right_of_imp]
  rintro rfl
  apply hobject

/-- The rule is asked about another object, which is refreshed. -/
theorem updated (hobject : ¬ WasUpdated log object) (query : Query) (needed : Bool) :
  a.Accounts source (log ++ [.consulted object query needed, .updated object query]) t
  := by
  have hquiet : ¬ WasUpdated [.consulted object query needed] object := by
    rintro ⟨_, hother⟩
    cases List.mem_singleton.mp hother
  constructor
  · have hlast : a.IsInTime (log ++ [.consulted object query needed]) (.updated object query) := by
      rw [IsInTime, wasUpdated_append, or_iff_left hquiet]
      apply hobject
    have hconsulted : a.IsInTime log (.consulted object query needed) := trivial
    have htimely := (h.timely.snoc hconsulted).snoc hlast
    rw [List.append_assoc] at htimely
    apply htimely
  · intro other
    rw [h.get?_insert_iff ht, wasUpdated_append, or_comm]
    apply or_congr_right
    simp [WasUpdated]

end Accounts

namespace SparesSources

variable (h : a.SparesSources) (hrule : a.refreshRule = some .onSourceChange)
include h hrule

/-- After a query of the request the object is up to date. -/
theorem punctual_refresh (object : ObjectId) {query : Query} (hquery : query.source = some source) :
  a.Punctual source log (a.refresh object query) (a.followed.refresh object query)
    fun _ log' => a.IsUpToDate log' object
  := by
  cases hupdate : (a.object object).refresh with
  | none =>
      simp only [Agent.refresh, followed, ManagedObject.followed, hrule, hupdate, Option.map_some,
        Option.map_none]
      apply Punctual.pure
      intro hsome
      rw [hupdate] at hsome
      cases hsome
  | some update =>
      simp only [Agent.refresh, followed, ManagedObject.followed, hrule, hupdate, Option.map_some]
      constructor
      intro s hs
      have hasked := Runs.noted (run_onSourceChange object hquery s)
        fun _ needed => [Deed.consulted object query needed]
      by_cases hseen : s.registry.lastSource.get? object = some source
      · rw [hseen, bne_self_eq_false] at hasked
        have hobject := (hs.remembered object).mp hseen
        refine ⟨(), _, [.consulted object query false], hasked.bind_pure rfl rfl, ?_, ?_⟩
        · apply hs.consulted_again rfl hobject
        · intro _
          apply hobject.append
      · rw [bne_iff_ne.mpr hseen] at hasked
        have hobject := mt (hs.remembered object).mpr hseen
        have hupdated := Runs.of_noted (update query) (fun _ _ => [Deed.updated object query])
          { s with registry := { s.registry with
            lastSource := s.registry.lastSource.insert object source } }
        refine ⟨(), _, [.consulted object query true, .updated object query],
          hasked.cons hupdated, ?_, ?_⟩
        · apply hs.updated _ hobject
          apply (h.refresh object update hupdate query _).keeps
          rfl
        · intro _
          exact ⟨query, by simp⟩

/-! ### Lookup -/

theorem punctual_take (entry : Entry) {query : Query} (hquery : query.source = some source) :
  a.Punctual source log (a.take { query } entry) (a.followed.take { query } entry)
    fun _ log' => a.IsUpToDate log' entry.object
  := by
  apply Punctual.unnoted_bind Unnoted.registry fun _ => Keeps.registry
  intro registry
  apply punctual_tell _ (fun l => h.considered l entry query) (.considered · entry query)
    (fun _ _ => trivial) (by simp [WasUpdated])
  intro later
  apply (h.punctual_refresh hrule entry.object hquery).bind
  intro _ later' hobject
  apply Punctual.unnoted_bind (Unnoted.pure true) fun _ => Keeps.pure true
  intro accepted
  cases accepted with
  | false => apply Punctual.pure hobject
  | true =>
      apply punctual_tell _ (fun l => h.found l entry query) (.found · entry query)
        (fun _ _ => trivial) (by simp [WasUpdated])
      intro later''
      apply Punctual.pure (hobject.append later'')

/-- What a query of the request finds is up to date. -/
theorem punctual_find {query : Query} (hquery : query.source = some source) :
  a.Punctual source log (a.find query) (a.followed.find query)
    fun found log' => ∀ entry, found = some entry → a.IsUpToDate log' entry.object
  := by
  have hall : ∀ entries log, a.Punctual source log (a.firstAccepted { query } entries)
      (a.followed.firstAccepted { query } entries)
      fun found log' => ∀ entry, found = some entry → a.IsUpToDate log' entry.object := by
    intro entries
    induction entries with
    | nil =>
        intro log
        apply Punctual.pure
        nofun
    | cons entry rest ih =>
        intro log
        rw [firstAccepted_cons, firstAccepted_cons]
        apply (h.punctual_take hrule entry hquery).bind
        intro accepted later hobject
        cases accepted with
        | false => apply ih
        | true =>
            apply Punctual.pure
            rintro _ ⟨⟩
            apply hobject
  apply Punctual.unnoted_bind Unnoted.registry fun _ => Keeps.registry
  intro registry
  apply hall

/-! ### Access and locks -/

omit hrule in
/-- A computation goes on after an access was checked. -/
theorem punctual_access_bind {R : β → List Deed → Prop} (check : AccessCheck)
    {f : Bool → AgentM σ β} {f' : Bool → AgentM (Logged σ Deed) β}
    (hf : ∀ granted, a.Punctual source log (f granted) (f' granted) R) :
  a.Punctual source log (a.access check >>= f) (a.followed.access check >>= f') R
  := Punctual.unnoted_bind (Unnoted.unnoted _) (h.access check) hf

omit hrule in
/-- A computation goes on after an attempt to lock an object. -/
theorem punctual_lockFor_bind {R : β → List Deed → Prop} (context : RequestContext)
    (object : ObjectId) {f : Bool → AgentM σ β} {f' : Bool → AgentM (Logged σ Deed) β}
    (hf : ∀ locked, a.Punctual source log (f locked) (f' locked) R) :
  a.Punctual source log (a.lockFor context object >>= f)
    (a.followed.lockFor context object >>= f') R
  := by
  apply Punctual.unnoted_bind (unnoted_lockFor a (fun _ => Deed.served) context object)
  · intro sources
    apply keeps_lockFor
    · intro s locks hs
      apply hs
    · intro owner object timeout
      apply h.wait
  · apply hf

omit h hrule in
/-- A computation goes on after an object was unlocked. -/
theorem punctual_unlockFor_bind {R : β → List Deed → Prop} (context : RequestContext)
    (object : ObjectId) {f : Unit → AgentM σ β} {f' : Unit → AgentM (Logged σ Deed) β}
    (hf : a.Punctual source log (f ()) (f' ()) R) :
  a.Punctual source log (unlockFor context object >>= f) (unlockFor context object >>= f') R
  := by
  apply Punctual.unnoted_bind (unnoted_unlockFor context object)
  · intro sources
    apply keeps_unlockFor
    intro s locks hs
    apply hs
  · intro _
    apply hf

/-! ### Reading -/

theorem punctual_readExact (context : RequestContext) (v : Variable) :
  a.Punctual context.transaction log (a.readExact context v) (a.followed.readExact context v)
    fun _ _ => True
  := by
  apply h.punctual_access_bind
  intro granted
  split
  · apply (h.punctual_find hrule rfl).bind
    intro found later hfound
    cases found with
    | none => apply Punctual.pure trivial
    | some entry =>
        apply h.punctual_lockFor_bind
        intro locked
        split
        · apply (Punctual.served (h.get _ _ _) (.get _ _) (fun _ => rfl) (hfound entry rfl)).bind
          intro result later' _
          apply punctual_unlockFor_bind
          split
          · apply Punctual.pure trivial
          · apply Punctual.pure trivial
        · apply Punctual.pure trivial
  · apply Punctual.pure trivial

omit hrule in
theorem punctual_nextStep (context : RequestContext) (query : Query) (result : NextResult) :
  a.Punctual source log (a.nextStep context query result)
    (a.followed.nextStep context query result) fun _ _ => True
  := by
  cases result with
  | endOfView => apply Punctual.pure trivial
  | found b =>
      rw [nextStep, nextStep]
      split
      · apply h.punctual_access_bind
        intro allowed
        split
        · apply Punctual.pure trivial
        · apply Punctual.pure trivial
      · apply Punctual.pure trivial

/-- The queries of a search all have the same source. -/
theorem punctual_searchNext (context : RequestContext) (visits : Nat) {query : Query}
    (hquery : query.source = some source) :
  a.Punctual source log (a.searchNext context visits query)
    (a.followed.searchNext context visits query) fun _ _ => True
  := by
  induction visits generalizing query log with
  | zero => apply Punctual.pure trivial
  | succ visits ih =>
      apply (h.punctual_find hrule hquery).bind
      intro found later hfound
      cases found with
      | none => apply Punctual.pure trivial
      | some entry =>
          apply h.punctual_lockFor_bind
          intro locked
          split
          · apply (Punctual.served (h.next _ _ _) (.next _ _) (fun _ => rfl)
              (hfound entry rfl)).bind
            intro result later' _
            apply punctual_unlockFor_bind
            apply (h.punctual_nextStep context query result).bind
            intro step later'' _
            cases step with
            | answer b => apply Punctual.pure trivial
            | restart oid =>
                have hrestart : (query.restart oid).source = some source := hquery
                apply ih hrestart
            | moveOn =>
                dsimp only
                split
                · apply Punctual.pure trivial
                · rename_i query' hpast
                  apply ih ((Query.source_of_past hpast).trans hquery)
          · apply Punctual.pure trivial

theorem punctual_readVariable (context : RequestContext) (v : Variable) :
  a.Punctual context.transaction log (a.readVariable context v) (a.followed.readVariable context v)
    fun _ _ => True
  := by
  rw [readVariable, readVariable]
  split
  · have hquery : (queryFor context v false).source = some context.transaction := rfl
    apply (h.punctual_searchNext hrule context _ hquery).bind
    intro outcome later _
    apply Punctual.pure trivial
  · apply h.punctual_readExact hrule

theorem punctual_readFrom (context : RequestContext) (steps position : Nat) (r : Request) :
  a.Punctual context.transaction log (a.readFrom context steps position r)
    (a.followed.readFrom context steps position r) fun _ _ => True
  := by
  induction steps generalizing position r log with
  | zero => apply Punctual.pure trivial
  | succ steps ih =>
      rw [readFrom, readFrom]
      split
      · apply Punctual.pure trivial
      · split
        · apply ih
        · apply (h.punctual_readVariable hrule context _).bind
          intro v later _
          apply ih

end SparesSources

end Agent

end MibAgent
