import MibAgent.Proofs.Refreshing

/-!
# Requests that refresh

A request that writes calls the objects that it found when it prepared its variables, and these stay
up to date. So whatever a request is for, it refreshes no object twice and calls none that should
have been refreshed before. What was looked up for others before the request makes no difference, as
their queries have other sources.
-/

namespace MibAgent

open AgentM (Keeps)

variable {σ α : Type}

/-! ### Writing -/

/-- The phases of a write with a note of each call. -/
def Writable.followed (object : ObjectId) (w : Writable σ) : Writable (Logged σ Deed) :=
  w.observed (fun _ => Deed.served) object

namespace Agent

variable (a : Agent σ)

theorem followed_writable (object : ObjectId) :
  (a.followed.object object).writable = (a.object object).writable.map (·.followed object)
  := rfl

/-- The object that handles a variable, if there is one, is up to date according to a log. -/
def HasUpToDate (log : List Deed) (v : Variable) : Prop :=
  ∀ entry, v.target = some entry → a.IsUpToDate log entry.object

variable {a} {source : Nat} {log : List Deed}

theorem HasUpToDate.append {v : Variable} (h : a.HasUpToDate log v) (later : List Deed) :
  a.HasUpToDate (log ++ later) v
  := fun entry htarget => (h entry htarget).append later

/-- A variable that can be written is written by its object, which is up to date. -/
theorem HasUpToDate.writer?_cases {v : Variable} (h : a.HasUpToDate log v) :
  a.writer? v = none ∧ a.followed.writer? v = none
    ∨ ∃ object w, a.IsUpToDate log object ∧ (a.object object).writable = some w
      ∧ a.writer? v = some w ∧ a.followed.writer? v = some (w.followed object)
  := by
  obtain hnone | ⟨entry, w, htarget, hw, hsome⟩ := writer?_cases_of_map a.followed_writable v
  · left
    apply hnone
  · right
    exact ⟨entry.object, w, h entry htarget, hw, hsome⟩

namespace SparesSources

variable (h : a.SparesSources) (hrule : a.refreshRule = some .onSourceChange)
include h

theorem punctual_offer {object : ObjectId} {w : Writable σ}
    (hw : (a.object object).writable = some w) (hobject : a.IsUpToDate log object)
    (context : RequestContext) (stage : Bool) {v : Variable} (hv : a.HasUpToDate log v) :
  a.Punctual source log (offer context w stage v) (offer context (w.followed object) stage v)
    fun answer log' => a.HasUpToDate log' answer.2
  := by
  have hspares := h.writable object w hw
  apply (Punctual.served (hspares.validate _ _) (.validate object v.binding) (fun _ => rfl)
    hobject).bind
  intro valid later _
  have hv' := hv.append later
  split
  · split
    · apply (Punctual.served (hspares.apply _ _ _)
        (fun answer => .apply object v.binding answer.1 answer.2) (fun _ => rfl)
        (hobject.append later)).bind
      intro applied later' _
      dsimp only
      split
      · apply Punctual.pure
        apply hv'.append later'
      · apply Punctual.pure
        apply hv'.append later'
    · apply Punctual.pure
      apply hv'
  · apply Punctual.pure
    apply hv'

include hrule in
/-- A variable is prepared by an object that is up to date, or by none. -/
theorem punctual_prepare (context : RequestContext) (stage : Bool) {v : Variable}
    (hv : a.HasUpToDate log v) :
  a.Punctual context.transaction log (a.prepare context stage v)
    (a.followed.prepare context stage v) fun answer log' => a.HasUpToDate log' answer.2
  := by
  apply h.punctual_access_bind
  intro granted
  split
  · apply (h.punctual_find hrule rfl).bind
    intro found later hfound
    cases found with
    | none =>
        apply Punctual.pure
        apply hv.append later
    | some entry =>
        have hobject := hfound entry rfl
        have htarget : ∀ v' : Variable, v'.target = some entry →
            a.HasUpToDate (log ++ later) v' := by
          intro v' hv' entry' hentry'
          rw [hv'] at hentry'
          cases hentry'
          apply hobject
        dsimp only
        rw [followed_writable]
        cases hw : (a.object entry.object).writable with
        | none =>
            apply Punctual.pure
            apply htarget
            rfl
        | some w =>
            apply h.punctual_lockFor_bind
            intro locked
            split
            · apply h.punctual_offer hw hobject
              apply htarget
              rfl
            · apply Punctual.pure
              apply htarget
              rfl
  · apply Punctual.pure
    apply hv

include hrule in
theorem punctual_prepareAll (context : RequestContext) (healthy : Bool) {vs : List Variable}
    (hvs : ∀ v ∈ vs, a.HasUpToDate log v) :
  a.Punctual context.transaction log (a.prepareAll context healthy vs)
    (a.followed.prepareAll context healthy vs)
    fun answer log' => ∀ v ∈ answer.2, a.HasUpToDate log' v
  := by
  induction vs generalizing healthy log with
  | nil =>
      apply Punctual.pure
      apply List.forall_mem_nil
  | cons v rest ih =>
      rw [List.forall_mem_cons] at hvs
      apply (h.punctual_prepare hrule context healthy hvs.1).bind
      rintro ⟨prepared, v'⟩ later hv'
      apply (ih (healthy && prepared) fun w hw => (hvs.2 w hw).append later).bind
      rintro ⟨healthy', rest'⟩ later' hrest'
      apply Punctual.pure
      rw [List.forall_mem_cons]
      exact ⟨hv'.append later', hrest'⟩

theorem punctual_commitAll (context : RequestContext) {vs : List Variable}
    (hvs : ∀ v ∈ vs, a.HasUpToDate log v) :
  a.Punctual source log (a.commitAll context vs) (a.followed.commitAll context vs)
    fun answer log' => ∀ v ∈ answer.2, a.HasUpToDate log' v
  := by
  induction vs generalizing log with
  | nil =>
      apply Punctual.pure
      apply List.forall_mem_nil
  | cons v rest ih =>
      rw [List.forall_mem_cons] at hvs
      obtain ⟨hv, hrest⟩ := hvs
      -- a commit changes the status of a variable only, not the object that handles it
      have hgoesOn : ∀ later, ∀ v' : Variable, v'.target = v.target →
          a.Punctual source (log ++ later)
            (a.commitAll context rest >>= fun answer => pure (answer.1, v' :: answer.2))
            (a.followed.commitAll context rest >>= fun answer => pure (answer.1, v' :: answer.2))
            fun answer log' => ∀ v ∈ answer.2, a.HasUpToDate log' v := by
        intro later v' hv'
        apply (ih fun w hw => (hrest w hw).append later).bind
        rintro ⟨committed, rest'⟩ later' hrest'
        apply Punctual.pure
        rw [List.forall_mem_cons]
        refine ⟨?_, hrest'⟩
        intro entry hentry
        rw [hv'] at hentry
        apply (hv.append later).append later' entry hentry
      rw [commitAll, commitAll]
      obtain ⟨hnone, hnone'⟩ | ⟨object, w, hobject, hw, hsome, hsome'⟩ := hv.writer?_cases
      · rw [hnone, hnone']
        have hnow := hgoesOn [] v rfl
        rw [List.append_nil] at hnow
        apply hnow
      · rw [hsome, hsome']
        apply (Punctual.served ((h.writable object w hw).commit _ _) (.commit _ _) (fun _ => rfl)
          hobject).bind
        intro result later _
        split
        · apply hgoesOn later v.complete rfl
        · apply Punctual.pure
          rw [List.forall_mem_cons]
          exact ⟨hv.append later, fun w hw => (hrest w hw).append later⟩

theorem punctual_settle (context : RequestContext) (prepared : Bool) {vs : List Variable}
    (hvs : ∀ v ∈ vs, a.HasUpToDate log v) :
  a.Punctual source log (a.settle context prepared vs) (a.followed.settle context prepared vs)
    fun answer log' => ∀ v ∈ answer.2, a.HasUpToDate log' v
  := by
  rw [settle, settle]
  split
  · apply h.punctual_commitAll context hvs
  · apply Punctual.pure hvs

theorem punctual_undo (context : RequestContext) {v : Variable} (hv : a.HasUpToDate log v) :
  a.Punctual source log (a.undo context v) (a.followed.undo context v)
    fun v' log' => a.HasUpToDate log' v'
  := by
  rw [undo, undo]
  split
  · have hv' : a.HasUpToDate log { v with stage := .validated } := hv
    dsimp only
    obtain ⟨hnone, hnone'⟩ | ⟨object, w, hobject, hw, hsome, hsome'⟩ := hv'.writer?_cases
    · rw [hnone, hnone']
      apply Punctual.pure hv'
    · rw [hsome, hsome']
      apply (Punctual.served ((h.writable object w hw).undo _ _ _) (.undo _ _ _) (fun _ => rfl)
        hobject).bind
      intro result later _
      split
      · apply Punctual.pure
        apply hv'.append later
      · apply Punctual.pure
        apply hv'.append later
  · apply Punctual.pure hv

theorem punctual_undoAll (context : RequestContext) {vs : List Variable}
    (hvs : ∀ v ∈ vs, a.HasUpToDate log v) :
  a.Punctual source log (a.undoAll context vs) (a.followed.undoAll context vs)
    fun vs' log' => ∀ v ∈ vs', a.HasUpToDate log' v
  := by
  induction vs generalizing log with
  | nil =>
      apply Punctual.pure
      apply List.forall_mem_nil
  | cons v rest ih =>
      rw [List.forall_mem_cons] at hvs
      apply (ih hvs.2).bind
      intro rest' later hrest'
      apply (h.punctual_undo context (hvs.1.append later)).bind
      intro v' later' hv'
      apply Punctual.pure
      rw [List.forall_mem_cons]
      exact ⟨hv', fun w hw => (hrest' w hw).append later'⟩

theorem punctual_cleanup (context : RequestContext) {v : Variable} (hv : a.HasUpToDate log v) :
  a.Punctual source log (a.cleanup context v) (a.followed.cleanup context v) fun _ _ => True
  := by
  rw [cleanup, cleanup]
  split
  · obtain ⟨hnone, hnone'⟩ | ⟨object, w, hobject, hw, hsome, hsome'⟩ := hv.writer?_cases
    · rw [hnone, hnone']
      apply Punctual.pure trivial
    · rw [hsome, hsome']
      apply Punctual.served ((h.writable object w hw).cleanup _ _) (fun _ => .cleanup _ _)
        (fun _ => rfl) hobject
  · apply Punctual.pure trivial

theorem punctual_release (context : RequestContext) {v : Variable} (hv : a.HasUpToDate log v) :
  a.Punctual source log (a.release context v) (a.followed.release context v) fun _ _ => True
  := by
  rw [release, release]
  split
  · apply Punctual.pure trivial
  · apply (h.punctual_cleanup context hv).bind
    intro _ later _
    split
    · apply Punctual.pure trivial
    · apply punctual_unlockFor_bind
      apply Punctual.pure trivial

theorem punctual_releaseAll (context : RequestContext) {vs : List Variable}
    (hvs : ∀ v ∈ vs, a.HasUpToDate log v) :
  a.Punctual source log (a.releaseAll context vs) (a.followed.releaseAll context vs)
    fun _ _ => True
  := by
  induction vs generalizing log with
  | nil => apply Punctual.pure trivial
  | cons v rest ih =>
      rw [List.forall_mem_cons] at hvs
      apply (h.punctual_release context hvs.1).bind
      intro v' later _
      apply (ih fun w hw => (hvs.2 w hw).append later).bind
      intro rest' later' _
      apply Punctual.pure trivial

include hrule in
theorem punctual_write {r : Request} (hr : ∀ v ∈ r.vars, a.HasUpToDate log v) :
  a.Punctual r.context.transaction log (a.write r) (a.followed.write r) fun _ _ => True
  := by
  apply (h.punctual_prepareAll hrule r.context true
    fun v hv => hr v (Array.mem_toList_iff.mp hv)).bind
  rintro ⟨prepared, vs⟩ later hvs
  apply (h.punctual_settle r.context prepared hvs).bind
  rintro ⟨committed, vs'⟩ later' hvs'
  have hreleased : ∀ log vs, (∀ v ∈ vs, a.HasUpToDate log v) →
      a.Punctual r.context.transaction log
        (a.releaseAll r.context vs >>= fun vs => pure { r with vars := vs.toArray })
        (a.followed.releaseAll r.context vs >>= fun vs => pure { r with vars := vs.toArray })
        fun _ _ => True := by
    intro log vs hvs
    apply (h.punctual_releaseAll r.context hvs).bind
    intro released later _
    apply Punctual.pure trivial
  dsimp only
  split
  · apply hreleased _ _ hvs'
  · apply (h.punctual_undoAll r.context hvs').bind
    intro vs'' later'' hvs''
    apply hreleased _ _ hvs''

include hrule in
theorem punctual_perform {r : Request} (hr : ∀ v ∈ r.vars, a.HasUpToDate log v) :
  a.Punctual r.context.transaction log (a.perform r) (a.followed.perform r) fun _ _ => True
  := by
  rw [perform, perform]
  split
  · apply h.punctual_write hrule hr
  · apply h.punctual_readFrom hrule

end SparesSources

end Agent

/-! ### Requests -/

/-- No object was last looked for on behalf of the request with a given number. -/
def AgentState.IsNewTo (s : AgentState σ) (source : Nat) : Prop :=
  ∀ object, s.registry.lastSource.get? object ≠ some source

/-- A search has another source than the request with a given number, and its test leaves the
sources alone. -/
structure Search.IsForeignTo (search : Search (AgentM σ) ObjectId) (source : Nat) : Prop where
  query : search.query.source ≠ some source
  test : ∀ test, search.filter = some test → ∀ object, (test object).SparesSources

theorem AgentM.SparesSources.keeps_isNewTo {m : AgentM σ α} (h : m.SparesSources) (source : Nat) :
  Keeps (·.IsNewTo source) m
  := by
  constructor
  intro s hs
  rw [AgentState.IsNewTo, (h _).keeps s rfl]
  apply hs

/-- A query of anybody else is not taken for one of the request. -/
theorem RefreshRule.keeps_onSourceChange {query : Query} {source : Nat}
    (hquery : query.source ≠ some source) (object : ObjectId) :
  Keeps (σ := σ) (·.IsNewTo source) (onSourceChange object query)
  := by
  rw [onSourceChange]
  cases hother : query.source with
  | none => apply Keeps.pure
  | some other =>
      apply Keeps.bind Keeps.registry
      intro registry
      apply Keeps.bind _ fun _ => Keeps.pure _
      constructor
      intro s hs object'
      change (s.registry.lastSource.insert object other).get? object' ≠ some source
      rw [OrderedMap.get?_insert]
      split
      · rw [← hother]
        apply hquery
      · apply hs

namespace Agent

variable {a : Agent σ}

/-- The state after lookups, each of which may be restricted to the context of its query. -/
def afterLookups (a : Agent σ) (lookups : List (Search (AgentM σ) ObjectId × Bool))
    (s : AgentState σ) : AgentState σ :=
  lookups.foldl (fun s l => ((a.lookup l.1 l.2).run s).2) s

namespace SparesSources

variable (h : a.SparesSources) (hrule : a.refreshRule = some .onSourceChange) {source : Nat}
include h hrule

theorem upholdsScan {search : Search (AgentM σ) ObjectId} (hsearch : search.IsForeignTo source) :
  a.UpholdsScan search (·.IsNewTo source)
  where
  considered l entry := (h.considered l entry search.query).keeps_isNewTo source
  found l entry := (h.found l entry search.query).keeps_isNewTo source
  refresh object := by
    rw [Agent.refresh, hrule]
    cases hupdate : (a.object object).refresh with
    | none => apply Keeps.pure
    | some update =>
        apply Keeps.bind (RefreshRule.keeps_onSourceChange hsearch.query object)
        intro needed
        split
        · apply (h.refresh object update hupdate search.query).keeps_isNewTo
        · apply Keeps.pure
  test test htest object := (hsearch.test test htest object).keeps_isNewTo source

theorem isNewTo_afterLookups {lookups : List (Search (AgentM σ) ObjectId × Bool)}
    (hlookups : ∀ l ∈ lookups, l.1.IsForeignTo source) {s : AgentState σ} (hs : s.IsNewTo source) :
  (a.afterLookups lookups s).IsNewTo source
  := by
  induction lookups generalizing s with
  | nil => apply hs
  | cons l rest ih =>
      rw [List.forall_mem_cons] at hlookups
      apply ih hlookups.2
      apply ((h.upholdsScan hrule hlookups.1).keeps_lookup l.2).keeps s hs

end SparesSources

end Agent

theorem Request.target_create (context : RequestContext) (transaction : Nat) (pdu : Pdu)
    (maxSize : Nat) :
  ∀ v ∈ (create context transaction pdu maxSize).vars, v.target = none
  := by
  intro v hv
  obtain ⟨i, hi, rfl⟩ := List.mem_mapIdx.mp (List.mem_toArray.mp hv)
  rfl

namespace Agent

/-- Whatever was looked up before for others: with the rule that refreshes an object when the source
of a query changes, carrying out a request refreshes no object twice, and each object that can be
refreshed is so before it is called for the request, however the request comes to it. -/
theorem perform_refreshes_once (a : Agent σ) (h : a.SparesSources)
    (hrule : a.refreshRule = some .onSourceChange) (context : RequestContext) (transaction : Nat)
    (pdu : Pdu) (maxSize : Nat) (s : AgentState σ) (hs : s.IsNewTo transaction)
    (earlier : List (Search (AgentM σ) ObjectId × Bool))
    (hearlier : ∀ l ∈ earlier, l.1.IsForeignTo transaction) :
  let r := Request.create context transaction pdu maxSize
  ∃ done t deeds,
    Runs (a.perform r) (a.followed.perform r) (a.afterLookups earlier s) done t deeds
      ∧ a.IsTimely deeds
  := by
  intro r
  have hnew := h.isNewTo_afterLookups hrule hearlier hs
  have haccounts : a.Accounts transaction [] (a.afterLookups earlier s) := by
    use isTimely_nil
    intro object
    apply iff_of_false (hnew object)
    rintro ⟨_, hnil⟩
    cases hnil
  have hr : ∀ v ∈ r.vars, a.HasUpToDate [] v := by
    intro v hv entry htarget
    rw [Request.target_create context transaction pdu maxSize v hv] at htarget
    cases htarget
  obtain ⟨done, t, deeds, hruns, haccounts', -⟩ := (h.punctual_perform hrule hr).run _ haccounts
  exact ⟨done, t, deeds, hruns, haccounts'.timely⟩

end Agent

namespace Keepers

theorem sparesSources_writable (verdicts : Verdicts) (object : ObjectId) :
  (writable verdicts object).SparesSources
  where
  validate _ _ _ := Keeps.pure _
  apply context b stored _ := keeps_apply (fun _ _ hs => hs) verdicts object context b stored
  commit _ _ _ := Keeps.pure _
  undo context b stored _ := keeps_undo (fun _ _ hs => hs) verdicts object context b stored
  cleanup _ _ _ := Keeps.pure _

theorem sparesSources_refreshing :
  refreshing.SparesSources
  where
  access _ _ := Keeps.pure _
  considered _ _ _ _ := Keeps.pure _
  found _ _ _ _ := Keeps.pure _
  refresh := by
    rintro object update ⟨⟩ query sources
    apply Keeps.pure
  wait _ _ _ _ := Keeps.pure _
  get _ _ _ _ := ⟨fun _ hs => hs⟩
  next _ _ _ _ := Keeps.pure _
  writable := by
    rintro object w ⟨⟩
    apply sparesSources_writable

end Keepers

/-- The pair is written after a lookup for someone else. The first keeper is refreshed before it is
called eight times, and not again for the second instance. -/
theorem Agent.pair_refreshes_once :
  let earlier : List (Search (AgentM Contents) ObjectId × Bool) :=
    [({ query := { window := ⟨none, .subtree ⟨[1]⟩⟩, source := some 9 } }, false)]
  let s := Keepers.refreshing.afterLookups earlier Keepers.ready
  let r := Request.create Keepers.requester 1 Keepers.pair 484
  ∃ done t deeds, Runs (Keepers.refreshing.perform r) (Keepers.refreshing.followed.perform r) s
      done t deeds
    ∧ Keepers.refreshing.IsTimely deeds ∧ WasUpdated (deeds.take 2) 1
    ∧ (deeds.drop 2).length = 9
  := by
  intro earlier s r
  have hs : Keepers.ready.IsNewTo 1 := by
    have hempty : Keepers.ready.registry.lastSource = .empty := rfl
    intro object
    rw [hempty]
    nofun
  have hearlier : ∀ l ∈ earlier, l.1.IsForeignTo 1 := by
    rw [List.forall_mem_singleton]
    constructor
    · decide
    · nofun
  obtain ⟨done, t, deeds, hruns, htimely⟩ := perform_refreshes_once Keepers.refreshing
    Keepers.sparesSources_refreshing rfl Keepers.requester 1 Keepers.pair 484 Keepers.ready hs
    earlier hearlier
  let query : Query :=
    { window := ⟨none, .exact (Keepers.instanceOf 1)⟩, forWrite := true, source := some 1 }
  let log := ((Keepers.refreshing.followed.perform r).run (s.logged [])).2.surroundings.log
  have hfirst : log.take 2 = [.consulted 1 query true, .updated 1 query] := by decide +kernel
  have hrest : (log.drop 2).length = 9 := by decide +kernel
  have hlog : log = deeds := by
    change ((Keepers.refreshing.followed.perform r).run (s.logged [])).2.surroundings.log = deeds
    rw [hruns.logged]
    rfl
  rw [hlog] at hfirst hrest
  refine ⟨done, t, deeds, hruns, htimely, ⟨query, ?_⟩, hrest⟩
  rw [hfirst]
  apply List.mem_cons_of_mem _ List.mem_cons_self

end MibAgent
