import MibAgent.Proofs.WriteResponse

/-!
# Failed undoing

When undoing a variable fails, the object may be left with a value that should not be there. The
response to the write reports the first variable that failed, and that need not be the one that
could not be undone.
-/

namespace MibAgent

variable {σ : Type}

/-! ### The first failure -/

theorem Fate.isOffered_of_isApplied {fate : Fate} (h : fate.isApplied) :
  fate.isOffered
  := by
  cases fate with
  | applied _ _ => rfl
  | _ => cases h

/-- Objects that are asked in order up to the first that fails succeed before it, and are not
asked after it. -/
theorem UpToFailure.exists_failure {α : Type} {result : α → Option WriteResult} {xs : List α}
    (h : UpToFailure (xs.map result)) (hfailed : ∃ x ∈ xs, (result x).any (!·.isOk)) :
  ∃ before x after, xs = before ++ x :: after ∧ (∀ y ∈ before, result y = some .ok)
    ∧ (result x).any (!·.isOk) ∧ ∀ y ∈ after, result y = none
  := by
  induction xs with
  | nil =>
      obtain ⟨_, hx, _⟩ := hfailed
      cases hx
  | cons y rest ih =>
      rw [List.map_cons] at h
      cases hy : result y with
      | none =>
          rw [hy] at h
          cases h
      | some r =>
          rw [hy, UpToFailure] at h
          cases hr : r.isOk with
          | true =>
              rw [if_pos hr] at h
              have hrest : ∃ x ∈ rest, (result x).any (!·.isOk) := by
                obtain ⟨x, hx, hx'⟩ := hfailed
                rcases List.mem_cons.mp hx with rfl | hx
                · rw [hy, Option.any_some, hr] at hx'
                  cases hx'
                · use x, hx, hx'
              obtain ⟨before, x, after, rfl, hbefore, hx, hafter⟩ := ih h hrest
              use y :: before, x, after, rfl
              refine ⟨List.forall_mem_cons.mpr ⟨?_, hbefore⟩, hx, hafter⟩
              rw [hy, eq_of_beq hr]
          | false =>
              rw [hr, if_neg Bool.false_ne_true, List.forall_mem_map] at h
              use [], y, rest, rfl, List.forall_mem_nil _
              rw [hy, Option.any_some, hr]
              exact ⟨rfl, h⟩

theorem Story.status_of_undo {story : Story} (h : story.undo.any (!·.isOk)) :
  story.status = .undoFailed
  := by
  rw [status, if_pos h]

namespace Agent.Writes

variable {a : Agent σ} {context : RequestContext} {s : AgentState σ} {stories : List Story}
variable (h : a.Writes context s stories)
include h

/-- When a variable failed before the commits, a variable that could not be undone comes before
it. -/
theorem find?_of_unsettled {story : Story} (hstory : story ∈ stories)
    (hundo : story.undo.any (!·.isOk)) (hcommit : ∀ other ∈ stories, other.commit = none) :
  ∃ first, stories.find? (·.status.isError) = some first ∧ first.status = .undoFailed
  := by
  have herror : story.status.isError := by
    rw [Story.status_of_undo hundo]
    rfl
  obtain ⟨first, hfirst⟩ : ∃ first, stories.find? (·.status.isError) = some first := by
    rw [← Option.isSome_iff_exists, List.find?_isSome]
    use story
  use first, hfirst
  have hmem := List.mem_of_find?_eq_some hfirst
  obtain ⟨hfirst', earlier, later, rfl, hearlier⟩ := List.find?_eq_some_iff_append.mp hfirst
  by_cases hfailed : first.undo.any (!·.isOk)
  · apply Story.status_of_undo hfailed
  · -- otherwise the first variable failed when it was prepared, and no later one was taken on
    rw [h.isError_status hmem, Bool.eq_false_of_not_eq_true hfailed, Bool.false_or,
      Settlement.hasFailed, hcommit first hmem, Option.any_none, Bool.or_false] at hfirst'
    have happlied := h.isApplied_of_undo hstory (Option.isSome_of_any hundo)
    rcases List.mem_append.mp hstory with hstory | hstory
    · have hnone := hearlier story hstory
      rw [herror] at hnone
      cases hnone
    · rcases List.mem_cons.mp hstory with rfl | hstory
      · contradiction
      · obtain ⟨between, last, rfl⟩ := List.append_of_mem hstory
        have hoffered := (h.offered (earlier ++ first :: between) story last (by simp)).mp
          (Fate.isOffered_of_isApplied happlied)
        rw [hoffered.2 first (by simp)] at hfirst'
        cases hfirst'

/-- When a commit failed, the first variable that failed is the one whose commit failed, unless
it or one before it could not be undone. -/
theorem find?_of_failed_commit {before after : List Story} {story : Story}
    (hstories : stories = before ++ story :: after)
    (hbefore : ∀ other ∈ before, other.commit = some .ok)
    (hcommit : story.commit.any (!·.isOk)) :
  ∃ first, stories.find? (·.status.isError) = some first
    ∧ first.status
        = if ∀ other ∈ before ++ [story], other.undo.any (!·.isOk) = false then .commitFailed
          else .undoFailed
  := by
  subst hstories
  have hstory : story ∈ before ++ story :: after := by simp
  have hundone : ∀ other ∈ before, other.status.isError = other.undo.any (!·.isOk) := by
    intro other hother
    have hmem : other ∈ before ++ story :: after := List.mem_append_left _ hother
    have happlied := h.isApplied_of_commit hmem (by rw [hbefore other hother]; rfl)
    rw [h.isError_status hmem, Settlement.hasFailed, hbefore other hother,
      Fate.isFailure_of_isApplied happlied]
    apply Bool.or_false
  have herror : story.status.isError := by
    rw [h.isError_status hstory, Settlement.hasFailed, hcommit, Bool.or_true, Bool.or_true]
  cases hfind : before.find? (·.status.isError) with
  | some first =>
      use first
      rw [List.find?_append, hfind, Option.some_or]
      use rfl
      have hmem := List.mem_of_find?_eq_some hfind
      have hfirst := List.find?_some hfind
      rw [hundone first hmem] at hfirst
      rw [if_neg, Story.status_of_undo hfirst]
      intro hall
      rw [hall first (List.mem_append_left _ hmem)] at hfirst
      cases hfirst
  | none =>
      use story
      rw [List.find?_append, hfind, Option.none_or, List.find?_cons, herror]
      use rfl
      have hnone : ∀ other ∈ before, other.undo.any (!·.isOk) = false := by
        intro other hother
        rw [← hundone other hother]
        apply Bool.eq_false_of_not_eq_true
        apply List.find?_eq_none.mp hfind other hother
      cases hundo : story.undo.any (!·.isOk) with
      | true =>
          rw [if_neg, Story.status_of_undo hundo]
          intro hall
          rw [hall story (by simp)] at hundo
          cases hundo
      | false =>
          rw [if_pos, Story.status, hundo, if_neg Bool.false_ne_true, if_pos hcommit]
          rw [List.forall_mem_append, List.forall_mem_singleton]
          exact ⟨hnone, hundo⟩

end Agent.Writes

/-! ### What the response tells -/

namespace Story

theorem commits_length {before after : List Story} {story : Story}
    (hbefore : ∀ other ∈ before, other.commit = some .ok)
    (hcommit : story.commit.any (!·.isOk)) (hafter : ∀ other ∈ after, other.commit = none) :
  (commits (before ++ story :: after)).length = (before ++ [story]).length
  := by
  have hnil : commits after = [] := by
    rw [commits, List.filterMap_eq_nil_iff]
    intro other hother
    rw [hafter other hother]
    rfl
  have hsplit : commits (before ++ story :: after) = commits (before ++ [story]) := by
    rw [List.append_cons, commits, List.filterMap_append, ← commits, ← commits, hnil,
      List.append_nil]
  rw [hsplit, commits, List.filterMap_length_eq_length, List.forall_mem_append,
    List.forall_mem_singleton]
  constructor
  · intro other hother
    rw [hbefore other hother]
    rfl
  · rw [Option.isSome_map]
    apply Option.isSome_of_any hcommit

/-- Where all variables are undone, the first undos are those of the first variables. -/
theorem take_undos {before after : List Story} {story : Story}
    (hundone : ∀ other ∈ before ++ story :: after, other.undo.isSome) :
  (undos (before ++ story :: after)).take (before ++ [story]).length = undos (before ++ [story])
  := by
  rw [List.append_cons before story after] at hundone ⊢
  have hlength : (undos (before ++ [story])).length = (before ++ [story]).length := by
    rw [undos, List.filterMap_length_eq_length]
    intro other hother
    rw [Option.isSome_map]
    apply hundone other (List.mem_append_left _ hother)
  rw [undos, List.filterMap_append]
  apply List.take_left' hlength

theorem undos_ok_iff (stories : List Story) :
  (∀ u ∈ undos stories, u.2 = .ok) ↔ ∀ story ∈ stories, story.undo.any (!·.isOk) = false
  := by
  constructor
  · intro hok story hstory
    cases hundo : story.undo with
    | none => rfl
    | some result =>
        have hresult : result = .ok := by
          apply hok (story.asked.binding, result)
          apply List.mem_filterMap.mpr
          use story, hstory
          rw [hundo]
          rfl
        rw [hresult]
        rfl
  · intro hok u hu
    obtain ⟨story, hstory, hu'⟩ := List.mem_filterMap.mp hu
    obtain ⟨result, hundo, rfl⟩ := Option.map_eq_some_iff.mp hu'
    have hresult := hok story hstory
    rw [hundo, Option.any_some, Bool.not_eq_false'] at hresult
    apply eq_of_beq hresult

end Story

namespace Agent.Writes

variable {a : Agent σ} {context : RequestContext} {s : AgentState σ} {stories : List Story}
variable (h : a.Writes context s stories)
include h

/-- When all objects took on their values and some variable failed, the commits ended with one
that failed. -/
theorem exists_failed_commit (happlied : ∀ story ∈ stories, story.fate.isApplied)
    (hfailed : ∃ story ∈ stories, story.hasFailed) :
  ∃ before story after, stories = before ++ story :: after
    ∧ (∀ other ∈ before, other.commit = some .ok) ∧ story.commit.any (!·.isOk)
    ∧ ∀ other ∈ after, other.commit = none
  := by
  have hupto := h.settled.asked (List.forall_mem_map.mpr happlied)
  rw [List.map_map] at hupto
  apply hupto.exists_failure
  obtain ⟨failed, hmem, hfailed⟩ := hfailed
  rw [Settlement.hasFailed, Fate.isFailure_of_isApplied (happlied failed hmem)] at hfailed
  use failed, hmem, hfailed

/-- The first variable that failed when some variable could not be undone. -/
theorem find?_of_failed_undo (hundo : ∃ story ∈ stories, story.undo.any (!·.isOk)) :
  ∃ first, stories.find? (·.status.isError) = some first
    ∧ first.status
        = if Story.commits stories ≠ []
            ∧ ∀ u ∈ (Story.undos stories).take (Story.commits stories).length, u.2 = .ok
          then .commitFailed else .undoFailed
  := by
  obtain ⟨story, hstory, hundo'⟩ := hundo
  by_cases hall : ∀ p ∈ stories.map (·.toSettlement), p.fate.isApplied
  · have happlied := List.forall_mem_map.mp hall
    obtain ⟨_, hfailed⟩ := (h.undone story hstory).mp (Option.isSome_of_any hundo')
    have hundone : ∀ other ∈ stories, other.undo.isSome := by
      intro other hother
      rw [h.undone other hother]
      exact ⟨happlied other hother, hfailed⟩
    obtain ⟨before, failed, after, hstories, hbefore, hfailure, hafter⟩ :=
      h.exists_failed_commit happlied hfailed
    obtain ⟨first, hfirst, hstatus⟩ := h.find?_of_failed_commit hstories hbefore hfailure
    use first, hfirst
    subst hstories
    have hlength := Story.commits_length hbefore hfailure hafter
    have hne : Story.commits (before ++ failed :: after) ≠ [] := by
      rw [← List.length_pos_iff, hlength]
      simp
    simp only [hlength, Story.take_undos hundone, Story.undos_ok_iff, hstatus, ne_eq, hne,
      not_false_eq_true, true_and]
  · have hnone := List.forall_mem_map.mp (h.settled.unasked hall)
    have hnil : Story.commits stories = [] := by
      rw [Story.commits, List.filterMap_eq_nil_iff]
      intro other hother
      rw [hnone other hother]
      rfl
    rw [if_neg fun hcommits => hcommits.1 hnil]
    apply h.find?_of_unsettled hstory hundo' hnone

/-- An error that is not about the size tells that some variable failed. -/
theorem exists_hasFailed {pdu : Pdu} {version : Version} {maxSize : Nat}
    (hversion : version.isLegacy = false)
    (herror : pdu.statusAfter version maxSize stories ∉ [.noError, .tooBig]) :
  ∃ story ∈ stories, story.hasFailed
  := by
  apply Decidable.byContradiction
  intro hnot
  have hnone : ∀ story ∈ stories, story.hasFailed = false := by
    simpa using hnot
  rw [Pdu.statusAfter_of_no_error (h.find?_eq_none_iff.mpr hnone), Pdu.isExceptional,
    hversion] at herror
  cases hfits : pdu.fits maxSize with
  | true => simp [hfits] at herror
  | false => simp [hfits] at herror

end Agent.Writes

namespace Story

/-- The bindings that objects took on. -/
def applied (stories : List Story) : List Binding :=
  stories.filterMap fun story => if story.fate.isApplied then some story.asked.binding else none

end Story

theorem Agent.Meets.applied_calls {a : Agent σ} {context : RequestContext} {healthy : Bool}
    {v : Variable} {s t : AgentState σ} {fate : Fate} (h : a.Meets context healthy v s fate t) :
  (Preparation.calls ⟨v, fate⟩).filterMap Call.applied?
    = (if fate.isApplied then some v.binding else none).toList
  := by
  cases h with
  | @unapplied _ _ result _ _ _ _ _ _ _ _ failed =>
      cases result with
      | ok => contradiction
      | _ => rfl
  | _ => rfl

namespace Agent.Writes

variable {a : Agent σ} {context : RequestContext} {s : AgentState σ} {stories : List Story}
variable (h : a.Writes context s stories)
include h

theorem applied_calls :
  (Story.calls stories).filterMap Call.applied? = Story.applied stories
  := by
  have hprepare : ∀ story ∈ stories, story.toPreparation.calls.filterMap Call.applied?
      = (if story.fate.isApplied then some story.asked.binding else none).toList := by
    intro story hstory
    obtain ⟨t, hmeet⟩ := h.prepared
    obtain ⟨earlier, later, rfl⟩ := List.append_of_mem hstory
    rw [List.map_append, List.map_cons] at hmeet
    obtain ⟨_, _, _, hmeets⟩ := hmeet.meets
    apply hmeets.applied_calls
  have hcommit := Story.commitCall?_bind_eq_none Call.applied? fun _ _ _ => rfl
  have hundo := Story.undoCall?_bind_eq_none Call.applied? fun _ _ _ _ => rfl
  have hcleanup := Story.cleanupCall?_bind_eq_none Call.applied? fun _ _ => rfl
  rw [Story.filterMap_calls, List.flatMap_congr hprepare]
  simp [hcommit, hundo, hcleanup, Story.applied, List.filterMap_eq_flatMap_toList]

/-- When a variable failed, all that were taken on are undone. -/
theorem map_undos_eq (hfailed : ∃ story ∈ stories, story.hasFailed) :
  (Story.undos stories).map (·.1) = Story.applied stories
  := by
  rw [Story.undos, Story.applied, List.map_filterMap]
  apply List.filterMap_congr
  intro story hstory
  have hundone := h.undone story hstory
  cases hundo : story.undo with
  | none =>
      rw [if_neg fun happlied => by simpa [hundo] using hundone.mpr ⟨happlied, hfailed⟩]
      rfl
  | some result =>
      rw [hundo] at hundone
      rw [if_pos (hundone.mp rfl).1]
      rfl

end Agent.Writes

namespace Agent

/-- When a variable could not be undone, the response to a request of a newer version says
that undoing failed, unless a commit failed and the variables were undone up to the one whose
commit failed. An error that is not about the size tells that the variables that were taken on
were to be undone, and an error of any other kind that they were. -/
theorem failed_undo_status (a : Agent σ) (context : RequestContext) {pdu : Pdu} (maxSize : Nat)
    (hset : pdu.operation = .set) (hversion : context.version.isLegacy = false)
    (s : AgentState σ) {response : Response}
    (hresponse : ((a.process context pdu maxSize).run s).1 = .ok response) :
  let calls := a.processCalls context pdu maxSize s
  let commits := calls.filterMap Call.commit?
  let undos := calls.filterMap Call.undo?
  ((∃ u ∈ undos, u.2 ≠ .ok) →
      response.status
        = if commits ≠ [] ∧ ∀ u ∈ undos.reverse.take commits.length, u.2 = .ok then .commitFailed
          else .undoFailed)
    ∧ (response.status ∉ [.noError, .tooBig] →
        undos.map (·.1) = (calls.filterMap Call.applied?).reverse)
    ∧ (response.status ∉ [.noError, .tooBig, .commitFailed, .undoFailed] →
        ∀ u ∈ undos, u.2 = .ok)
  := by
  intro calls commits undos
  obtain ⟨stories, requestContext, s₁, hasked, hwrites, hstatus, hcalls⟩ :=
    exists_stories a context maxSize hset s hresponse
  have hcommits : commits = Story.commits stories := by
    rw [← Story.commits_calls fun _ => hwrites.isApplied_of_commit, ← hcalls]
  have hundos : undos = (Story.undos stories).reverse := by
    rw [← Story.undos_calls fun _ => hwrites.isApplied_of_undo, ← hcalls]
  have happlied : calls.filterMap Call.applied? = Story.applied stories := by
    rw [← hwrites.applied_calls, ← hcalls]
  have hundone : (∃ u ∈ undos, u.2 ≠ .ok) →
      response.status
        = if commits ≠ [] ∧ ∀ u ∈ undos.reverse.take commits.length, u.2 = .ok then .commitFailed
          else .undoFailed := by
    rintro ⟨u, hu, hbad⟩
    have hfailed : ∃ story ∈ stories, story.undo.any (!·.isOk) := by
      rw [hundos, List.mem_reverse] at hu
      have hnot := mt (Story.undos_ok_iff stories).mpr fun hall => hbad (hall u hu)
      simpa using hnot
    obtain ⟨first, hfirst, hstatus'⟩ := hwrites.find?_of_failed_undo hfailed
    rw [hstatus, Pdu.statusAfter_of_error hfirst hversion, hstatus', hundos, List.reverse_reverse,
      hcommits]
  refine ⟨hundone, ?_, ?_⟩
  · intro herror
    rw [hstatus] at herror
    rw [hundos, List.map_reverse, hwrites.map_undos_eq (hwrites.exists_hasFailed hversion herror), happlied]
  · intro hother u hu
    apply Decidable.byContradiction
    intro hbad
    have hstatus' := hundone ⟨u, hu, hbad⟩
    split at hstatus'
    · simp [hstatus'] at hother
    · simp [hstatus'] at hother

/-- A pair of which the first variable could neither be committed nor undone is answered with
the failed undoing, and one of which the second was found invalid was undone. -/
theorem pair_undoFailed :
  let a := Keepers.agent (Keepers.stubborn 1)
  let calls := a.processCalls Keepers.requester Keepers.pair 484 Keepers.ready
  let commits := calls.filterMap Call.commit?
  let undos := calls.filterMap Call.undo?
  let a' := Keepers.agent Keepers.choosy
  let calls' := a'.processCalls Keepers.requester Keepers.pair 484 Keepers.ready
  (((a.process Keepers.requester Keepers.pair 484).run Keepers.ready).1
        = .ok ⟨1, .undoFailed, 1, Keepers.pair.bindings⟩
      ∧ (∃ u ∈ undos, u.2 ≠ .ok)
      ∧ .undoFailed
        = if commits ≠ [] ∧ ∀ u ∈ undos.reverse.take commits.length, u.2 = .ok
          then Status.commitFailed else .undoFailed)
    ∧ ((a'.process Keepers.requester Keepers.pair 484).run Keepers.ready).1
        = .ok ⟨1, .wrongValue, 2, Keepers.pair.bindings⟩
      ∧ (calls'.filterMap Call.undo?).map (·.1) = (calls'.filterMap Call.applied?).reverse
      ∧ ∀ u ∈ calls'.filterMap Call.undo?, u.2 = .ok
  := by
  intro a calls commits undos a' calls'
  have hresponse : ((a.process Keepers.requester Keepers.pair 484).run Keepers.ready).1
      = .ok ⟨1, .undoFailed, 1, Keepers.pair.bindings⟩ := by decide +kernel
  have hundo : ∃ u ∈ undos, u.2 ≠ .ok := by decide +kernel
  have hresponse' : ((a'.process Keepers.requester Keepers.pair 484).run Keepers.ready).1
      = .ok ⟨1, .wrongValue, 2, Keepers.pair.bindings⟩ := by decide +kernel
  constructor
  · use hresponse, hundo
    apply (failed_undo_status a Keepers.requester 484 rfl rfl Keepers.ready hresponse).1 hundo
  · obtain ⟨_, hundone, hok⟩ :=
      failed_undo_status a' Keepers.requester 484 rfl rfl Keepers.ready hresponse'
    exact ⟨hresponse', hundone (by decide), hok (by decide)⟩

/-- A pair of which the first variable could not be committed and the second could not be undone
is answered with the failed commit. -/
theorem pair_commitFailed :
  let a := Keepers.agent (Keepers.stubborn 2)
  let calls := a.processCalls Keepers.requester Keepers.pair 484 Keepers.ready
  ((a.process Keepers.requester Keepers.pair 484).run Keepers.ready).1
      = .ok ⟨1, .commitFailed, 1, Keepers.pair.bindings⟩
    ∧ ∃ u ∈ calls.filterMap Call.undo?, u.2 ≠ .ok
  := by
  decide +kernel

end Agent

end MibAgent
