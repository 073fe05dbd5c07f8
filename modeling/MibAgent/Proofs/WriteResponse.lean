import Mathlib.Data.List.Basic
import Mathlib.Data.List.Find
import MibAgent.Proofs.WritePhases

/-!
# The response to a write

What a requester learns from the response to a write about the calls that were made: whether the
new values are in place, and whether what had been taken on was undone.
-/

namespace MibAgent

variable {σ ε : Type}

/-! ### The statuses of variables -/

/-- The status with which the preparation ended. -/
def Fate.status : Fate → Status
  | refused _ status => status
  | invalid _ result | unapplied _ result _ => result.toStatus
  | valid _ | applied _ _ => .noError

/-- The status of the variable in the end. -/
def Story.status (story : Story) : Status :=
  if story.undo.any (!·.isOk) then .undoFailed
  else if story.commit.any (!·.isOk) then .commitFailed
  else story.fate.status

theorem WriteResult.isError_toStatus {result : WriteResult} (h : result ≠ .ok) :
  result.toStatus.isError
  := by
  cases result with
  | ok => contradiction
  | _ => rfl

theorem Status.isError_toLegacy (status : Status) :
  status.toLegacy.isError = status.isError
  := by
  cases status with
  | _ => rfl

/-- The preparation ends with an error if the variable failed. -/
theorem Agent.Meets.isError_status {a : Agent σ} {context : RequestContext} {healthy : Bool}
    {v : Variable} {s t : AgentState σ} {fate : Fate} (h : a.Meets context healthy v s fate t) :
  fate.status.isError = fate.isFailure
  := by
  cases h with
  | refused refused =>
      cases refused with
      | _ => rfl
  | invalid _ _ failed | unapplied _ _ _ _ failed => apply WriteResult.isError_toStatus failed
  | valid _ _ _ | applied _ _ _ _ => rfl

theorem Preparation.prepared_status {p : Preparation} (h : p.asked.IsFresh)
    (context : RequestContext) :
  (p.prepared context).status = p.fate.status
  := by
  obtain ⟨v, fate⟩ := p
  cases fate with
  | refused target _ => cases target <;> rfl
  | valid _ | applied _ _ => apply h.status
  | _ => rfl

theorem Settlement.committed_status (p : Settlement) (context : RequestContext) :
  (p.committed context).status
    = if p.commit.any (!·.isOk) then .commitFailed else (p.prepared context).status
  := by
  rw [committed]
  cases p.commit with
  | none => rfl
  | some result => cases h : result.isOk <;> simp [h, Variable.complete, Variable.fail]

namespace Story

theorem undone_status (story : Story) (context : RequestContext) :
  (story.undone context).status
    = if story.undo.any (!·.isOk) then .undoFailed else (story.committed context).status
  := by
  rw [undone]
  cases story.undo with
  | none => rfl
  | some result => cases h : result.isOk <;> simp [h, Variable.fail]

theorem released_status {story : Story} (h : story.asked.IsFresh) (context : RequestContext) :
  (story.released context).status = story.status
  := by
  rw [status, ← Preparation.prepared_status h context, ← story.committed_status context]
  apply undone_status

theorem released_binding (story : Story) (context : RequestContext) :
  (story.released context).binding = story.asked.binding
  := story.undone_binding context

end Story

/-! ### The status of the response -/

namespace Pdu

/-- Whether a response that repeats the bindings fits into a size. -/
def fits (pdu : Pdu) (maxSize : Nat) : Bool :=
  Size.response pdu.requestId.toInt 0 0 pdu.bindings ≤ maxSize

/-- Whether a binding has an exceptional value, in a version of the protocol that has none. -/
def isExceptional (pdu : Pdu) (version : Version) : Bool :=
  version.isLegacy && pdu.bindings.any (·.isException)

/-- The status of the response when variables of an operation that sets them have gone through a
write. -/
def statusAfter (pdu : Pdu) (version : Version) (maxSize : Nat) (stories : List Story) : Status :=
  if pdu.isExceptional version then .noSuchName
  else
    match stories.find? (·.status.isError) with
    | some story => if version.isLegacy then story.status.toLegacy else story.status
    | none => if pdu.fits maxSize then .noError else .tooBig

variable {pdu : Pdu} {version : Version} {maxSize : Nat} {stories : List Story}

theorem statusAfter_of_no_error (h : stories.find? (·.status.isError) = none) :
  pdu.statusAfter version maxSize stories
    = if pdu.isExceptional version then .noSuchName
      else if pdu.fits maxSize then .noError else .tooBig
  := by
  rw [statusAfter, h]

theorem statusAfter_of_error {story : Story}
    (h : stories.find? (·.status.isError) = some story) (hversion : version.isLegacy = false) :
  pdu.statusAfter version maxSize stories = story.status
  := by
  rw [statusAfter, isExceptional, hversion, h]
  rfl

theorem statusAfter_eq_noError_iff :
  pdu.statusAfter version maxSize stories = .noError
    ↔ stories.find? (·.status.isError) = none
      ∧ pdu.fits maxSize ∧ pdu.isExceptional version = false
  := by
  cases hfind : stories.find? (·.status.isError) with
  | none =>
      rw [statusAfter_of_no_error hfind]
      cases pdu.isExceptional version with
      | true => simp
      | false => simp
  | some story =>
      have herror := List.find?_some hfind
      rw [statusAfter, hfind]
      constructor
      · intro hstatus
        split at hstatus
        · cases hstatus
        · dsimp only at hstatus
          split at hstatus
          · rw [← Status.isError_toLegacy, hstatus] at herror
            cases herror
          · rw [hstatus] at herror
            cases herror
      · rintro ⟨hnone, _⟩
        cases hnone

end Pdu

namespace Request

theorem binding_askedFor_set (bindings : List Binding) :
  (bindings.mapIdx (askedFor .set)).map (·.binding) = bindings
  := by
  apply List.ext_getElem
  · simp
  · intro i _ _
    simp [askedFor, Operation.isWrite]

theorem isFresh_of_asked {bindings : List Binding} {stories : List Story}
    (hasked : stories.map (·.asked) = bindings.mapIdx (askedFor .set)) :
  ∀ story ∈ stories, story.asked.IsFresh
  := by
  rw [← List.forall_mem_map, hasked]
  apply isFresh_askedFor

variable (context : RequestContext) (transaction : Nat) {pdu : Pdu} (maxSize : Nat)
variable {stories : List Story} (hset : pdu.operation = .set)
variable (hasked : stories.map (·.asked) = pdu.bindings.mapIdx (askedFor .set))

include hasked in
theorem bindings_written :
  ((create context transaction pdu maxSize).written stories).bindings = pdu.bindings
  := by
  rw [bindings, written, List.map_map, ← binding_askedFor_set pdu.bindings, ← hasked, List.map_map]
  apply List.map_congr_left
  intro story _
  apply story.released_binding

include hset hasked in
theorem fittingBindings_written :
  ((create context transaction pdu maxSize).written stories).fittingBindings = pdu.bindings
  := by
  have hoperation : ((create context transaction pdu maxSize).written stories).operation = .set :=
    operation_create_set context transaction maxSize hset
  rw [fittingBindings, hoperation, if_neg nofun]
  apply bindings_written context transaction maxSize hasked

include hasked in
theorem firstError?_written :
  ((create context transaction pdu maxSize).written stories).firstError?
    = (stories.find? (·.status.isError)).map
        (·.released (create context transaction pdu maxSize).context)
  := by
  have hfresh := isFresh_of_asked hasked
  have hstatus : ∀ story ∈ stories,
      (story.released (create context transaction pdu maxSize).context).hasError
        = story.status.isError := by
    intro story hstory
    rw [Variable.hasError, Story.released_status (hfresh story hstory)]
  rw [firstError?, written, List.find?_toArray, List.find?_map, ← List.find?_congr hstatus]
  rfl

include hasked in
theorem status_written_eq_noError_iff :
  ((create context transaction pdu maxSize).written stories).status = .noError
    ↔ stories.find? (·.status.isError) = none
  := by
  have hfresh := isFresh_of_asked hasked
  rw [status, firstError?_written context transaction maxSize hasked]
  cases hfind : stories.find? (·.status.isError) with
  | none => simp
  | some story =>
      have herror := List.find?_some hfind
      have hstory := List.mem_of_find?_eq_some hfind
      rw [Option.map_some, Option.map_some, Option.getD_some,
        Story.released_status (hfresh story hstory)]
      constructor
      · intro hnone
        rw [hnone] at herror
        cases herror
      · nofun

include hasked in
theorem isSome_firstException?_written :
  ((create context transaction pdu maxSize).written stories).firstException?.isSome
    = pdu.bindings.any (·.isException)
  := by
  rw [firstException?, Array.findIdx?_isSome, ← bindings_written context transaction maxSize hasked,
    bindings, List.any_map, Array.any_toList]
  rfl

include hset hasked in
theorem plainResponse_written :
  ((create context transaction pdu maxSize).written stories).plainResponse.status
    = match stories.find? (·.status.isError) with
      | some story =>
        if context.version.isLegacy then story.status.toLegacy else story.status
      | none => if pdu.fits maxSize then .noError else .tooBig
  := by
  have hfresh := isFresh_of_asked hasked
  rw [plainResponse, firstError?_written context transaction maxSize hasked]
  cases hfind : stories.find? (·.status.isError) with
  | some story =>
      have hstory := List.mem_of_find?_eq_some hfind
      rw [Option.map_some]
      dsimp only [failureResponse]
      rw [Story.released_status (hfresh story hstory)]
      rfl
  | none =>
      rw [Option.map_none, fittingBindings_written context transaction maxSize hset hasked]
      change (if pdu.fits maxSize then _ else _ : Response).status = _
      split <;> rfl

include hset hasked in
/-- The status of a response to a request that sets variables is found in their stories. -/
theorem response_written :
  ((create context transaction pdu maxSize).written stories).response.status
    = pdu.statusAfter context.version maxSize stories
  := by
  have hplain := plainResponse_written context transaction maxSize hset hasked
  have hexception := isSome_firstException?_written context transaction maxSize hasked
  have hcontext : ((create context transaction pdu maxSize).written stories).context.version
      = context.version := rfl
  rw [response, Pdu.statusAfter, Pdu.isExceptional, hcontext, ← hexception]
  cases hversion : context.version.isLegacy with
  | true =>
      cases ((create context transaction pdu maxSize).written stories).firstException? with
      | some position => rfl
      | none =>
          rw [hversion] at hplain
          apply hplain
  | false =>
      rw [hversion] at hplain
      apply hplain

end Request

/-! ### Processing -/

namespace Agent

variable (a : Agent σ)

theorem unnoted_start (note : AgentState σ → Call → ε) (principal : Octets) (requestId : Int32) :
  Unnoted (a.start principal requestId) ((a.observed note).start principal requestId)
  := Unnoted.of_run fun _ _ => rfl

theorem unnoted_openRequest (context : RequestContext) (pdu : Pdu) (maxSize : Nat) :
  Unnoted (σ := σ) (ε := ε) (openRequest context pdu maxSize) (openRequest context pdu maxSize)
  := Unnoted.of_run fun _ _ => rfl

theorem unnoted_finish (principal : Octets) (requestId : Int32) :
  Unnoted (σ := σ) (ε := ε) (finish principal requestId) (finish principal requestId)
  := Unnoted.of_run fun _ _ => rfl

/-- Answers an operation that is not refused outright. -/
def answer (context : RequestContext) (pdu : Pdu) (maxSize : Nat) :
    AgentM σ (Except Failure Response) := do
  if ← a.start context.principal pdu.requestId then
    let request ← openRequest context pdu maxSize
    let request ← a.perform request
    finish context.principal pdu.requestId
    return .ok request.response
  else return .error (.duplicateRequest pdu.requestId)

/-- An operation is refused outright, which leaves everything as it was, or answered. -/
theorem process_runs (context : RequestContext) (pdu : Pdu) (maxSize : Nat) (s : AgentState σ) :
  (∃ failure, Runs (a.process context pdu maxSize) (a.recorded.process context pdu maxSize) s
      (.error failure) s [])
    ∨ ∀ x t calls, Runs (a.answer context pdu maxSize) (a.recorded.answer context pdu maxSize) s
        x t calls →
      Runs (a.process context pdu maxSize) (a.recorded.process context pdu maxSize) s x t calls
  := by
  have hconfig : a.recorded.config = a.config := rfl
  by_cases hbindings : a.config.maxBindings < pdu.bindings.length
  · left
    use .tooManyBindings pdu.bindings.length a.config.maxBindings
    apply Runs.unnoted_bind Unnoted.registry rfl
    rw [hconfig, if_pos hbindings, if_pos hbindings]
    apply Runs.pure
  · cases hcontext : s.registry.supports context.context with
    | false =>
        left
        use .unknownContext (context.context.getD [])
        apply Runs.unnoted_bind Unnoted.registry rfl
        rw [hconfig, if_neg hbindings, if_neg hbindings, hcontext]
        apply Runs.pure
    | true =>
        right
        intro x t calls hanswer
        apply Runs.unnoted_bind Unnoted.registry rfl
        rw [hconfig, if_neg hbindings, if_neg hbindings, hcontext]
        apply hanswer

/-- A request to set variables is refused without a call, or carried out by a write. -/
theorem process_set_runs (context : RequestContext) {pdu : Pdu} (maxSize : Nat)
    (hset : pdu.operation = .set) (s : AgentState σ) :
  (∃ failure t, Runs (a.process context pdu maxSize) (a.recorded.process context pdu maxSize) s
      (.error failure) t [])
    ∨ ∃ (stories : List Story) (transaction : Nat) (s₁ t : AgentState σ),
        stories.map (·.asked) = pdu.bindings.mapIdx (Request.askedFor .set)
          ∧ a.Writes (Request.create context transaction pdu maxSize).context s₁ stories
          ∧ Runs (a.process context pdu maxSize) (a.recorded.process context pdu maxSize) s
              (.ok ((Request.create context transaction pdu maxSize).written stories).response) t
              (Story.calls stories)
  := by
  rcases process_runs a context pdu maxSize s with ⟨failure, hrefused⟩ | hanswered
  · left
    exact ⟨failure, s, hrefused⟩
  · rcases hstart : (a.start context.principal pdu.requestId).run s with ⟨_ | _, s₁⟩
    · left
      use .duplicateRequest pdu.requestId, s₁
      apply hanswered
      apply Runs.unnoted_bind (unnoted_start a _ _ _) hstart
      apply Runs.pure
    · right
      rcases hopen : (openRequest context pdu maxSize).run s₁ with ⟨r, s₂⟩
      obtain rfl : Request.create context (s₁.lastTransaction + 1) pdu maxSize = r :=
        congrArg Prod.fst hopen
      obtain ⟨stories, s₃, hasked, hwrites, hruns⟩ := write_runs a _
        (Request.isFresh_create_set context (s₁.lastTransaction + 1) maxSize hset) s₂
      rcases hfinish : (finish context.principal pdu.requestId).run s₃ with ⟨_, t⟩
      use stories, s₁.lastTransaction + 1, s₂, t
      refine ⟨?_, hwrites, ?_⟩
      · rw [hasked, Request.vars_create_set context _ maxSize hset]
      · apply hanswered
        apply Runs.unnoted_bind (unnoted_start a _ _ _) hstart
        apply Runs.unnoted_bind (unnoted_openRequest context pdu maxSize) hopen
        rw [← List.append_nil (Story.calls stories),
          perform_create_set a context _ maxSize hset,
          perform_create_set a.recorded context _ maxSize hset]
        apply Runs.bind hruns
        apply Runs.unnoted_bind (unnoted_finish context.principal pdu.requestId) hfinish
        apply Runs.pure

/-- The calls made while an operation is processed. -/
def processCalls (context : RequestContext) (pdu : Pdu) (maxSize : Nat) (s : AgentState σ) :
    List Call :=
  ((a.recorded.process context pdu maxSize).run (s.logged [])).2.surroundings.log

/-- The response to a request that sets variables, and the calls made for it, are told by the
stories of the variables. -/
theorem exists_stories (context : RequestContext) {pdu : Pdu} (maxSize : Nat)
    (hset : pdu.operation = .set) (s : AgentState σ) {response : Response}
    (hresponse : ((a.process context pdu maxSize).run s).1 = .ok response) :
  ∃ (stories : List Story) (requestContext : RequestContext) (s₁ : AgentState σ),
    stories.map (·.asked.binding) = pdu.bindings
      ∧ a.Writes requestContext s₁ stories
      ∧ response.status = pdu.statusAfter context.version maxSize stories
      ∧ a.processCalls context pdu maxSize s = Story.calls stories
  := by
  rcases process_set_runs a context maxSize hset s with
    ⟨_, _, hruns⟩ | ⟨stories, transaction, s₁, t, hasked, hwrites, hruns⟩
  · rw [hruns.plain] at hresponse
    cases hresponse
  · rw [hruns.plain] at hresponse
    cases hresponse
    refine ⟨stories, _, s₁, ?_, hwrites, ?_, ?_⟩
    · rw [← Request.binding_askedFor_set pdu.bindings, ← hasked, List.map_map]
      rfl
    · apply Request.response_written context transaction maxSize hset hasked
    · rw [processCalls, hruns.logged]
      apply List.nil_append

end Agent

/-! ### What the calls tell -/

namespace Call

/-- The binding that an object took on. -/
def applied? : Call → Option Binding
  | apply _ b .ok _ => some b
  | _ => none

/-- The binding that an object was to commit, and the result. -/
def commit? : Call → Option (Binding × WriteResult)
  | commit _ b result => some (b, result)
  | _ => none

/-- The binding that an object was to undo, and the result. -/
def undo? : Call → Option (Binding × WriteResult)
  | undo _ b _ result => some (b, result)
  | _ => none

end Call

namespace Agent.Writes

variable {a : Agent σ} {context : RequestContext} {s : AgentState σ} {stories : List Story}
variable (h : a.Writes context s stories)
include h

theorem isApplied_of_commit {story : Story} (hstory : story ∈ stories)
    (hcommit : story.commit.isSome) :
  story.fate.isApplied
  := by
  by_cases hall : ∀ p ∈ stories.map (·.toSettlement), p.fate.isApplied
  · apply hall story.toSettlement (List.mem_map_of_mem hstory)
  · have hnone := h.settled.unasked hall story.toSettlement (List.mem_map_of_mem hstory)
    rw [hnone] at hcommit
    cases hcommit

theorem isApplied_of_undo {story : Story} (hstory : story ∈ stories)
    (hundo : story.undo.isSome) :
  story.fate.isApplied
  := ((h.undone story hstory).mp hundo).1

end Agent.Writes

section

variable {α : Type} (f : Call → Option α)

theorem Preparation.filterMap_calls_eq_nil
    (hvalidate : ∀ object b result, f (.validate object b result) = none)
    (happly : ∀ object b result stored, f (.apply object b result stored) = none)
    (p : Preparation) :
  p.calls.filterMap f = []
  := by
  obtain ⟨v, fate⟩ := p
  cases fate with
  | refused _ _ => rfl
  | _ => simp [calls, hvalidate, happly]

namespace Story

theorem commitCall?_bind_eq_none (hcommit : ∀ object b result, f (.commit object b result) = none)
    (story : Story) :
  story.commitCall?.bind f = none
  := by
  rw [Settlement.commitCall?]
  split
  · simp [hcommit]
  · rfl

theorem undoCall?_bind_eq_none
    (hundo : ∀ object b stored result, f (.undo object b stored result) = none) (story : Story) :
  story.undoCall?.bind f = none
  := by
  rw [undoCall?]
  split
  · simp [hundo]
  · rfl

theorem cleanupCall?_bind_eq_none (hcleanup : ∀ object b, f (.cleanup object b) = none)
    (story : Story) :
  story.cleanupCall?.bind f = none
  := by
  rw [cleanupCall?]
  split
  · simp [hcleanup]
  · rfl

theorem filterMap_calls (stories : List Story) :
  (calls stories).filterMap f
    = stories.flatMap (fun story => story.toPreparation.calls.filterMap f)
      ++ stories.filterMap (fun story => story.commitCall?.bind f)
      ++ (stories.filterMap (fun story => story.undoCall?.bind f)).reverse
      ++ stories.filterMap (fun story => story.cleanupCall?.bind f)
  := by
  simp only [calls, List.filterMap_append, List.filterMap_flatMap, List.filterMap_reverse,
    List.filterMap_filterMap]

end Story

end

namespace Story

/-- The bindings that objects were to commit, and the results. -/
def commits (stories : List Story) : List (Binding × WriteResult) :=
  stories.filterMap fun story => story.commit.map (story.asked.binding, ·)

/-- The bindings that objects were to undo, and the results, in the order of the variables. -/
def undos (stories : List Story) : List (Binding × WriteResult) :=
  stories.filterMap fun story => story.undo.map (story.asked.binding, ·)

theorem commits_calls {stories : List Story}
    (h : ∀ story ∈ stories, story.commit.isSome → story.fate.isApplied) :
  (calls stories).filterMap Call.commit? = commits stories
  := by
  have hprepare := Preparation.filterMap_calls_eq_nil Call.commit? (fun _ _ _ => rfl)
    fun _ _ _ _ => rfl
  have hundo := undoCall?_bind_eq_none Call.commit? fun _ _ _ _ => rfl
  have hcleanup := cleanupCall?_bind_eq_none Call.commit? fun _ _ => rfl
  have hcommit : ∀ story ∈ stories, story.commitCall?.bind Call.commit?
      = story.commit.map (story.asked.binding, ·) := by
    rintro ⟨⟨⟨v, fate⟩, commit⟩, undo⟩ hstory
    cases commit with
    | none => cases fate <;> rfl
    | some result =>
        obtain ⟨target, stored, rfl⟩ := Fate.eq_applied (h _ hstory rfl)
        rfl
  rw [filterMap_calls, List.filterMap_congr hcommit]
  simp [hprepare, hundo, hcleanup, commits]

theorem undos_calls {stories : List Story}
    (h : ∀ story ∈ stories, story.undo.isSome → story.fate.isApplied) :
  (calls stories).filterMap Call.undo? = (undos stories).reverse
  := by
  have hprepare := Preparation.filterMap_calls_eq_nil Call.undo? (fun _ _ _ => rfl)
    fun _ _ _ _ => rfl
  have hcommit := commitCall?_bind_eq_none Call.undo? fun _ _ _ => rfl
  have hcleanup := cleanupCall?_bind_eq_none Call.undo? fun _ _ => rfl
  have hundo : ∀ story ∈ stories, story.undoCall?.bind Call.undo?
      = story.undo.map (story.asked.binding, ·) := by
    rintro ⟨⟨⟨v, fate⟩, commit⟩, undo⟩ hstory
    cases undo with
    | none => cases fate <;> rfl
    | some result =>
        obtain ⟨target, stored, rfl⟩ := Fate.eq_applied (h _ hstory rfl)
        rfl
  rw [filterMap_calls, List.filterMap_congr hundo]
  simp [hprepare, hcommit, hcleanup, undos]

end Story

/-! ### Success -/

namespace Agent.Writes

variable {a : Agent σ} {context : RequestContext} {s : AgentState σ} {stories : List Story}
variable (h : a.Writes context s stories)
include h

/-- Where no variable failed, all objects took on their values and committed. -/
theorem committed_of_no_failure (hok : ∀ story ∈ stories, story.hasFailed = false) :
  ∀ story ∈ stories, story.fate.isApplied ∧ story.commit = some .ok ∧ story.undo = none
  := by
  obtain ⟨t, hmeet⟩ := h.prepared
  have hfate : ∀ story ∈ stories, story.fate.isFailure = false := by
    intro story hstory
    have hstory' := hok story hstory
    rw [Settlement.hasFailed, Bool.or_eq_false_iff] at hstory'
    apply hstory'.1
  have happlied := hmeet.isApplied (List.forall_mem_map.mpr hfate)
  rw [List.forall_mem_map] at happlied
  have hupto := h.settled.asked (List.forall_mem_map.mpr happlied)
  have hcommit := hupto.eq_ok (by
    intro r hr
    rw [List.map_map] at hr
    obtain ⟨story, hstory, rfl⟩ := List.mem_map.mp hr
    have hstory' := hok story hstory
    rw [Settlement.hasFailed, Bool.or_eq_false_iff] at hstory'
    apply hstory'.2)
  intro story hstory
  refine ⟨happlied story hstory, ?_, ?_⟩
  · apply hcommit
    rw [List.map_map]
    apply List.mem_map_of_mem hstory
  · rw [← Option.not_isSome_iff_eq_none, h.undone story hstory]
    rintro ⟨_, failed, hfailed, hfailed'⟩
    rw [hok failed hfailed] at hfailed'
    cases hfailed'

theorem isError_status {story : Story} (hstory : story ∈ stories) :
  story.status.isError = (story.undo.any (!·.isOk) || story.hasFailed)
  := by
  obtain ⟨t, hmeet⟩ := h.prepared
  obtain ⟨earlier, later, rfl⟩ := List.append_of_mem hstory
  rw [List.map_append, List.map_cons] at hmeet
  obtain ⟨_, _, _, hmeets⟩ := hmeet.meets
  rw [Story.status, Settlement.hasFailed, ← hmeets.isError_status]
  split
  · rename_i hundo
    rw [hundo]
    rfl
  · rename_i hundo
    rw [Bool.eq_false_of_not_eq_true hundo]
    split
    · rename_i hcommit
      rw [hcommit, Bool.or_true]
      rfl
    · rename_i hcommit
      rw [Bool.eq_false_of_not_eq_true hcommit, Bool.or_false, Bool.false_or]

/-- The status of some variable is an error if some variable failed. -/
theorem find?_eq_none_iff :
  stories.find? (·.status.isError) = none ↔ ∀ story ∈ stories, story.hasFailed = false
  := by
  rw [List.find?_eq_none]
  constructor
  · intro hnone story hstory
    have hstory' := hnone story hstory
    rw [h.isError_status hstory, Bool.not_eq_true, Bool.or_eq_false_iff] at hstory'
    apply hstory'.2
  · intro hok story hstory
    obtain ⟨_, _, hundo⟩ := h.committed_of_no_failure hok story hstory
    rw [h.isError_status hstory, hok story hstory, hundo]
    nofun

/-- All variables are committed with success if none failed. -/
theorem commits_iff :
  (Story.calls stories).filterMap Call.commit? = stories.map (·.asked.binding, .ok)
    ↔ ∀ story ∈ stories, story.hasFailed = false
  := by
  rw [Story.commits_calls fun _ => h.isApplied_of_commit]
  constructor
  · intro hcommits story hstory
    by_cases hall : ∀ p ∈ stories.map (·.toSettlement), p.fate.isApplied
    · have happlied := hall story.toSettlement (List.mem_map_of_mem hstory)
      rw [Settlement.hasFailed, Fate.isFailure_of_isApplied happlied, Bool.false_or]
      cases hcommit : story.commit with
      | none => rfl
      | some result =>
          have hmem : (story.asked.binding, result) ∈ Story.commits stories := by
            apply List.mem_filterMap.mpr
            use story, hstory
            rw [hcommit]
            rfl
          rw [hcommits] at hmem
          obtain ⟨_, _, heq⟩ := List.mem_map.mp hmem
          rw [← show .ok = result from congrArg Prod.snd heq]
          rfl
    · have hnone := List.forall_mem_map.mp (h.settled.unasked hall)
      have hnil : Story.commits stories = [] := by
        rw [Story.commits, List.filterMap_eq_nil_iff]
        intro other hother
        rw [hnone other hother]
        rfl
      rw [hnil, eq_comm, List.map_eq_nil_iff] at hcommits
      subst hcommits
      cases hstory
  · intro hok
    rw [Story.commits, ← List.filterMap_eq_map]
    apply List.filterMap_congr
    intro story hstory
    obtain ⟨_, hcommit, _⟩ := h.committed_of_no_failure hok story hstory
    rw [hcommit]
    rfl

end Agent.Writes

namespace Agent

/-- A request that sets variables is answered without an error exactly when all of them were
committed and none was undone, and the response can say so: it fits, and the version of the
protocol can carry the bindings. When all were committed, an error can only mean that it
cannot. -/
theorem set_noError_iff (a : Agent σ) (context : RequestContext) {pdu : Pdu} (maxSize : Nat)
    (hset : pdu.operation = .set) (s : AgentState σ) {response : Response}
    (hresponse : ((a.process context pdu maxSize).run s).1 = .ok response) :
  let commits := (a.processCalls context pdu maxSize s).filterMap Call.commit?
  let undos := (a.processCalls context pdu maxSize s).filterMap Call.undo?
  (response.status = .noError
    ↔ (commits = pdu.bindings.map (·, .ok) ∧ undos = [])
      ∧ pdu.fits maxSize ∧ pdu.isExceptional context.version = false)
    ∧ (commits = pdu.bindings.map (·, .ok) → undos = [] →
        response.status = if pdu.isExceptional context.version then .noSuchName
          else if pdu.fits maxSize then .noError else .tooBig)
  := by
  intro commits undos
  obtain ⟨stories, requestContext, s₁, hasked, hwrites, hstatus, hcalls⟩ :=
    exists_stories a context maxSize hset s hresponse
  have hcommits : commits = pdu.bindings.map (·, .ok)
      ↔ ∀ story ∈ stories, story.hasFailed = false := by
    rw [← hwrites.commits_iff, ← hasked, List.map_map, ← hcalls]
    rfl
  have hundos : (∀ story ∈ stories, story.hasFailed = false) → undos = [] := by
    intro hok
    have hundo : undos = (Story.calls stories).filterMap Call.undo? := by rw [← hcalls]
    rw [hundo, Story.undos_calls fun _ => hwrites.isApplied_of_undo, List.reverse_eq_nil_iff,
      Story.undos, List.filterMap_eq_nil_iff]
    intro story hstory
    rw [(hwrites.committed_of_no_failure hok story hstory).2.2]
    rfl
  rw [hstatus]
  constructor
  · rw [Pdu.statusAfter_eq_noError_iff, hwrites.find?_eq_none_iff, hcommits]
    constructor
    · rintro ⟨hok, hfits, hplain⟩
      exact ⟨⟨hok, hundos hok⟩, hfits, hplain⟩
    · rintro ⟨⟨hok, _⟩, hfits, hplain⟩
      exact ⟨hok, hfits, hplain⟩
  · intro hcommitted _
    apply Pdu.statusAfter_of_no_error
    rw [hwrites.find?_eq_none_iff, ← hcommits]
    apply hcommitted

/-- A pair that was set without an error was committed. -/
theorem pair_noError :
  let a := Keepers.agent {}
  let calls := a.processCalls Keepers.requester Keepers.pair 484 Keepers.ready
  ((a.process Keepers.requester Keepers.pair 484).run Keepers.ready).1
      = .ok ⟨1, .noError, 0, Keepers.pair.bindings⟩
    ∧ calls.filterMap Call.commit? = Keepers.pair.bindings.map (·, .ok)
    ∧ calls.filterMap Call.undo? = []
  := by
  intro a calls
  have hresponse : ((a.process Keepers.requester Keepers.pair 484).run Keepers.ready).1
      = .ok ⟨1, .noError, 0, Keepers.pair.bindings⟩ := by decide +kernel
  use hresponse
  apply ((set_noError_iff a Keepers.requester 484 rfl Keepers.ready hresponse).1.mp rfl).1

/-- A pair that was committed, and not undone, is answered with an error when the response is
too big. -/
theorem pair_tooBig :
  let a := Keepers.agent {}
  let calls := a.processCalls Keepers.requester Keepers.pair 20 Keepers.ready
  ((a.process Keepers.requester Keepers.pair 20).run Keepers.ready).1 = .ok ⟨1, .tooBig, 0, []⟩
    ∧ calls.filterMap Call.commit? = Keepers.pair.bindings.map (·, .ok)
    ∧ calls.filterMap Call.undo? = []
  := by
  decide +kernel

end Agent

end MibAgent
